import KDebugger.Process.Stoppoints

namespace KDebugger.Process

open Exec

/-- The second process is the first but for register files and kernel registers. -/
def SameButRegisters (s s' : Process) : Prop :=
  s' = { s with threads := s'.threads, user := s'.user }

theorem SameButRegisters.trans {s₁ s₂ s₃ : Process} (h : SameButRegisters s₁ s₂)
    (h' : SameButRegisters s₂ s₃) : SameButRegisters s₁ s₃ := by
  unfold SameButRegisters at h h' ⊢
  rw [h', h]

theorem SameButRegisters.sites {s s' : Process} (h : SameButRegisters s s') :
    s'.breakpointSites = s.breakpointSites := by rw [h]

theorem SameButRegisters.points {s s' : Process} (h : SameButRegisters s s') :
    s'.watchpoints = s.watchpoints := by rw [h]

theorem SameButRegisters.pid {s s' : Process} (h : SameButRegisters s s') : s'.pid = s.pid := by
  rw [h]

theorem SameButRegisters.memory {s s' : Process} (h : SameButRegisters s s') :
    s'.memory = s.memory := by rw [h]

/-- A thread without its registers. -/
def status (th : ThreadState) : Tid × StopReason × ProcessState × Bool :=
  (th.tid, th.reason, th.state, th.pendingSigstop)

def statuses (s : Process) : List (Tid × StopReason × ProcessState × Bool) :=
  s.threads.entries.map status

/-- What writing registers can do: threads stay but for their registers, and the kernel
sees only the leader. -/
structure RegistersOnly (s s' : Process) : Prop where
  same : SameButRegisters s s'
  statuses : s'.statuses = s.statuses
  others : ∀ t, t ≠ s.pid → s'.user t = s.user t

theorem registersOnly : Frame RegistersOnly where
  refl _ := ⟨rfl, rfl, fun _ _ => rfl⟩
  trans h h' := by
    refine ⟨h.same.trans h'.same, h'.statuses.trans h.statuses, fun t ht => ?_⟩
    rw [h'.others t (by rwa [h.same.pid]), h.others t ht]

theorem tids_eq_of_statuses {s s' : Process} (h : s'.statuses = s.statuses) :
    s'.threads.tids = s.threads.tids := by
  have hmap := congrArg (List.map Prod.fst) h
  simp only [Process.statuses, List.map_map] at hmap
  exact hmap

theorem pokeRegisters_leader (part : UserPart) (data : UserArea) (s : Process) :
    RegistersOnly s (after (pokeRegisters s.pid part data) s) := by
  unfold pokeRegisters
  rw [after_bind_ok (get_eq s)]
  cases s.kernel.write part data (s.user s.pid) with
  | none => exact registersOnly.refl s
  | some u => exact ⟨rfl, rfl, fun _ ht => setUser_user_of_ne ht u⟩

theorem within_writeUserArea (offset : ℕ) (data : BitVec 64) (otid : Option Tid) :
    Within RegistersOnly (writeUserArea offset data otid) := by
  intro s
  change RegistersOnly s (after (pokeUser s.pid offset data) s)
  unfold pokeUser
  split
  · exact pokeRegisters_leader _ _ s
  · exact registersOnly.refl s

theorem within_deliver (regs : Registers) (info : RegisterInfo) (otid : Option Tid) :
    Within RegistersOnly (regs.deliver info otid) := by
  apply within_ite
  · exact fun s => pokeRegisters_leader .fprs regs.data s
  · exact within_writeUserArea _ _ _

theorem within_handOver (regs : Registers) (info : RegisterInfo) (commit : Bool) :
    Within RegistersOnly (regs.handOver info commit) := by
  apply registersOnly.bind (within_deliver _ _ _)
  intro _
  exact within_ite (within_deliver _ _ _) (registersOnly.pure _)

theorem within_getRegisters {R : Process → Process → Prop} (hR : Frame R) (otid : Option Tid) :
    Within R (getRegisters otid) := by
  refine hR.bind hR.get fun s => hR.bind (hR.bind hR.get fun s' => ?_) fun th => hR.pure _
  cases s'.threads.find (s.valueOr otid) with
  | none => exact hR.throw _
  | some th => exact hR.pure th

theorem within_setRegisters (tid : Tid) (regs : Registers) :
    Within RegistersOnly (setRegisters tid regs) := by
  intro s
  refine ⟨rfl, ?_, fun _ _ => rfl⟩
  change List.map status (List.map _ s.threads.entries) = _
  rw [List.map_map]
  apply List.map_congr_left
  intro th _
  simp only [Function.comp_apply]
  split_ifs <;> rfl

theorem within_writeRegister (otid : Option Tid) (info : RegisterInfo) (v : Value) (commit : Bool) :
    Within RegistersOnly (writeRegister otid info v commit) := by
  apply registersOnly.bind registersOnly.get
  intro s
  apply registersOnly.bind (within_getRegisters registersOnly _)
  intro regs
  apply registersOnly.bind (registersOnly.ofExcept _)
  intro regs'
  apply registersOnly.bind (within_setRegisters _ _)
  intro _
  exact within_handOver _ _ _

theorem within_writeRegisterById (otid : Option Tid) (id : RegisterId) (v : Value) (commit : Bool) :
    Within RegistersOnly (writeRegisterById otid id v commit) :=
  registersOnly.bind (registersOnly.ofExcept _) fun _ => within_writeRegister _ _ _ _

theorem within_writeOtherThreads (id : RegisterId) (v : Value) (masked : BitVec 64) :
    Within RegistersOnly (writeOtherThreads id v masked) := by
  apply registersOnly.bind registersOnly.get
  intro s
  apply registersOnly.forM
  intro tid
  apply within_ite (registersOnly.pure _)
  exact registersOnly.bind (within_writeRegisterById _ _ _ _) fun _ => within_writeRegisterById _ _ _ _

theorem within_setHardwareStoppoint (address : VirtAddr) (mode : StoppointMode) (size : ℕ) :
    Within RegistersOnly (setHardwareStoppoint address mode size) := by
  apply registersOnly.bind (within_getRegisters registersOnly _)
  intro regs
  apply registersOnly.bind (registersOnly.ofExcept _)
  intro control
  apply registersOnly.bind (registersOnly.ofExcept _)
  intro freeSpace
  apply registersOnly.bind (registersOnly.ofExcept _)
  intro id
  apply registersOnly.bind (within_writeRegisterById _ _ _ _)
  intro _
  apply registersOnly.bind (registersOnly.ofExcept _)
  intro sizeFlag
  apply registersOnly.bind (within_writeRegisterById _ _ _ _)
  intro _
  exact registersOnly.bind (within_writeOtherThreads _ _ _) fun _ => registersOnly.pure _

theorem within_clearHardwareStoppoint (index : ℤ) :
    Within RegistersOnly (clearHardwareStoppoint index) := by
  apply registersOnly.bind (registersOnly.ofExcept _)
  intro id
  apply registersOnly.bind (within_writeRegisterById _ _ _ _)
  intro _
  apply registersOnly.bind (within_getRegisters registersOnly _)
  intro regs
  apply registersOnly.bind (registersOnly.ofExcept _)
  intro control
  apply registersOnly.bind (registersOnly.ofExcept _)
  intro i
  apply registersOnly.bind (within_writeRegisterById _ _ _ _)
  intro _
  exact within_writeOtherThreads _ _ _

/-- What a site is made with. -/
def place (site : BreakpointSite) : BitVec 32 × VirtAddr × Bool × Bool × Option ℕ :=
  (site.id, site.address, site.isHardware, site.isInternal, site.parent)

/-- What enabling and disabling a site can do. -/
structure SitesOnly (s s' : Process) : Prop where
  same : s' = { s with
    threads := s'.threads, user := s'.user, breakpointSites := s'.breakpointSites,
    memory := s'.memory }
  statuses : s'.statuses = s.statuses
  places : s'.breakpointSites.map place = s.breakpointSites.map place
  others : ∀ t, t ≠ s.pid → s'.user t = s.user t

theorem sitesOnly : Frame SitesOnly where
  refl _ := ⟨rfl, rfl, rfl, fun _ _ => rfl⟩
  trans := by
    intro s₁ s₂ s₃ h h'
    have hpid : s₂.pid = s₁.pid := by rw [h.same]
    refine ⟨?_, h'.statuses.trans h.statuses, h'.places.trans h.places, fun t ht => ?_⟩
    · rw [h'.same, h.same]
    · rw [h'.others t (by rwa [hpid]), h.others t ht]

theorem SitesOnly.kinds {s s' : Process} (h : SitesOnly s s') :
    s'.breakpointSites.map (·.isHardware) = s.breakpointSites.map (·.isHardware) := by
  have hmap := congrArg (List.map (·.2.2.1)) h.places
  rw [List.map_map, List.map_map] at hmap
  exact hmap

theorem RegistersOnly.sitesOnly {s s' : Process} (h : RegistersOnly s s') : SitesOnly s s' where
  same := by
    rw [h.same]
  statuses := h.statuses
  places := by rw [h.same.sites]
  others := h.others

theorem within_siteAt {R : Process → Process → Prop} (hR : Frame R) (i : ℕ) :
    Within R (siteAt i) := by
  refine hR.bind hR.get fun s => ?_
  cases s.breakpointSites[i]? with
  | none => exact hR.throw _
  | some site => exact hR.pure site

theorem within_siteByAddress {R : Process → Process → Prop} (hR : Frame R) (address : VirtAddr) :
    Within R (siteByAddress address) := by
  refine hR.bind hR.get fun s => ?_
  cases StoppointCollection.findByAddress s.breakpointSites address with
  | none => exact hR.throw _
  | some i => exact hR.pure i

theorem within_watchpointAt {R : Process → Process → Prop} (hR : Frame R) (i : ℕ) :
    Within R (watchpointAt i) := by
  refine hR.bind hR.get fun s => ?_
  cases s.watchpoints[i]? with
  | none => exact hR.throw _
  | some point => exact hR.pure point

theorem within_modifySite (i : ℕ) {f : BreakpointSite → BreakpointSite}
    (hf : ∀ site, place (f site) = place site) : Within SitesOnly (modifySite i f) := by
  intro s
  refine ⟨rfl, rfl, ?_, fun _ _ => rfl⟩
  change (s.breakpointSites.modify i f).map _ = _
  apply List.ext_getElem?
  intro j
  rw [List.getElem?_map, List.getElem?_map, List.getElem?_modify]
  cases s.breakpointSites[j]? with
  | none => rfl
  | some site =>
    by_cases hij : i = j <;> simp [hij, hf]

theorem within_peekData {R : Process → Process → Prop} (hR : Frame R) (what : String)
    (a : VirtAddr) : Within R (peekData what a) := by
  refine hR.bind hR.get fun s => ?_
  cases s.memory.peek a with
  | none => exact hR.throw _
  | some w => exact hR.pure w

theorem within_pokeData (what : String) (a : VirtAddr) (w : BitVec 64) :
    Within SitesOnly (pokeData what a w) := by
  intro s
  unfold pokeData
  rw [after_bind_ok (get_eq s)]
  cases s.memory.poke a w with
  | none => exact sitesOnly.refl s
  | some memory => exact ⟨rfl, rfl, rfl, fun _ _ => rfl⟩

theorem within_enableSite (i : ℕ) : Within SitesOnly (enableSite i) := by
  apply sitesOnly.bind (within_siteAt sitesOnly i)
  intro site
  apply within_ite (sitesOnly.pure _)
  apply within_ite
  · apply sitesOnly.bind
    · intro s
      exact (within_setHardwareStoppoint _ _ _ s).sitesOnly
    · intro index
      exact sitesOnly.bind (within_modifySite i (by simp [place])) fun _ => within_modifySite i (by simp [place])
  · apply sitesOnly.bind (within_peekData sitesOnly _ _)
    intro data
    apply sitesOnly.bind (within_modifySite i (by simp [place]))
    intro _
    exact sitesOnly.bind (within_pokeData _ _ _) fun _ => within_modifySite i (by simp [place])

theorem within_disableSite (i : ℕ) : Within SitesOnly (disableSite i) := by
  apply sitesOnly.bind (within_siteAt sitesOnly i)
  intro site
  apply within_ite (sitesOnly.pure _)
  apply within_ite
  · apply sitesOnly.bind
    · intro s
      exact (within_clearHardwareStoppoint _ s).sitesOnly
    · intro _
      exact sitesOnly.bind (within_modifySite i (by simp [place])) fun _ => within_modifySite i (by simp [place])
  · apply sitesOnly.bind (within_peekData sitesOnly _ _)
    intro data
    exact sitesOnly.bind (within_pokeData _ _ _) fun _ => within_modifySite i (by simp [place])

end KDebugger.Process
