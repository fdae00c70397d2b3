import KDebugger.Process.LostEvents

namespace KDebugger.Process

open Exec

def IsReport : Call → Prop
  | .reported _ => True
  | _ => False

/-- The new calls are reports, with memory as it is. -/
def Reports (s s' : Process) : Prop :=
  ∃ new : List Moment, s'.log = new ++ s.log ∧ ∀ m ∈ new, IsReport m.call ∧ m.memory = s.memory

theorem Reports.of_log_eq {s s' : Process} (h : s'.log = s.log) : Reports s s' := ⟨[], h, by simp⟩

/-- What looking into a stop can do, the callbacks aside. -/
structure Inspects (s s' : Process) : Prop where
  same : s' = { s with
    threads := s'.threads, user := s'.user, expectingSyscallExit := s'.expectingSyscallExit,
    watchpoints := s'.watchpoints, log := s'.log }
  statuses : s'.statuses = s.statuses
  debug : ∀ t o, isDebugAddress o = true → s'.user t o = s.user t o
  reports : Reports s s'

theorem Inspects.memory {s s' : Process} (h : Inspects s s') : s'.memory = s.memory := by
  rw [h.same]

theorem Inspects.sites {s s' : Process} (h : Inspects s s') :
    s'.breakpointSites = s.breakpointSites := by rw [h.same]

theorem inspects : Frame Inspects where
  refl s := ⟨rfl, rfl, fun _ _ _ => rfl, .of_log_eq rfl⟩
  trans := by
    intro s₁ s₂ s₃ h h'
    obtain ⟨new, hnew, hreports⟩ := h.reports
    obtain ⟨new', hnew', hreports'⟩ := h'.reports
    refine ⟨?_, h'.statuses.trans h.statuses,
      fun t o ho => (h'.debug t o ho).trans (h.debug t o ho), new' ++ new, ?_, ?_⟩
    · rw [h'.same, h.same]
    · rw [hnew', hnew, List.append_assoc]
    · intro m hm
      obtain hm | hm := List.mem_append.mp hm
      · exact ⟨(hreports' m hm).1, (hreports' m hm).2.trans h.memory⟩
      · exact hreports m hm

/-- A thread changed, but for its state and its flag. -/
theorem statuses_modify (s : Process) (tid : Tid) {f : ThreadState → ThreadState}
    (hf : ∀ th, status { f th with tid := th.tid } = status th) :
    ({ s with threads := s.threads.modify tid f } : Process).statuses = s.statuses := by
  change List.map status (List.map _ s.threads.entries) = _
  rw [List.map_map]
  apply List.map_congr_left
  intro th _
  simp only [Function.comp_apply]
  split_ifs
  · exact hf th
  · rfl

theorem within_modifyRegisters (tid : Tid) (f : Registers → Registers) :
    Within Inspects (modifyRegisters tid f) :=
  fun s => ⟨rfl, statuses_modify s tid fun _ => rfl, fun _ _ _ => rfl, .of_log_eq rfl⟩

theorem within_readAllRegisters (tid : Tid) : Within Inspects (readAllRegisters tid) := by
  apply inspects.bind inspects.get
  intro s
  apply inspects.bind (within_getRegisters inspects _)
  intro _
  apply inspects.bind (within_modifyRegisters _ _)
  intro _
  exact inspects.bind (within_modifyRegisters _ _) fun _ => within_modifyRegisters _ _

theorem within_setExpecting (b : Bool) : Within Inspects (setExpectingSyscallExit b) :=
  fun _ => ⟨rfl, rfl, fun _ _ _ => rfl, .of_log_eq rfl⟩

theorem within_augmentStopReason (reason : StopReason) :
    Within Inspects (augmentStopReason reason) := by
  apply inspects.bind inspects.get
  intro s
  apply within_ite
  · apply inspects.bind (within_getRegisters inspects _)
    intro regs
    apply inspects.bind (inspects.ofExcept _)
    intro info
    exact inspects.bind (within_setExpecting _) fun _ => inspects.pure _
  · exact inspects.bind (within_setExpecting _) fun _ => inspects.pure _

theorem inspects_pokeRegisters {part : UserPart}
    (hpart : ∀ o, isDebugAddress o = true → ¬ part.Covers o) (data : UserArea) (s : Process) :
    Inspects s (after (pokeRegisters s.pid part data) s) := by
  unfold pokeRegisters
  rw [after_bind_ok (get_eq s)]
  cases hwrite : s.kernel.write part data (s.user s.pid) with
  | none => exact inspects.refl s
  | some u =>
    refine ⟨rfl, rfl, fun t o ho => ?_, .of_log_eq rfl⟩
    change (s.setUser s.pid u).user t o = s.user t o
    by_cases ht : t = s.pid
    · rw [ht, setUser_user_self]
      exact RegisterKernel.write_elsewhere hwrite (hpart o ho)
    · rw [setUser_user_of_ne ht]

/-- The register with the program counter is not near the debug registers. -/
theorem within_deliver_rip (regs : Registers) (otid : Option Tid) :
    Within Inspects (regs.deliver (defineGpr64 .rip 16) otid) := by
  intro s
  have hplaced : (defineGpr64 .rip 16).Placed := by decide
  rw [after, deliver_eq regs hplaced]
  apply inspects_pokeRegisters
  rintro o ho ⟨-, hhi⟩
  have hlt : o < 136 := hhi
  unfold isDebugAddress debugregOffset at ho
  simp at ho
  omega

theorem within_handOver_rip (regs : Registers) (commit : Bool) :
    Within Inspects (regs.handOver (defineGpr64 .rip 16) commit) :=
  inspects.bind (within_deliver_rip _ _) fun _ =>
    within_ite (within_deliver_rip _ _) (inspects.pure _)

theorem within_setPc (address : VirtAddr) (otid : Option Tid) :
    Within Inspects (setPc address otid) := by
  have hwrite : Within Inspects (writeRegister otid (defineGpr64 .rip 16) (.u64 address) true) := by
    apply inspects.bind inspects.get
    intro s
    apply inspects.bind (within_getRegisters inspects _)
    intro regs
    apply inspects.bind (inspects.ofExcept _)
    intro regs'
    apply inspects.bind
    · exact fun s => ⟨rfl, statuses_modify s _ fun _ => rfl, fun _ _ _ => rfl, .of_log_eq rfl⟩
    · exact fun _ => within_handOver_rip _ _
  intro s
  unfold setPc writeRegisterById
  rw [registerInfoById_rip, after_bind_ok (ofExcept_ok _ _)]
  exact hwrite s

theorem within_getCurrentHardwareStoppoint {R : Process → Process → Prop} (hR : Frame R)
    (otid : Option Tid) : Within R (getCurrentHardwareStoppoint otid) := by
  apply hR.bind (within_getRegisters hR _)
  intro regs
  apply hR.bind (hR.ofExcept _)
  intro status
  apply within_ite (hR.throw _)
  apply hR.bind (hR.ofExcept _)
  intro id
  apply hR.bind (hR.ofExcept _)
  intro address
  apply hR.bind hR.get
  intro s
  cases StoppointCollection.findByAddress s.breakpointSites address with
  | some i => exact hR.bind (within_siteAt hR i) fun _ => hR.pure _
  | none =>
    apply hR.bind
    · apply hR.bind hR.get
      intro s'
      cases StoppointCollection.findByAddress s'.watchpoints address with
      | none => exact hR.throw _
      | some j => exact hR.pure j
    · intro j
      exact hR.bind (within_watchpointAt hR j) fun _ => hR.pure _

theorem within_updateWatchpoint (id : BitVec 32) : Within Inspects (updateWatchpoint id) := by
  apply inspects.bind inspects.get
  intro s
  cases StoppointCollection.findById s.watchpoints id with
  | none => exact inspects.throw _
  | some i =>
    apply inspects.bind (within_watchpointAt inspects i)
    intro point
    apply inspects.bind
    · exact inspects.bind (within_readMemory inspects _ _) fun _ =>
        within_ite (inspects.pure _) (inspects.throw _)
    · exact fun _ _ => ⟨rfl, rfl, fun _ _ _ => rfl, .of_log_eq rfl⟩

/-- The callbacks keep what `R` says. -/
structure Outside.Hooks (O : Outside) (R : Process → Process → Prop) : Prop where
  notifyStop : ∀ reason, Within R (O.notifyStop reason)
  notifyHit : ∀ parent, Within R (O.notifyHit parent)
  lifecycle : ∀ reason, Within R (O.lifecycle reason)

section Callbacks

variable {R : Process → Process → Prop} (hR : Frame R)
  (hinspects : ∀ {s s' : Process}, Inspects s s' → R s s') {O : Outside} (hO : O.Hooks R)

include hinspects

theorem within_report (reason : StopReason) : Within R (record (.reported reason)) :=
  fun s => hinspects
    ⟨rfl, rfl, fun _ _ _ => rfl, [⟨.reported reason, s.memory⟩], rfl, by simp [IsReport]⟩

include hR

theorem within_hardwareHit (otid : Option Tid) : Within R (do
    match ← getCurrentHardwareStoppoint otid with
    | .inl _ => pure false
    | .inr id => do
      updateWatchpoint id
      pure false : M Bool) := by
  apply hR.bind (within_getCurrentHardwareStoppoint hR _)
  rintro (id | id)
  · exact hR.pure _
  · exact hR.bind (fun s => hinspects (within_updateWatchpoint id s)) fun _ => hR.pure _

include hO

theorem within_notifyTarget (reason : StopReason) : Within R (notifyTarget O reason) := by
  apply hR.bind hR.get
  intro s
  apply within_ite _ (hR.pure _)
  exact hR.bind (within_report hinspects reason) fun _ => hO.notifyStop reason

theorem within_reportLifecycle (reason : StopReason) : Within R (reportLifecycle O reason) :=
  hR.bind (within_report hinspects reason) fun _ => hO.lifecycle reason

theorem within_hitBreakpoint (i : ℕ) (address : VirtAddr) (otid : Option Tid) :
    Within R (hitBreakpoint O i address otid) := by
  apply hR.bind (fun s => hinspects (within_setPc _ _ s))
  intro _
  apply hR.bind (within_siteAt hR i)
  intro site
  cases site.parent with
  | none => exact hR.pure _
  | some parent => exact hO.notifyHit parent

theorem within_handleTrap (reason : StopReason) (isMainStop : Bool) :
    Within R (handleTrap O reason isMainStop) := by
  apply hR.bind (within_getPc hR _)
  intro pc
  apply hR.bind hR.get
  intro s
  apply within_ite
  · apply hR.bind (within_siteByAddress hR _)
    intro i
    exact hR.bind (within_hitBreakpoint hR hinspects hO _ _ _) fun _ => hR.pure _
  · exact within_ite (within_hardwareHit hR hinspects _) (hR.pure _)

theorem within_inspectStop (reason : StopReason) (isMainStop : Bool) :
    Within R (inspectStop O reason isMainStop) := by
  apply hR.bind (fun s => hinspects (within_readAllRegisters _ s))
  intro _
  apply hR.bind (fun s => hinspects (within_augmentStopReason _ s))
  intro reason'
  have htell (goOn : Bool) : Within R (if goOn = true then pure none else do
      notifyTarget O reason'
      pure (some reason') : M (Option StopReason)) :=
    within_ite (hR.pure _) (hR.bind (within_notifyTarget hR hinspects hO _) fun _ => hR.pure _)
  exact within_ite (hR.bind (within_handleTrap hR hinspects hO _ _) htell)
    (hR.bind (hR.pure _) htell)

/-- Handling a signal, the meeting with a new thread being as `R` says too. -/
theorem within_handleSignal {reason : StopReason} {s : Process}
    (isMainStop : Bool) (hwelcome : s.threads.find reason.tid = none →
      ¬ (reason.trapReason = some .clone ∧ isMainStop = true) →
      s.attached = true ∧ reason.reason = .stopped → R s (after (welcome O reason) s)) : R s (after (handleSignal O reason isMainStop) s) := by
  unfold handleSignal
  rw [after_bind_ok (get_eq s)]
  split_ifs with hclone hstopped
  · exact hR.refl s
  · have hrest (new : Bool) : Within R (if (new && isMainStop) = true then pure none else do
        let th ← threadAt reason.tid
        if th.pendingSigstop = true ∧ reason.info = sigstop then pure none
        else inspectStop O reason isMainStop : M (Option StopReason)) := by
      apply within_ite (hR.pure _)
      apply hR.bind (within_threadAt hR _)
      intro th
      exact within_ite (hR.pure _) (within_inspectStop hR hinspects hO _ _)
    cases hfind : s.threads.find reason.tid with
    | none => exact hR.bind_at (hwelcome hfind hclone hstopped) fun _ s' _ => hrest true s'
    | some th => exact hrest false s
  · exact hR.refl s

end Callbacks

end KDebugger.Process
