import KDebugger.Process.HardwareRuns
import KDebugger.Process.Waits

namespace KDebugger.Process

open Exec KDebugger.Splits StoppointCollection

abbrev HardwareStoppoint := BreakpointSite ⊕ Watchpoint

namespace HardwareStoppoint

def ident : HardwareStoppoint → BitVec 32 ⊕ BitVec 32 := Sum.map (·.id) (·.id)

def address : HardwareStoppoint → VirtAddr := Sum.elim (·.address) (·.address)

/-- It is there, enabled, and its register index is `i`. -/
def Has (s : Process) (i : ℕ) : HardwareStoppoint → Prop
  | .inl site => site ∈ s.breakpointSites ∧ site.isHardware = true ∧ site.isEnabled = true ∧
      site.hardwareRegisterIndex = i
  | .inr point => point ∈ s.watchpoints ∧ point.isEnabled = true ∧ point.hardwareRegisterIndex = i

end HardwareStoppoint

/-- `i` is the lowest bit that is set. -/
structure Lowest (status : BitVec 64) (i : ℕ) : Prop where
  set : status.getLsbD i = true
  below : ∀ j < i, status.getLsbD j = false

/-- DR6 of the thread reports slot `i` first, and the slot is that of `x`. -/
structure TriggeredBy (s : Process) (regs : Registers) (i : Fin 8) (x : HardwareStoppoint) : Prop where
  slot : (i : ℕ) < 4
  reported : ∃ status, regs.readByIdAsU64 (.dr 6) = .ok status ∧ Lowest status i
  holds : regs.readByIdAsU64 (.dr i) = .ok x.address
  owned : x.Has s i

/-- No collection has two members at one address, which creating a member makes sure of. -/
structure OneAnAddress (s : Process) : Prop where
  sites : (s.breakpointSites.map BreakpointSite.address).Nodup
  points : (s.watchpoints.map Watchpoint.address).Nodup

theorem ctz_of_lowest {status : BitVec 64} {i : ℕ} (h : Lowest status i) :
    status.ctz.toNat = i := by
  have hne : status ≠ 0#64 := by
    rintro rfl
    simpa using h.set
  have hset := BitVec.getLsbD_true_ctz_of_ne_zero hne
  obtain hlt | heq | hgt := Nat.lt_trichotomy status.ctz.toNat i
  · rw [h.below _ hlt] at hset
    cases hset
  · exact heq
  · have hclear := BitVec.getLsbD_false_of_lt_ctz hgt
    rw [h.set] at hclear
    cases hclear

theorem findByAddress_member {T : Type} [Stoppoint T] {points : List T} {x : T} (hx : x ∈ points)
    (hdistinct : (points.map Stoppoint.address).Nodup) :
    ∃ i, findByAddress points (Stoppoint.address x) = some i ∧ points[i]? = some x := by
  obtain ⟨l₁, l₂, rfl⟩ := List.append_of_mem hx
  exact ⟨l₁.length, findByAddress_split hdistinct, by simp⟩

variable {s : Process} {otid : Option Tid} {th : ThreadState}

theorem getCurrentHardwareStoppoint_eq (hth : s.threads.find (s.valueOr otid) = some th)
    {i : Fin 8} {x : HardwareStoppoint} (h : TriggeredBy s th.regs i x) :
    getCurrentHardwareStoppoint otid s =
      (match findByAddress s.breakpointSites x.address with
        | some i => do
          let site ← siteAt i
          pure (.inl site.id)
        | none => do
          let j ← watchpointByAddress x.address
          let point ← watchpointAt j
          pure (.inr point.id) : M (BitVec 32 ⊕ BitVec 32)) s := by
  obtain ⟨status, hstatus, hlowest⟩ := h.reported
  have hne : status ≠ 0#64 := by
    rintro rfl
    simpa using hlowest.set
  have hregister : debugRegister status.ctz.toNat = .ok (.dr i) := by
    rw [ctz_of_lowest hlowest]
    exact debugRegister_eq i.isLt
  unfold getCurrentHardwareStoppoint
  rw [bind_ok (getRegisters_eq hth), hstatus, bind_ok (ofExcept_ok _ _), if_neg hne, hregister,
    bind_ok (ofExcept_ok _ _), h.holds, bind_ok (ofExcept_ok _ _)]
  exact bind_ok (get_eq s)

/-- The owner is returned where it is a site or no site is at its address. -/
theorem getCurrentHardwareStoppoint_iff (hth : s.threads.find (s.valueOr otid) = some th)
    (hone : OneAnAddress s) {i : Fin 8} {x : HardwareStoppoint} (h : TriggeredBy s th.regs i x) :
    getCurrentHardwareStoppoint otid s = .ok x.ident s ↔
      x.isLeft = true ∨ containsAddress s.breakpointSites x.address = false := by
  rw [getCurrentHardwareStoppoint_eq hth h]
  have howned := h.owned
  cases x with
  | inl site =>
    obtain ⟨j, hfind, hj⟩ := findByAddress_member howned.1 hone.sites
    have hsite : findByAddress s.breakpointSites (HardwareStoppoint.address (.inl site)) = some j :=
      hfind
    obtain ⟨l₁, l₂, hsplit, rfl⟩ := exists_split hj
    refine iff_of_true ?_ (.inl rfl)
    rw [hsite]
    exact bind_ok (siteAt_split hsplit)
  | inr point =>
    cases hsite : findByAddress s.breakpointSites (HardwareStoppoint.address (.inr point)) with
    | some j =>
      -- whatever the site is, its id comes back as that of a site
      have hthere : containsAddress s.breakpointSites (HardwareStoppoint.address (.inr point)) = true := by
        rw [containsAddress, hsite]
        rfl
      refine iff_of_false (fun hreturned => ?_) (by simp [hthere])
      obtain ⟨site, s', -, hid⟩ := bind_eq_ok.mp hreturned
      cases hid
    | none =>
      have hnone : containsAddress s.breakpointSites (HardwareStoppoint.address (.inr point)) = false := by
        rw [containsAddress, hsite]
        rfl
      refine iff_of_true ?_ (.inr hnone)
      obtain ⟨j, hfind, hj⟩ := findByAddress_member howned.1 hone.points
      have hwatched : findByAddress s.watchpoints (HardwareStoppoint.address (.inr point)) = some j :=
        hfind
      have hpoint : watchpointByAddress (HardwareStoppoint.address (.inr point)) s = .ok j s := by
        unfold watchpointByAddress
        rw [bind_ok (get_eq s), hwatched]
        rfl
      obtain ⟨l₁, l₂, hsplit, rfl⟩ := exists_split hj
      exact (bind_ok hpoint).trans (bind_ok (watchpointAt_split hsplit))

def triggeredFile : Registers where
  data o := if o = debugregOffset + 1 then 0x10#8 else if o = debugregOffset + 48 then 1#8 else 0#8
  tid := 1

def hitSlot (sites : List BreakpointSite) (points : List Watchpoint) : Process :=
  { untouched with
    threads := ⟨[{ tid := 1, regs := triggeredFile }], by decide⟩
    breakpointSites := sites
    watchpoints := points }

def watchingSlot : Watchpoint where
  id := 1#32
  address := 0x1000#64
  mode := .write
  size := 8
  isEnabled := true
  hardwareRegisterIndex := 0

def siteThere : BreakpointSite where
  id := 7#32
  address := 0x1000#64
  isHardware := false
  isInternal := false

theorem triggeredBy_watchingSlot (sites : List BreakpointSite) :
    TriggeredBy (hitSlot sites [watchingSlot]) triggeredFile 0 (.inr watchingSlot) :=
  ⟨by decide, ⟨1#64, by decide +kernel, by decide, by simp⟩, by decide +kernel, by simp [hitSlot], rfl, rfl⟩

def siteElsewhere : BreakpointSite where
  id := 1#32
  address := 0x2000#64
  isHardware := true
  isInternal := false
  isEnabled := true
  hardwareRegisterIndex := 1

/-- The site and the watchpoint have the same id. -/
theorem getCurrentHardwareStoppoint_watching :
    getCurrentHardwareStoppoint none (hitSlot [siteElsewhere] [watchingSlot]) =
      .ok (.inr 1#32) (hitSlot [siteElsewhere] [watchingSlot]) := by
  let s := hitSlot [siteElsewhere] [watchingSlot]
  have hth : s.threads.find (s.valueOr none) = some { tid := 1, regs := triggeredFile } := rfl
  have hone : OneAnAddress s := ⟨by decide, by decide⟩
  have htriggered := triggeredBy_watchingSlot [siteElsewhere]
  exact (getCurrentHardwareStoppoint_iff hth hone htriggered).mpr (.inr (by decide))

theorem getCurrentHardwareStoppoint_not_for_all : ¬ ∀ (s : Process) (otid : Option Tid)
    (th : ThreadState) (i : Fin 8) (x : HardwareStoppoint),
    s.threads.find (s.valueOr otid) = some th → OneAnAddress s → TriggeredBy s th.regs i x →
    getCurrentHardwareStoppoint otid s = .ok x.ident s := by
  intro h
  have hreturned := h (hitSlot [siteThere] [watchingSlot]) none { tid := 1, regs := triggeredFile } 0
    (.inr watchingSlot) rfl ⟨by decide, by decide⟩ (triggeredBy_watchingSlot [siteThere])
  have hsite : outcome (getCurrentHardwareStoppoint none) (hitSlot [siteThere] [watchingSlot]) =
      .ok (.inl 7#32) := by decide +kernel
  rw [outcome, hreturned] at hsite
  cases hsite

theorem Slotted.owned {regs : Registers} (h : Slotted s) {x : HardwareStoppoint} {i : Fin 8}
    (hread : regs.readByIdAsU64 (.dr i) = .ok (dr s i)) (hhas : x.Has s i) {status : BitVec 64}
    (hstatus : regs.readByIdAsU64 (.dr 6) = .ok status) (hlowest : Lowest status i) :
    TriggeredBy s regs i x := by
  have howned : ∃ o ∈ owners s, o.index = (i : ℕ) ∧ o.address = x.address := by
    unfold owners enabledOwners
    cases x with
    | inl site =>
      obtain ⟨hmem, -, hon, hindex⟩ := hhas
      have hin : site ∈ s.breakpointSites.filter Stoppoint.isEnabled := List.mem_filter.mpr ⟨hmem, hon⟩
      exact ⟨_, List.mem_append_left _ (List.mem_map_of_mem hin), hindex, rfl⟩
    | inr point =>
      obtain ⟨hmem, hon, hindex⟩ := hhas
      have hin : point ∈ s.watchpoints.filter Stoppoint.isEnabled := List.mem_filter.mpr ⟨hmem, hon⟩
      exact ⟨_, List.mem_append_right _ (List.mem_map_of_mem hin), hindex, rfl⟩
  obtain ⟨o, ho, hindex, haddress⟩ := howned
  obtain ⟨j, hj⟩ := h.slots.owned o ho
  have hij : j = i := by
    have hboth := hj.index.symm.trans hindex
    omega
  refine ⟨hij ▸ hj.lt, ⟨status, hstatus, hlowest⟩, ?_, hhas⟩
  rw [hread, ← haddress, ← hj.address, hij]

end KDebugger.Process
