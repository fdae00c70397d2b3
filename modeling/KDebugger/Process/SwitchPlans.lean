import KDebugger.Process.SwitchedSites
import KDebugger.Process.SlotPlans

namespace KDebugger.Process

open ByteStream Words Exec RegisterKernel

variable {s s' : Process} {on : Bool} {c c' masked : BitVec 64} {i j : ℕ} {v : Value}
  {site : BreakpointSite} {sites : List BreakpointSite} {l : List (UserPart × UserArea)}

/-- The slot that switching a hardware site writes, and DR7 with it written. -/
def slotSwitch (on : Bool) (c : BitVec 64) (site : BreakpointSite) : Option (ℕ × BitVec 64) :=
  if on = true then
    (findFreeStoppointRegister c).toOption.map fun i =>
      (i, setSlot c i ((modeBits .execute).setWidth 64) ((lengthBits 1).setWidth 64))
  else if ClearIndex site.hardwareRegisterIndex then
    some (site.hardwareRegisterIndex.toNat, clearSlot c site.hardwareRegisterIndex.toNat)
  else none

def slotValue (on : Bool) (site : BreakpointSite) : Value :=
  if on = true then .u64 site.address else .i32 0#32

/-- What switching hardware sites one after another asks of the kernel, where DR7 is known. -/
def switchPlan (s : Process) (on : Bool) :
    Option (BitVec 64) → List BreakpointSite → Option (List (UserPart × UserArea))
  -- each site asks by the control register that the one before it leaves
  | _, [] => some []
  | none, _ :: _ => none
  | some c, site :: sites => (slotSwitch on c site).bind fun slot =>
      (switchPlan s on (some slot.2) sites).map fun rest =>
        slotRequests slot.1 slot.2 (s.slotWords slot.1 (slotValue on site)) ++ rest

def TakesSwitches (on : Bool) (s : Process) (sites : List BreakpointSite) : Prop :=
  s.Takes (s.switchPlan on s.debugControl sites)

/-- What switching a site takes. -/
def Switchable (on : Bool) (s : Process) (site : BreakpointSite) : Prop :=
  if site.isHardware = true then TakesSwitches on s [site]
  else s.memory.isMapped site.address 8 = true

theorem takesSwitches_nil (on : Bool) (s : Process) : TakesSwitches on s [] := by
  unfold TakesSwitches
  rw [switchPlan]
  exact takes_some.mpr ⟨_, rfl⟩

theorem switchPlan_set (s : Process) (site : BreakpointSite) :
    s.switchPlan true s.debugControl [site] = s.setPlan site.address .execute 1 := by
  unfold setPlan
  cases s.debugControl with
  | none => rfl
  | some c =>
    simp only [switchPlan, slotSwitch, slotValue, if_true, Option.map_some, List.append_nil,
      Option.bind_some]
    cases findFreeStoppointRegister c with
    | error e => rfl
    | ok i => rfl

theorem switchPlan_clear (s : Process) (site : BreakpointSite) :
    s.switchPlan false s.debugControl [site] = s.clearPlan site.hardwareRegisterIndex := by
  unfold clearPlan
  cases s.debugControl with
  | none => simp [switchPlan]
  | some c =>
    simp only [switchPlan, slotSwitch, slotValue, Bool.false_eq_true, if_false, Option.map_some,
      List.append_nil]
    split_ifs <;> rfl

theorem takesSwitches_set : TakesSwitches true s [site] ↔
    s.Takes (s.setPlan site.address .execute 1) := by
  rw [TakesSwitches, switchPlan_set]

theorem takesSwitches_clear : TakesSwitches false s [site] ↔
    s.Takes (s.clearPlan site.hardwareRegisterIndex) := by
  rw [TakesSwitches, switchPlan_clear]

theorem slotSwitch_lt {slot : ℕ × BitVec 64} (h : slotSwitch on c site = some slot) :
    slot.1 < 4 := by
  unfold slotSwitch at h
  split_ifs at h with hon hindex
  · obtain ⟨i, hi, rfl⟩ := Option.map_eq_some_iff.mp h
    cases hfree : findFreeStoppointRegister c with
    | error e =>
      rw [hfree] at hi
      cases hi
    | ok i' =>
      rw [hfree] at hi
      obtain rfl := Option.some.inj hi
      exact (findFree_ok hfree).1
  · obtain rfl := Option.some.inj h
    unfold ClearIndex at hindex
    change site.hardwareRegisterIndex.toNat < 4
    omega

/-- The words to be written are all that a plan has of the process. -/
theorem switchPlan_congr (hwords : ∀ n < 4, ∀ site, s'.slotWords n (slotValue on site) =
      s.slotWords n (slotValue on site)) (sites : List BreakpointSite) :
    ∀ control, s'.switchPlan on control sites = s.switchPlan on control sites := by
  induction sites with
  | nil => intro control; cases control <;> rfl
  | cons site sites ih =>
    intro control
    cases control with
    | none => rfl
    | some c =>
      simp only [switchPlan]
      apply Option.bind_congr
      intro slot hslot
      rw [ih, hwords slot.1 (slotSwitch_lt hslot)]

/-- A slot that has been written does not change what the others are written with. -/
theorem SlotWritten.slotWords_switch (h : SlotWritten s s' i (slotValue on site) masked l)
    {n : ℕ} (hn : n < 4) (x : BreakpointSite) :
    s'.slotWords n (slotValue on x) = s.slotWords n (slotValue on x) := by
  cases on with
  | true => exact h.slotWords_u64 n x.address
  | false => exact h.slotWords_same hn

/-- Once the slot of the first site has been written, the others are left. -/
theorem SlotWritten.takesSwitches (site : BreakpointSite) (hc : s.debugControl = some c)
    (hslot : slotSwitch on c site = some (i, masked))
    (h : SlotWritten s s' i (slotValue on site) masked
      (slotRequests i masked (s.slotWords i (slotValue on site)))) (sites : List BreakpointSite) :
    TakesSwitches on s' sites ↔ TakesSwitches on s (site :: sites) := by
  have hplan : s.switchPlan on s.debugControl (site :: sites) =
      (s.switchPlan on (some masked) sites).map fun rest =>
        slotRequests i masked (s.slotWords i (slotValue on site)) ++ rest := by
    rw [hc, switchPlan, hslot, Option.bind_some]
  have hrest : s'.switchPlan on s'.debugControl sites = s.switchPlan on (some masked) sites := by
    rw [h.control hc]
    exact switchPlan_congr (fun n hn x => h.slotWords_switch hn x) sites _
  unfold TakesSwitches Takes
  rw [hplan, hrest]
  cases s.switchPlan on (some masked) sites with
  | none => rfl
  | some rest => simp only [Option.map_some, Option.bind_some, h.handed]

theorem not_takesSwitches_cons (h : ¬ TakesSwitches on s [site]) (sites : List BreakpointSite) :
    ¬ TakesSwitches on s (site :: sites) := by
  unfold TakesSwitches at h ⊢
  cases hc : s.debugControl with
  | none => exact not_takes_none
  | some c =>
    rw [hc] at h
    simp only [switchPlan] at h ⊢
    cases hslot : slotSwitch on c site with
    | none => exact not_takes_none
    | some slot =>
      rw [hslot] at h
      simp only [Option.bind_some, Option.map_some, List.append_nil] at h ⊢
      cases s.switchPlan on (some slot.2) sites with
      | none => exact not_takes_none
      | some rest =>
        simp only [Option.map_some]
        intro htakes
        obtain ⟨u, hu⟩ := takes_some.mp htakes
        rw [handed_append_eq] at hu
        obtain ⟨u', hu', -⟩ := Option.bind_eq_some_iff.mp hu
        exact h (takes_some.mpr ⟨u', hu'⟩)

def leftAfter (site : BreakpointSite) (sites : List BreakpointSite) : List BreakpointSite :=
  if site.isHardware = true then site :: sites else sites

/-- A site at position `j` is switched by `act` where it can be, and only there. -/
def Switches (on : Bool) (act : M Unit) (j : ℕ) (site : BreakpointSite) (s : Process) : Prop :=
  (¬ Switchable on s site ∧ ∃ e s', act s = .error e s' ∧
    s'.breakpointSites = s.breakpointSites) ∨
  Switchable on s site ∧ ∃ s', act s = .ok () s' ∧ Switched on j s s' ∧
    ∀ sites, TakesSwitches on s' sites ↔ TakesSwitches on s (leftAfter site sites)

theorem setHardwareBreakpoint_ends (site : BreakpointSite) :
    (TakesSwitches true s [site] ∧ ∃ i s',
      setHardwareBreakpoint site.id site.address s = .ok i s' ∧
      ∀ sites, TakesSwitches true s' sites ↔ TakesSwitches true s (site :: sites)) ∨
    ¬ TakesSwitches true s [site] ∧
      ∃ e s', setHardwareBreakpoint site.id site.address s = .error e s' := by
  rw [takesSwitches_set]
  have hsize : ValidSize 1 := .inl rfl
  obtain ⟨htakes, c, i, s', hc, hfree, hset, hwritten⟩ | ⟨hno, e, s', hfail⟩ :=
    setHardwareStoppoint_ends (s := s) site.address .execute hsize
  · have hslot : slotSwitch true c site =
        some (i, setSlot c i ((modeBits .execute).setWidth 64) ((lengthBits 1).setWidth 64)) := by
      rw [slotSwitch, if_pos rfl, hfree]
      rfl
    exact .inl ⟨htakes, i, s', hset, SlotWritten.takesSwitches site hc hslot hwritten⟩
  · exact .inr ⟨hno, e, s', hfail⟩

theorem takesSwitches_congr (hthreads : s'.threads = s.threads)
    (hcurrent : s'.currentThread = s.currentThread) (huser : s'.user = s.user)
    (hpid : s'.pid = s.pid) (hcasts : s'.casts = s.casts) (hkernel : s'.kernel = s.kernel) :
    TakesSwitches on s' sites ↔ TakesSwitches on s sites := by
  have hfiles : s'.debugFiles = s.debugFiles := by
    funext t
    unfold debugFiles
    rw [hthreads]
  have hcontrol : s'.debugControl = s.debugControl := by
    rw [debugControl_eq, debugControl_eq, hfiles, hcurrent]
  have hwords (n : ℕ) (v : Value) : s'.slotWords n v = s.slotWords n v := by
    unfold slotWords writtenThreads
    rw [hcasts, hfiles, hcurrent, hthreads]
  have hhanded : s'.handed = s.handed := by
    funext l
    unfold Process.handed
    rw [hkernel, huser, hpid]
  unfold TakesSwitches Takes
  rw [hcontrol, hhanded, switchPlan_congr (fun n _ _ => hwords n _)]

theorem canEnable_iff : CanEnable s site ↔ Switchable true s site := by
  unfold CanEnable Switchable
  split_ifs with hhw
  · obtain ⟨htakes, i, s', hset, -⟩ | ⟨hno, e, s', hfail⟩ :=
      setHardwareBreakpoint_ends (s := s) site
    · exact iff_of_true ⟨i, s', hset⟩ htakes
    · refine iff_of_false ?_ hno
      rintro ⟨i, s₁, hset⟩
      cases hset.symm.trans hfail
  · rfl

theorem enableSite_left (hj : s.breakpointSites[j]? = some site) (hoff : site.isEnabled = false)
    (hdone : enableSite j s = .ok () s') (sites : List BreakpointSite) :
    TakesSwitches true s' sites ↔ TakesSwitches true s (leftAfter site sites) := by
  obtain ⟨l₁, l₂, hsplit, rfl⟩ := Splits.exists_split hj
  unfold leftAfter
  split_ifs with hhw
  · unfold enableSite at hdone
    rw [bind_ok (siteAt_split hsplit), if_neg (by simp [hoff]), if_pos hhw] at hdone
    obtain ⟨index, s₁, hset, hrest⟩ := bind_eq_ok.mp hdone
    obtain ⟨_, s₂, hindex, henabled⟩ := bind_eq_ok.mp hrest
    cases hindex
    cases henabled
    obtain ⟨-, i, s₂, hset', hleft⟩ | ⟨-, e, s₂, hfail⟩ := setHardwareBreakpoint_ends (s := s) site
    · cases hset.symm.trans hset'
      rw [← hleft]
      exact takesSwitches_congr rfl rfl rfl rfl rfl rfl
    · cases hset.symm.trans hfail
  · have hmapped : s.memory.isMapped site.address 8 = true := by
      by_contra hunmapped
      have hstays : StaysOff l₁.length site s := ⟨site, hj, rfl, hoff⟩
      have hcannot : ¬ CanEnable s site := by
        unfold CanEnable
        rwa [if_neg hhw]
      obtain ⟨e, s₁, hfail, -⟩ := enableSite_of_not_can hstays hcannot
      cases hdone.symm.trans hfail
    rw [enableSite_eq hsplit hmapped (by simpa using hhw) hoff] at hdone
    cases hdone
    exact takesSwitches_congr rfl rfl rfl rfl rfl rfl

theorem switches_enableSite (hj : s.breakpointSites[j]? = some site)
    (hoff : site.isEnabled = false) : Switches true (enableSite j) j site s := by
  have hstays : StaysOff j site s := ⟨site, hj, rfl, hoff⟩
  unfold Switches
  rw [← canEnable_iff]
  by_cases hcan : CanEnable s site
  · obtain ⟨s', henable, hswitch⟩ := enableSite_of_can hstays hcan
    exact .inr ⟨hcan, s', henable, hswitch, enableSite_left hj hoff henable⟩
  · obtain ⟨e, s', hfail, hsites, -⟩ := enableSite_of_not_can hstays hcan
    exact .inl ⟨hcan, e, s', hfail, hsites⟩

theorem disableSite_hardware (hj : s.breakpointSites[j]? = some site)
    (hon : site.isEnabled = true) (hhw : site.isHardware = true) :
    (¬ TakesSwitches false s [site] ∧ ∃ e s', disableSite j s = .error e s') ∨
    TakesSwitches false s [site] ∧ ∃ s', disableSite j s = .ok () s' ∧
      ∀ sites, TakesSwitches false s' sites ↔ TakesSwitches false s (site :: sites) := by
  obtain ⟨l₁, l₂, hsplit, rfl⟩ := Splits.exists_split hj
  unfold disableSite
  rw [bind_ok (siteAt_split hsplit), if_neg (by simp [hon]), if_pos hhw, takesSwitches_clear]
  obtain ⟨htakes, c, i, s₁, hc, hindex, hi, hclear, hwritten⟩ | ⟨hno, e, s₁, hclear⟩ :=
    clearHardwareStoppoint_ends (s := s) site.hardwareRegisterIndex
  · right
    have hslot : slotSwitch false c site = some (i, clearSlot c i) := by
      rw [slotSwitch, if_neg (by simp), hindex, if_pos ⟨by omega, by omega⟩, Int.toNat_natCast]
    refine ⟨htakes, _, bind_ok hclear, fun sites => ?_⟩
    rw [← SlotWritten.takesSwitches site hc hslot hwritten]
    exact takesSwitches_congr rfl rfl rfl rfl rfl rfl
  · exact .inl ⟨hno, e, s₁, bind_error hclear⟩

theorem disableSite_software (hj : s.breakpointSites[j]? = some site)
    (hon : site.isEnabled = true) (hsw : site.isHardware = false) :
    (¬ s.memory.isMapped site.address 8 = true ∧ ∃ e s', disableSite j s = .error e s') ∨
    s.memory.isMapped site.address 8 = true ∧ ∃ s', disableSite j s = .ok () s' ∧
      ∀ sites, TakesSwitches false s' sites ↔ TakesSwitches false s sites := by
  obtain ⟨l₁, l₂, hsplit, rfl⟩ := Splits.exists_split hj
  by_cases hmapped : s.memory.isMapped site.address 8 = true
  · exact .inr ⟨hmapped, _, disableSite_eq hsplit hmapped hsw hon,
      fun _ => takesSwitches_congr rfl rfl rfl rfl rfl rfl⟩
  · left
    refine ⟨hmapped, .raised "Disabling breakpoint site failed\n", s, ?_⟩
    unfold disableSite
    rw [bind_ok (siteAt_split hsplit), if_neg (by simp [hon]), if_neg (by simp [hsw])]
    exact bind_error (peekData_error hmapped)

theorem switches_disableSite (hj : s.breakpointSites[j]? = some site)
    (hon : site.isEnabled = true) : Switches false (disableSite j) j site s := by
  have hends : (¬ Switchable false s site ∧ ∃ e s', disableSite j s = .error e s') ∨
      Switchable false s site ∧ ∃ s', disableSite j s = .ok () s' ∧
        ∀ sites, TakesSwitches false s' sites ↔ TakesSwitches false s (leftAfter site sites) := by
    unfold Switchable leftAfter
    by_cases hhw : site.isHardware = true
    · simp only [if_pos hhw]
      exact disableSite_hardware hj hon hhw
    · simp only [if_neg hhw]
      exact disableSite_software hj hon (by simpa using hhw)
  obtain ⟨hno, e, s₁, hfail⟩ | ⟨hcan, s₁, hdone, hleft⟩ := hends
  · obtain ⟨e', s₂, hfail', hsites, -⟩ | ⟨s₂, hdone', -⟩ := disableSite_cases hj hon
    · exact .inl ⟨hno, e', s₂, hfail', hsites⟩
    · cases hfail.symm.trans hdone'
  · obtain ⟨e, s₂, hfail', -⟩ | ⟨s₂, hdone', hswitch⟩ := disableSite_cases hj hon
    · cases hdone.symm.trans hfail'
    · obtain rfl : s₁ = s₂ := by
        cases hdone.symm.trans hdone'
        rfl
      exact .inr ⟨hcan, s₁, hdone, hswitch, hleft⟩

end KDebugger.Process
