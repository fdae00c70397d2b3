import KDebugger.Process.SwitchPlans
import KDebugger.Target.FunctionSites

namespace KDebugger.Target

open Exec

variable {t t' : Target} {on on' : Bool} {o p : ℕ} {l : List ℕ}

def member (t : Target) (object : ℕ) : Option BreakpointSite :=
  (t.siteObjects.idxOf? object).bind fun i => t.process.breakpointSites[i]?

def enabledOf (t : Target) (object : ℕ) : Option Bool := (t.member object).map (·.isEnabled)

/-- The flag of a breakpoint and the states of its sites are those of before. -/
structure SameStates (i : ℕ) (b : Breakpoint) (t t' : Target) : Prop where
  flag : t'.breakpoints[i]?.map (·.isEnabled) = some b.isEnabled
  sites : ∀ o ∈ b.sites, t'.enabledOf o = t.enabledOf o

/-- Whatever ends the call before it returns, nothing has been switched. -/
def LeavesStates (i : ℕ) (b : Breakpoint) (t : Target) (p : TargetM Unit) : Prop :=
  ∀ e t', p t = .error e t' → SameStates i b t t'

/-- A site that needs a debug register to be switched. -/
def waits (on : Bool) (t : Target) (object : ℕ) : Bool :=
  (t.member object).any fun site => site.isHardware && site.isEnabled != on

/-- Those sites in the order in which they come first. -/
def waitingSites (on : Bool) (t : Target) (objects : List ℕ) : List BreakpointSite :=
  (objects.filter (waits on t)).eraseDups.filterMap t.member

/-- All of the sites can be switched, one after another. -/
structure AllSwitch (on : Bool) (t : Target) (objects : List ℕ) : Prop where
  sites : ∀ o ∈ objects, ∃ site, t.member o = some site ∧ (site.isEnabled = on ∨
    site.isHardware = true ∨ t.process.memory.isMapped site.address 8 = true)
  registers : Process.TakesSwitches on t.process (waitingSites on t objects)

/-- The first of the sites that is not as it is to be cannot be switched. -/
def FirstFails (on : Bool) (can : Target → List ℕ → Prop) (t : Target) (objects : List ℕ) : Prop :=
  ∃ l₁ o l₂, objects = l₁ ++ o :: l₂ ∧ (∀ p ∈ l₁, t.enabledOf p = some on) ∧ ¬ can t [o]

/-- What a turn leaves, where it switches its site. -/
structure SwitchedTo (on : Bool) (o : ℕ) (t t' : Target) : Prop where
  breakpoints : t'.breakpoints = t.breakpoints
  self : t'.enabledOf o = some on
  others : ∀ p, p ≠ o → t'.member p = t.member p

/-- What it leaves where it fails. -/
structure NotSwitched (t t' : Target) : Prop where
  breakpoints : t'.breakpoints = t.breakpoints
  sites : ∀ p, t'.enabledOf p = t.enabledOf p

/-- `act` switches a site to `on`, and `can` says of which lists it can switch all. -/
structure Switching (on : Bool) (act : ℕ → TargetM Unit) (can : Target → List ℕ → Prop) :
    Prop where
  nil : ∀ t, can t []
  already : ∀ {t o}, t.enabledOf o = some on →
    act o t = .ok () t ∧ ∀ l, can t (o :: l) ↔ can t l
  turn : ∀ {t o}, t.enabledOf o ≠ some on →
    (∃ t', act o t = .ok () t' ∧ SwitchedTo on o t t' ∧ ∀ l, can t (o :: l) ↔ can t' l) ∨
    ∃ e t', act o t = .error e t' ∧ NotSwitched t t' ∧ ∀ l, ¬ can t (o :: l)

theorem SwitchedTo.enabledOf (h : SwitchedTo on o t t') (p : ℕ) :
    t'.enabledOf p = if p = o then some on else t.enabledOf p := by
  by_cases hp : p = o
  · rw [if_pos hp, hp]
    exact h.self
  · rw [if_neg hp, Target.enabledOf, h.others p hp]
    rfl

/-- The sites of a list are switched, and no others. -/
structure SwitchedAll (on : Bool) (l : List ℕ) (t t' : Target) : Prop where
  breakpoints : t'.breakpoints = t.breakpoints
  sites : ∀ p, t'.enabledOf p = if p ∈ l then some on else t.enabledOf p

theorem SwitchedAll.already (h : SwitchedAll on l t t') (ho : t.enabledOf o = some on) :
    SwitchedAll on (o :: l) t t' where
  breakpoints := h.breakpoints
  sites q := by
    rw [h.sites q]
    by_cases hq : q = o
    · simp [hq, ho]
    · simp [hq]

theorem SwitchedAll.cons {t₁ : Target} (h : SwitchedAll on l t₁ t') (ho : SwitchedTo on o t t₁) :
    SwitchedAll on (o :: l) t t' where
  breakpoints := h.breakpoints.trans ho.breakpoints
  sites q := by
    rw [h.sites q, ho.enabledOf q]
    by_cases hq : q = o
    · simp [hq]
    · simp [hq]

section Switching

variable {act : ℕ → TargetM Unit} {can : Target → List ℕ → Prop} (h : Switching on act can)

include h

theorem Switching.run : ∀ (l : List ℕ) (t : Target),
    (can t l ∧ ∃ t', l.forM act t = .ok () t' ∧ SwitchedAll on l t t') ∨
    ¬ can t l ∧ ∃ l₁ o l₂ e t', l = l₁ ++ o :: l₂ ∧ l.forM act t = .error e t' ∧
      SwitchedAll on l₁ t t' ∧ ((∀ p ∈ l₁, t.enabledOf p = some on) → ¬ can t [o]) := by
  intro l
  induction l with
  | nil => exact fun t => .inl ⟨h.nil t, t, rfl, rfl, fun p => by simp⟩
  | cons o l ih =>
    intro t
    have hfor : (o :: l).forM act t = (act o >>= fun _ => l.forM act) t := rfl
    by_cases hon : t.enabledOf o = some on
    · obtain ⟨hact, hcan⟩ := h.already hon
      rw [hcan, hfor, bind_ok hact]
      obtain ⟨hall, t', hdone, hswitched⟩ | ⟨hno, l₁, p, l₂, e, t', rfl, hfail, hswitched, hfirst⟩ :=
        ih t
      · exact .inl ⟨hall, t', hdone, hswitched.already hon⟩
      · exact .inr ⟨hno, o :: l₁, p, l₂, e, t', rfl, hfail, hswitched.already hon,
          fun hkept => hfirst fun q hq => hkept q (List.mem_cons_of_mem o hq)⟩
    · obtain ⟨t₁, hact, hto, hcan⟩ | ⟨e, t₁, hact, hnot, hcan⟩ := h.turn hon
      · rw [hcan, hfor, bind_ok hact]
        obtain ⟨hall, t', hdone, hswitched⟩ | ⟨hno, l₁, p, l₂, e, t', rfl, hfail, hswitched, -⟩ := ih t₁
        · exact .inl ⟨hall, t', hdone, hswitched.cons hto⟩
        · exact .inr ⟨hno, o :: l₁, p, l₂, e, t', rfl, hfail, hswitched.cons hto,
            fun hkept => absurd (hkept o List.mem_cons_self) hon⟩
      · refine .inr ⟨hcan l, [], o, l, e, t₁, rfl, hfor.trans (bind_error hact), ?_, fun _ => hcan []⟩
        exact ⟨hnot.breakpoints, fun q => by simpa using hnot.sites q⟩

/-- Where the first site that would be switched cannot be, the list is left as it was. -/
theorem Switching.fails_first {l₁ : List ℕ} (l₂ : List ℕ) (hall : ∀ p ∈ l₁, t.enabledOf p = some on)
    (hno : ¬ can t [o]) :
    ∃ e t', (l₁ ++ o :: l₂).forM act t = .error e t' ∧ NotSwitched t t' := by
  induction l₁ with
  | nil =>
    have hoff : t.enabledOf o ≠ some on := by
      intro hon
      exact hno (((h.already hon).2 []).mpr (h.nil t))
    obtain ⟨t₁, -, -, hcan⟩ | ⟨e, t₁, hact, hnot, -⟩ := h.turn hoff
    · exact absurd ((hcan []).mpr (h.nil t₁)) hno
    · exact ⟨e, t₁, bind_error hact, hnot⟩
  | cons p l₁ ih =>
    obtain ⟨e, t', hfail, hnot⟩ := ih fun q hq => hall q (List.mem_cons_of_mem p hq)
    exact ⟨e, t', (bind_ok (h.already (hall p List.mem_cons_self)).1).trans hfail, hnot⟩

/-- The flag is set before the loop, so that nothing is to be undone only where nothing was
done. -/
theorem Switching.leaves_iff {i : ℕ} (b : Breakpoint) (flagged : Target)
    (hsites : flagged.enabledOf = t.enabledOf)
    (hcan : ∀ l, can flagged l ↔ can t l)
    (hflag : flagged.breakpoints[i]?.map (·.isEnabled) = some on) {p : TargetM Unit}
    (hp : p t = b.sites.forM act flagged) :
    LeavesStates i b t p ↔ can t b.sites ∨ b.isEnabled = on ∧ FirstFails on can t b.sites := by
  -- the flag is set first, and what fails leaves it so
  constructor
  · intro hleaves
    by_contra hno
    push Not at hno
    obtain ⟨hall, -⟩ | ⟨-, l₁, o, l₂, e, t', hsplit, hfail, hat, hfirst⟩ := h.run b.sites flagged
    · exact hno.1 ((hcan _).mp hall)
    · have hsame := hleaves e t' (hp.trans hfail)
      have hon : b.isEnabled = on := by
        have hflags := hsame.flag
        rw [hat.breakpoints, hflag] at hflags
        exact (Option.some.inj hflags).symm
      have hkept : ∀ q ∈ l₁, t.enabledOf q = some on := by
        intro q hq
        have hmem : q ∈ b.sites := by
          rw [hsplit]
          exact List.mem_append_left _ hq
        rw [← hsame.sites q hmem, hat.sites q, if_pos hq]
      refine hno.2 hon ⟨l₁, o, l₂, hsplit, hkept, fun hone => ?_⟩
      exact hfirst (by rwa [hsites]) ((hcan [o]).mpr hone)
  · rintro (hall | ⟨hon, l₁, o, l₂, hsplit, hkept, hone⟩) e t' hfail
    · obtain ⟨-, t₁, hdone, -⟩ | ⟨hno, -⟩ := h.run b.sites flagged
      · rw [hp, hdone] at hfail
        cases hfail
      · exact absurd ((hcan _).mpr hall) hno
    · rw [← hcan] at hone
      rw [← hsites] at hkept
      obtain ⟨e', t₁, hfirst, hnot⟩ := h.fails_first l₂ hkept hone
      rw [hp, hsplit, hfirst] at hfail
      cases hfail
      refine ⟨?_, fun q _ => ?_⟩
      · rw [hnot.breakpoints, hflag, hon]
      · rw [hnot.sites q, hsites]

end Switching

variable {i : ℕ} {s' : Process} {site : BreakpointSite}

theorem member_of_index (hi : t.siteObjects.idxOf? o = some i) :
    t.member o = t.process.breakpointSites[i]? := by
  unfold member
  rw [hi]
  rfl

theorem siteIndex_ok (hi : t.siteObjects.idxOf? o = some i) : siteIndex o t = .ok i t := by
  unfold siteIndex
  rw [bind_ok (get_eq t), hi]
  rfl

theorem siteIndex_none (hi : t.siteObjects.idxOf? o = none) :
    siteIndex o t = .error .undefined { t with usedDestroyed := true } := by
  unfold siteIndex
  rw [bind_ok (get_eq t), hi]
  rfl

theorem onProcess_error {α : Type} {p : Process.M α} {e : Failure}
    (h : p t.process = .error e s') : onProcess p t = .error e { t with process := s' } := by
  unfold onProcess
  rw [h]

theorem idxOf?_ne {objects : List ℕ} {i j : ℕ} (hi : objects.idxOf? o = some i)
    (hj : objects.idxOf? p = some j) (hne : p ≠ o) : j ≠ i := by
  rintro rfl
  obtain ⟨hlt, ho, -⟩ := List.idxOf?_eq_some_iff.mp hi
  obtain ⟨_, hp, -⟩ := List.idxOf?_eq_some_iff.mp hj
  exact hne (hp.symm.trans ho)

theorem member_switched (hi : t.siteObjects.idxOf? o = some i)
    (hswitch : Process.Switched on i t.process s') (hne : p ≠ o) :
    ({ t with process := s' } : Target).member p = t.member p := by
  change (t.siteObjects.idxOf? p).bind _ = (t.siteObjects.idxOf? p).bind _
  cases hp : t.siteObjects.idxOf? p with
  | none => rfl
  | some j => exact hswitch.getElem?_of_ne (idxOf?_ne hi hp hne)

theorem switchedTo_of_switched (hi : t.siteObjects.idxOf? o = some i)
    (hswitch : Process.Switched on i t.process s') : SwitchedTo on o t { t with process := s' } where
  breakpoints := rfl
  self := by
    obtain ⟨l₁, x, x', l₂, -, rfl, hsites, -, hon, -⟩ := hswitch.sites
    unfold enabledOf
    rw [member_of_index (t := { t with process := s' }) hi]
    simp [hsites, hon]
  others _ hne := member_switched hi hswitch hne

theorem notSwitched_of_sites (hsites : s'.breakpointSites = t.process.breakpointSites) :
    NotSwitched t { t with process := s' } where
  breakpoints := rfl
  sites p := by
    unfold enabledOf member
    rw [hsites]

theorem act_cases (act : ℕ → Process.M Unit) (object : ℕ) (t : Target)
    (hat : ∀ i, t.process.breakpointSites[i]? = none →
      act i t.process = .error .undefined t.process) :
    (t.member object = none ∧ ∃ e t', (siteIndex object >>= fun i => onProcess (act i)) t =
      .error e t' ∧ NotSwitched t t') ∨
    ∃ i site, t.siteObjects.idxOf? object = some i ∧ t.process.breakpointSites[i]? = some site ∧
      t.member object = some site ∧
      (siteIndex object >>= fun i => onProcess (act i)) t = onProcess (act i) t := by
  cases hi : t.siteObjects.idxOf? object with
  | none =>
    left
    refine ⟨?_, _, _, bind_error (siteIndex_none hi), rfl, fun p => rfl⟩
    unfold member
    rw [hi]
    rfl
  | some i =>
    rw [bind_ok (siteIndex_ok hi), member_of_index hi]
    cases hsite : t.process.breakpointSites[i]? with
    | none => exact .inl ⟨rfl, _, _, onProcess_error (hat i hsite), notSwitched_of_sites rfl⟩
    | some site => exact .inr ⟨i, site, rfl, hsite, rfl, rfl⟩

theorem isMapped_of_switched (hswitch : Process.Switched on i t.process s') (a : VirtAddr) (n : ℕ) :
    s'.memory.isMapped a n = t.process.memory.isMapped a n := by
  obtain ⟨l₁, x, x', l₂, -, -, -, -, -, b, hmemory, -⟩ := hswitch.sites
  rw [hmemory]
  rfl

theorem enabledOf_of_member {object : ℕ} (h : t.member object = some site) :
    t.enabledOf object = some site.isEnabled := by
  unfold enabledOf
  rw [h]
  rfl

theorem SwitchedTo.member (h : SwitchedTo on o t t') : ∃ site, t'.member o = some site ∧
    site.isEnabled = on := by
  have hself := h.self
  unfold Target.enabledOf at hself
  exact Option.map_eq_some_iff.mp hself

theorem waits_of_member {object : ℕ} (h : t.member object = some site) :
    waits on t object = (site.isHardware && site.isEnabled != on) := by
  unfold waits
  rw [h]
  rfl

theorem waitingSites_skip (h : waits on t o = false) (l : List ℕ) :
    waitingSites on t (o :: l) = waitingSites on t l := by
  unfold waitingSites
  rw [List.filter_cons_of_neg (by simp [h])]

theorem SwitchedTo.waitingSites (h : SwitchedTo on o t t') (hmember : t.member o = some site)
    (hoff : site.isEnabled ≠ on) (l : List ℕ) :
    waitingSites on t (o :: l) = Process.leftAfter site (waitingSites on t' l) := by
  obtain ⟨site', hsite', hon⟩ := h.member
  have hself : waits on t' o = false := by
    rw [waits_of_member hsite', hon]
    simp
  have hwaits (p : ℕ) (hp : p ≠ o) : waits on t' p = waits on t p := by
    unfold waits
    rw [h.others p hp]
  have hfirst : waits on t o = site.isHardware := by
    rw [waits_of_member hmember]
    simp [hoff]
  have hfilter : l.filter (waits on t') = (l.filter (waits on t)).filter (!· == o) := by
    rw [List.filter_filter]
    apply List.filter_congr
    intro p _
    by_cases hp : p = o
    · simp [hp, hself]
    · simp [hp, hwaits p hp]
  have hothers : (l.filter (waits on t')).eraseDups.filterMap t'.member =
      (l.filter (waits on t')).eraseDups.filterMap t.member := by
    apply List.filterMap_congr
    intro p hp
    apply h.others p
    rintro rfl
    simp [List.mem_eraseDups, hself] at hp
  unfold Target.waitingSites Process.leftAfter
  rw [hothers, hfilter]
  split_ifs with hhw
  · rw [List.filter_cons_of_pos (hfirst.trans hhw), List.eraseDups_cons, List.filterMap_cons,
      hmember]
  · have hno : waits on t o = false := by simpa [hfirst] using hhw
    have hsame : (l.filter (waits on t)).filter (!· == o) = l.filter (waits on t) := by
      apply List.filter_eq_self.mpr
      intro p hp
      have hne : p ≠ o := by
        rintro rfl
        simp [hno] at hp
      simpa using hne
    rw [List.filter_cons_of_neg (by simp [hno]), hsame]

theorem allSwitch_nil (on : Bool) (t : Target) : AllSwitch on t [] :=
  ⟨by simp, Process.takesSwitches_nil on t.process⟩

theorem allSwitch_already (hmember : t.member o = some site) (hon : site.isEnabled = on)
    (l : List ℕ) : AllSwitch on t (o :: l) ↔ AllSwitch on t l := by
  have hwaits : waits on t o = false := by simp [waits_of_member hmember, hon]
  constructor
  · intro hall
    refine ⟨fun p hp => hall.sites p (List.mem_cons_of_mem o hp), ?_⟩
    rw [← waitingSites_skip hwaits]
    exact hall.registers
  · intro hall
    refine ⟨List.forall_mem_cons.mpr ⟨⟨site, hmember, .inl hon⟩, hall.sites⟩, ?_⟩
    rw [waitingSites_skip hwaits]
    exact hall.registers

theorem allSwitch_cons (hmember : t.member o = some site) (hoff : site.isEnabled ≠ on)
    (hcan : Process.Switchable on t.process site) (h : SwitchedTo on o t t')
    (hmapped : ∀ a n, t'.process.memory.isMapped a n = t.process.memory.isMapped a n)
    (hleft : ∀ sites, Process.TakesSwitches on t'.process sites ↔
      Process.TakesSwitches on t.process (Process.leftAfter site sites)) (l : List ℕ) :
    AllSwitch on t (o :: l) ↔ AllSwitch on t' l := by
  have hregisters : Process.TakesSwitches on t.process (waitingSites on t (o :: l)) ↔
      Process.TakesSwitches on t'.process (waitingSites on t' l) := by
    rw [hleft, h.waitingSites hmember hoff]
  constructor
  · intro hall
    refine ⟨fun p hp => ?_, hregisters.mp hall.registers⟩
    by_cases hpo : p = o
    · obtain ⟨site', hsite', hon⟩ := h.member
      exact ⟨site', hpo ▸ hsite', .inl hon⟩
    · rw [h.others p hpo]
      simpa only [hmapped] using hall.sites p (List.mem_cons_of_mem o hp)
  · intro hall
    refine ⟨fun p hp => ?_, hregisters.mpr hall.registers⟩
    by_cases hpo : p = o
    · refine ⟨site, hpo ▸ hmember, .inr ?_⟩
      unfold Process.Switchable at hcan
      split_ifs at hcan with hhw
      · exact .inl hhw
      · exact .inr hcan
    · have hp' := hall.sites p ((List.mem_cons.mp hp).resolve_left hpo)
      rw [h.others p hpo] at hp'
      simpa only [hmapped] using hp'

theorem not_allSwitch (hmember : t.member o = some site) (hoff : site.isEnabled ≠ on)
    (hcannot : ¬ Process.Switchable on t.process site) (l : List ℕ) :
    ¬ AllSwitch on t (o :: l) := by
  intro hall
  obtain ⟨site', hsite', hready⟩ := hall.sites o List.mem_cons_self
  obtain rfl : site = site' := Option.some.inj (hmember.symm.trans hsite')
  unfold Process.Switchable at hcannot
  split_ifs at hcannot with hhw
  · have hwaits : waits on t o = true := by simp [waits_of_member hmember, hhw, hoff]
    have hregisters := hall.registers
    unfold waitingSites at hregisters
    rw [List.filter_cons_of_pos hwaits, List.eraseDups_cons, List.filterMap_cons, hmember]
      at hregisters
    exact Process.not_takesSwitches_cons hcannot _ hregisters
  · obtain hon | hhw' | hmapped := hready
    · exact hoff hon
    · exact hhw hhw'
    · exact hcannot hmapped

theorem switching_of (act : ℕ → Process.M Unit)
    (habsent : ∀ (s : Process) j, s.breakpointSites[j]? = none → act j s = .error .undefined s)
    (halready : ∀ (s : Process) j site, s.breakpointSites[j]? = some site →
      site.isEnabled = on → act j s = .ok () s)
    (hswitches : ∀ (s : Process) j site, s.breakpointSites[j]? = some site →
      site.isEnabled ≠ on → Process.Switches on (act j) j site s) :
    Switching on (fun object => siteIndex object >>= fun i => onProcess (act i)) (AllSwitch on)
    where
  nil := allSwitch_nil on
  already := by
    intro t o hon
    obtain ⟨hmember, -⟩ | ⟨i, site, -, hsite, hmember, hact⟩ :=
      act_cases act o t fun i => habsent t.process i
    · simp [enabledOf, hmember] at hon
    rw [enabledOf_of_member hmember] at hon
    have henabled := Option.some.inj hon
    exact ⟨hact.trans (onProcess_ok (halready t.process i site hsite henabled)),
      allSwitch_already hmember henabled⟩
  turn := by
    intro t o hoff
    obtain ⟨hmember, e, t', hfail, hnot⟩ | ⟨i, site, hi, hsite, hmember, hact⟩ :=
      act_cases act o t fun i => habsent t.process i
    · refine .inr ⟨e, t', hfail, hnot, fun l hall => ?_⟩
      obtain ⟨site, hsite, -⟩ := hall.sites o List.mem_cons_self
      cases hmember.symm.trans hsite
    have hother : site.isEnabled ≠ on := by
      rintro hon
      exact hoff ((enabledOf_of_member hmember).trans (congrArg some hon))
    obtain ⟨hcannot, e, s', hfail, hsites⟩ | ⟨hcan, s', hdone, hswitch, hleft⟩ :=
      hswitches t.process i site hsite hother
    · exact .inr ⟨e, _, hact.trans (onProcess_error hfail), notSwitched_of_sites hsites,
        not_allSwitch hmember hother hcannot⟩
    · have hto := switchedTo_of_switched hi hswitch
      exact .inl ⟨_, hact.trans (onProcess_ok hdone), hto,
        allSwitch_cons hmember hother hcan hto (isMapped_of_switched hswitch) hleft⟩

theorem switching_enable : Switching true enableSite (AllSwitch true) := by
  refine switching_of Process.enableSite (fun s j h => bind_error (Process.siteAt_error h))
    (fun s j site hj hon => ?_)
    fun s j site hj hoff => Process.switches_enableSite hj (by simpa using hoff)
  unfold Process.enableSite
  rw [bind_ok (Process.siteAt_ok hj), if_pos hon]
  rfl

theorem switching_disable : Switching false disableSite (AllSwitch false) := by
  refine switching_of Process.disableSite (fun s j h => bind_error (Process.siteAt_error h))
    (fun s j site hj hoff => ?_)
    fun s j site hj hon => Process.switches_disableSite hj (by simpa using hon)
  unfold Process.disableSite
  rw [bind_ok (Process.siteAt_ok hj), if_pos hoff]
  rfl

def flagged (on : Bool) (i : ℕ) (t : Target) : Target :=
  { t with breakpoints := t.breakpoints.modify i fun b => { b with isEnabled := on } }

theorem allSwitch_flagged (i : ℕ) (l : List ℕ) :
    AllSwitch on (flagged on' i t) l ↔ AllSwitch on t l :=
  ⟨fun h => ⟨h.sites, h.registers⟩, fun h => ⟨h.sites, h.registers⟩⟩

theorem flagged_breakpoint {b : Breakpoint} (hi : t.breakpoints[i]? = some b) (on : Bool) :
    (flagged on i t).breakpoints[i]? = some { b with isEnabled := on } := by
  simp [flagged, hi]

theorem breakpointAt_ok {b : Breakpoint} (hi : t.breakpoints[i]? = some b) :
    breakpointAt i t = .ok b t := by
  unfold breakpointAt
  rw [bind_ok (get_eq t), hi]
  rfl

theorem enableBreakpoint_eq {b : Breakpoint} (hi : t.breakpoints[i]? = some b) :
    enableBreakpoint i t = b.sites.forM enableSite (flagged true i t) := by
  unfold enableBreakpoint
  have hflag : modifyBreakpoint i (fun b => { b with isEnabled := true }) t =
    .ok () (flagged true i t) := rfl
  rw [bind_ok hflag, bind_ok (breakpointAt_ok (flagged_breakpoint hi true))]

theorem disableBreakpoint_eq {b : Breakpoint} (hi : t.breakpoints[i]? = some b) :
    disableBreakpoint i t = b.sites.forM disableSite (flagged false i t) := by
  unfold disableBreakpoint
  have hflag : modifyBreakpoint i (fun b => { b with isEnabled := false }) t =
    .ok () (flagged false i t) := rfl
  rw [bind_ok hflag, bind_ok (breakpointAt_ok (flagged_breakpoint hi false))]

theorem leavesStates_iff (t : Target) (i : Fin t.breakpoints.length) :
    (LeavesStates i t.breakpoints[i] t (enableBreakpoint i) ↔
      AllSwitch true t t.breakpoints[i].sites ∨ t.breakpoints[i].isEnabled = true ∧
        FirstFails true (AllSwitch true) t t.breakpoints[i].sites) ∧
    (LeavesStates i t.breakpoints[i] t (disableBreakpoint i) ↔
      AllSwitch false t t.breakpoints[i].sites ∨ t.breakpoints[i].isEnabled = false ∧
        FirstFails false (AllSwitch false) t t.breakpoints[i].sites) := by
  have hi : t.breakpoints[(i : ℕ)]? = some t.breakpoints[i] := by simp
  constructor
  · exact switching_enable.leaves_iff (t := t) t.breakpoints[i] (flagged true i t) rfl
      (allSwitch_flagged i)
      (by rw [flagged_breakpoint hi]; rfl) (enableBreakpoint_eq hi)
  · exact switching_disable.leaves_iff (t := t) t.breakpoints[i] (flagged false i t) rfl
      (allSwitch_flagged i)
      (by rw [flagged_breakpoint hi]; rfl) (disableBreakpoint_eq hi)

/-- A breakpoint with two sites, the memory of the second one no longer there. -/
def halfMapped : Target :=
  { stoppedTarget stripped with
    process :=
      { Process.untouched with
        memory := ⟨fun _ => 0#8, fun a => a < 0x2000#64⟩
        breakpointSites :=
          [{ id := 1#32, address := 0x1000#64, isHardware := false, isInternal := false },
            { id := 2#32, address := 0x2000#64, isHardware := false, isInternal := false }] }
    siteObjects := [1, 2]
    objects := 3
    breakpoints := [{ onF with sites := [1, 2] }] }

/-- Enabling it raises at the second site, with the flag set and the first site enabled. -/
theorem leavesStates_not_for_all : ¬ ∀ (t : Target) (i : Fin t.breakpoints.length),
    LeavesStates i t.breakpoints[i] t (enableBreakpoint i) ∧
      LeavesStates i t.breakpoints[i] t (disableBreakpoint i) := by
  intro h
  have hends : ∃ e t', enableBreakpoint 0 halfMapped = .error e t' ∧
      t'.breakpoints[0]?.map (·.isEnabled) = some true := ⟨_, _, rfl, rfl⟩
  obtain ⟨e, t', hfail, hflag⟩ := hends
  have hsame := (h halfMapped ⟨0, by decide⟩).1 e t' hfail
  have hflags := hflag.symm.trans hsame.flag
  exact absurd hflags (by decide)

end KDebugger.Target
