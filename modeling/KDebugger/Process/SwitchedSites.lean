import KDebugger.Process.GuardedRuns

namespace KDebugger.Process

open Exec Memory KDebugger.Splits StoppointCollection

variable {O : Outside} {s s' : Process} {i : ℕ} {site : BreakpointSite}

/-- Sites at different addresses, and a trap at each enabled one whose memory is there. -/
structure TrapsHeld (s : Process) : Prop where
  distinct : (s.breakpointSites.map BreakpointSite.address).Nodup
  trap : ∀ site ∈ s.breakpointSites, Armed site → s.memory.isMapped site.address 8 = true →
    s.memory.byte site.address = 0xcc#8

/-- A thread that runs may write memory, and unmap it as by its exit, but writes over no
trap. -/
structure RunsOn (s s' : Process) : Prop where
  same : s' = { s with memory := s'.memory }
  traps : ∀ a, ArmedAt s a → s'.memory.isMapped a 8 = true →
    s.memory.isMapped a 8 = true ∧ s'.memory.byte a = s.memory.byte a

/-- A callback may create sites and enable those. -/
structure AddsSites (s s' : Process) : Prop where
  sites : ∃ new, s'.breakpointSites = s.breakpointSites ++ new
  held : TrapsHeld s → TrapsHeld s'

structure Outside.LeavesTraps (O : Outside) : Prop where
  cont : ∀ b t, Within RunsOn (O.cont b t)
  singleStep : ∀ t, Within RunsOn (O.singleStep t)

structure Outside.OnlyAddsSites (O : Outside) : Prop extends O.LeavesTraps where
  hooks : O.Hooks AddsSites

/-- What depends on sites and memory only. -/
structure Lasting (K : Process → Prop) : Prop where
  same : ∀ {s s' : Process}, s'.breakpointSites = s.breakpointSites → s'.memory = s.memory →
    K s → K s'
  runs : ∀ {s s' : Process}, RunsOn s s' → K s → K s'

/-- And does not depend on sites that are added. -/
structure Growing (K : Process → Prop) : Prop extends Lasting K where
  adds : ∀ {s s' : Process}, AddsSites s s' → K s → K s'

namespace Lasting

variable {K : Process → Prop} (hK : Lasting K)

include hK

theorem waitpid (toAwait : Option Tid) : Within (fun s s' => K s → K s') (waitpid toAwait) := by
  intro s hs
  obtain hblocked | ⟨i, e, -, -, hwait⟩ := waitpid_cases toAwait s
  · rwa [after, hblocked]
  · rw [after, hwait]
    exact hK.same (s := s) rfl rfl hs

variable (hO : O.LeavesTraps)

include hO

theorem steps : O.Steps fun s s' => K s → K s' where
  frame := keeps K
  continued _ _ := hK.same rfl rfl
  stepped _ _ := hK.same rfl rfl
  cont _ _ s := hK.runs (hO.cont _ _ s)
  singleStep t s := hK.runs (hO.singleStep t s)
  waitpid := hK.waitpid
  modifyThread _ _ _ := hK.same rfl rfl

theorem sendContinue (tid : Tid) : Within (fun s s' => K s → K s') (sendContinue O tid) := by
  have hframe := keeps K
  apply hframe.bind hframe.get
  intro s
  apply hframe.bind (fun s => hK.runs (hO.cont _ _ s))
  intro _
  apply hframe.bind (fun _ => hK.same rfl rfl)
  intro _
  apply hframe.bind (within_threadAt hframe _)
  intro _
  exact hframe.bind (fun _ => hK.same rfl rfl) fun _ _ => hK.same rfl rfl

end Lasting

theorem Growing.turns {K : Process → Prop} (hK : Growing K) (hO : O.OnlyAddsSites) :
    (alone O).Turns O fun s s' => K s → K s' := by
  have hhooks : O.Hooks fun s s' => K s → K s' :=
    { notifyStop := fun reason s => hK.adds (hO.hooks.notifyStop reason s)
      notifyHit := fun parent s => hK.adds (hO.hooks.notifyHit parent s)
      lifecycle := fun reason s => hK.adds (hO.hooks.lifecycle reason s) }
  exact turns_alone (keeps K) (fun h => hK.same h.sites h.memory) hhooks hK.waitpid
    (fun _ _ => hK.same rfl rfl) fun _ _ => hK.same rfl rfl

/-- The sites at the addresses in `on` are there and enabled. -/
structure Kept (on : VirtAddr → Prop) (s : Process) : Prop extends TrapsHeld s where
  enabled : ∀ a, on a → TrapAt s.breakpointSites a

theorem held_growing : Growing TrapsHeld where
  same := by
    intro s s' hsites hmemory h
    refine ⟨?_, ?_⟩
    · rw [hsites]
      exact h.distinct
    · rw [hsites, hmemory]
      exact h.trap
  runs := by
    intro s s' hruns h
    have hsites : s'.breakpointSites = s.breakpointSites := by rw [hruns.same]
    refine ⟨?_, ?_⟩
    · rw [hsites]
      exact h.distinct
    · rw [hsites]
      intro site hmem harmed hmapped
      obtain ⟨hwas, hbyte⟩ := hruns.traps _ ⟨site, hmem, harmed, rfl⟩ hmapped
      rw [hbyte]
      exact h.trap site hmem harmed hwas
  adds := AddsSites.held

theorem kept_growing (on : VirtAddr → Prop) : Growing (Kept on) where
  same := by
    intro s s' hsites hmemory h
    refine ⟨held_growing.same hsites hmemory h.toTrapsHeld, ?_⟩
    rw [hsites]
    exact h.enabled
  runs := by
    intro s s' hruns h
    refine ⟨held_growing.runs hruns h.toTrapsHeld, ?_⟩
    rw [hruns.same]
    exact h.enabled
  adds := by
    intro s s' hadds h
    obtain ⟨new, hnew⟩ := hadds.sites
    refine ⟨hadds.held h.toTrapsHeld, fun a ha => ?_⟩
    obtain ⟨site, hmem, hsite⟩ := h.enabled a ha
    rw [hnew]
    exact ⟨site, List.mem_append_left _ hmem, hsite⟩

/-- The site is disabled, at its place. -/
def StaysOff (i : ℕ) (site : BreakpointSite) (s : Process) : Prop :=
  ∃ site', s.breakpointSites[i]? = some site' ∧ place site' = place site ∧ site'.isEnabled = false

theorem staysOff_growing (i : ℕ) (site : BreakpointSite) : Growing (StaysOff i site) where
  same hsites _ h := by
    unfold StaysOff
    rw [hsites]
    exact h
  runs hruns h := by
    unfold StaysOff
    rw [hruns.same]
    exact h
  adds := by
    rintro s s' hadds ⟨site', hi, hsite'⟩
    obtain ⟨new, hnew⟩ := hadds.sites
    refine ⟨site', ?_, hsite'⟩
    rw [hnew, List.getElem?_append_left (List.getElem?_eq_some_iff.mp hi).1]
    exact hi

/-- One site switched, and the byte at its address. -/
structure Switched (on : Bool) (i : ℕ) (s s' : Process) : Prop where
  sites : ∃ l₁ site site' l₂, s.breakpointSites = l₁ ++ site :: l₂ ∧ l₁.length = i ∧
    s'.breakpointSites = l₁ ++ site' :: l₂ ∧ place site' = place site ∧ site'.isEnabled = on ∧
    ∃ b, s'.memory = s.memory.setByte site.address b ∧ (Armed site' → b = 0xcc#8)

theorem address_of_place {x y : BreakpointSite} (h : place x = place y) : x.address = y.address :=
  congrArg (·.2.1) h

theorem Switched.held {on : Bool} (h : Switched on i s s') (hs : TrapsHeld s) : TrapsHeld s' := by
  obtain ⟨l₁, site, site', l₂, hsplit, rfl, hsplit', hplace, -, b, hmemory, hb⟩ := h.sites
  have haddr := address_of_place hplace
  have hdistinct := hs.distinct
  rw [hsplit] at hdistinct
  refine ⟨?_, ?_⟩
  · rw [hsplit']
    exact nodup_replace hdistinct haddr
  · rw [hsplit', hmemory]
    -- the byte is that of the switched site alone
    have hothers (x : BreakpointSite) (hx : x ∈ l₁ ++ l₂) (harmed : Armed x)
        (hmapped : s.memory.isMapped x.address 8 = true) :
        (s.memory.setByte site.address b).byte x.address = 0xcc#8 := by
      have hmem : x ∈ s.breakpointSites := by
        rw [hsplit]
        simp only [List.mem_append, List.mem_cons] at hx ⊢
        tauto
      simp only [setByte]
      rw [Function.update_of_ne (key_ne hdistinct x hx)]
      exact hs.trap x hmem harmed hmapped
    intro x hx harmed hmapped
    obtain hx | rfl | hx := List.mem_append.mp hx |>.imp_right List.mem_cons.mp
    · exact hothers x (List.mem_append_left _ hx) harmed hmapped
    · rw [haddr]
      simp only [setByte, Function.update_self]
      exact hb harmed
    · exact hothers x (List.mem_append_right _ hx) harmed hmapped

theorem Switched.staysOff (h : Switched false i s s') (hi : s.breakpointSites[i]? = some site) :
    StaysOff i site s' := by
  obtain ⟨l₁, x, x', l₂, hsplit, rfl, hsplit', hplace, hoff, -⟩ := h.sites
  obtain rfl : x = site := by simpa [hsplit] using hi
  exact ⟨x', by simp [hsplit'], hplace, hoff⟩

theorem Switched.trapAt {on : Bool} (h : Switched on i s s') (hi : s.breakpointSites[i]? = some site)
    {a : VirtAddr} (ha : TrapAt s.breakpointSites a) (hne : on = true ∨ a ≠ site.address) :
    TrapAt s'.breakpointSites a := by
  obtain ⟨l₁, x, x', l₂, hsplit, rfl, hsplit', hplace, hon, -⟩ := h.sites
  obtain rfl : x = site := by simpa [hsplit] using hi
  rw [hsplit, trapAt_split] at ha
  rw [hsplit', trapAt_split, address_of_place hplace, hon]
  rcases ha with ha | ⟨-, rfl⟩
  · exact .inl ha
  · rcases hne with rfl | hne
    · exact .inr ⟨rfl, rfl⟩
    · exact absurd rfl hne

theorem Switched.trapAt_self (h : Switched true i s s') (hi : s.breakpointSites[i]? = some site) :
    TrapAt s'.breakpointSites site.address := by
  obtain ⟨l₁, x, x', l₂, hsplit, rfl, hsplit', hplace, hon, -⟩ := h.sites
  obtain rfl : x = site := by simpa [hsplit] using hi
  exact ⟨x', by simp [hsplit'], hon, address_of_place hplace⟩

theorem setByte_self (m : Memory) (a : VirtAddr) : m.setByte a (m.byte a) = m := by simp [setByte]

theorem disableSite_cases (hi : s.breakpointSites[i]? = some site) (hon : site.isEnabled = true) :
    (∃ e s', disableSite i s = .error e s' ∧ s'.breakpointSites = s.breakpointSites ∧
      s'.memory = s.memory) ∨
    ∃ s', disableSite i s = .ok () s' ∧ Switched false i s s' := by
  obtain ⟨l₁, l₂, hsplit, rfl⟩ := exists_split hi
  by_cases hhw : site.isHardware = true
  · have hregisters := within_clearHardwareStoppoint site.hardwareRegisterIndex s
    unfold disableSite
    rw [bind_ok (siteAt_split hsplit), if_neg (by simp [hon]), if_pos hhw]
    cases hclear : clearHardwareStoppoint site.hardwareRegisterIndex s with
    | error e s₁ =>
      rw [after, hclear] at hregisters
      exact .inl ⟨e, s₁, bind_error hclear, hregisters.same.sites, hregisters.same.memory⟩
    | ok u s₁ =>
      rw [after, hclear] at hregisters
      have hsplit₁ : s₁.breakpointSites = l₁ ++ site :: l₂ := hregisters.same.sites.trans hsplit
      let indexed : BreakpointSite := { site with hardwareRegisterIndex := -1 }
      let s₂ : Process := { s₁ with breakpointSites := l₁ ++ indexed :: l₂ }
      have hindex : modifySite l₁.length (fun site => { site with hardwareRegisterIndex := -1 }) s₁ =
        .ok () s₂ := modifySite_split hsplit₁ _
      right
      refine ⟨{ s₂ with breakpointSites := l₁ ++ BreakpointSite.cleared indexed :: l₂ }, ?_,
        ⟨l₁, site, BreakpointSite.cleared indexed, l₂, hsplit, rfl, rfl, rfl, rfl,
          s.memory.byte site.address, ?_, fun harmed => ?_⟩⟩
      · rw [bind_ok hclear, bind_ok hindex]
        exact modifySite_split (s := s₂) rfl _
      · rw [setByte_self]
        exact hregisters.same.memory
      · cases harmed.1
  · have hsw : site.isHardware = false := by simpa using hhw
    by_cases hm : s.memory.isMapped site.address 8 = true
    · have hdisable := disableSite_eq hsplit hm hsw hon
      refine .inr ⟨_, hdisable, ⟨l₁, site, BreakpointSite.cleared site, l₂,
        hsplit, rfl, rfl, rfl, rfl, site.savedData, rfl, fun harmed => ?_⟩⟩
      cases harmed.1
    · left
      refine ⟨.raised "Disabling breakpoint site failed\n", s, ?_, rfl, rfl⟩
      unfold disableSite
      rw [bind_ok (siteAt_split hsplit), if_neg (by simp [hon]), if_neg hhw]
      exact bind_error (peekData_error hm)

theorem staysOff_of_disable (hi : s.breakpointSites[i]? = some site)
    (hon : site.isEnabled = true) (hdisable : disableSite i s = .ok () s') : StaysOff i site s' := by
  obtain ⟨e, s₁, hfail, -⟩ | ⟨s₁, hdisabled, hswitch⟩ := disableSite_cases hi hon
  · cases hdisable.symm.trans hfail
  · cases hdisable.symm.trans hdisabled
    exact hswitch.staysOff hi

/-- A disabled site can be enabled: a debug register takes it, or its memory is there. -/
def CanEnable (s : Process) (site : BreakpointSite) : Prop :=
  if site.isHardware = true then
    ∃ index s', setHardwareBreakpoint site.id site.address s = .ok index s'
  else s.memory.isMapped site.address 8 = true

theorem enableSite_of_can (hoff : StaysOff i site s) (hcan : CanEnable s site) :
    ∃ s', enableSite i s = .ok () s' ∧ Switched true i s s' := by
  obtain ⟨x, hi, hplace, hdisabled⟩ := hoff
  obtain ⟨hid, haddr, hhw', -, -⟩ : x.id = site.id ∧ x.address = site.address ∧
      x.isHardware = site.isHardware ∧ x.isInternal = site.isInternal ∧ x.parent = site.parent := by
    simpa [place] using hplace
  obtain ⟨l₁, l₂, hsplit, rfl⟩ := exists_split hi
  unfold CanEnable at hcan
  rw [← hid, ← haddr, ← hhw'] at hcan
  split_ifs at hcan with hhw
  · obtain ⟨index, s₁, hset⟩ := hcan
    have hregisters := (within_setHardwareStoppoint x.address .execute 1).ok hset
    have hsplit₁ : s₁.breakpointSites = l₁ ++ x :: l₂ := hregisters.same.sites.trans hsplit
    let indexed : BreakpointSite := { x with hardwareRegisterIndex := index }
    let s₂ : Process := { s₁ with breakpointSites := l₁ ++ indexed :: l₂ }
    have hindex : modifySite l₁.length (fun site => { site with hardwareRegisterIndex := index }) s₁ =
      .ok () s₂ := modifySite_split hsplit₁ _
    refine ⟨{ s₂ with breakpointSites := l₁ ++ { indexed with isEnabled := true } :: l₂ }, ?_,
      ⟨l₁, x, { indexed with isEnabled := true }, l₂, hsplit, rfl, rfl, rfl, rfl,
        s.memory.byte x.address, ?_, fun harmed => ?_⟩⟩
    · unfold enableSite
      rw [bind_ok (siteAt_split hsplit), if_neg (by simp [hdisabled]), if_pos hhw, bind_ok hset,
        bind_ok hindex]
      exact modifySite_split (s := s₂) rfl _
    · rw [setByte_self]
      exact hregisters.same.memory
    · exact absurd (hhw.symm.trans harmed.2) (by decide)
  · have henable := enableSite_eq hsplit hcan (by simpa using hhw) hdisabled
    exact ⟨_, henable, ⟨l₁, x, BreakpointSite.trapped x (s.memory.byte x.address), l₂, hsplit, rfl,
      rfl, rfl, rfl, 0xcc#8, rfl, fun _ => rfl⟩⟩

theorem enableSite_of_not_can (hoff : StaysOff i site s) (hcan : ¬ CanEnable s site) :
    ∃ e s', enableSite i s = .error e s' ∧ s'.breakpointSites = s.breakpointSites ∧
      s'.memory = s.memory := by
  obtain ⟨x, hi, hplace, hdisabled⟩ := hoff
  obtain ⟨hid, haddr, hhw', -, -⟩ : x.id = site.id ∧ x.address = site.address ∧
      x.isHardware = site.isHardware ∧ x.isInternal = site.isInternal ∧ x.parent = site.parent := by
    simpa [place] using hplace
  unfold CanEnable at hcan
  rw [← hid, ← haddr, ← hhw'] at hcan
  unfold enableSite
  rw [bind_ok (siteAt_ok hi), if_neg (by simp [hdisabled])]
  split_ifs at hcan with hhw
  · rw [if_pos hhw]
    have hregisters := within_setHardwareStoppoint x.address .execute 1 s
    cases hset : setHardwareBreakpoint x.id x.address s with
    | ok index s₁ => exact absurd ⟨index, s₁, hset⟩ hcan
    | error e s₁ =>
      have hset' : setHardwareStoppoint x.address .execute 1 s = .error e s₁ := hset
      rw [after, hset'] at hregisters
      exact ⟨e, s₁, bind_error hset, hregisters.same.sites, hregisters.same.memory⟩
  · rw [if_neg hhw, bind_error (peekData_error hcan)]
    exact ⟨_, s, rfl, rfl, rfl⟩

variable {on : VirtAddr → Prop}

theorem Kept.mono {on' : VirtAddr → Prop} (h : Kept on s) (hon : ∀ a, on' a → on a) : Kept on' s :=
  ⟨h.toTrapsHeld, fun a ha => h.enabled a (hon a ha)⟩

theorem Kept.off (h : Kept on s) (hi : s.breakpointSites[i]? = some site)
    (hswitch : Switched false i s s') : Kept (fun a => on a ∧ a ≠ site.address) s' :=
  ⟨hswitch.held h.toTrapsHeld, fun a ha => hswitch.trapAt hi (h.enabled a ha.1) (.inr ha.2)⟩

theorem Kept.back (h : Kept (fun a => on a ∧ a ≠ site.address) s) (hoff : StaysOff i site s)
    (hswitch : Switched true i s s') : Kept on s' := by
  obtain ⟨x, hi, hplace, -⟩ := hoff
  refine ⟨hswitch.held h.toTrapsHeld, fun a ha => ?_⟩
  by_cases hne : a = site.address
  · rw [hne, ← address_of_place hplace]
    exact hswitch.trapAt_self hi
  · exact hswitch.trapAt hi (h.enabled a ⟨ha, hne⟩) (.inl rfl)

theorem Switched.getElem?_of_ne {on : Bool} {j : ℕ} (h : Switched on j s s') (hne : i ≠ j) :
    s'.breakpointSites[i]? = s.breakpointSites[i]? := by
  obtain ⟨l₁, x, x', l₂, hsplit, rfl, hsplit', -⟩ := h.sites
  rw [hsplit, hsplit']
  exact getElem?_replace hne

theorem Switched.elsewhere {on : Bool} {j : ℕ} (h : Switched on j s s') (hne : i ≠ j)
    (hoff : StaysOff i site s) : StaysOff i site s' := by
  obtain ⟨y, hi, hy⟩ := hoff
  exact ⟨y, (h.getElem?_of_ne hne).trans hi, hy⟩

theorem StaysOff.not_kept (hoff : StaysOff i site s) (hon : on site.address) : ¬ Kept on s := by
  intro h
  obtain ⟨x, hi, hplace, hdisabled⟩ := hoff
  obtain ⟨y, hmem, henabled, haddr⟩ := h.enabled _ hon
  have hsame : y = x := List.inj_on_of_nodup_map h.distinct hmem (List.mem_of_getElem? hi)
    (haddr.trans (address_of_place hplace).symm)
  rw [hsame, hdisabled] at henabled
  cases henabled

def whileOff {α : Type} (O : Outside) (tid : Tid) (wait : M α) : M α := do
  swallowPendingSigstop O tid
  singleStep O tid
  wait

def stepOff {α : Type} (O : Outside) (tid : Tid) (wait : M α) (i : ℕ) : M α := do
  disableSite i
  let a ← whileOff O tid wait
  enableSite i
  pure a

/-- Where the site can be disabled, the calls made meanwhile return, and the site can be
enabled again. -/
def PutsBack {α : Type} (O : Outside) (tid : Tid) (wait : M α) (i : ℕ) (site : BreakpointSite)
    (s : Process) : Prop :=
  ∀ s₁, disableSite i s = .ok () s₁ → ∃ a s₂, whileOff O tid wait s₁ = .ok a s₂ ∧ CanEnable s₂ site

theorem within_whileOff {R : Process → Process → Prop} (hR : O.Steps R) (tid : Tid) {α : Type}
    {wait : M α} (hwait : Within R wait) : Within R (whileOff O tid wait) := by
  apply hR.frame.bind (within_swallow hR tid)
  intro _
  exact hR.frame.bind (within_singleStep hR tid) fun _ => hwait

section StepOff

variable (hO : O.LeavesTraps) {α : Type} {wait : M α} {tid : Tid}
  (hoff : ∀ i site, Within (fun s s' => StaysOff i site s → StaysOff i site s') wait)

include hO hoff

/-- `K` holds before and after a step, `K'` with the site off. -/
theorem leads_stepOff {K K' bad : Process → Prop} (hi : s.breakpointSites[i]? = some site)
    (henabled : site.isEnabled = true)
    (hfail : ∀ s', s'.breakpointSites = s.breakpointSites → s'.memory = s.memory → bad s')
    (hdown : ∀ s', Switched false i s s' → K' s') (hlasting : Lasting K')
    (hbad : ∀ s, K' s → bad s) (hwait : ∀ s, K' s → Leads K' bad wait s)
    (hup : ∀ s s', K' s → StaysOff i site s → Switched true i s s' → K s') :
    Leads K bad (stepOff O tid wait i) s := by
  -- with the site off, any call of the three may fail
  have hdisable : Leads (fun s' => K' s' ∧ StaysOff i site s') bad (disableSite i) s := by
    unfold Leads
    obtain ⟨e, s₁, hdisable, hsites, hmemory⟩ | ⟨s₁, hdisable, hswitch⟩ :=
      disableSite_cases hi henabled
    · rw [hdisable]
      exact hfail s₁ hsites hmemory
    · rw [hdisable]
      exact ⟨hdown s₁ hswitch, hswitch.staysOff hi⟩
  refine hdisable.bind fun _ s₁ _ h₁ => ?_
  have hrun : Leads K' bad (whileOff O tid wait) s₁ := by
    refine (Leads.of_within (within_swallow (hlasting.steps hO) tid) hbad h₁.1).bind
      fun _ s₂ _ h₂ => ?_
    refine (Leads.of_within (within_singleStep (hlasting.steps hO) tid) hbad h₂).bind
      fun _ s₃ _ h₃ => ?_
    exact hwait s₃ h₃
  refine hrun.bind fun a s₂ hrun h₂ => ?_
  have hstays : StaysOff i site s₂ :=
    (within_whileOff ((staysOff_growing i site).steps hO) tid (hoff i site)).ok hrun h₁.2
  unfold Leads
  by_cases hcan : CanEnable s₂ site
  · obtain ⟨s₃, henable, hswitch⟩ := enableSite_of_can hstays hcan
    rw [bind_ok henable]
    exact hup s₂ s₃ h₂ hstays hswitch
  · obtain ⟨e, s₃, henable, hsites, hmemory⟩ := enableSite_of_not_can hstays hcan
    rw [bind_error henable]
    exact hbad s₃ (hlasting.same hsites hmemory h₂)

theorem held_stepOff (hwait : Within (fun s s' => TrapsHeld s → TrapsHeld s') wait)
    (hi : s.breakpointSites[i]? = some site) (henabled : site.isEnabled = true)
    (h : TrapsHeld s) : TrapsHeld (after (stepOff O tid wait i) s) := by
  have hself (s : Process) (h : TrapsHeld s) : TrapsHeld s := h
  have hleads : Leads TrapsHeld TrapsHeld (stepOff O tid wait i) s :=
    leads_stepOff hO hoff hi henabled (fun _ hsites hmemory => held_growing.same hsites hmemory h)
      (fun _ hswitch => hswitch.held h) held_growing.toLasting hself (fun s => Leads.of_within hwait hself)
      fun _ _ h _ hswitch => hswitch.held h
  exact hleads.after hself

theorem leads_stepOff_kept {bad : Process → Prop} (hi : s.breakpointSites[i]? = some site)
    (henabled : site.isEnabled = true)
    (hbad : ∀ s, Kept (fun a => on a ∧ a ≠ site.address) s → bad s)
    (hwait : ∀ s, Kept (fun a => on a ∧ a ≠ site.address) s →
      Leads (Kept fun a => on a ∧ a ≠ site.address) bad wait s) (h : Kept on s) :
    Leads (Kept on) bad (stepOff O tid wait i) s := by
  have hlasting : Lasting _ := (kept_growing fun a => on a ∧ a ≠ site.address).toLasting
  refine leads_stepOff hO hoff hi henabled ?_ (fun _ => h.off hi) hlasting hbad hwait
    fun _ _ => Kept.back
  exact fun s' hsites hmemory => hbad s' (hlasting.same hsites hmemory (h.mono fun _ ha => ha.1))

theorem staysOff_stepOff {j : ℕ} {x : BreakpointSite} (hj : s.breakpointSites[j]? = some x)
    (henabled : x.isEnabled = true) (h : StaysOff i site s) :
    StaysOff i site (after (stepOff O tid wait j) s) := by
  have hne : i ≠ j := by
    rintro rfl
    obtain ⟨y, hi, -, hdisabled⟩ := h
    rw [hj] at hi
    obtain rfl := Option.some.inj hi
    rw [henabled] at hdisabled
    cases hdisabled
  have hlasting := (staysOff_growing i site).toLasting
  have hself (s : Process) (h : StaysOff i site s) : StaysOff i site s := h
  have hleads : Leads (StaysOff i site) (StaysOff i site) (stepOff O tid wait j) s :=
    leads_stepOff hO hoff hj henabled (fun s' hsites hmemory => hlasting.same hsites hmemory h)
      (fun _ hswitch => hswitch.elsewhere hne h) hlasting hself
      (fun s => Leads.of_within (hoff i site) hself) fun _ _ h _ hswitch => hswitch.elsewhere hne h
  exact hleads.after hself

/-- A step whose calls return, and whose site can be enabled again, returns what they do. -/
theorem stepOff_eq_ok {s₁ s₂ : Process} {a : α} (hi : s.breakpointSites[i]? = some site)
    (henabled : site.isEnabled = true) (hdisable : disableSite i s = .ok () s₁)
    (hrun : whileOff O tid wait s₁ = .ok a s₂) (hcan : CanEnable s₂ site) :
    ∃ s₃, stepOff O tid wait i s = .ok a s₃ := by
  have hdisabled := staysOff_of_disable hi henabled hdisable
  have hstays : StaysOff i site s₂ :=
    (within_whileOff ((staysOff_growing i site).steps hO) tid (hoff i site)).ok hrun hdisabled
  obtain ⟨s₃, henable, -⟩ := enableSite_of_can hstays hcan
  refine ⟨s₃, ?_⟩
  unfold stepOff
  rw [bind_ok hdisable, bind_ok hrun, bind_ok henable]
  rfl

theorem kept_stepOff_iff
    (hwait : ∀ on s, Kept on s → Leads (Kept on) (fun _ => True) wait s) (h : Kept on s)
    (hi : s.breakpointSites[i]? = some site) (henabled : site.isEnabled = true)
    (hon : on site.address) :
    Kept on (after (stepOff O tid wait i) s) ↔ PutsBack O tid wait i site s := by
  constructor
  · intro hkept s₁ hdisable
    have hstays := within_whileOff ((staysOff_growing i site).steps hO) tid (hoff i site) s₁
      (staysOff_of_disable hi henabled hdisable)
    rw [stepOff, after_bind_ok hdisable] at hkept
    -- an end before `enable`, or one of `enable` itself, leaves the site off
    cases hrun : whileOff O tid wait s₁ with
    | error e s₂ =>
      rw [after, hrun] at hstays
      rw [after_bind_error hrun] at hkept
      exact absurd hkept (hstays.not_kept hon)
    | ok a s₂ =>
      rw [after, hrun] at hstays
      refine ⟨a, s₂, rfl, ?_⟩
      by_contra hcan
      obtain ⟨e, s₃, henable, hsites, hmemory⟩ := enableSite_of_not_can hstays hcan
      rw [after_bind_ok hrun, after_bind_error henable] at hkept
      exact ((staysOff_growing i site).same hsites hmemory hstays).not_kept hon hkept
  · intro hputs
    obtain ⟨e, s₁, hfail, hsites, hmemory⟩ | ⟨s₁, hdisable, hswitch⟩ := disableSite_cases hi henabled
    · unfold stepOff
      rw [after_bind_error hfail]
      exact (kept_growing on).same hsites hmemory h
    · obtain ⟨a, s₂, hrun, hcan⟩ := hputs s₁ hdisable
      obtain ⟨s₃, hreturns⟩ := stepOff_eq_ok hO hoff hi henabled hdisable hrun hcan
      have hleads : Leads (Kept on) (fun _ => True) (stepOff O tid wait i) s :=
        leads_stepOff_kept hO hoff hi henabled (fun _ _ => trivial) (fun s => hwait _ s) h
      unfold Leads at hleads
      rw [hreturns] at hleads
      rw [after, hreturns]
      exact hleads

end StepOff

end KDebugger.Process
