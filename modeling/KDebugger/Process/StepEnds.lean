import KDebugger.Process.SwitchedSites

namespace KDebugger.Process

open Exec Memory KDebugger.Splits StoppointCollection

variable {O : Outside} {s s' : Process} {i : ℕ} {site : BreakpointSite} {on : VirtAddr → Prop}
  {tid : Tid}

/-- The program counter of the thread is at an enabled site. -/
structure AtSite (s : Process) (tid : Tid) (i : ℕ) (site : BreakpointSite) : Prop where
  pc : getPc (some tid) s = .ok site.address s
  found : findByAddress s.breakpointSites site.address = some i
  get : s.breakpointSites[i]? = some site
  enabled : site.isEnabled = true

theorem AtSite.enabledSiteAt (h : AtSite s tid i site) : s.enabledSiteAt site.address = true := by
  simp [Process.enabledSiteAt, h.found, h.get, h.enabled]

theorem AtSite.trapAt (h : AtSite s tid i site) : TrapAt s.breakpointSites site.address :=
  ⟨site, List.mem_of_getElem? h.get, h.enabled, rfl⟩

theorem getPc_state (tid : Tid) (s : Process) :
    (∃ pc, getPc (some tid) s = .ok pc s) ∨ ∃ e, getPc (some tid) s = .error e s := by
  have hsame := within_getPc unchanged (some tid) s
  cases h : getPc (some tid) s with
  | ok pc s' =>
    obtain rfl : s' = s := by rwa [after, h] at hsame
    exact .inl ⟨pc, rfl⟩
  | error e s' =>
    obtain rfl : s' = s := by rwa [after, h] at hsame
    exact .inr ⟨e, rfl⟩

/-- A thread is at a site, at none, or its program counter cannot be read. -/
theorem whereIs (s : Process) (tid : Tid) : (∃ i site, AtSite s tid i site) ∨
    (∃ pc, getPc (some tid) s = .ok pc s ∧ s.enabledSiteAt pc = false) ∨
    ∃ e, getPc (some tid) s = .error e s := by
  obtain ⟨pc, hpc⟩ | ⟨e, hpc⟩ := getPc_state tid s
  · by_cases hsite : s.enabledSiteAt pc = true
    · obtain ⟨i, site, hfound, hi, rfl, hon⟩ := enabledSiteAt_eq hsite
      exact .inl ⟨i, site, hpc, hfound, hi, hon⟩
    · exact .inr (.inl ⟨pc, hpc, by simpa using hsite⟩)
  · exact .inr (.inr ⟨e, hpc⟩)

theorem stepOver_at (h : AtSite s tid i site) :
    stepOverBreakpoint O tid s = (stepOff O tid (waitpid (some tid)) i >>= fun _ => pure ()) s := by
  unfold stepOverBreakpoint
  rw [bind_ok h.pc, bind_ok (get_eq s), if_pos h.enabledSiteAt, bind_ok (siteByAddress_find h.found)]
  simp only [stepOff, whileOff, bind_assoc, pure_bind, bind_pure_unit]

theorem after_stepOver_at (h : AtSite s tid i site) :
    after (stepOverBreakpoint O tid) s = after (stepOff O tid (waitpid (some tid)) i) s := by
  rw [after, stepOver_at h]
  cases hstep : stepOff O tid (waitpid (some tid)) i s with
  | ok e s' =>
    rw [bind_ok hstep, after, hstep]
    rfl
  | error e s' => rw [bind_error hstep, after, hstep]

theorem AtSite.unique {j : ℕ} {x : BreakpointSite} (h : AtSite s tid i site)
    (h' : AtSite s tid j x) : i = j ∧ site = x := by
  have hpc := h'.pc
  rw [h.pc] at hpc
  have haddr : site.address = x.address := by simpa using hpc
  have hfound := h'.found
  rw [← haddr, h.found] at hfound
  obtain rfl := Option.some.inj hfound
  exact ⟨rfl, Option.some.inj (h.get.symm.trans h'.get)⟩

theorem stepOver_elsewhere (h : ∀ i site, ¬ AtSite s tid i site) :
    after (stepOverBreakpoint O tid) s = s := by
  unfold stepOverBreakpoint
  obtain ⟨i, site, hat⟩ | ⟨pc, hpc, hsite⟩ | ⟨e, hpc⟩ := whereIs s tid
  · exact absurd hat (h i site)
  · rw [after_bind_ok hpc, after_bind_ok (get_eq s), if_neg (by simp [hsite])]
    rfl
  · rw [after_bind_error hpc]

namespace Lasting

variable {K : Process → Prop} (hK : Lasting K)
  (hstep : ∀ s tid i site, AtSite s tid i site → K s →
    K (after (stepOff O tid (Process.waitpid (some tid)) i) s))

include hstep

theorem stepping (tid : Tid) : Within (fun s s' => K s → K s') (stepOverBreakpoint O tid) := by
  intro s h
  by_cases hat : ∃ i site, AtSite s tid i site
  · obtain ⟨i, site, hat⟩ := hat
    rw [after_stepOver_at hat]
    exact hstep s tid i site hat h
  · rw [stepOver_elsewhere fun i site hx => hat ⟨i, site, hx⟩]
    exact h

variable (hO : O.LeavesTraps)

include hK hO

theorem resume (otid : Option Tid) : Within (fun s s' => K s → K s') (Process.resume O otid) := by
  have hframe := keeps K
  apply hframe.bind hframe.get
  intro s
  exact hframe.bind (stepping hstep _) fun _ => hK.sendContinue hO _

end Lasting

theorem Growing.waitOnSignal {K : Process → Prop} (hK : Growing K) (hO : O.OnlyAddsSites)
    (hstep : ∀ s tid i site, AtSite s tid i site → K s →
      K (after (stepOff O tid (waitpid (some tid)) i) s)) (reading : Reading)
    (toAwait : Option Tid) : Within (fun s s' => K s → K s') (waitOnSignal O reading toAwait) := by
  rw [← waitOnSignal_alone]
  exact (hK.turns hO).waitOnSignal (hK.resume hstep hO.toLeavesTraps) reading toAwait

theorem staysOff_waitOnSignal (hO : O.OnlyAddsSites) (i : ℕ) (site : BreakpointSite)
    (reading : Reading) (toAwait : Option Tid) :
    Within (fun s s' => StaysOff i site s → StaysOff i site s') (waitOnSignal O reading toAwait) :=
  (staysOff_growing i site).waitOnSignal hO (fun _ _ _ _ hat =>
    staysOff_stepOff hO.toLeavesTraps (fun i site => (staysOff_growing i site).waitpid _)
      hat.get hat.enabled) reading toAwait

theorem held_stepOver (hO : O.LeavesTraps) (tid : Tid) :
    Within (fun s s' => TrapsHeld s → TrapsHeld s') (stepOverBreakpoint O tid) :=
  Lasting.stepping (fun _ _ _ _ hat =>
    held_stepOff hO (fun i site => (staysOff_growing i site).waitpid _) (held_growing.waitpid _)
      hat.get hat.enabled) tid

theorem held_waitOnSignal (hO : O.OnlyAddsSites) (reading : Reading) (toAwait : Option Tid) :
    Within (fun s s' => TrapsHeld s → TrapsHeld s') (waitOnSignal O reading toAwait) :=
  held_growing.waitOnSignal hO (fun _ _ _ _ hat =>
    held_stepOff hO.toLeavesTraps (fun i site => (staysOff_growing i site).waitpid _)
      (held_growing.waitpid _) hat.get hat.enabled) reading toAwait

/-- Where the thread is at a site in `on`, the step puts that back. -/
def OverPutsBack (on : VirtAddr → Prop) (O : Outside) (s : Process) (tid : Tid) : Prop :=
  ∀ i site, AtSite s tid i site → on site.address → PutsBack O tid (waitpid (some tid)) i site s

section Over

variable (hO : O.LeavesTraps)

include hO

theorem leads_stepOver (h : Kept on s) (tid : Tid) :
    Leads (Kept on) (fun _ => True) (stepOverBreakpoint O tid) s := by
  by_cases hat : ∃ i site, AtSite s tid i site
  · obtain ⟨i, site, hat⟩ := hat
    have hstep : Leads (Kept on) (fun _ => True) (stepOff O tid (waitpid (some tid)) i) s :=
      leads_stepOff_kept hO (fun i site => (staysOff_growing i site).waitpid _) hat.get hat.enabled
        (fun _ _ => trivial)
        (fun _ => Leads.of_within ((kept_growing _).waitpid _) fun _ _ => trivial) h
    unfold Leads
    rw [stepOver_at hat]
    exact hstep.bind fun _ _ _ h => h
  · have hsame : after (stepOverBreakpoint O tid) s = s :=
      stepOver_elsewhere fun i site hx => hat ⟨i, site, hx⟩
    exact Leads.of_after (by rwa [hsame]) fun _ _ => trivial

/-- However it ends, the sites in `on` are as they were where they are put back. -/
theorem kept_stepOver_iff (h : Kept on s) :
    Kept on (after (stepOverBreakpoint O tid) s) ↔ OverPutsBack on O s tid := by
  by_cases hat : ∃ i site, AtSite s tid i site
  · obtain ⟨i, site, hat⟩ := hat
    have hone : OverPutsBack on O s tid ↔
        (on site.address → PutsBack O tid (waitpid (some tid)) i site s) := by
      constructor
      · exact fun hputs => hputs i site hat
      · intro hputs j x hx
        obtain ⟨rfl, rfl⟩ := hat.unique hx
        exact hputs
    rw [hone, after_stepOver_at hat]
    by_cases hon : on site.address
    · rw [kept_stepOff_iff hO (fun i site => (staysOff_growing i site).waitpid _)
        (fun _ _ => Leads.of_within ((kept_growing _).waitpid _) fun _ _ => trivial)
        h hat.get hat.enabled hon]
      exact ⟨fun hputs _ => hputs, fun hputs => hputs hon⟩
    · -- the site that is stepped over is none of those asked for
      have hothers (s : Process) (h : Kept (fun a => on a ∧ a ≠ site.address) s) : Kept on s :=
        h.mono fun a ha => ⟨ha, fun heq => hon (heq ▸ ha)⟩
      have hstep : Leads (Kept on) (Kept on) (stepOff O tid (waitpid (some tid)) i) s :=
        leads_stepOff_kept hO (fun i site => (staysOff_growing i site).waitpid _) hat.get
          hat.enabled hothers (fun _ => Leads.of_within ((kept_growing _).waitpid _) hothers) h
      exact iff_of_true (hstep.after fun _ h => h) fun hno => absurd hno hon
  · rw [stepOver_elsewhere fun i site hx => hat ⟨i, site, hx⟩]
    exact iff_of_true h fun i site hx => absurd ⟨i, site, hx⟩ hat

theorem leads_resume (h : Kept on s) (otid : Option Tid) :
    Leads (Kept on) (fun _ => True) (resume O otid) s := by
  unfold resume
  rw [leads_bind_ok (get_eq s)]
  refine (leads_stepOver hO h _).bind fun _ s₁ _ h₁ => ?_
  exact Leads.of_within ((kept_growing on).sendContinue hO _) (fun _ _ => trivial) h₁

theorem kept_resume_iff (h : Kept on s) {otid : Option Tid} :
    Kept on (after (resume O otid) s) ↔ OverPutsBack on O s (s.valueOr otid) := by
  rw [← kept_stepOver_iff hO h, resume, after_bind_ok (get_eq s)]
  have hleads := leads_stepOver hO h (s.valueOr otid)
  unfold Leads at hleads
  cases hstep : stepOverBreakpoint O (s.valueOr otid) s with
  | error e s₁ =>
    have hstepped : after (stepOverBreakpoint O (s.valueOr otid)) s = s₁ := by rw [after, hstep]
    have hresumed := after_bind_error (f := fun _ => sendContinue O (s.valueOr otid)) hstep
    rw [hstepped]
    exact iff_of_eq (congrArg (Kept on) hresumed)
  | ok u s₁ =>
    have hstepped : after (stepOverBreakpoint O (s.valueOr otid)) s = s₁ := by rw [after, hstep]
    have hresumed := after_bind_ok (f := fun _ => sendContinue O (s.valueOr otid)) hstep
    rw [hstep] at hleads
    rw [hstepped]
    refine iff_of_true ?_ hleads
    exact hresumed ▸ (kept_growing on).sendContinue hO _ s₁ hleads

end Over

section Waits

variable (hO : O.OnlyAddsSites)

include hO

theorem leads_waitOnSignal_kept (h : Kept on s) (reading : Reading) (toAwait : Option Tid) :
    Leads (Kept on) (fun _ => True) (waitOnSignal O reading toAwait) s :=
  leads_waitOnSignal ((kept_growing on).turns hO) (fun _ _ => trivial)
    (fun _ otid h _ => leads_resume hO.toLeavesTraps h otid) h (Surroundings.goesOnAs_true _ _ _ _)

/-- Each site that a wait steps a thread over is put back. -/
def WaitPutsBack (on : VirtAddr → Prop) (O : Outside) (reading : Reading) (s : Process)
    (toAwait : Option Tid) : Prop :=
  (alone O).GoesOnAs O (fun s otid => OverPutsBack on O s (s.valueOr otid)) reading
    (s.events.length + 1) s toAwait

theorem kept_waitOnSignal_iff (h : Kept on s) {reading : Reading} {toAwait : Option Tid} :
    Kept on (after (waitOnSignal O reading toAwait) s) ↔ WaitPutsBack on O reading s toAwait := by
  rw [waitOnSignal, after_bind_ok (get_eq s), ← waitLoop_alone]
  exact Surroundings.kept_waitLoop_iff ((kept_growing on).turns hO)
    (fun _ otid h => leads_resume hO.toLeavesTraps h otid)
    (fun _ _ h => kept_resume_iff hO.toLeavesTraps h) _ s toAwait h

end Waits

theorem stepInstruction_at {reading : Reading} {otid : Option Tid}
    (h : AtSite s (s.valueOr otid) i site) :
    stepInstruction O reading otid s =
      stepOff O (s.valueOr otid) (waitOnSignal O reading (some (s.valueOr otid))) i s := by
  unfold stepInstruction
  rw [bind_ok (get_eq s), bind_ok h.pc, if_pos h.enabledSiteAt, bind_ok (siteByAddress_find h.found)]
  simp only [stepOff, whileOff, bind_assoc]

theorem stepInstruction_elsewhere {reading : Reading} {otid : Option Tid} {pc : VirtAddr}
    (hpc : getPc (some (s.valueOr otid)) s = .ok pc s) (hsite : s.enabledSiteAt pc = false) :
    stepInstruction O reading otid s =
      whileOff O (s.valueOr otid) (waitOnSignal O reading (some (s.valueOr otid))) s := by
  unfold stepInstruction
  rw [bind_ok (get_eq s), bind_ok hpc, if_neg (by simp [hsite])]
  rfl

/-- Each site that was enabled is enabled, with its trap in the memory that is left. -/
structure SitesKept (s s' : Process) : Prop where
  enabled : ∀ a, TrapAt s.breakpointSites a → TrapAt s'.breakpointSites a
  traps : ∀ a, TrapAt s.breakpointSites a → ArmedAt s' a → s'.memory.isMapped a 8 = true →
    s'.memory.byte a = 0xcc#8

theorem sitesKept_iff (h : TrapsHeld s') :
    SitesKept s s' ↔ Kept (TrapAt s.breakpointSites) s' := by
  constructor
  · exact fun hkept => ⟨h, hkept.enabled⟩
  · refine fun hkept => ⟨hkept.enabled, ?_⟩
    rintro a - ⟨site, hmem, harmed, rfl⟩ hmapped
    exact h.trap site hmem harmed hmapped

/-- However `step_over_breakpoint` ends; a wait that nothing ends counts as one that fails. -/
structure OverKeeps (O : Outside) (s : Process) (tid : Tid) : Prop where
  sites : SitesKept s (after (stepOverBreakpoint O tid) s)
  /-- after the stop it returns -/
  returned : ∀ i site s₁ e s₂, AtSite s tid i site → disableSite i s = .ok () s₁ →
    whileOff O tid (waitpid (some tid)) s₁ = .ok e s₂ →
    outcome (stepOverBreakpoint O tid) s = .ok ()

/-- However `step_instruction` ends. -/
structure InstructionKeeps (O : Outside) (reading : Reading) (s : Process) (otid : Option Tid) :
    Prop where
  sites : SitesKept s (after (stepInstruction O reading otid) s)
  /-- the reason of the stop is what it returns -/
  returned : ∀ i site s₁ reason s₂, AtSite s (s.valueOr otid) i site →
    disableSite i s = .ok () s₁ →
    whileOff O (s.valueOr otid) (waitOnSignal O reading (some (s.valueOr otid))) s₁ =
      .ok reason s₂ →
    outcome (stepInstruction O reading otid) s = .ok reason

/-- The site at the program counter is put back, or, where there is none, each site that a
thread is stepped over in the wait. -/
structure InstructionPutsBack (O : Outside) (reading : Reading) (s : Process)
    (otid : Option Tid) : Prop where
  here : ∀ i site, AtSite s (s.valueOr otid) i site →
    PutsBack O (s.valueOr otid) (waitOnSignal O reading (some (s.valueOr otid))) i site s
  elsewhere : ∀ pc s₁, getPc (some (s.valueOr otid)) s = .ok pc s → s.enabledSiteAt pc = false →
    whileOff O (s.valueOr otid) (pure ()) s = .ok () s₁ →
    WaitPutsBack (TrapAt s.breakpointSites) O reading s₁ (some (s.valueOr otid))

theorem kept_start (h : TrapsHeld s) : Kept (TrapAt s.breakpointSites) s := ⟨h, fun _ ha => ha⟩

theorem whileOff_eq {α : Type} (O : Outside) (tid : Tid) (wait : M α) :
    whileOff O tid wait = whileOff O tid (pure ()) >>= fun _ => wait := by
  simp only [whileOff, bind_assoc, pure_bind]

section Ends

variable (hO : O.OnlyAddsSites)

include hO

theorem overKeeps_iff (h : TrapsHeld s) (tid : Tid) :
    OverKeeps O s tid ↔ OverPutsBack (TrapAt s.breakpointSites) O s tid := by
  have hheld : TrapsHeld (after (stepOverBreakpoint O tid) s) := held_stepOver hO.toLeavesTraps tid s h
  constructor
  · intro hkeeps
    exact (kept_stepOver_iff hO.toLeavesTraps (kept_start h)).mp ((sitesKept_iff hheld).mp hkeeps.sites)
  · intro hputs
    refine ⟨(sitesKept_iff hheld).mpr ((kept_stepOver_iff hO.toLeavesTraps (kept_start h)).mpr hputs), ?_⟩
    intro i site s₁ e s₂ hat hdisable hrun
    obtain ⟨e', s₂', hrun', hcan⟩ := hputs i site hat hat.trapAt s₁ hdisable
    cases hrun.symm.trans hrun'
    obtain ⟨s₃, hreturns⟩ := stepOff_eq_ok hO.toLeavesTraps (fun i site => (staysOff_growing i site).waitpid _)
      hat.get hat.enabled hdisable hrun hcan
    rw [outcome, stepOver_at hat, bind_ok hreturns]
    rfl

/-- With the thread at no site, the wait decides. -/
theorem kept_whileOff_iff (h : Kept on s) {reading : Reading} {toAwait : Option Tid} :
    Kept on (after (whileOff O tid (waitOnSignal O reading toAwait)) s) ↔
      ∀ s₁, whileOff O tid (pure ()) s = .ok () s₁ →
        WaitPutsBack on O reading s₁ toAwait := by
  have hlasting := kept_growing on
  have hbefore := within_whileOff (hlasting.steps hO.toLeavesTraps) tid ((keeps (Kept on)).pure ()) s h
  rw [whileOff_eq]
  cases hrun : whileOff O tid (pure ()) s with
  | error e s₁ =>
    rw [after, hrun] at hbefore
    rw [after_bind_error hrun]
    exact iff_of_true hbefore fun s₂ hno => by cases hno
  | ok u s₁ =>
    rw [after, hrun] at hbefore
    rw [after_bind_ok hrun, kept_waitOnSignal_iff hO hbefore]
    constructor
    · intro hgoes s₂ hsame
      cases hsame
      exact hgoes
    · exact fun hgoes => hgoes s₁ rfl

theorem held_stepInstruction (h : TrapsHeld s) (reading : Reading) (otid : Option Tid) :
    TrapsHeld (after (stepInstruction O reading otid) s) := by
  obtain ⟨i, site, hat⟩ | ⟨pc, hpc, hsite⟩ | ⟨e, hpc⟩ := whereIs s (s.valueOr otid)
  · rw [after, stepInstruction_at hat]
    exact held_stepOff hO.toLeavesTraps (fun i site => staysOff_waitOnSignal hO i site reading _)
      (held_waitOnSignal hO reading _) hat.get hat.enabled h
  · rw [after, stepInstruction_elsewhere hpc hsite]
    exact within_whileOff (held_growing.steps hO.toLeavesTraps) _ (held_waitOnSignal hO reading _) s h
  · unfold stepInstruction
    rw [after_bind_ok (get_eq s), after_bind_error hpc]
    exact h

theorem instructionKeeps_iff (h : TrapsHeld s) (reading : Reading) (otid : Option Tid) :
    InstructionKeeps O reading s otid ↔ InstructionPutsBack O reading s otid := by
  -- a wait may step other threads over other sites, so their steps count too
  have hoff (i : ℕ) (site : BreakpointSite) :=
    staysOff_waitOnSignal hO i site reading (some (s.valueOr otid))
  have hheld : TrapsHeld (after (stepInstruction O reading otid) s) :=
    held_stepInstruction hO h reading otid
  have hstart := kept_start h
  constructor
  · intro hkeeps
    have hkept := (sitesKept_iff hheld).mp hkeeps.sites
    refine ⟨fun i site hat => ?_, fun pc s₁ hpc hsite hrun => ?_⟩
    · rw [after, stepInstruction_at hat] at hkept
      exact (kept_stepOff_iff hO.toLeavesTraps hoff (fun _ _ h => leads_waitOnSignal_kept hO h reading _) hstart
        hat.get hat.enabled hat.trapAt).mp hkept
    · rw [after, stepInstruction_elsewhere hpc hsite] at hkept
      exact (kept_whileOff_iff hO hstart).mp hkept s₁ hrun
  · intro hputs
    refine ⟨(sitesKept_iff hheld).mpr ?_, fun i site s₁ reason s₂ hat hdisable hrun => ?_⟩
    · obtain ⟨i, site, hat⟩ | ⟨pc, hpc, hsite⟩ | ⟨e, hpc⟩ := whereIs s (s.valueOr otid)
      · rw [after, stepInstruction_at hat]
        exact (kept_stepOff_iff hO.toLeavesTraps hoff (fun _ _ h => leads_waitOnSignal_kept hO h reading _)
          hstart hat.get hat.enabled hat.trapAt).mpr (hputs.here i site hat)
      · rw [after, stepInstruction_elsewhere hpc hsite]
        exact (kept_whileOff_iff hO hstart).mpr fun s₁ hrun => hputs.elsewhere pc s₁ hpc hsite hrun
      · unfold stepInstruction
        rw [after_bind_ok (get_eq s), after_bind_error hpc]
        exact hstart
    · obtain ⟨a, s₂', hrun', hcan⟩ := hputs.here i site hat s₁ hdisable
      cases hrun.symm.trans hrun'
      obtain ⟨s₃, hreturns⟩ := stepOff_eq_ok hO.toLeavesTraps hoff hat.get hat.enabled hdisable hrun hcan
      rw [outcome, stepInstruction_at hat, hreturns]

end Ends

/-- Both functions, for every thread and however they end. -/
theorem sitesKept_iff_putsBack {O : Outside} (hO : O.OnlyAddsSites) (reading : Reading) (s : Process)
    (h : TrapsHeld s) (otid : Option Tid) (tid : Tid) :
    (InstructionKeeps O reading s otid ↔ InstructionPutsBack O reading s otid) ∧
      (OverKeeps O s tid ↔ OverPutsBack (TrapAt s.breakpointSites) O s tid) :=
  ⟨instructionKeeps_iff hO h reading otid, overKeeps_iff hO h tid⟩

theorem quiet_onlyAddsSites : quiet.OnlyAddsSites where
  cont _ _ _ := ⟨rfl, fun _ _ hmapped => ⟨hmapped, rfl⟩⟩
  singleStep _ _ := ⟨rfl, fun _ _ hmapped => ⟨hmapped, rfl⟩⟩
  hooks :=
    have hnothing (s : Process) : AddsSites s s := ⟨⟨[], (List.append_nil _).symm⟩, id⟩
    ⟨fun _ => hnothing, fun _ => hnothing, fun _ => hnothing⟩

theorem atTrap_trapsHeld (events : List WaitEvent) : TrapsHeld (atTrap events) :=
  ⟨oneTrap_trapsSet.distinct, fun site hmem harmed _ => oneTrap_trapsSet.trap site hmem harmed⟩

theorem sitesKept_iff_putsBack_atTrap :
    (InstructionKeeps quiet .asMeant (atTrap [stepped]) none ↔
      InstructionPutsBack quiet .asMeant (atTrap [stepped]) none) ∧
    (OverKeeps quiet (atTrap [stepped]) 1 ↔
      OverPutsBack (TrapAt (atTrap [stepped]).breakpointSites) quiet (atTrap [stepped]) 1) :=
  sitesKept_iff_putsBack quiet_onlyAddsSites .asMeant (atTrap [stepped]) (atTrap_trapsHeld _) none 1

/-- The instruction that is stepped ends the inferior. -/
def lastStep : Outside :=
  { quiet with
    singleStep := fun _ => modify fun s =>
      { s with memory := { s.memory with mapped := fun _ => false } } }

theorem lastStep_onlyAddsSites : lastStep.OnlyAddsSites where
  cont _ _ _ := ⟨rfl, fun _ _ hmapped => ⟨hmapped, rfl⟩⟩
  singleStep _ _ := ⟨rfl, fun _ _ hmapped => nomatch isMapped_iff.mp hmapped 0 (by decide)⟩
  hooks :=
    have hnothing (s : Process) : AddsSites s s := ⟨⟨[], (List.append_nil _).symm⟩, id⟩
    ⟨fun _ => hnothing, fun _ => hnothing, fun _ => hnothing⟩

theorem sitesKept_not_for_all : ¬ ∀ (O : Outside) (reading : Reading) (s : Process)
    (otid : Option Tid) (tid : Tid), O.OnlyAddsSites → TrapsHeld s →
    InstructionKeeps O reading s otid ∧ OverKeeps O s tid := by
  intro h
  have hkeeps := (h lastStep .asMeant (atTrap [{ tid := 1, status := 0#32 }]) none 1
    lastStep_onlyAddsSites (atTrap_trapsHeld _)).1
  have henabled := hkeeps.sites.enabled 0x1000#64 (by decide)
  exact absurd henabled (by decide)

end KDebugger.Process
