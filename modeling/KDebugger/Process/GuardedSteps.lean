import KDebugger.Process.TrapWindows

namespace KDebugger.Process

open Exec Memory KDebugger.Splits StoppointCollection

variable {O : Outside} {armed : VirtAddr → Prop} {base : List Moment} {s s' : Process} {i : ℕ}

theorem TrapsSet.unarmed (h : TrapsSet s) {l₁ l₂ : List BreakpointSite} {site : BreakpointSite}
    (hsplit : s.breakpointSites = l₁ ++ site :: l₂) (site' : BreakpointSite)
    (haddr : site'.address = site.address) (hoff : ¬ Armed site') :
    TrapsSet { s with breakpointSites := l₁ ++ site' :: l₂ } := by
  have hreplace := h.replace hsplit site' (s.memory.byte site.address) haddr
    fun harmed => absurd harmed hoff
  have hsame : s.memory.setByte site.address (s.memory.byte site.address) = s.memory := by
    simp [setByte]
  rwa [hsame] at hreplace

/-- A site on hardware at a position, no trap being removed. -/
structure OnHardware (armed : VirtAddr → Prop) (base : List Moment) (i : ℕ) (s : Process) : Prop extends
    Whole armed base s where
  site : ∃ site, s.breakpointSites[i]? = some site ∧ site.isHardware = true

theorem onHardware_registers {α : Type} {p : M α} (hp : Within RegistersOnly p) :
    Within (fun s s' => OnHardware armed base i s → OnHardware armed base i s') p := by
  intro s h
  have hsame := (hp s).same
  refine ⟨whole_steady.same hsame.sites hsame.memory ?_ h.toWhole, ?_⟩
  · rw [hsame]
  · rw [hsame.sites]
    exact h.site

theorem onHardware_modify {f : BreakpointSite → BreakpointSite}
    (hf : ∀ x, (f x).address = x.address ∧ (f x).isHardware = x.isHardware) :
    Within (fun s s' => OnHardware armed base i s → OnHardware armed base i s') (modifySite i f) := by
  intro s h
  obtain ⟨site, hi, hhw⟩ := h.site
  obtain ⟨l₁, l₂, hsplit, rfl⟩ := exists_split hi
  have hhw' : (f site).isHardware = true := (hf site).2.trans hhw
  have hoff (x : BreakpointSite) (hx : x.isHardware = true) : ¬ Armed x := fun ha =>
    absurd (hx.symm.trans ha.2) (by decide)
  have htraps := h.traps.unarmed hsplit (f site) (hf site).1 (hoff _ hhw')
  rw [after, modifySite_split hsplit]
  refine ⟨⟨⟨htraps, h.guarded⟩, fun a ha => ?_⟩, f site, by simp, hhw'⟩
  obtain ⟨x, hx, harmed, rfl⟩ := h.armed a ha
  refine ⟨x, ?_, harmed, rfl⟩
  rw [hsplit] at hx
  obtain hx | rfl | hx := List.mem_append.mp hx |>.imp_right List.mem_cons.mp
  · exact List.mem_append_left _ hx
  · exact absurd harmed (hoff x hhw)
  · exact List.mem_append_right _ (List.mem_cons_of_mem _ hx)

theorem onHardware_disable (h : OnHardware armed base i s) :
    OnHardware armed base i (after (disableSite i) s) := by
  have hframe := keeps (OnHardware armed base i)
  obtain ⟨site, hi, hhw⟩ := h.site
  unfold disableSite
  rw [after_bind_ok (siteAt_ok hi), hhw]
  refine within_ite (hframe.pure _) ?_ s h
  apply hframe.bind (onHardware_registers (within_clearHardwareStoppoint _))
  intro _
  exact hframe.bind (onHardware_modify fun _ => ⟨rfl, rfl⟩) fun _ =>
    onHardware_modify fun _ => ⟨rfl, rfl⟩

theorem whole_enable (i : ℕ) :
    Within (fun s s' => Whole armed base s → Whole armed base s') (enableSite i) := by
  intro s h
  unfold enableSite
  cases hi : s.breakpointSites[i]? with
  | none =>
    rw [after_bind_error (siteAt_error hi)]
    exact h
  | some site =>
    rw [after_bind_ok (siteAt_ok hi)]
    by_cases hon : site.isEnabled = true
    · rw [if_pos hon]
      exact h
    · by_cases hhw : site.isHardware = true
      · have hframe := keeps (OnHardware armed base i)
        have hset : OnHardware armed base i (after (enableSite i) s) := by
          unfold enableSite
          rw [after_bind_ok (siteAt_ok hi), if_neg hon, if_pos hhw]
          refine hframe.bind (onHardware_registers (within_setHardwareStoppoint _ _ _)) ?_ s
            ⟨h, site, hi, hhw⟩
          intro index
          exact hframe.bind (onHardware_modify fun _ => ⟨rfl, rfl⟩) fun _ =>
            onHardware_modify fun _ => ⟨rfl, rfl⟩
        unfold enableSite at hset
        rw [after_bind_ok (siteAt_ok hi)] at hset
        exact hset.toWhole
      · by_cases hm : s.memory.isMapped site.address 8 = true
        · obtain ⟨l₁, l₂, hsplit, rfl⟩ := exists_split hi
          have hsw : site.isHardware = false := by simpa using hhw
          have henable := enableSite_eq hsplit hm hsw (by simpa using hon)
          unfold enableSite at henable
          rw [bind_ok (siteAt_split hsplit)] at henable
          rw [after, henable]
          let site' := BreakpointSite.trapped site (s.memory.byte site.address)
          have htraps := h.traps.replace hsplit site' 0xcc#8 rfl fun _ => ⟨rfl, hm⟩
          refine ⟨⟨htraps, h.guarded⟩, fun a ha => ?_⟩
          by_cases hne : a = site.address
          · exact ⟨site', by simp [site'], ⟨rfl, hsw⟩, hne.symm⟩
          · exact (h.armed a ha).replace hsplit hne
        · rw [if_neg hon, if_neg hhw, after_bind_error (peekData_error hm)]
          exact h

/-- A trap at the program counter is removed only while nobody runs. -/
def StepsCalm (s : Process) (t : Tid) : Prop :=
  ∀ pc, outcome (getPc (some t)) s = .ok pc → ArmedAt s pc → Calm s

/-- What `step_over_breakpoint` and `step_instruction` do after `disable`. -/
theorem Steady.stepsThen {K : Process → Prop} (hK : Steady K) (hO : O.SparesTraps)
    (hbad : ∀ s, K s → Watched armed base s) (h : K s) (t : Tid) {α : Type} {rest : M α}
    (hrest : ∀ s', (do swallowPendingSigstop O t; Process.singleStep O t) s = .ok () s' → K s' →
      Leads (Whole armed base) (Watched armed base) rest s') :
    Leads (Whole armed base) (Watched armed base) (do
      swallowPendingSigstop O t
      Process.singleStep O t
      rest) s := by
  refine (Leads.of_within (within_swallow (hK.steps hO) t) hbad h).bind fun _ s₁ hswallow h₁ => ?_
  refine (Leads.of_within (within_singleStep (hK.steps hO) t) hbad h₁).bind fun _ s₂ hstep h₂ => ?_
  exact hrest s₂ (by rw [bind_ok hswallow, hstep]) h₂

theorem whole_stepOver (hO : O.SparesTraps) (h : Whole armed base s) {t : Tid}
    (hcalm : StepsCalm s t) :
    Leads (Whole armed base) (Watched armed base) (stepOverBreakpoint O t) s := by
  -- off, one instruction, and on again
  have hbad (s : Process) (h : Whole armed base s) : Watched armed base s := h.toWatched
  have hpcs : Within (fun s s' => Whole armed base s → Whole armed base s') (getPc (some t)) :=
    within_getPc (keeps _) _
  refine (Leads.of_within hpcs hbad h).bind fun pc s₁ hpc _ => ?_
  obtain rfl : s₁ = s := (within_getPc unchanged (some t)).ok hpc
  rw [leads_bind_ok (get_eq s₁)]
  by_cases hsite : s₁.enabledSiteAt pc = true
  · obtain ⟨i, site, hfind, hi, rfl, hon⟩ := enabledSiteAt_eq hsite
    rw [if_pos hsite, leads_bind_ok (siteByAddress_find hfind)]
    by_cases hhw : site.isHardware = true
    · have hdisabled : Whole armed base (after (disableSite i) s₁) :=
        (onHardware_disable ⟨h, site, hi, hhw⟩).toWhole
      refine (Leads.of_after hdisabled hbad).bind fun _ s₂ _ h₂ => ?_
      refine whole_steady.stepsThen hO hbad h₂ t fun s₃ _ h₃ => ?_
      refine (Leads.of_within (whole_steady.waitpid _) hbad h₃).bind fun _ s₄ _ h₄ => ?_
      exact Leads.of_within (whole_enable i) hbad h₄
    · have harmed : Armed site := ⟨hon, by simpa using hhw⟩
      have harmedAt : ArmedAt s₁ site.address := ⟨site, List.mem_of_getElem? hi, harmed, rfl⟩
      have hbad' (s : Process) (h : Window armed base i s) : Watched armed base s := h.toWatched
      have hwindow := window_disable h (hcalm _ (by rw [outcome, hpc]) harmedAt) hi harmed
      refine hwindow.bind fun _ s₂ _ h₂ => ?_
      refine window_steady.stepsThen hO hbad' h₂ t fun s₃ _ h₃ => ?_
      refine (Leads.of_within (window_steady.waitpid _) hbad' h₃).bind fun _ s₄ _ h₄ => ?_
      exact window_enable h₄
  · rw [if_neg hsite]
    exact h

theorem whole_sendContinue (hO : O.SparesTraps) (t : Tid) :
    Within (fun s s' => Whole armed base s → Whole armed base s') (sendContinue O t) := by
  have hframe := keeps (Whole armed base)
  apply hframe.bind hframe.get
  intro s
  apply hframe.bind (fun s => whole_steady.spares (hO.cont _ _ s))
  intro _
  apply hframe.bind (fun s h => h.call rfl rfl rfl)
  intro _
  apply hframe.bind (within_threadAt hframe _)
  intro _
  apply hframe.bind (whole_steady.modifyThread _ _)
  intro _
  exact fun s => whole_steady.same rfl rfl rfl

theorem whole_resume (hO : O.SparesTraps) (h : Whole armed base s) {otid : Option Tid}
    (hcalm : StepsCalm s (s.valueOr otid)) :
    Leads (Whole armed base) (Watched armed base) (resume O otid) s := by
  unfold resume
  rw [leads_bind_ok (get_eq s)]
  refine (whole_stepOver hO h hcalm).bind fun _ s₁ _ h₁ => ?_
  exact Leads.of_within (whole_sendContinue hO _) (fun _ h => h.toWatched) h₁

theorem whole_resumeAllThreads (hO : O.SparesTraps) (h : Whole armed base s)
    (hcalm : LoopSteps (stepOverBreakpoint O) StepsCalm s s.threads.tids) :
    Leads (Whole armed base) (Watched armed base) (resumeAllThreads O) s := by
  unfold resumeAllThreads
  rw [leads_bind_ok (get_eq s)]
  refine (Leads.forM (fun s t h hok => whole_stepOver hO h hok) _ s h hcalm).bind fun _ s₁ _ h₁ => ?_
  have hframe := keeps (Whole armed base)
  exact Leads.of_within (hframe.forM (fun t => whole_sendContinue hO t) _) (fun _ h => h.toWatched) h₁

end KDebugger.Process
