import KDebugger.Process.GuardedSteps
import KDebugger.Process.SurroundingTurns
import KDebugger.Process.ThreadWrites

namespace KDebugger.Process

open Exec Memory KDebugger.Splits StoppointCollection

variable {O : Outside} {armed : VirtAddr → Prop} {base : List Moment} {s s' : Process} {i : ℕ}

def lookStopped (O : Outside) (reason : StopReason) : M (StopReason × Bool) :=
  (alone O).lookStopped reason

def tellStopped (O : Outside) (x : StopReason × Bool) : M (Option StopReason) :=
  (alone O).tellStopped O x

theorem reportStopped_eq (O : Outside) (reason : StopReason) :
    reportStopped O reason = lookStopped O reason >>= tellStopped O :=
  (alone O).reportStopped_eq O reason

/-- The threads that one turn of `wait_on_signal` lets go on are let go on as `ok` says. -/
structure TurnOk (ok : Process → Tid → Prop) (O : Outside) (reading : Reading) (s : Process)
    (toAwait : Option Tid) : Prop where
  /-- after a clone event, the first stop of a thread, a system call that is not caught, or
  a hit -/
  again : ∀ e s₁ s₂, waitpid toAwait s = .ok e s₁ →
    handleSignal O (stopReason (reading.tid e.tid) e.status) true s₁ = .ok none s₂ →
    ok s₂ (reading.tid e.tid)
  /-- after a hit in a process that counts as stopped -/
  restart : ∀ e s₁ reason s₂ s₃ reason' s₄, waitpid toAwait s = .ok e s₁ →
    handleSignal O (stopReason (reading.tid e.tid) e.status) true s₁ = .ok (some reason) s₂ →
    recordReason (reading.tid e.tid) reason s₂ = .ok () s₃ →
    lookStopped O reason s₃ = .ok (reason', true) s₄ → ok s₄ s₄.currentThread

def WaitSteps (ok : Process → Tid → Prop) (O : Outside) (reading : Reading) :
    ℕ → Process → Option Tid → Prop
  | 0, _, _ => True
  | fuel + 1, s, toAwait => TurnOk ok O reading s toAwait ∧
    ∀ next s', waitOnce O reading toAwait s = .ok (.inr next) s' →
      WaitSteps ok O reading fuel s' next

theorem WaitSteps.goesOnAs {ok : Process → Tid → Prop} {reading : Reading} :
    ∀ {fuel : ℕ} {s : Process} {toAwait : Option Tid}, WaitSteps ok O reading fuel s toAwait →
      (alone O).GoesOnAs O (fun s otid => ok s (s.valueOr otid)) reading fuel s toAwait := by
  intro fuel
  induction fuel with
  | zero => exact fun _ => trivial
  | succ fuel ih =>
    intro s toAwait h
    refine ⟨fun s' otid hgoes => ?_, fun next s' hturn => ?_⟩
    · cases hgoes with
      | again hwait hhandled => exact h.1.again _ _ _ hwait hhandled
      | restart hwait hhandled hrecord hget _ _ hlook =>
        cases hget
        exact h.1.restart _ _ _ _ _ _ _ hwait hhandled hrecord hlook
    · rw [waitOnce_alone] at hturn
      exact ih (h.2 next s' hturn)

theorem within_lookStopped {R : Process → Process → Prop} (hR : Frame R)
    (hinspects : ∀ {s s' : Process}, Inspects s s' → R s s') (hO : O.Hooks R)
    (reason : StopReason) : Within R (lookStopped O reason) := by
  apply hR.bind hR.get
  intro s
  apply hR.bind (fun s => hinspects (within_readAllRegisters _ s))
  intro _
  apply hR.bind (fun s => hinspects (within_augmentStopReason _ s))
  intro reason'
  apply hR.bind (within_getPc hR _)
  intro pc
  refine within_ite (within_ite ?_ (within_ite ?_ (hR.pure _))) (hR.pure _)
  · apply hR.bind (within_siteByAddress hR _)
    intro i
    exact hR.bind (within_hitBreakpoint hR hinspects hO _ _ _) fun _ => hR.pure _
  · apply hR.bind (within_getCurrentHardwareStoppoint hR _)
    rintro (id | id)
    · exact hR.pure _
    · exact hR.bind (fun s => hinspects (within_updateWatchpoint id s)) fun _ => hR.pure _

theorem turns_alone {R : Process → Process → Prop} (hR : Frame R)
    (hinspects : ∀ {s s' : Process}, Inspects s s' → R s s') (hhooks : O.Hooks R)
    (hwaitpid : ∀ toAwait, Within R (waitpid toAwait))
    (hthreads : ∀ (s : Process) (threads : Threads), R s { s with threads })
    (hstate : ∀ (s : Process) (state : ProcessState), R s { s with state }) :
    (alone O).Turns O R where
  frame := hR
  look hp s := hinspects (hp s)
  hits := hhooks.notifyHit
  notifyTarget := within_notifyTarget hR hinspects hhooks
  lifecycle := within_reportLifecycle hR hinspects hhooks
  welcome reason := by
    apply hR.bind
    · exact fun s => hthreads s _
    · exact fun _ => within_reportLifecycle hR hinspects hhooks reason
  waitpid := hwaitpid
  recordReason tid _ := hR.bind (within_threadAt hR tid) fun _ s => hthreads s _
  state state s := hstate s state

theorem Steady.turns {K : Process → Prop} (hK : Steady K) (hO : O.SparesTraps) :
    (alone O).Turns O fun s s' => K s → K s' :=
  turns_alone (keeps K) hK.inspects (hK.hooks hO) hK.waitpid (fun _ _ => hK.same rfl rfl rfl)
    fun _ _ => hK.same rfl rfl rfl

theorem leads_waitOnSignal {K bad : Process → Prop}
    (hT : (alone O).Turns O fun s s' => K s → K s') (hbad : ∀ s, K s → bad s)
    {ok : Process → Option Tid → Prop}
    (hresume : ∀ s otid, K s → ok s otid → Leads K bad (resume O otid) s) {reading : Reading}
    (h : K s) {toAwait : Option Tid}
    (hgoes : (alone O).GoesOnAs O ok reading (s.events.length + 1) s toAwait) :
    Leads K bad (waitOnSignal O reading toAwait) s := by
  unfold waitOnSignal
  rw [leads_bind_ok (get_eq s), ← waitLoop_alone]
  exact Surroundings.leads_waitLoop hT hbad hresume _ s toAwait h hgoes

theorem whole_waitOnSignal (hO : O.SparesTraps) (h : Whole armed base s) {reading : Reading}
    {toAwait : Option Tid}
    (hsteps : WaitSteps StepsCalm O reading (s.events.length + 1) s toAwait) :
    Leads (Whole armed base) (Watched armed base) (waitOnSignal O reading toAwait) s :=
  leads_waitOnSignal (whole_steady.turns hO) (fun _ h => h.toWatched)
    (fun _ _ h hcalm => whole_resume hO h hcalm) h hsteps.goesOnAs

/-- `step_instruction` as far as its wait. -/
def beforeWait (O : Outside) (tid : Tid) (pc : VirtAddr) : M Unit := do
  let s ← get
  if s.enabledSiteAt pc then do
    let i ← siteByAddress pc
    disableSite i
    swallowPendingSigstop O tid
    singleStep O tid
  else do
    swallowPendingSigstop O tid
    singleStep O tid

/-- A trap at the program counter is removed only while nobody runs, and until it is back
no thread goes on. -/
def InstructionCalm (O : Outside) (reading : Reading) (s : Process) (otid : Option Tid) : Prop :=
  ∀ pc, outcome (getPc (some (s.valueOr otid))) s = .ok pc →
    (ArmedAt s pc → Calm s) ∧
    ∀ s', beforeWait O (s.valueOr otid) pc s = .ok () s' →
      (ArmedAt s pc → WaitSteps (fun _ _ => False) O reading (s'.events.length + 1) s'
        (some (s.valueOr otid))) ∧
      (¬ ArmedAt s pc → WaitSteps StepsCalm O reading (s'.events.length + 1) s'
        (some (s.valueOr otid)))

theorem armedAt_iff (h : TrapsSet s) {site : BreakpointSite} (hi : s.breakpointSites[i]? = some site) :
    ArmedAt s site.address ↔ Armed site := by
  have hmem := List.mem_of_getElem? hi
  constructor
  · rintro ⟨x, hx, harmed, haddr⟩
    have hsame := List.inj_on_of_nodup_map h.distinct hx hmem haddr
    rwa [← hsame]
  · exact fun harmed => ⟨site, hmem, harmed, rfl⟩

theorem not_armedAt_of_not_enabled {pc : VirtAddr} (h : TrapsSet s)
    (hsite : ¬ s.enabledSiteAt pc = true) : ¬ ArmedAt s pc := by
  rintro ⟨site, hmem, harmed, rfl⟩
  apply hsite
  have hcontains : containsAddress s.breakpointSites site.address = true := by
    simp only [containsAddress, findByAddress, List.findIdx?_isSome, List.any_eq_true]
    exact ⟨site, hmem, beq_self_eq_true _⟩
  obtain ⟨i, hi⟩ := Option.isSome_iff_exists.mp hcontains
  obtain ⟨x, hx, haddr⟩ := getElem?_of_findIdx? hi
  have hsame : x = site := List.inj_on_of_nodup_map h.distinct (List.mem_of_getElem? hx) hmem
    (by simpa [Stoppoint.address] using haddr)
  subst hsame
  simp [enabledSiteAt, hi, hx, harmed.1]

theorem whole_stepInstruction (hO : O.SparesTraps) (h : Whole armed base s) {reading : Reading}
    {otid : Option Tid} (hcalm : InstructionCalm O reading s otid) :
    Leads (Whole armed base) (Watched armed base) (stepInstruction O reading otid) s := by
  -- the trap is off while nobody else runs
  have hbad (s : Process) (h : Whole armed base s) : Watched armed base s := h.toWatched
  have hbad' (i : ℕ) (s : Process) (h : Window armed base i s) : Watched armed base s := h.toWatched
  unfold stepInstruction
  rw [leads_bind_ok (get_eq s)]
  have hpcs : Within (fun s s' => Whole armed base s → Whole armed base s')
      (getPc (some (s.valueOr otid))) := within_getPc (keeps _) _
  refine (Leads.of_within hpcs hbad h).bind fun pc s₁ hpc _ => ?_
  obtain rfl : s₁ = s := (within_getPc unchanged _).ok hpc
  obtain ⟨hnobody, hwaits⟩ := hcalm pc (by rw [outcome, hpc])
  by_cases hsite : s₁.enabledSiteAt pc = true
  · obtain ⟨i, site, hfind, hi, rfl, hon⟩ := enabledSiteAt_eq hsite
    have hbefore {s₂ s₃ : Process} (hdisable : disableSite i s₁ = .ok () s₂)
        (hstep : (do swallowPendingSigstop O (s₁.valueOr otid); singleStep O (s₁.valueOr otid)) s₂ =
          .ok () s₃) :
        beforeWait O (s₁.valueOr otid) site.address s₁ = .ok () s₃ := by
      unfold beforeWait
      rw [bind_ok (get_eq s₁), if_pos hsite, bind_ok (siteByAddress_find hfind), bind_ok hdisable]
      exact hstep
    rw [if_pos hsite, leads_bind_ok (siteByAddress_find hfind)]
    by_cases harmed : ArmedAt s₁ site.address
    · have hwindow := window_disable h (hnobody harmed) hi ((armedAt_iff h.traps hi).mp harmed)
      refine hwindow.bind fun _ s₂ hdisable h₂ => ?_
      refine window_steady.stepsThen hO (hbad' i) h₂ _ fun s₃ hstep h₃ => ?_
      have hwait := (hwaits s₃ (hbefore hdisable hstep)).1 harmed
      refine (leads_waitOnSignal (window_steady.turns hO) (hbad' i) (fun _ _ _ hno => hno.elim) h₃
        hwait.goesOnAs).bind fun reason s₄ _ h₄ => ?_
      exact (window_enable h₄).bind fun _ s₅ _ h₅ => h₅
    · have hhw : site.isHardware = true := by
        by_contra hhw
        exact harmed ((armedAt_iff h.traps hi).mpr ⟨hon, by simpa using hhw⟩)
      have hdisabled : Whole armed base (after (disableSite i) s₁) :=
        (onHardware_disable ⟨h, site, hi, hhw⟩).toWhole
      refine (Leads.of_after hdisabled hbad).bind fun _ s₂ hdisable h₂ => ?_
      refine whole_steady.stepsThen hO hbad h₂ _ fun s₃ hstep h₃ => ?_
      have hwait := (hwaits s₃ (hbefore hdisable hstep)).2 harmed
      refine (whole_waitOnSignal hO h₃ hwait).bind fun reason s₄ _ h₄ => ?_
      exact (Leads.of_within (whole_enable i) hbad h₄).bind fun _ s₅ _ h₅ => h₅
  · rw [if_neg hsite]
    refine whole_steady.stepsThen hO hbad h _ fun s₂ hstep h₂ => ?_
    have hbefore : beforeWait O (s₁.valueOr otid) pc s₁ = .ok () s₂ := by
      unfold beforeWait
      rw [bind_ok (get_eq s₁), if_neg hsite]
      exact hstep
    exact whole_waitOnSignal hO h₂
      ((hwaits s₂ hbefore).2 (not_armedAt_of_not_enabled h.traps hsite))

inductive RunOp where
  | resumeAllThreads
  | resume (otid : Option Tid)
  | waitOnSignal (toAwait : Option Tid)
  | stepInstruction (otid : Option Tid)

def execRunOp (O : Outside) (reading : Reading) : RunOp → M Unit
  | .resumeAllThreads => resumeAllThreads O
  | .resume otid => resume O otid
  | .waitOnSignal toAwait => do
    let _ ← waitOnSignal O reading toAwait
  | .stepInstruction otid => do
    let _ ← stepInstruction O reading otid

/-- Traps are removed only while nobody runs, and nobody goes on before they are back. -/
def CalmWindows (O : Outside) (reading : Reading) (s : Process) : RunOp → Prop
  | .resumeAllThreads => LoopSteps (stepOverBreakpoint O) StepsCalm s s.threads.tids
  | .resume otid => StepsCalm s (s.valueOr otid)
  | .waitOnSignal toAwait => WaitSteps StepsCalm O reading (s.events.length + 1) s toAwait
  | .stepInstruction otid => InstructionCalm O reading s otid

/-- Whenever a thread runs in between, the trap is at each site that was enabled; and
afterwards it is at each that is. -/
structure TrapsGuard (s s' : Process) : Prop where
  between : Guarded (ArmedAt s) s.log s'.log
  afterwards : ∀ a, ArmedAt s' a → s'.memory.byte a = 0xcc#8

theorem whole_start (h : TrapsSet s) : Whole (ArmedAt s) s.log s where
  traps := h
  guarded := ⟨[], rfl, fun later m earlier hsplit => absurd hsplit (by simp)⟩
  armed _ ha := ha

theorem whole_step (hO : O.SparesTraps) {reading : Reading} {op : RunOp} (h : Whole armed base s)
    (hop : CalmWindows O reading s op) :
    Leads (Whole armed base) (Watched armed base) (execRunOp O reading op) s := by
  cases op with
  | resumeAllThreads => exact whole_resumeAllThreads hO h hop
  | resume otid => exact whole_resume hO h hop
  | waitOnSignal toAwait => exact (whole_waitOnSignal hO h hop).bind fun _ _ _ h => h
  | stepInstruction otid => exact (whole_stepInstruction hO h hop).bind fun _ _ _ h => h

theorem watched_step (hO : O.SparesTraps) {reading : Reading} {op : RunOp} (h : TrapsSet s)
    (hop : CalmWindows O reading s op) :
    Watched (ArmedAt s) s.log (after (execRunOp O reading op) s) :=
  (whole_step hO (whole_start h) hop).after fun _ h => h.toWatched

/-- Each step of a run in which the windows are calm. -/
theorem trapsGuard_of_run {O : Outside} (hO : O.SparesTraps) (reading : Reading) (s : Process)
    (h : TrapsSet s) (ops : List RunOp) (op : RunOp)
    (hops : AllSteps (execRunOp O reading) (CalmWindows O reading) s (ops ++ [op])) :
    TrapsGuard (runAll (execRunOp O reading) s ops)
      (runAll (execRunOp O reading) s (ops ++ [op])) := by
  obtain ⟨hbefore, hop⟩ := allSteps_concat.mp hops
  have hstep (s : Process) (op : RunOp) (h : TrapsSet s) (hop : CalmWindows O reading s op) :
      TrapsSet (after (execRunOp O reading op) s) := (watched_step hO h hop).traps
  have hreached := runAll_invariant hstep ops s h hbefore
  rw [runAll_concat]
  have hwatched := watched_step hO hreached hop
  exact ⟨hwatched.guarded, fun a ha => hwatched.traps.byte ha⟩

theorem quiet_sparesTraps : quiet.SparesTraps where
  cont _ _ _ := ⟨rfl, rfl, fun _ _ => rfl⟩
  singleStep _ _ := ⟨rfl, rfl, fun _ _ => rfl⟩
  hooks :=
    have hnothing (s : Process) : Arms s s :=
      ⟨⟨[], (List.append_nil _).symm⟩, id, rfl, rfl⟩
    ⟨fun _ => hnothing, fun _ => hnothing, fun _ => hnothing⟩

theorem atTrap_trapsSet (events : List WaitEvent) : TrapsSet (atTrap events) :=
  ⟨oneTrap_trapsSet.distinct, oneTrap_trapsSet.trap, oneTrap_trapsSet.mapped⟩

def stepped : WaitEvent := { tid := 1, status := 0x57f#32, siCode := 2 }

theorem trapsGuard_atTrap :
    TrapsGuard (atTrap [stepped])
      (runAll (execRunOp quiet .asWritten) (atTrap [stepped]) [.resume none]) :=
  trapsGuard_of_run quiet_sparesTraps .asWritten (atTrap [stepped]) (atTrap_trapsSet _) []
    (.resume none) ⟨fun _ _ _ _ => rfl, trivial⟩

/-- Two threads, the first at an enabled site; it steps, clones, and steps. -/
def cloning : Process :=
  { twoThreads with
    threads := twoThreads.threads.modify 1 fun th =>
      { th with regs := { data := fun o => if o = 129 then 0x10#8 else 0#8, tid := 1 } }
    breakpointSites := oneTrap.breakpointSites
    memory := oneTrap.memory
    events := [stepped, { tid := 1, status := 0x3057f#32 }, stepped] }

/-- After the clone the first thread steps again over the site, while the second runs. -/
theorem trapsGuard_not_for_all : ¬ ∀ (O : Outside) (s : Process) (ops : List RunOp) (op : RunOp),
    O.SparesTraps → TrapsSet s →
    TrapsGuard (runAll (execRunOp O .asMeant) s ops)
      (runAll (execRunOp O .asMeant) s (ops ++ [op])) := by
  intro h
  have hset : TrapsSet cloning :=
    ⟨oneTrap_trapsSet.distinct, oneTrap_trapsSet.trap, oneTrap_trapsSet.mapped⟩
  have hguard := h quiet cloning [.resumeAllThreads] (.waitOnSignal none) quiet_sparesTraps hset
  let base := (runAll (execRunOp quiet .asMeant) cloning [.resumeAllThreads]).log
  have harmed : ArmedAt (runAll (execRunOp quiet .asMeant) cloning [.resumeAllThreads]) 0x1000#64 :=
    ⟨_, List.mem_singleton.mpr rfl, by decide, rfl⟩
  have hmoment : ∃ m earlier later, m.memory.byte 0x1000#64 = 0#8 ∧
      running 2 (m :: earlier ++ base) = true ∧
      (runAll (execRunOp quiet .asMeant) cloning ([.resumeAllThreads] ++ [.waitOnSignal none])).log =
        later ++ m :: (earlier ++ base) :=
    ⟨⟨.singleStep 1, _⟩, [_], [_, _], by decide, by decide, rfl⟩
  obtain ⟨m, earlier, later, hbyte, hrun, hlog⟩ := hmoment
  have htrap := hguard.between.moment hlog ⟨2, hrun⟩ harmed
  rw [hbyte] at htrap
  exact absurd htrap (by decide)

end KDebugger.Process
