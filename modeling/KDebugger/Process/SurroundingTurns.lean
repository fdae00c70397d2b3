import KDebugger.Process.SignalFrames
import KDebugger.Process.Surroundings

namespace KDebugger.Process

open Exec

variable {σ : Type} {O : Outside}

namespace Surroundings

variable (D : Surroundings (EStateM Failure σ)) (O)

/-- What `wait_on_signal` does with a stopped process before it goes on or returns. -/
def lookStopped (reason : StopReason) : EStateM Failure σ (StopReason × Bool) := do
  let s ← D.run get
  D.run (readAllRegisters s.currentThread)
  let reason ← D.run (augmentStopReason reason)
  let pc ← D.run (getPc none)
  let instrBegin := pc - 1#64
  if reason.info = sigtrap then do
    if reason.trapReason = some .softwareBreak ∧ s.enabledSiteAt instrBegin = true then do
      let i ← D.run (siteByAddress instrBegin)
      let goOn ← D.hitBreakpoint i instrBegin none
      pure (reason, goOn)
    else if reason.trapReason = some .hardwareBreak then do
      match ← D.run (getCurrentHardwareStoppoint none) with
      | .inl _ => pure (reason, false)
      | .inr id => do
        D.run (updateWatchpoint id)
        pure (reason, false)
    else pure (reason, false)
  else pure (reason, false)

/-- What it does then. -/
def tellStopped (x : StopReason × Bool) : EStateM Failure σ (Option StopReason) :=
  if x.2 then do
    D.run (resume O none)
    pure none
  else do
    D.run (notifyTarget O x.1)
    pure (some x.1)

theorem reportStopped_eq (reason : StopReason) :
    D.reportStopped O reason = D.lookStopped reason >>= D.tellStopped O := by
  unfold Surroundings.reportStopped lookStopped
  simp only [bind_assoc]
  congr 1
  funext s
  congr 1
  funext _
  congr 1
  funext reason'
  congr 1
  funext pc
  split_ifs
  · simp only [bind_assoc, pure_bind]
    rfl
  · simp only [bind_assoc]
    congr 1
    funext x
    cases x <;> simp only [bind_assoc, pure_bind] <;> rfl
  · simp only [pure_bind]
    rfl
  · simp only [pure_bind]
    rfl

/-- The parts of a turn, but for the going on of a thread, are as `R` says. -/
structure Turns (R : σ → σ → Prop) : Prop where
  frame : Frame R
  look : ∀ {α : Type} {p : M α}, Within Inspects p → Within R (D.run p)
  hits : ∀ parent, Within R (D.notifyHit parent)
  notifyTarget : ∀ reason, Within R (D.run (notifyTarget O reason))
  lifecycle : ∀ reason, Within R (D.run (reportLifecycle O reason))
  welcome : ∀ reason, Within R (D.run (welcome O reason))
  waitpid : ∀ toAwait, Within R (D.run (waitpid toAwait))
  recordReason : ∀ tid reason, Within R (D.run (recordReason tid reason))
  state : ∀ state, Within R (D.run (modify fun s => { s with state }))

namespace Turns

variable {D O} {R : σ → σ → Prop} (hT : D.Turns O R)

include hT

theorem hitBreakpoint (i : ℕ) (address : VirtAddr) (otid : Option Tid) :
    Within R (D.hitBreakpoint i address otid) := by
  apply hT.frame.bind (hT.look (within_setPc _ _))
  intro _
  apply hT.frame.bind (hT.look (within_siteAt inspects i))
  intro site
  cases site.parent with
  | none => exact hT.frame.pure _
  | some parent => exact hT.hits parent

theorem hardwareHit {α : Type} (otid : Option Tid) {rest : Bool → EStateM Failure σ α}
    (hrest : ∀ b, Within R (rest b)) : Within R (do
      match ← D.run (getCurrentHardwareStoppoint otid) with
      | .inl _ => rest false
      | .inr id => do
        D.run (updateWatchpoint id)
        rest false) := by
  apply hT.frame.bind (hT.look (within_getCurrentHardwareStoppoint inspects otid))
  intro x
  cases x with
  | inl id => exact hrest _
  | inr id => exact hT.frame.bind (hT.look (within_updateWatchpoint id)) fun _ => hrest _

theorem handleTrap (reason : StopReason) (isMainStop : Bool) :
    Within R (D.handleTrap reason isMainStop) := by
  apply hT.frame.bind (hT.look (within_getPc inspects _))
  intro pc
  apply hT.frame.bind (hT.look inspects.get)
  intro s
  apply within_ite
  · apply hT.frame.bind (hT.look (within_siteByAddress inspects _))
    intro i
    exact hT.frame.bind (hT.hitBreakpoint _ _ _) fun _ => hT.frame.pure _
  · exact within_ite (hT.hardwareHit _ hT.frame.pure) (hT.frame.pure _)

theorem inspectStop (reason : StopReason) (isMainStop : Bool) :
    Within R (D.inspectStop O reason isMainStop) := by
  apply hT.frame.bind (hT.look (within_readAllRegisters _))
  intro _
  apply hT.frame.bind (hT.look (within_augmentStopReason _))
  intro reason'
  have htell (goOn : Bool) : Within R (if goOn = true then pure none else do
      D.run (Process.notifyTarget O reason')
      pure (some reason') : EStateM Failure σ (Option StopReason)) :=
    within_ite (hT.frame.pure _)
      (hT.frame.bind (hT.notifyTarget _) fun _ => hT.frame.pure _)
  exact within_ite (hT.frame.bind (hT.handleTrap _ _) htell)
    (hT.frame.bind (hT.frame.pure _) htell)

theorem handleSignal (reason : StopReason) (isMainStop : Bool) :
    Within R (D.handleSignal O reason isMainStop) := by
  apply hT.frame.bind (hT.look inspects.get)
  intro s
  apply within_ite (hT.frame.pure _)
  apply within_ite _ (hT.frame.pure _)
  have hrest (new : Bool) : Within R (if (new && isMainStop) = true then pure none else do
      let th ← D.run (threadAt reason.tid)
      if th.pendingSigstop = true ∧ reason.info = sigstop then pure none
      else D.inspectStop O reason isMainStop : EStateM Failure σ (Option StopReason)) := by
    apply within_ite (hT.frame.pure _)
    apply hT.frame.bind (hT.look (within_threadAt inspects _))
    intro th
    exact within_ite (hT.frame.pure _) (hT.inspectStop _ _)
  exact within_ite (hT.frame.bind (hT.welcome _) fun _ => hrest _) (hrest _)

theorem lookStopped (reason : StopReason) : Within R (D.lookStopped reason) := by
  apply hT.frame.bind (hT.look inspects.get)
  intro s
  apply hT.frame.bind (hT.look (within_readAllRegisters _))
  intro _
  apply hT.frame.bind (hT.look (within_augmentStopReason _))
  intro reason'
  apply hT.frame.bind (hT.look (within_getPc inspects _))
  intro pc
  refine within_ite (within_ite ?_ (within_ite ?_ (hT.frame.pure _))) (hT.frame.pure _)
  · apply hT.frame.bind (hT.look (within_siteByAddress inspects _))
    intro i
    exact hT.frame.bind (hT.hitBreakpoint _ _ _) fun _ => hT.frame.pure _
  · exact hT.hardwareHit none fun b => hT.frame.pure (reason', b)

end Turns

/-- One turn lets a thread go on, in the state `t'`. -/
inductive GoesOn (reading : Reading) (t : σ) (toAwait : Option Tid) : σ → Option Tid → Prop
  /-- after a clone event, the first stop of a thread, a system call that is not caught, or
  a hit -/
  | again {e : WaitEvent} {t₁ t₂ : σ} (wait : D.run (waitpid toAwait) t = .ok e t₁)
      (handled : D.handleSignal O (stopReason (reading.tid e.tid) e.status) true t₁ = .ok none t₂) :
      GoesOn reading t toAwait t₂ (some (reading.tid e.tid))
  /-- after a hit in a process that counts as stopped -/
  | restart {e : WaitEvent} {t₁ t₂ t₃ t₄ t₅ : σ} {reason reason' : StopReason} {s : Process}
      (wait : D.run (waitpid toAwait) t = .ok e t₁)
      (handled : D.handleSignal O (stopReason (reading.tid e.tid) e.status) true t₁ =
        .ok (some reason) t₂)
      (recorded : D.run (recordReason (reading.tid e.tid) reason) t₂ = .ok () t₃)
      (looked : D.run get t₃ = .ok s t₄)
      (alive : ¬ (reason.reason = .exited ∨ reason.reason = .terminated))
      (stopped : s.attached = true ∧ s.state = .stopped)
      (hit : D.lookStopped reason t₄ = .ok (reason', true) t₅) :
      GoesOn reading t toAwait t₅ none

/-- Wherever a turn lets a thread go on, `ok` says so, in all turns. -/
def GoesOnAs (ok : σ → Option Tid → Prop) (reading : Reading) : ℕ → σ → Option Tid → Prop
  | 0, _, _ => True
  | fuel + 1, t, toAwait => (∀ t' otid, D.GoesOn O reading t toAwait t' otid → ok t' otid) ∧
    ∀ next t', D.waitOnce O reading toAwait t = .ok (.inr next) t' →
      GoesOnAs ok reading fuel t' next

section Turns

variable {D O} {K : σ → Prop} (hT : D.Turns O fun t t' => K t → K t') {bad : σ → Prop}
  (hbad : ∀ t, K t → bad t) {ok : σ → Option Tid → Prop}
  (hresume : ∀ t otid, K t → ok t otid → Leads K bad (D.run (resume O otid)) t)
  {reading : Reading} {t t' : σ}

include hT hbad hresume

theorem leads_waitOnce (h : K t) {toAwait : Option Tid}
    (hturn : ∀ t' otid, D.GoesOn O reading t toAwait t' otid → ok t' otid) :
    Leads K bad (D.waitOnce O reading toAwait) t := by
  -- the parts of a turn one after the other; only one of them lets a thread go on
  refine (Leads.of_within (hT.waitpid _) hbad h).bind fun e t₁ hwait h₁ => ?_
  refine (Leads.of_within (hT.handleSignal _ _) hbad h₁).bind fun handled t₂ hhandled h₂ => ?_
  cases handled with
  | none =>
    exact (hresume t₂ _ h₂ (hturn t₂ _ (.again hwait hhandled))).bind fun _ _ _ h₃ => h₃
  | some reason =>
    refine (Leads.of_within (hT.recordReason _ _) hbad h₂).bind fun _ t₃ hrecord h₃ => ?_
    refine (Leads.of_within (hT.look inspects.get) hbad h₃).bind fun s t₄ hget h₄ => ?_
    by_cases hdead : reason.reason = .exited ∨ reason.reason = .terminated
    · rw [if_pos hdead]
      refine (Leads.of_within (hT.lifecycle _) hbad h₄).bind fun _ t₅ _ h₅ => ?_
      split_ifs
      · exact (Leads.of_within (hT.state _) hbad h₅).bind fun _ _ _ h₆ => h₆
      · exact h₅
    rw [if_neg hdead, reportStopped_eq]
    split_ifs with hstopped
    · have htold : Leads K bad (D.lookStopped reason >>= D.tellStopped O) t₄ := by
        refine (Leads.of_within (hT.lookStopped _) hbad h₄).bind fun x t₅ hlook h₅ => ?_
        obtain ⟨reason', goOn⟩ := x
        cases goOn with
        | true =>
          have hok := hturn t₅ _ (.restart hwait hhandled hrecord hget hdead hstopped hlook)
          exact (hresume t₅ none h₅ hok).bind fun _ _ _ h₆ => h₆
        | false =>
          exact (Leads.of_within (hT.notifyTarget _) hbad h₅).bind fun _ _ _ h₆ => h₆
      refine htold.bind fun told t₅ _ h₅ => ?_
      cases told <;> exact h₅
    · exact h₄

theorem leads_waitLoop : ∀ (fuel : ℕ) (t : σ) (toAwait : Option Tid), K t →
    D.GoesOnAs O ok reading fuel t toAwait → Leads K bad (D.waitLoop O reading fuel toAwait) t := by
  intro fuel
  induction fuel with
  | zero =>
    intro t toAwait h _
    exact Leads.of_within (hT.look (inspects.throw _)) hbad h
  | succ fuel ih =>
    intro t toAwait h hgoes
    refine (leads_waitOnce hT hbad hresume h hgoes.1).bind fun x t₁ hturn h₁ => ?_
    cases x with
    | inl reason => exact h₁
    | inr next => exact ih t₁ next h₁ (hgoes.2 next t₁ hturn)

end Turns

section Ends

variable {D O} {reading : Reading} {t t' : σ} {toAwait otid : Option Tid}

theorem GoesOn.after_eq (h : D.GoesOn O reading t toAwait t' otid) :
    after (D.waitOnce O reading toAwait) t = after (D.run (resume O otid)) t' := by
  unfold Surroundings.waitOnce
  cases h with
  | again hwait hhandled =>
    rw [after_bind_ok hwait, after_bind_ok hhandled]
    exact after_bind_unchanged (fun _ _ => rfl) _
  | restart hwait hhandled hrecord hget halive hstopped hlook =>
    rw [after_bind_ok hwait, after_bind_ok hhandled]
    dsimp only
    rw [after_bind_ok hrecord, after_bind_ok hget, if_neg halive, if_pos hstopped,
      reportStopped_eq, bind_assoc, after_bind_ok hlook]
    unfold tellStopped
    rw [if_pos rfl, bind_assoc]
    exact after_bind_unchanged (fun _ _ => rfl) _

theorem GoesOn.within {R : σ → σ → Prop} (hT : D.Turns O R)
    (h : D.GoesOn O reading t toAwait t' otid) : R t t' := by
  cases h with
  | again hwait hhandled =>
    exact hT.frame.trans ((hT.waitpid _).ok hwait) ((hT.handleSignal _ _).ok hhandled)
  | restart hwait hhandled hrecord hget _ _ hlook =>
    have hstop := hT.frame.trans ((hT.waitpid _).ok hwait) ((hT.handleSignal _ _).ok hhandled)
    have hrecorded := hT.frame.trans hstop ((hT.recordReason _ _).ok hrecord)
    have hlooked := hT.frame.trans hrecorded ((hT.look inspects.get).ok hget)
    exact hT.frame.trans hlooked ((hT.lookStopped _).ok hlook)

theorem goesOnAs_true (reading : Reading) (fuel : ℕ) :
    ∀ (t : σ) (toAwait : Option Tid), D.GoesOnAs O (fun _ _ => True) reading fuel t toAwait := by
  induction fuel with
  | zero => exact fun _ _ => trivial
  | succ fuel ih => exact fun _ _ => ⟨fun _ _ _ => trivial, fun next t' _ => ih t' next⟩

/-- What each thread that goes on and comes back keeps, a wait keeps exactly where those do
that do not come back. -/
theorem kept_waitLoop_iff {K : σ → Prop} (hT : D.Turns O fun t t' => K t → K t')
    {ok : σ → Option Tid → Prop}
    (hback : ∀ t otid, K t → Leads K (fun _ => True) (D.run (resume O otid)) t)
    (hends : ∀ t otid, K t → (K (after (D.run (resume O otid)) t) ↔ ok t otid)) :
    ∀ (fuel : ℕ) (t : σ) (toAwait : Option Tid), K t →
      (K (after (D.waitLoop O reading fuel toAwait) t) ↔
        D.GoesOnAs O ok reading fuel t toAwait) := by
  have hself (t : σ) (h : K t) : K t := h
  have hresume (t : σ) (otid : Option Tid) (h : K t) (hok : ok t otid) :
      Leads K K (D.run (resume O otid)) t := .of_after ((hends t otid h).mpr hok) hself
  intro fuel
  induction fuel with
  | zero => exact fun t _ h => iff_of_true (hT.look (inspects.throw _) t h) trivial
  | succ fuel ih =>
    intro t toAwait h
    constructor
    · intro hkept
      have hleads : Leads K (fun _ => True) (D.waitOnce O reading toAwait) t :=
        leads_waitOnce hT (fun _ _ => trivial) (fun t otid h _ => hback t otid h) h
          fun _ _ _ => trivial
      have hturns (hturn : K (after (D.waitOnce O reading toAwait) t)) (t' : σ)
          (otid : Option Tid) (hgoes : D.GoesOn O reading t toAwait t' otid) : ok t' otid := by
        rw [hgoes.after_eq] at hturn
        exact (hends t' otid (hgoes.within hT h)).mp hturn
      unfold Leads at hleads
      rw [waitLoop] at hkept
      cases hturn : D.waitOnce O reading toAwait t with
      | error e t₁ =>
        rw [after_bind_error hturn] at hkept
        exact ⟨hturns (by rwa [after, hturn]), fun _ _ hno => by cases hno.symm.trans hturn⟩
      | ok x t₁ =>
        rw [hturn] at hleads
        refine ⟨hturns (by rwa [after, hturn]), fun next t' hnext => ?_⟩
        obtain ⟨rfl, rfl⟩ : x = .inr next ∧ t₁ = t' := by simpa using hturn.symm.trans hnext
        rw [after_bind_ok hturn] at hkept
        exact (ih t₁ next hleads).mp hkept
    · intro hgoes
      exact (leads_waitLoop hT hself hresume _ t toAwait h hgoes).after hself

theorem Turns.since {R : σ → σ → Prop} (hT : D.Turns O R) (t₀ : σ) :
    D.Turns O fun t t' => R t₀ t → R t₀ t' where
  frame := keeps (R t₀)
  look hp t h := hT.frame.trans h (hT.look hp t)
  hits parent t h := hT.frame.trans h (hT.hits parent t)
  notifyTarget reason t h := hT.frame.trans h (hT.notifyTarget reason t)
  lifecycle reason t h := hT.frame.trans h (hT.lifecycle reason t)
  welcome reason t h := hT.frame.trans h (hT.welcome reason t)
  waitpid toAwait t h := hT.frame.trans h (hT.waitpid toAwait t)
  recordReason tid reason t h := hT.frame.trans h (hT.recordReason tid reason t)
  state state t h := hT.frame.trans h (hT.state state t)

theorem Turns.waitOnSignal {R : σ → σ → Prop} (hT : D.Turns O R)
    (hresume : ∀ otid, Within R (D.run (resume O otid))) (reading : Reading)
    (toAwait : Option Tid) : Within R (D.waitOnSignal O reading toAwait) := by
  apply hT.frame.bind (hT.look inspects.get)
  intro s t
  have hself (t' : σ) (h : R t t') : R t t' := h
  have hleads : Leads (R t) (R t) (D.waitLoop O reading (s.events.length + 1) toAwait) t :=
    leads_waitLoop (hT.since t) hself
      (fun t' otid h _ => .of_after (hT.frame.trans h (hresume otid t')) hself)
      (s.events.length + 1) t toAwait (hT.frame.refl t) (goesOnAs_true _ _ _ _)
  exact hleads.after hself

end Ends

end Surroundings

end KDebugger.Process
