import KDebugger.Process.SigstopLedger
import KDebugger.Process.ThreadWrites

namespace KDebugger.Process

open Exec

inductive SigstopOp where
  | stopRunningThreads
  /-- `wait_on_signal` as far as to what it does with the answer of `handle_signal` -/
  | handleStop (toAwait : Option Tid)
  | swallow (tid : Tid)
  | resume (otid : Option Tid)
  | resumeAllThreads

def execSigstopOp (O : Outside) : SigstopOp → M Unit
  | .stopRunningThreads => stopRunningThreads O
  | .handleStop toAwait => do
    let e ← waitpid toAwait
    match ← handleSignal O (stopReason e.tid e.status) true with
    | none => pure ()
    | some reason => recordReason e.tid reason
  | .swallow tid => swallowPendingSigstop O tid
  | .resume otid => resume O otid
  | .resumeAllThreads => resumeAllThreads O

/-- While the flag is set, the wait of `swallow_pending_sigstop` takes the SIGSTOP. -/
def TakesOwn (s : Process) (t : Tid) : Prop :=
  ∀ th, s.threads.find t = some th → th.pendingSigstop = true →
    ∃ e, nextEvent s (some t) = some e ∧ e.own = true

/-- The same where `step_over_breakpoint` gets there. -/
def StepsOwn (s : Process) (t : Tid) : Prop :=
  ∀ pc, outcome (getPc (some t)) s = .ok pc → s.enabledSiteAt pc = true → TakesOwn s t

/-- The process after `stop_running_threads` has seen to it that a SIGSTOP is on its way. -/
def sent (s : Process) (th : ThreadState) : Process :=
  if th.pendingSigstop then s else after (record (.sigstop th.tid)) s

/-- The wait of `stop_running_threads` returns, and not with the SIGSTOP of somebody else. -/
def StopsByOwn (s : Process) (t : Tid) : Prop :=
  ∀ th, s.threads.find t = some th → th.state = .running →
    ∃ e, nextEvent (s.sent th) (some t) = some e ∧ (isSigstop e = true → e.own = true)

/-- The event is of a thread that lives, and no stop by SIGSTOP while the flag is set. -/
def HandlesOther (s : Process) (toAwait : Option Tid) : Prop :=
  ∀ e th, nextEvent s toAwait = some e → s.threads.find e.tid = some th →
    live th ∧ (th.pendingSigstop = true → isSigstop e = false)

def Undisturbed (O : Outside) (s : Process) : SigstopOp → Prop
  | .stopRunningThreads => LoopSteps (stopThread O) StopsByOwn s s.threads.tids
  | .handleStop toAwait => HandlesOther s toAwait
  | .swallow tid => TakesOwn s tid
  | .resume otid => StepsOwn s (s.valueOr otid)
  | .resumeAllThreads => LoopSteps (stepOverBreakpoint O) StepsOwn s s.threads.tids

/-- The requests of `ptrace`: one on a thread that is gone fails. -/
structure Outside.Traces (O : Outside) : Prop extends Outside.Scripted O where
  gone : ∀ b t s th, s.threads.find t = some th → ¬ live th → ∃ e, O.cont b t s = .error e s
  hooks : O.Hooks SameAccounts

variable {O : Outside} {s : Process}

theorem TakesOwn.same {s' : Process} {t : Tid} (h : TakesOwn s t) (hsame : SameAccounts s s') :
    TakesOwn s' t := by
  intro th' hth' hflag
  obtain ⟨th, hth, hstatus⟩ := find_of_statuses hsame.statuses hth'
  rw [hsame.nextEvent]
  exact h th hth ((status_pending hstatus).trans hflag)

/-- The `PTRACE_CONT` and the wait of `swallow_pending_sigstop`. -/
theorem LedgerBut.swallowed (h : Ledger s) {t : Tid} {e : WaitEvent} {i : ℕ} {m : Memory}
    (htid : e.tid = t) (hown : e.own = true) :
    LedgerBut (some t) (({ s with log := ⟨.cont t, m⟩ :: s.log } : Process).taken i e) where
  flags t' th hu hth hlive := by
    change outstanding t' (⟨.waited e, s.memory⟩ :: ⟨.cont t, m⟩ :: s.log) = _
    rw [outstanding_waited, if_neg]
    · exact h.flags t' th (by simp) hth hlive
    · rintro ⟨-, rfl⟩
      exact hu (congrArg some htid.symm)
  strangers t' ht' := by
    change outstanding t' (⟨.waited e, s.memory⟩ :: ⟨.cont t, m⟩ :: s.log) = _
    have hzero : outstanding t' (⟨.cont t, m⟩ :: s.log) = 0 := h.strangers t' ht'
    rw [outstanding_waited, hzero]
    split_ifs <;> rfl
  stops e' he' := h.stops e' (List.mem_of_mem_eraseIdx he')
  settled := by
    refine ⟨⟨?_, ⟨?_, h.settled.swallows⟩⟩, ?_⟩
    · intro e' t' he' _
      obtain rfl : e = e' := Call.waited.inj he'
      exact hown
    · rintro e' t' he' -
      cases he'
    · intro t' heq
      cases Option.some.inj heq

theorem ledger_swallow (hO : O.Scripted) (h : Ledger s) {t : Tid} (htake : TakesOwn s t) :
    Ledger (after (swallowPendingSigstop O t) s) := by
  unfold swallowPendingSigstop
  cases hth : s.threads.find t with
  | none =>
    rw [after_bind_error (threadAt_error hth)]
    exact h
  | some th =>
    rw [after_bind_ok (threadAt_ok hth)]
    by_cases hflag : th.pendingSigstop = true
    · have hcont : ignoringErrors (O.cont false t) s = .ok () s := by
        unfold ignoringErrors
        rw [hO.cont false t s]
      let s₁ : Process := { s with log := ⟨.cont t, s.memory⟩ :: s.log }
      have hrecord : record (.cont t) s = .ok () s₁ := rfl
      rw [if_pos hflag, after_bind_ok hcont, after_bind_ok hrecord]
      obtain ⟨e, hnext, hown⟩ := htake th hth hflag
      have hsame : nextEvent s₁ (some t) = nextEvent s (some t) := rfl
      obtain ⟨-, hnone⟩ | ⟨i, e', -, hd, hnext', hwait⟩ := waitpid_next (some t) s₁
      · rw [hsame, hnext] at hnone
        exact absurd hnone (by simp)
      · obtain rfl : e = e' := by
          rw [hsame, hnext] at hnext'
          exact Option.some.inj hnext'
        rw [after_bind_ok hwait]
        have htid : e.tid = t := deliverable_tid hd
        have hbut := h.swallowed (i := i) (m := s.memory) htid hown
        refine hbut.settle fun th' hth' hlive => ?_
        have hcount : outstanding t s.log = 1 := by
          rw [h.flags t th' (by simp) hth' hlive]
          have hsome : some th' = some th := hth'.symm.trans hth
          rw [Option.some.inj hsome, hflag]
          rfl
        change outstanding t (⟨.waited e, s.memory⟩ :: ⟨.cont t, s.memory⟩ :: s.log) = 0
        rw [outstanding_waited, if_pos ⟨hown, htid⟩]
        change outstanding t s.log - 1 = 0
        rw [hcount]
    · rw [if_neg hflag]
      exact h

theorem swallow_unset {t : Tid} {s' : Process} (h : swallowPendingSigstop O t s = .ok () s')
    {th : ThreadState} (hth : s'.threads.find t = some th) : th.pendingSigstop = false := by
  unfold swallowPendingSigstop at h
  obtain ⟨th₀, s₀, hat, h⟩ := bind_eq_ok.mp h
  cases hth₀ : s.threads.find t with
  | none =>
    rw [threadAt_error hth₀] at hat
    cases hat
  | some th₁ =>
    rw [threadAt_ok hth₀] at hat
    cases hat
    split_ifs at h with hflag
    · obtain ⟨_, s₁, -, h⟩ := bind_eq_ok.mp h
      obtain ⟨_, s₂, -, h⟩ := bind_eq_ok.mp h
      obtain ⟨e, s₃, -, h⟩ := bind_eq_ok.mp h
      cases h
      change (s₃.threads.modify t _).find t = some th at hth
      rw [Threads.find_modify] at hth
      obtain ⟨th₂, -, rfl⟩ := Option.map_eq_some_iff.mp hth
      rw [if_pos rfl]
    · cases h
      rw [hth₀] at hth
      rw [← Option.some.inj hth]
      simpa using hflag

theorem ledger_singleStep (hO : O.Scripted) (h : Ledger s) (t : Tid) :
    Ledger (after (singleStep O t) s) := by
  refine (keeps Ledger).bind_at (fun h => ?_) (fun _ s' hok h => ?_) h
  · rwa [hO.singleStep t s]
  · exact h.record (.inr ⟨t, rfl⟩)

theorem singleStep_threads (hO : O.Scripted) {t : Tid} {s' : Process}
    (h : singleStep O t s = .ok () s') : s'.threads = s.threads := by
  obtain ⟨_, s₁, hstep, h⟩ := bind_eq_ok.mp h
  cases h
  rw [(hO.singleStep t).ok hstep]

theorem ledger_stepOver (hO : O.Scripted) (h : Ledger s) {t : Tid} (hstep : StepsOwn s t) :
    Ledger (after (stepOverBreakpoint O t) s) := by
  have hkeeps := keeps Ledger
  unfold stepOverBreakpoint
  refine hkeeps.bind_at (fun h => h.same (within_getPc sameAccounts _ s)) (fun pc s₁ hpc h => ?_) h
  obtain rfl : s₁ = s := (within_getPc unchanged (some t)).ok hpc
  rw [after_bind_ok (get_eq s₁)]
  by_cases hsite : s₁.enabledSiteAt pc = true
  · have htake : TakesOwn s₁ t := hstep pc (by rw [outcome, hpc]) hsite
    rw [if_pos hsite]
    refine hkeeps.bind_at (fun h => h.same (within_siteByAddress sameAccounts _ s₁))
      (fun i s₂ hi h => ?_) h
    obtain rfl : s₂ = s₁ := (within_siteByAddress unchanged pc).ok hi
    have hdisable := (within_disableSite i s₂).sameAccounts
    refine hkeeps.bind_at (fun h => h.same hdisable) (fun _ s₃ hd h => ?_) h
    rw [after, hd] at hdisable
    refine hkeeps.bind_at (fun h => ledger_swallow hO h (htake.same hdisable))
      (fun _ s₄ hswallow h => ?_) h
    refine hkeeps.bind_at (fun h => ledger_singleStep hO h t) (fun _ s₅ hsingle h => ?_) h
    have hunset {th : ThreadState} (hth : s₅.threads.find t = some th) :
        th.pendingSigstop = false := by
      rw [singleStep_threads hO hsingle] at hth
      exact swallow_unset hswallow hth
    obtain ⟨hblocked, -⟩ | ⟨j, e, -, hdel, -, hwait⟩ := waitpid_next (some t) s₅
    · rw [after_bind_error hblocked]
      exact h
    · rw [after_bind_ok hwait]
      refine (h.taken fun hown _ th hth hlive => ?_).same (within_enableSite i _).sameAccounts
      have hpos := deliverable_own hdel hown
      rw [h.flags e.tid th (by simp) hth hlive, hunset (deliverable_tid hdel ▸ hth)] at hpos
      exact absurd hpos (by simp)
  · rw [if_neg hsite]
    exact h

theorem ledger_sendContinue (hO : O.Traces) (t : Tid) (h : Ledger s) :
    Ledger (after (sendContinue O t) s) := by
  unfold sendContinue
  rw [after_bind_ok (get_eq s)]
  cases hcont : O.cont (s.syscallCatchPolicy != .none) t s with
  | error e s' =>
    rw [after_bind_error hcont]
    have hs := hO.cont (s.syscallCatchPolicy != .none) t s
    rw [after, hcont] at hs
    change s' = s at hs
    rwa [hs]
  | ok a s' =>
    obtain rfl : s' = s := (hO.cont _ t).ok hcont
    let s₁ : Process := after (record (.resumed t)) s'
    have hrecord : record (.resumed t) s' = .ok () s₁ := rfl
    have h₁ : Ledger s₁ := h.record (.inl ⟨t, rfl⟩)
    rw [after_bind_ok hcont, after_bind_ok hrecord]
    cases hth : s₁.threads.find t with
    | none =>
      rw [after_bind_error (threadAt_error hth)]
      exact h₁
    | some th =>
      rw [after_bind_ok (threadAt_ok hth)]
      refine (h₁.modify (t := t) (f := fun th => { th with state := .running }) ?_ fun _ => rfl).same
        ⟨rfl, rfl, .of_log_eq rfl⟩
      intro th' hth' _
      by_contra hdead
      obtain ⟨e, herr⟩ := hO.gone (s'.syscallCatchPolicy != .none) t s' th' hth' hdead
      rw [hcont] at herr
      cases herr

theorem ledger_resume (hO : O.Traces) (h : Ledger s) {otid : Option Tid}
    (hstep : StepsOwn s (s.valueOr otid)) : Ledger (after (resume O otid) s) := by
  unfold resume
  rw [after_bind_ok (get_eq s)]
  exact (keeps Ledger).bind_at (fun h => ledger_stepOver hO.toScripted h hstep)
    (fun _ _ _ h => ledger_sendContinue hO _ h) h

theorem ledger_resumeAllThreads (hO : O.Traces) (h : Ledger s)
    (hsteps : LoopSteps (stepOverBreakpoint O) StepsOwn s s.threads.tids) :
    Ledger (after (resumeAllThreads O) s) := by
  unfold resumeAllThreads
  rw [after_bind_ok (get_eq s)]
  refine (keeps Ledger).bind_at (fun h => ?_) (fun _ s' _ h => ?_) h
  · exact forM_invariant (I := Ledger) (f := stepOverBreakpoint O)
      (fun _ _ h hok => ledger_stepOver hO.toScripted h hok) _ s h hsteps
  · exact (keeps Ledger).forM (fun t _ h => ledger_sendContinue hO t h) _ s' h

theorem ledger_emplace (h : Ledger s) {th : ThreadState} (hnew : s.threads.find th.tid = none)
    (hflag : th.pendingSigstop = false) :
    Ledger { s with threads := s.threads.emplace th } where
  flags t th' _ hth' hlive := by
    change (s.threads.emplace th).find t = some th' at hth'
    rw [Threads.find_emplace hnew] at hth'
    split_ifs at hth' with ht
    · rw [← Option.some.inj hth', hflag, ht]
      exact h.strangers th.tid (Threads.find_eq_none.mp hnew)
    · exact h.flags t th' (by simp) hth' hlive
  strangers t ht := by
    apply h.strangers
    have hnone := Threads.find_eq_none.mpr ht
    change (s.threads.emplace th).find t = none at hnone
    rw [Threads.find_emplace hnew] at hnone
    split_ifs at hnone
    exact Threads.find_eq_none.mp hnone
  stops := h.stops
  settled := h.settled

theorem ledger_welcome (hO : O.Hooks SameAccounts) (h : Ledger s) {reason : StopReason}
    (hnew : s.threads.find reason.tid = none) : Ledger (after (welcome O reason) s) := by
  let th : ThreadState :=
    { tid := reason.tid, regs := { data := O.uninitialised, tid := reason.tid } }
  have h₁ : Ledger { s with threads := s.threads.emplace th } := ledger_emplace h hnew rfl
  exact h₁.same (within_reportLifecycle sameAccounts (·.sameAccounts) hO reason _)

theorem ledger_handleSignal (hO : O.Hooks SameAccounts) (h : Ledger s) (reason : StopReason)
    (isMainStop : Bool) : Ledger (after (handleSignal O reason isMainStop) s) := by
  have hkeeps : O.Hooks fun s s' => Ledger s → Ledger s' :=
    ⟨fun reason s h => h.same (hO.notifyStop reason s),
      fun parent s h => h.same (hO.notifyHit parent s),
      fun reason s h => h.same (hO.lifecycle reason s)⟩
  exact within_handleSignal (keeps Ledger) (fun hi h => h.same hi.sameAccounts) hkeeps isMainStop
    (fun hnew _ _ h => ledger_welcome hO h hnew) h

theorem handleSignal_known (hO : O.Hooks SameAccounts) {reason : StopReason} {th : ThreadState}
    (hth : s.threads.find reason.tid = some th) (isMainStop : Bool) :
    SameAccounts s (after (handleSignal O reason isMainStop) s) :=
  within_handleSignal sameAccounts (·.sameAccounts) hO isMainStop
    fun hnew => absurd (hth.symm.trans hnew) (by simp)

/-- A stop of a new thread is answered with a reason only when it is no stop at all. -/
theorem handleSignal_new {reason r : StopReason} {s' : Process}
    (hnew : s.threads.find reason.tid = none)
    (h : handleSignal O reason true s = .ok (some r) s') : s' = s := by
  unfold handleSignal at h
  rw [bind_ok (get_eq s), hnew] at h
  split_ifs at h
  · cases h
  · obtain ⟨_, s₁, -, h⟩ := bind_eq_ok.mp h
    cases h
  · cases h
    rfl

theorem stopReason_tid (t : Tid) (status : BitVec 32) : (stopReason t status).tid = t := by
  unfold stopReason
  split_ifs <;> rfl

theorem isSigstop_iff {e : WaitEvent} : isSigstop e = true ↔
    (stopReason e.tid e.status).reason = .stopped ∧ (stopReason e.tid e.status).info = sigstop := by
  simp [isSigstop]

theorem ledger_recordReason (h : Ledger s) {t : Tid} {reason : StopReason}
    (hlive : ∀ th, s.threads.find t = some th → live th) :
    Ledger (after (recordReason t reason) s) := by
  unfold recordReason
  cases hth : s.threads.find t with
  | none =>
    rw [after_bind_error (threadAt_error hth)]
    exact h
  | some th =>
    rw [after_bind_ok (threadAt_ok hth)]
    exact h.modify (fun th' hth' _ => hlive th' hth') fun _ => rfl

theorem ledger_handleStop (hO : O.Traces) (h : Ledger s) {toAwait : Option Tid}
    (hother : HandlesOther s toAwait) :
    Ledger (after (execSigstopOp O (.handleStop toAwait)) s) := by
  change Ledger (after (waitpid toAwait >>= fun e => _) s)
  obtain ⟨hblocked, -⟩ | ⟨i, e, hi, hd, hnext, hwait⟩ := waitpid_next toAwait s
  · rw [after_bind_error hblocked]
    exact h
  · rw [after_bind_ok hwait]
    have h₁ : Ledger (s.taken i e) := by
      refine h.taken fun hown _ th hth hlive => ?_
      have hpos := deliverable_own hd hown
      have hstop := h.stops e (List.mem_of_getElem? hi) hown
      obtain ⟨-, hquiet⟩ := hother e th hnext hth
      rw [h.flags e.tid th (by simp) hth hlive] at hpos
      cases hflag : th.pendingSigstop with
      | true => exact absurd hstop (by simp [hquiet hflag])
      | false => exact absurd hpos (by simp [hflag])
    refine (keeps Ledger).bind_at (fun h => ledger_handleSignal hO.hooks h _ true)
      (fun handled s₂ hhandled h₂ => ?_) h₁
    cases handled with
    | none => exact h₂
    | some reason =>
      refine ledger_recordReason h₂ fun th₂ hth₂ => ?_
      cases hth : s.threads.find e.tid with
      | none =>
        have hnew : (s.taken i e).threads.find (stopReason e.tid e.status).tid = none := by
          rw [stopReason_tid]
          exact hth
        rw [handleSignal_new hnew hhandled] at hth₂
        exact absurd (hth.symm.trans hth₂) (by simp)
      | some th =>
        have hknown : (s.taken i e).threads.find (stopReason e.tid e.status).tid = some th := by
          rw [stopReason_tid]
          exact hth
        have hsame := handleSignal_known hO.hooks hknown true
        rw [after, hhandled] at hsame
        obtain ⟨th', hth', hstatus⟩ := find_of_statuses hsame.statuses hth₂
        have hsome : some th' = some th := hth'.symm.trans hth
        rw [← status_live hstatus, Option.some.inj hsome]
        exact (hother e th hnext hth).1

theorem LedgerBut.sent (h : Ledger s) {t : Tid} {th : ThreadState}
    (hth : s.threads.find t = some th) (hlive : live th) :
    LedgerBut (some t) (s.sent th) ∧ outstanding t (s.sent th).log = 1 := by
  have hcount := h.flags t th (by simp) hth hlive
  unfold Process.sent
  obtain rfl : th.tid = t := Threads.find_tid hth
  by_cases hflag : th.pendingSigstop = true
  · rw [if_pos hflag] at hcount ⊢
    exact ⟨h.weaken _, hcount⟩
  · rw [if_neg hflag] at hcount ⊢
    have hlog : (after (Process.record (.sigstop th.tid)) s).log =
        ⟨.sigstop th.tid, s.memory⟩ :: s.log := rfl
    have hout (t' : Tid) : outstanding t' (⟨.sigstop th.tid, s.memory⟩ :: s.log) =
        if th.tid = t' then outstanding t' s.log + 1 else outstanding t' s.log := rfl
    refine ⟨⟨?_, ?_, h.stops, h.settled.cons (by simp)⟩, ?_⟩
    · intro t' th' hu hth' hlive'
      rw [hlog, hout, if_neg (by simpa using hu)]
      exact h.flags t' th' (by simp) hth' hlive'
    · intro t' ht'
      have hne : th.tid ≠ t' := by
        rintro rfl
        exact absurd (hth.symm.trans (Threads.find_eq_none.mpr ht')) (by simp)
      rw [hlog, hout, if_neg hne]
      exact h.strangers t' ht'
    · rw [hlog, hout, if_pos rfl, hcount]

/-- What `stop_running_threads` does with the event of a thread. -/
def handleStopped (O : Outside) (tid : Tid) (e : WaitEvent) : M Unit := do
  let reason := stopReason tid e.status
  if reason.reason = .stopped then setPending tid (reason.info != sigstop) else pure ()
  let handled ← handleSignal O reason false
  recordReason tid (handled.getD reason)

theorem stopThread_running {t : Tid} {th : ThreadState} (hth : s.threads.find t = some th)
    (hrunning : th.state = .running) :
    stopThread O t s = (waitpid (some t) >>= handleStopped O t) (s.sent th) := by
  obtain rfl : th.tid = t := Threads.find_tid hth
  unfold stopThread sent
  rw [bind_ok (threadAt_ok hth), if_pos hrunning]
  cases th.pendingSigstop <;> rfl

theorem stopReason_state (t : Tid) (status : BitVec 32) :
    (stopReason t status).reason = .exited ∨ (stopReason t status).reason = .terminated ∨
      (stopReason t status).reason = .stopped := by
  unfold stopReason
  split_ifs <;> simp

theorem ledger_handleStopped (hO : O.Traces) {e : WaitEvent} (h : LedgerBut (some e.tid) s)
    {th : ThreadState} (hth : s.threads.find e.tid = some th) (hlive : live th)
    (hcount : outstanding e.tid s.log = if isSigstop e then 0 else 1) :
    Ledger (after (handleStopped O e.tid e) s) := by
  -- a SIGSTOP that is taken settles the flag, and another signal sets it
  unfold handleStopped
  by_cases hstopped : (stopReason e.tid e.status).reason = .stopped
  · let flag := (stopReason e.tid e.status).info != sigstop
    let s₁ : Process := after (setPending e.tid flag) s
    have hset : setPending e.tid flag s = .ok () s₁ := rfl
    have h₁ : Ledger s₁ := by
      refine h.settle fun th hth _ => ?_
      rw [hcount]
      by_cases hinfo : (stopReason e.tid e.status).info = sigstop
      · simp [flag, hinfo, isSigstop_iff.mpr ⟨hstopped, hinfo⟩]
      · have hother : isSigstop e = false := by simp [isSigstop, hinfo]
        simp [flag, hinfo, hother]
    let th₁ : ThreadState := { th with pendingSigstop := flag, tid := th.tid }
    have hth₁ : s₁.threads.find e.tid = some th₁ := Threads.find_modify_self hth _
    have hknown : s₁.threads.find (stopReason e.tid e.status).tid = some th₁ := by
      rw [stopReason_tid]
      exact hth₁
    simp only [if_pos hstopped]
    rw [after_bind_ok hset]
    refine (keeps Ledger).bind_at (fun h => ledger_handleSignal hO.hooks h _ false)
      (fun handled s₂ hhandled h₂ => ledger_recordReason h₂ fun th₂ hth₂ => ?_) h₁
    have hsame := handleSignal_known hO.hooks hknown false
    rw [after, hhandled] at hsame
    obtain ⟨th', hth', hstatus⟩ := find_of_statuses hsame.statuses hth₂
    have hsome : some th' = some th₁ := hth'.symm.trans hth₁
    rw [← status_live hstatus, Option.some.inj hsome]
    exact hlive
  · have hreturn : handleSignal O (stopReason e.tid e.status) false s =
        .ok (some (stopReason e.tid e.status)) s := by
      unfold handleSignal
      rw [bind_ok (get_eq s), if_neg (by simp), if_neg (fun h => hstopped h.2)]
      rfl
    simp only [if_neg hstopped]
    change Ledger (after (handleSignal O (stopReason e.tid e.status) false >>= fun _ => _) s)
    rw [after_bind_ok hreturn]
    unfold recordReason
    rw [after_bind_ok (threadAt_ok hth)]
    refine h.settle fun th' _ hlive' => ?_
    obtain hdead | hdead | hdead := stopReason_state e.tid e.status
    · exact absurd hdead hlive'.1
    · exact absurd hdead hlive'.2
    · exact absurd hdead hstopped

theorem ledger_stopThread (hO : O.Traces) {t : Tid} (h : Ledger s) (hown : StopsByOwn s t) :
    Ledger (after (stopThread O t) s) := by
  cases hth : s.threads.find t with
  | none =>
    unfold stopThread
    rw [after_bind_error (threadAt_error hth)]
    exact h
  | some th =>
    by_cases hrunning : th.state = .running
    · have hlive : live th := by simp [live, hrunning]
      obtain ⟨hbut, hcount⟩ := h.sent hth hlive
      obtain ⟨e, hnext, hforeign⟩ := hown th hth hrunning
      rw [after, stopThread_running hth hrunning]
      change Ledger (after (waitpid (some t) >>= handleStopped O t) (s.sent th))
      obtain ⟨-, hnone⟩ | ⟨i, e', hi, hd, hnext', hwait⟩ := waitpid_next (some t) (s.sent th)
      · rw [hnext] at hnone
        exact absurd hnone (by simp)
      · obtain rfl : e = e' := Option.some.inj (hnext.symm.trans hnext')
        obtain rfl : e.tid = t := deliverable_tid hd
        have hthreads : ((s.sent th).taken i e).threads = s.threads := by
          unfold Process.sent
          split_ifs <;> rfl
        rw [after_bind_ok hwait]
        refine ledger_handleStopped hO (hbut.taken fun _ hu => absurd rfl hu)
          (hthreads ▸ hth) hlive ?_
        change outstanding e.tid (⟨.waited e, _⟩ :: (s.sent th).log) = _
        rw [outstanding_waited, hcount]
        have hiff : e.own = true ↔ isSigstop e = true :=
          ⟨hbut.stops e (List.mem_of_getElem? hi), hforeign⟩
        simp [hiff]
    · unfold stopThread
      rw [after_bind_ok (threadAt_ok hth), if_neg hrunning]
      exact h

theorem ledger_step (hO : O.Traces) (s : Process) (op : SigstopOp) (h : Ledger s)
    (hop : Undisturbed O s op) : Ledger (after (execSigstopOp O op) s) := by
  cases op with
  | stopRunningThreads =>
    change Ledger (after (stopRunningThreads O) s)
    unfold stopRunningThreads
    rw [after_bind_ok (get_eq s)]
    exact forM_invariant (I := Ledger) (f := stopThread O)
      (fun _ _ h hok => ledger_stopThread hO h hok) _ s h hop
  | handleStop toAwait => exact ledger_handleStop hO h hop
  | swallow tid => exact ledger_swallow hO.toScripted h hop
  | resume otid => exact ledger_resume hO h hop
  | resumeAllThreads => exact ledger_resumeAllThreads hO h hop

/-- What is known of the SIGSTOPs in a state reached. -/
structure SigstopsTold (O : Outside) (s : Process) : Prop where
  flags : FlagsTell s
  /-- no SIGSTOP of anybody else is swallowed -/
  swallows : SwallowsOwn s.log
  /-- nor taken for a pending one -/
  handles : ∀ toAwait e s' th, HandlesOther s toAwait → waitpid toAwait s = .ok e s' →
    isSigstop e = true → s.threads.find e.tid = some th →
    outcome (handleSignal O (stopReason e.tid e.status) true) s' ≠ .ok none
  /-- before each thread's turn, a set flag stands for a SIGSTOP on its way -/
  stops : Undisturbed O s .stopRunningThreads → ∀ k,
    FlagsTell (after ((s.threads.tids.take k).forM (stopThread O)) s)

theorem wstopsig_of_clone {status : BitVec 32} (h : status.sshiftRight 8 = cloneStatus) :
    wstopsig status = 5#8 := by
  have hbyte : wstopsig status = (status.sshiftRight 8).extractLsb' 0 8 := by
    unfold wstopsig
    ext i hi
    have hin : 8 + i < 32 := by omega
    have hlt : ¬ 32 ≤ i := by omega
    simp [BitVec.getLsbD_sshiftRight, hin, hlt]
  rw [hbyte, h]
  decide

theorem notClone {e : WaitEvent} (h : isSigstop e = true) :
    (stopReason e.tid e.status).trapReason ≠ some .clone := by
  obtain ⟨hstopped, hinfo⟩ := isSigstop_iff.mp h
  intro hclone
  unfold stopReason at hstopped hinfo hclone
  split_ifs at hstopped hinfo hclone with h₁ h₂ h₃ h₄
  · simp only [wstopsig_of_clone h₁] at hinfo
    exact absurd hinfo (by decide)
  · simp only at hinfo
    exact absurd hinfo (by decide)

theorem inspectStop_sigstop {reason : StopReason} (h : reason.info = sigstop)
    (isMainStop : Bool) (s s' : Process) : inspectStop O reason isMainStop s ≠ .ok none s' := by
  intro hnone
  unfold inspectStop at hnone
  obtain ⟨_, s₁, -, hnone⟩ := bind_eq_ok.mp hnone
  obtain ⟨reason', s₂, haugment, hnone⟩ := bind_eq_ok.mp hnone
  have hinfo : reason'.info = sigstop := by
    unfold augmentStopReason at haugment
    rw [bind_ok (get_eq s₁), if_neg (by rw [h]; decide)] at haugment
    obtain ⟨_, s₃, -, haugment⟩ := bind_eq_ok.mp haugment
    cases haugment
    exact h
  rw [if_neg (by rw [hinfo]; decide)] at hnone
  obtain ⟨goOn, s₃, hgoOn, hnone⟩ := bind_eq_ok.mp hnone
  cases hgoOn
  obtain ⟨_, s₄, -, hnone⟩ := bind_eq_ok.mp hnone
  cases hnone

theorem handleSignal_sigstop {reason : StopReason} {th : ThreadState}
    (hclone : reason.trapReason ≠ some .clone) (hinfo : reason.info = sigstop)
    (hth : s.threads.find reason.tid = some th) (hflag : th.pendingSigstop ≠ true)
    (s' : Process) : handleSignal O reason true s ≠ .ok none s' := by
  intro hnone
  unfold handleSignal at hnone
  rw [bind_ok (get_eq s), if_neg fun hc => hclone hc.1, hth] at hnone
  split_ifs at hnone
  · change (threadAt reason.tid >>= fun _ => _) s = _ at hnone
    rw [bind_ok (threadAt_ok hth), if_neg fun hc => hflag hc.1] at hnone
    exact inspectStop_sigstop hinfo true s s' hnone
  · cases hnone

theorem Ledger.told (hO : O.Traces) (h : Ledger s) : SigstopsTold O s where
  flags := h.flagsTell
  swallows := h.settled.swallows
  handles := by
    intro toAwait e s₁ th hother hwait hsigstop hth hnone
    obtain ⟨hblocked, -⟩ | ⟨i, e', -, -, hnext, hwait'⟩ := waitpid_next toAwait s
    · rw [hblocked] at hwait
      cases hwait
    · rw [hwait'] at hwait
      cases hwait
      have hquiet := (hother e th hnext hth).2
      have hflag : th.pendingSigstop ≠ true := fun hflag => by
        rw [hquiet hflag] at hsigstop
        cases hsigstop
      have hfind : (s.taken i e).threads.find (stopReason e.tid e.status).tid = some th := by
        rw [stopReason_tid]
        exact hth
      have hnever := handleSignal_sigstop (O := O) (notClone hsigstop)
        (isSigstop_iff.mp hsigstop).2 hfind hflag
      unfold outcome at hnone
      split at hnone
      · rename_i handled s₂ hhandled
        rw [Except.ok.inj hnone] at hhandled
        exact hnever s₂ hhandled
      · cases hnone
  stops hundisturbed k :=
    Ledger.flagsTell (forM_invariant (I := Ledger) (f := stopThread O)
      (fun _ _ h hok => ledger_stopThread hO h hok) _ s h (hundisturbed.take k))

/-- Runs of undisturbed operations from a process to which no SIGSTOP has been sent. -/
theorem sigstopsTold_of_run {O : Outside} (hO : O.Traces) (s : Process) (hlog : s.log = [])
    (hflags : ∀ t th, s.threads.find t = some th → th.pendingSigstop = false)
    (hown : ∀ e ∈ s.events, e.own = true → isSigstop e = true) (ops : List SigstopOp)
    (hops : AllSteps (execSigstopOp O) (Undisturbed O) s ops) :
    SigstopsTold O (runAll (execSigstopOp O) s ops) := by
  have hstart : Ledger s := by
    refine ⟨fun t th _ hth _ => ?_, fun t _ => ?_, hown, ?_⟩
    · rw [hlog, hflags t th hth]
      rfl
    · rw [hlog]
      rfl
    · rw [hlog]
      exact ⟨trivial, by simp⟩
  exact Ledger.told hO (runAll_invariant (ledger_step hO) ops s hstart hops)

/-- Requests that fail on a thread that is gone. -/
def ptrace : Outside :=
  { quiet with cont := fun _ tid => do
      let s ← get
      if (s.threads.find tid).any (fun th => live th) then pure ()
      else throw (.raised "No such process") }

theorem ptrace_traces : ptrace.Traces where
  cont b t s := by
    change after (if _ then pure () else throw _ : M Unit) s = s
    split_ifs <;> rfl
  singleStep _ _ := rfl
  gone b t s th hth hdead := by
    refine ⟨.raised "No such process", ?_⟩
    change (if _ then pure () else throw _ : M Unit) s = _
    rw [if_neg]
    · rfl
    · simpa [hth] using hdead
  hooks := ⟨fun _ => sameAccounts.pure _, fun _ => sameAccounts.pure _, fun _ => sameAccounts.pure _⟩

def secondRuns (events : List WaitEvent) : Process :=
  { twoThreads with
    threads := twoThreads.threads.modify 2 fun th => { th with state := .running }
    events }

def ownStop : WaitEvent := { tid := 2, status := 0x137f#32, own := true }

def secondFaults : Process := secondRuns [{ tid := 2, status := 0xb7f#32 }, ownStop]

theorem secondFaults_flags (t : Tid) (th : ThreadState)
    (hth : secondFaults.threads.find t = some th) : th.pendingSigstop = false := by
  have hall : ∀ th ∈ secondFaults.threads.entries, th.pendingSigstop = false := by
    simp [secondFaults, secondRuns, twoThreads, Threads.modify]
  exact hall th (List.mem_of_find?_eq_some hth)

theorem secondFaults_own : ∀ e ∈ secondFaults.events, e.own = true → isSigstop e = true := by
  intro e he hown
  simp only [secondFaults, secondRuns, List.mem_cons, List.not_mem_nil, or_false] at he
  obtain rfl | rfl := he
  · cases hown
  · decide

/-- The fault wins the race, and the SIGSTOP is swallowed afterwards. -/
theorem sigstopsTold_secondFaults :
    SigstopsTold ptrace
      (runAll (execSigstopOp ptrace) secondFaults [.stopRunningThreads, .swallow 2]) := by
  refine sigstopsTold_of_run ptrace_traces _ rfl secondFaults_flags secondFaults_own _
    ⟨⟨?_, fun s₁ hs₁ => ?_⟩, ?_, trivial⟩
  · intro th hth hrunning
    cases hth
    cases hrunning
  · cases hs₁
    refine ⟨fun th hth _ => ?_, fun _ _ => trivial⟩
    cases hth
    exact ⟨_, rfl, fun h => absurd h (by decide)⟩
  · intro th hth hflag
    exact ⟨ownStop, rfl, rfl⟩

/-- The SIGSTOP arrives where `handle_signal` leaves the flag as it is. -/
theorem flagsTell_not_for_all : ¬ ∀ (O : Outside) (s : Process) (ops : List SigstopOp),
    O.Traces → s.log = [] → (∀ t th, s.threads.find t = some th → th.pendingSigstop = false) →
    (∀ e ∈ s.events, e.own = true → isSigstop e = true) →
    FlagsTell (runAll (execSigstopOp O) s ops) := by
  intro h
  have hlaw := h ptrace secondFaults [.stopRunningThreads, .resume (some 2), .handleStop none]
    ptrace_traces rfl secondFaults_flags secondFaults_own
  obtain ⟨-, hflag⟩ := hlaw 2 _ rfl (by decide)
  exact absurd (hflag.mp rfl) (by decide)

end KDebugger.Process
