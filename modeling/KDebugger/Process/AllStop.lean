import KDebugger.Process.GuardedRuns
import KDebugger.Process.PendingSigstops

namespace KDebugger.Process

open Exec

def lastWaited : List Moment → Option WaitEvent
  | [] => none
  | ⟨.waited e, _⟩ :: _ => some e
  | _ :: log => lastWaited log

/-- The stop is recorded for the thread it is of, all threads are stopped, and the process
is, with that thread as its current one. -/
structure AllStop (r : StopReason) (s : Process) : Prop where
  recorded : ∃ e th, lastWaited s.log = some e ∧ r.tid = e.tid ∧
    s.threads.find e.tid = some th ∧ th.reason.tid = e.tid ∧ th.reason.reason = r.reason
  threads : ∀ t th, s.threads.find t = some th → th.state = .stopped
  state : s.state = .stopped
  current : s.currentThread = r.tid

/-- The first event ends the wait, in a process that counts as stopped, of whose threads
it is the current one and the others are stopped. -/
structure StopsAlone (O : Outside) (s : Process) (toAwait : Option Tid) : Prop where
  direct : ∀ next s', waitOnce O .asMeant toAwait s ≠ .ok (.inr next) s'
  state : s.state = .stopped
  current : ∀ e, nextEvent s toAwait = some e → s.currentThread = e.tid
  others : ∀ e t th, nextEvent s toAwait = some e → t ≠ e.tid → s.threads.find t = some th →
    th.state = .stopped

/-- The event says that its thread is gone. -/
def isExit (e : WaitEvent) : Prop := (stopReason e.tid e.status).reason ≠ .stopped

/-- Threads but for their registers, the state of the process and the current thread stay. -/
structure SameStates (s s' : Process) : Prop extends SameAccounts s s' where
  pid : s'.pid = s.pid
  state : s'.state = s.state
  current : s'.currentThread = s.currentThread

theorem sameStates : Frame SameStates where
  refl s := ⟨sameAccounts.refl s, rfl, rfl, rfl⟩
  trans h h' := ⟨sameAccounts.trans h.toSameAccounts h'.toSameAccounts, h'.pid.trans h.pid,
    h'.state.trans h.state, h'.current.trans h.current⟩

theorem Inspects.sameStates {s s' : Process} (h : Inspects s s') : SameStates s s' :=
  ⟨h.sameAccounts, by rw [h.same], by rw [h.same], by rw [h.same]⟩

/-- Requests act through later events, none succeeds on thread 0, and callbacks do not touch
the states of threads. -/
structure Outside.Observed (O : Outside) : Prop extends Outside.Scripted O where
  zero : ∀ b s, ∃ e, O.cont b 0 s = .error e s
  hooks : O.Hooks SameStates

variable {O : Outside} {s s' : Process}

theorem resume_zero (hO : O.Observed) (u : Unit) : resume O (some 0) s ≠ .ok u s' := by
  intro h
  obtain ⟨s₀, s₁, hget, h⟩ := bind_eq_ok.mp h
  cases hget
  obtain ⟨_, s₂, -, h⟩ := bind_eq_ok.mp h
  obtain ⟨s₃, s₄, hget, h⟩ := bind_eq_ok.mp h
  cases hget
  obtain ⟨_, s₅, hcont, -⟩ := bind_eq_ok.mp h
  obtain ⟨e, herr⟩ := hO.zero (s₂.syscallCatchPolicy != .none) s₂
  change O.cont _ 0 s₂ = _ at hcont
  rw [herr] at hcont
  cases hcont

theorem waitOnce_asWritten (hO : O.Observed) (hzero : 0 ∉ s.threads.tids) (toAwait : Option Tid)
    (x : StopReason ⊕ Option Tid) : waitOnce O .asWritten toAwait s ≠ .ok x s' := by
  intro h
  obtain ⟨e, s₁, hwait, hturn⟩ := bind_eq_ok.mp h
  obtain ⟨handled, s₂, hhandled, hrest⟩ := bind_eq_ok.mp hturn
  cases handled with
  | none =>
    obtain ⟨u, s₃, hresume, -⟩ := bind_eq_ok.mp hrest
    exact resume_zero hO u hresume
  | some reason =>
    have hnew : s₁.threads.find 0 = none := by
      obtain ⟨hblocked, -⟩ | ⟨i, e', -, -, -, hwait'⟩ := waitpid_next toAwait s
      · rw [hblocked] at hwait
        cases hwait
      · rw [hwait'] at hwait
        cases hwait
        exact Threads.find_eq_none.mpr hzero
    have hfind : s₁.threads.find (stopReason 0 e.status).tid = none := by
      rw [stopReason_tid]
      exact hnew
    obtain rfl : s₂ = s₁ := handleSignal_new hfind hhandled
    obtain ⟨_, s₃, hrecord, -⟩ := bind_eq_ok.mp hrest
    have hraise : recordReason 0 reason s₂ = .error .outOfRange s₂ :=
      bind_error (threadAt_error hnew)
    change recordReason 0 reason s₂ = _ at hrecord
    rw [hraise] at hrecord
    cases hrecord

theorem waitOnSignal_asWritten (hO : O.Observed) (hzero : 0 ∉ s.threads.tids)
    (toAwait : Option Tid) (r : StopReason) : waitOnSignal O .asWritten toAwait s ≠ .ok r s' := by
  intro h
  obtain ⟨s₀, s₁, hget, h⟩ := bind_eq_ok.mp h
  cases hget
  obtain ⟨x, s₂, hturn, -⟩ := bind_eq_ok.mp h
  exact waitOnce_asWritten hO hzero toAwait x hturn

def stateOf (s : Process) (t : Tid) : Option ProcessState := (s.threads.find t).map ThreadState.state

/-- The thread is gone, and no event of it can be taken. -/
structure Gone (t : Tid) (s : Process) : Prop where
  dead : ∃ st, stateOf s t = some st ∧ st ≠ .stopped ∧ st ≠ .running
  quiet : ∀ e ∈ s.events, e.tid = t → e.own = true ∧ outstanding t s.log = 0

/-- The process does not count as stopped, or has a thread that is gone. -/
def Spoiled (t : Tid) (s : Process) : Prop := s.state ≠ .stopped ∨ Gone t s

theorem AllStop.not_spoiled {r : StopReason} (h : AllStop r s) (t : Tid) : ¬ Spoiled t s := by
  rintro (hstate | ⟨⟨st, hst, hne, -⟩, -⟩)
  · exact hstate h.state
  · obtain ⟨th, hth, rfl⟩ := Option.map_eq_some_iff.mp hst
    exact hne (h.threads t th hth)

theorem stateOf_of_statuses (h : s'.statuses = s.statuses) (t : Tid) :
    stateOf s' t = stateOf s t := by
  have hmap (s : Process) : stateOf s t =
      ((s.statuses.find? fun x => x.1 == t).map fun x => x.2.2.1) := by
    unfold stateOf statuses Threads.find
    rw [List.find?_map, Option.map_map]
    rfl
  rw [hmap, hmap, h]

theorem Gone.mono {t : Tid} (h : Gone t s) (hstate : stateOf s' t = stateOf s t)
    (hevents : ∀ e ∈ s'.events, e ∈ s.events) (hout : outstanding t s'.log ≤ outstanding t s.log) :
    Gone t s' where
  dead := by
    rw [hstate]
    exact h.dead
  quiet e he ht := by
    obtain ⟨hown, hzero⟩ := h.quiet e (hevents e he) ht
    exact ⟨hown, by omega⟩

theorem SameStates.spoiled {t : Tid} (h : SameStates s s') (hs : Spoiled t s) : Spoiled t s' := by
  obtain hstate | hgone := hs
  · left
    rwa [h.state]
  · right
    refine hgone.mono (stateOf_of_statuses h.statuses t) ?_ (h.outstanding t).le
    rw [h.events]
    exact fun _ he => he

/-- A reason that is of the same thread and says the same of it. -/
def SameStop (reason r : StopReason) : Prop := r.tid = reason.tid ∧ r.reason = reason.reason

theorem returns_augment (reason : StopReason) :
    Returns (SameStop reason) (augmentStopReason reason) := by
  refine .of_rest fun s => .ite ?_ ?_
  · exact .of_rest fun _ => .of_rest fun _ => .of_rest fun _ => .pure ⟨rfl, rfl⟩
  · exact .of_rest fun _ => .pure ⟨rfl, rfl⟩

theorem returns_inspect (reason : StopReason) (isMainStop : Bool) :
    Returns (fun handled => ∀ r, handled = some r → SameStop reason r)
      (inspectStop O reason isMainStop) := by
  refine .of_rest fun _ => (returns_augment reason).bind fun r hr => ?_
  have htell (goOn : Bool) : Returns (fun handled => ∀ r', handled = some r' → SameStop reason r')
      (if goOn = true then pure none else do
        notifyTarget O r
        pure (some r) : M (Option StopReason)) := by
    refine .ite (.pure (by simp)) (.of_rest fun _ => .pure ?_)
    rintro r' ⟨⟩
    exact hr
  exact .ite (.of_rest htell) (.of_rest htell)

theorem returns_handleSignal (reason : StopReason) (isMainStop : Bool) :
    Returns (fun handled => ∀ r, handled = some r → SameStop reason r)
      (handleSignal O reason isMainStop) := by
  have hrest (new : Bool) : Returns (fun handled => ∀ r, handled = some r → SameStop reason r)
      (if (new && isMainStop) = true then pure none else do
        let th ← threadAt reason.tid
        if th.pendingSigstop = true ∧ reason.info = sigstop then pure none
        else inspectStop O reason isMainStop : M (Option StopReason)) := by
    refine .ite (.pure (by simp)) (.of_rest fun _ => .ite (.pure (by simp)) ?_)
    exact returns_inspect reason isMainStop
  refine .of_rest fun s => .ite (.pure (by simp)) (.ite ?_ (.pure ?_))
  · exact .ite (.of_rest fun _ => hrest _) (hrest _)
  · rintro r ⟨⟩
    exact ⟨rfl, rfl⟩

theorem returns_lookStopped (reason : StopReason) :
    Returns (fun x => SameStop reason x.1) (lookStopped O reason) := by
  refine .of_rest fun s => .of_rest fun _ => (returns_augment reason).bind fun r hr => ?_
  refine .of_rest fun pc => .ite (.ite ?_ (.ite ?_ (.pure hr))) (.pure hr)
  · exact .of_rest fun _ => .of_rest fun _ => .pure hr
  · refine .of_rest fun x => ?_
    cases x with
    | inl id => exact .pure hr
    | inr id => exact .of_rest fun _ => .pure hr

theorem sendContinue_running {t : Tid} {u : Unit} (h : sendContinue O t s = .ok u s') :
    s'.state = .running := by
  obtain ⟨_, _, -, h₁⟩ := bind_eq_ok.mp h
  obtain ⟨_, _, -, h₂⟩ := bind_eq_ok.mp h₁
  obtain ⟨_, _, -, h₃⟩ := bind_eq_ok.mp h₂
  obtain ⟨_, _, -, h₄⟩ := bind_eq_ok.mp h₃
  obtain ⟨_, _, -, h₅⟩ := bind_eq_ok.mp h₄
  cases h₅
  rfl

theorem resume_running {otid : Option Tid} {u : Unit} (h : resume O otid s = .ok u s') :
    s'.state = .running := by
  obtain ⟨_, _, -, h₁⟩ := bind_eq_ok.mp h
  obtain ⟨_, _, -, h₂⟩ := bind_eq_ok.mp h₁
  exact sendContinue_running h₂

/-- The process after a reason is recorded for a thread. -/
def noted (s : Process) (tid : Tid) (reason : StopReason) : Process :=
  { s with threads := s.threads.modify tid fun th => { th with reason, state := reason.reason } }

theorem recordReason_ok {tid : Tid} {reason : StopReason} {u : Unit}
    (h : recordReason tid reason s = .ok u s') :
    (∃ th, s.threads.find tid = some th) ∧ s' = s.noted tid reason := by
  cases hth : s.threads.find tid with
  | none =>
    have hraise : recordReason tid reason s = .error .outOfRange s :=
      bind_error (threadAt_error hth)
    rw [hraise] at h
    cases h
  | some th =>
    have hdone : recordReason tid reason s = .ok () (s.noted tid reason) :=
      bind_ok (threadAt_ok hth)
    rw [hdone] at h
    cases h
    exact ⟨⟨th, rfl⟩, rfl⟩

theorem waitpid_split {toAwait : Option Tid} {e : WaitEvent} (h : waitpid toAwait s = .ok e s') :
    ∃ before later, s.events = before ++ e :: later ∧ s.deliverable toAwait e = true ∧
      (∀ e' ∈ before, s.deliverable toAwait e' = false) ∧ s' = s.taken before.length e := by
  unfold waitpid at h
  rw [bind_ok (get_eq s)] at h
  cases hfind : s.events.findIdx? (s.deliverable toAwait) with
  | none =>
    rw [hfind] at h
    cases h
  | some i =>
    obtain ⟨hi, hd, hbefore⟩ := List.findIdx?_eq_some_iff_getElem.mp hfind
    simp only [hfind, List.getElem?_eq_getElem hi] at h
    cases h
    refine ⟨s.events.take i, s.events.drop (i + 1), ?_, hd, ?_, ?_⟩
    · rw [← List.drop_eq_getElem_cons, List.take_append_drop]
    · intro e' he'
      obtain ⟨j, hj, rfl⟩ := List.mem_take_iff_getElem.mp he'
      simpa using hbefore j (by omega)
    · rw [List.length_take_of_le hi.le]

/-- An event is taken, and what it says recorded for its thread. -/
structure Recorded (s : Process) (toAwait : Option Tid) (e : WaitEvent) (reason : StopReason)
    (s₁ : Process) : Prop where
  takes : ∃ before later, s.events = before ++ e :: later ∧ s.deliverable toAwait e = true ∧
    (∀ e' ∈ before, s.deliverable toAwait e' = false) ∧
    ∃ s₀, SameStates (s.taken before.length e) s₀ ∧ s₁ = s₀.noted e.tid reason
  known : ∃ th, s.threads.find e.tid = some th
  same : SameStop (stopReason e.tid e.status) reason

/-- What a turn of `wait_on_signal` does when it succeeds. -/
inductive Turn (s : Process) (toAwait : Option Tid) : StopReason ⊕ Option Tid → Process → Prop
  /-- a thread is resumed -/
  | goesOn {next : Option Tid} {s' : Process} : s'.state = .running →
      Turn s toAwait (.inr next) s'
  /-- a thread is gone -/
  | exits {e : WaitEvent} {reason : StopReason} {s₁ s' : Process} :
      Recorded s toAwait e reason s₁ → reason.reason ≠ .stopped → SameStates s₁ s' →
      Turn s toAwait (.inr none) s'
  /-- the process is gone -/
  | ends {e : WaitEvent} {reason : StopReason} {s₁ s' : Process} :
      Recorded s toAwait e reason s₁ → reason.reason ≠ .stopped → s'.state = reason.reason →
      Turn s toAwait (.inl reason) s'
  | stops {e : WaitEvent} {reason r : StopReason} {s₁ s' : Process} :
      Recorded s toAwait e reason s₁ → SameStop reason r → SameStates s₁ s' →
      Turn s toAwait (.inl r) s'

theorem turn_of_stopped (hO : O.Observed) {toAwait : Option Tid} {e : WaitEvent}
    {reason : StopReason} {s₁ : Process} (hrecorded : Recorded s toAwait e reason s₁)
    {told : Option StopReason} (h : reportStopped O reason s₁ = .ok told s') :
    Turn s toAwait (match told with | none => .inr none | some r => .inl r) s' := by
  rw [reportStopped_eq] at h
  obtain ⟨⟨r, goOn⟩, s₂, hlook, htell⟩ := bind_eq_ok.mp h
  have hsame : SameStop reason r := returns_lookStopped reason s₁ _ s₂ hlook
  have hlooked : SameStates s₁ s₂ :=
    (within_lookStopped sameStates (·.sameStates) hO.hooks reason).ok hlook
  cases goOn with
  | true =>
    obtain ⟨_, s₃, hresume, hrest⟩ := bind_eq_ok.mp htell
    cases hrest
    exact .goesOn (resume_running hresume)
  | false =>
    obtain ⟨_, s₃, hnotify, hrest⟩ := bind_eq_ok.mp htell
    have hnotified : SameStates s₂ s₃ :=
      (within_notifyTarget sameStates (·.sameStates) hO.hooks r).ok hnotify
    cases hrest
    exact .stops hrecorded hsame (sameStates.trans hlooked hnotified)

theorem waitOnce_turn (hO : O.Observed) {toAwait : Option Tid} {x : StopReason ⊕ Option Tid}
    (h : waitOnce O .asMeant toAwait s = .ok x s') : Turn s toAwait x s' := by
  obtain ⟨e, s₁, hwait, hturn⟩ := bind_eq_ok.mp h
  obtain ⟨before, later, hsplit, hd, hbefore, rfl⟩ := waitpid_split hwait
  obtain ⟨handled, s₂, hhandled, hrest⟩ := bind_eq_ok.mp hturn
  cases handled with
  | none =>
    obtain ⟨_, s₃, hresume, hrest⟩ := bind_eq_ok.mp hrest
    cases hrest
    exact .goesOn (resume_running hresume)
  | some reason =>
    obtain ⟨_, s₃, hrecord, hrest⟩ := bind_eq_ok.mp hrest
    obtain ⟨⟨th₂, hth₂⟩, rfl⟩ := recordReason_ok hrecord
    have hrecorded : Recorded s toAwait e reason (s₂.noted e.tid reason) := by
      have htid : (stopReason e.tid e.status).tid = e.tid := stopReason_tid ..
      cases hth : s.threads.find e.tid with
      | none =>
        have hnew : (s.taken before.length e).threads.find (stopReason e.tid e.status).tid = none := by
          rwa [htid]
        rw [handleSignal_new hnew hhandled] at hth₂
        exact absurd (hth.symm.trans hth₂) (by simp)
      | some th =>
        have hsame : (s.taken before.length e).SameStates
            (after (handleSignal O (stopReason e.tid e.status) true) (s.taken before.length e)) :=
          within_handleSignal sameStates (·.sameStates) hO.hooks true
            fun hnew => absurd (hth.symm.trans (htid ▸ hnew)) (by simp)
        change handleSignal O (stopReason e.tid e.status) true _ = _ at hhandled
        rw [after, hhandled] at hsame
        exact ⟨⟨before, later, hsplit, hd, hbefore, s₂, hsame, rfl⟩, ⟨th, hth⟩,
          returns_handleSignal _ _ _ _ _ hhandled reason rfl⟩
    rw [bind_ok (get_eq _)] at hrest
    split_ifs at hrest with hdead hmain hstopped
    · obtain ⟨_, s₄, hreport, hrest⟩ := bind_eq_ok.mp hrest
      obtain ⟨_, s₅, hset, hrest⟩ := bind_eq_ok.mp hrest
      cases hset
      cases hrest
      refine .ends hrecorded ?_ rfl
      rcases hdead with hdead | hdead <;> simp [hdead]
    · obtain ⟨_, s₄, hreport, hrest⟩ := bind_eq_ok.mp hrest
      cases hrest
      have hreported : SameStates (s₂.noted e.tid reason) s' :=
        (within_reportLifecycle sameStates (·.sameStates) hO.hooks reason).ok hreport
      refine .exits hrecorded ?_ hreported
      rcases hdead with hdead | hdead <;> simp [hdead]
    · obtain ⟨told, s₄, hstop, hrest⟩ := bind_eq_ok.mp hrest
      have hend := turn_of_stopped hO hrecorded hstop
      cases told <;> cases hrest <;> exact hend
    · cases hrest
      exact .stops hrecorded ⟨rfl, rfl⟩ (sameStates.refl _)

/-- No event of a thread comes after its exit. -/
def ExitsLast (s : Process) : Prop := s.events.Pairwise fun e e' => isExit e → e'.tid ≠ e.tid

variable {toAwait : Option Tid}

theorem outstanding_taken (t : Tid) (i : ℕ) (e : WaitEvent) :
    outstanding t (s.taken i e).log ≤ outstanding t s.log := by
  change outstanding t (⟨.waited e, s.memory⟩ :: s.log) ≤ _
  rw [outstanding_waited]
  split_ifs <;> omega

theorem mem_events_taken {before later : List WaitEvent} {e e' : WaitEvent}
    (hsplit : s.events = before ++ e :: later) :
    e' ∈ (s.taken before.length e).events ↔ e' ∈ before ∨ e' ∈ later := by
  change e' ∈ s.events.eraseIdx before.length ↔ _
  rw [hsplit, List.eraseIdx_append_of_length_le le_rfl, Nat.sub_self, List.eraseIdx_cons_zero,
    List.mem_append]

/-- Of two events of a thread, one that cannot be taken where the other can is the stop of
a SIGSTOP that was not sent. -/
theorem own_of_undeliverable {e e' : WaitEvent} (hd : s.deliverable toAwait e = true)
    (hd' : s.deliverable toAwait e' = false) (htid : e'.tid = e.tid) :
    e'.own = true ∧ outstanding e'.tid s.log = 0 := by
  unfold deliverable at hd hd'
  rw [htid] at hd' ⊢
  simp only [Bool.and_eq_true] at hd
  rw [hd.1, Bool.true_and, Bool.or_eq_false_iff] at hd'
  exact ⟨by simpa using hd'.1, by simpa using hd'.2⟩

theorem stateOf_noted (t t' : Tid) (reason : StopReason) :
    stateOf (s.noted t reason) t' =
      if t' = t then (stateOf s t').map fun _ => reason.reason else stateOf s t' := by
  unfold stateOf
  change Option.map _ ((s.threads.modify t _).find t') = _
  rw [Threads.find_modify]
  split_ifs with h
  · simp [Option.map_map, Function.comp_def]
  · simp

theorem Recorded.gone {e : WaitEvent} {reason : StopReason} {s₁ : Process} (hlast : ExitsLast s)
    (h : Recorded s toAwait e reason s₁) (hexit : reason.reason ≠ .stopped) : Gone e.tid s₁ := by
  obtain ⟨before, later, hsplit, hd, hbefore, s₀, hsame, rfl⟩ := h.takes
  obtain ⟨th, hth⟩ := h.known
  have hevent : isExit e := by
    unfold isExit
    rwa [← h.same.2]
  constructor
  · refine ⟨reason.reason, ?_, hexit, ?_⟩
    · rw [stateOf_noted, if_pos rfl, stateOf_of_statuses hsame.statuses]
      change Option.map _ (Option.map _ (s.threads.find e.tid)) = _
      rw [hth]
      rfl
    · rw [h.same.2]
      rcases stopReason_state e.tid e.status with hstate | hstate | hstate <;> simp [hstate]
  · intro e' he' htid
    change e' ∈ s₀.events at he'
    rw [hsame.events, mem_events_taken hsplit] at he'
    obtain he' | he' := he'
    · obtain ⟨hown, hzero⟩ := own_of_undeliverable hd (hbefore e' he') htid
      have hle := outstanding_taken (s := s) e'.tid before.length e
      refine ⟨hown, ?_⟩
      change outstanding e.tid s₀.log = 0
      rw [hsame.outstanding, ← htid]
      omega
    · unfold ExitsLast at hlast
      rw [hsplit, List.pairwise_append, List.pairwise_cons] at hlast
      exact absurd htid (hlast.2.1.1 e' he' hevent)

theorem Turn.spoils {next : Option Tid} (hlast : ExitsLast s)
    (h : Turn s toAwait (.inr next) s') : ∃ t, Spoiled t s' := by
  cases h with
  | goesOn hrunning => exact ⟨0, .inl (by simp [hrunning])⟩
  | exits hrecorded hexit hsame =>
    exact ⟨_, hsame.spoiled (.inr (hrecorded.gone hlast hexit))⟩

theorem Recorded.spoiled {t : Tid} {e : WaitEvent} {reason : StopReason} {s₁ : Process}
    (h : Recorded s toAwait e reason s₁) (hs : Spoiled t s) : Spoiled t s₁ := by
  obtain ⟨before, later, hsplit, hd, hbefore, s₀, hsame, rfl⟩ := h.takes
  obtain hstate | hgone := hs
  · left
    change s₀.state ≠ .stopped
    rwa [hsame.state]
  · have hne : t ≠ e.tid := by
      rintro rfl
      obtain ⟨hown, hzero⟩ := hgone.quiet e (by simp [hsplit]) rfl
      have hpos := deliverable_own hd hown
      omega
    have htaken : Gone t (s.taken before.length e) := by
      refine hgone.mono rfl (fun e' he' => ?_) (outstanding_taken t _ e)
      rw [mem_events_taken hsplit] at he'
      rw [hsplit]
      simp only [List.mem_append, List.mem_cons]
      tauto
    right
    refine htaken.mono ?_ (fun e' he' => ?_) (hsame.outstanding t).le
    · rw [stateOf_noted, if_neg hne, stateOf_of_statuses hsame.statuses]
    · change e' ∈ s₀.events at he'
      rwa [hsame.events] at he'

theorem Turn.spoiled {t : Tid} {x : StopReason ⊕ Option Tid} (h : Turn s toAwait x s')
    (hs : Spoiled t s) : Spoiled t s' := by
  cases h with
  | goesOn hrunning => exact .inl (by simp [hrunning])
  | exits hrecorded hexit hsame => exact hsame.spoiled (hrecorded.spoiled hs)
  | ends hrecorded hexit hstate => exact .inl (by rwa [hstate])
  | stops hrecorded hstop hsame => exact hsame.spoiled (hrecorded.spoiled hs)

theorem spoiled_waitLoop (hO : O.Observed) {t : Tid} {r : StopReason} :
    ∀ (fuel : ℕ) (s : Process) (toAwait : Option Tid),
      waitLoop O .asMeant fuel toAwait s = .ok r s' → Spoiled t s → Spoiled t s' := by
  intro fuel
  induction fuel with
  | zero =>
    intro s toAwait h
    cases h
  | succ fuel ih =>
    intro s toAwait h hs
    obtain ⟨x, s₁, hturn, hrest⟩ := bind_eq_ok.mp h
    have hs₁ := (waitOnce_turn hO hturn).spoiled hs
    cases x with
    | inl reason =>
      cases hrest
      exact hs₁
    | inr next => exact ih s₁ next hrest hs₁

theorem lastWaited_append {new log : List Moment} (h : ∀ m ∈ new, IsReport m.call) :
    lastWaited (new ++ log) = lastWaited log := by
  induction new with
  | nil => rfl
  | cons m new ih =>
    obtain ⟨call, memory⟩ := m
    have hcall : IsReport call := h _ (List.mem_cons_self ..)
    have hnew := ih fun m hm => h m (List.mem_cons_of_mem _ hm)
    cases call <;> first | exact hnew | exact absurd hcall id

theorem SameAccounts.lastWaited (h : SameAccounts s s') :
    Process.lastWaited s'.log = Process.lastWaited s.log := by
  obtain ⟨new, hnew, hreports⟩ := h.reports
  rw [hnew, lastWaited_append hreports]

theorem Recorded.next {e : WaitEvent} {reason : StopReason} {s₁ : Process}
    (h : Recorded s toAwait e reason s₁) : nextEvent s toAwait = some e := by
  obtain ⟨before, later, hsplit, hd, hbefore, -⟩ := h.takes
  rw [nextEvent, List.find?_eq_some_iff_append]
  exact ⟨hd, before, later, hsplit, fun e' he' => by simp [hbefore e' he']⟩

theorem Recorded.stateOf {e : WaitEvent} {reason : StopReason} {s₁ : Process}
    (h : Recorded s toAwait e reason s₁) (t : Tid) : Process.stateOf s₁ t =
      if t = e.tid then (Process.stateOf s t).map fun _ => reason.reason
      else Process.stateOf s t := by
  obtain ⟨before, later, -, -, -, s₀, hsame, rfl⟩ := h.takes
  rw [stateOf_noted, stateOf_of_statuses hsame.statuses]
  rfl

theorem Recorded.recorded {e : WaitEvent} {reason r : StopReason} {s₁ : Process}
    (h : Recorded s toAwait e reason s₁) (hr : SameStop reason r) (hsame : SameStates s₁ s') :
    ∃ e th, Process.lastWaited s'.log = some e ∧ r.tid = e.tid ∧
      s'.threads.find e.tid = some th ∧ th.reason.tid = e.tid ∧ th.reason.reason = r.reason := by
  obtain ⟨before, later, -, -, -, s₀, hsame₀, rfl⟩ := h.takes
  obtain ⟨th, hth⟩ := h.known
  have htid : reason.tid = e.tid := h.same.1.trans (stopReason_tid ..)
  obtain ⟨th₀, hth₀, -⟩ := find_of_statuses hsame₀.statuses.symm
    (show (s.taken before.length e).threads.find e.tid = some th from hth)
  have hnoted := Threads.find_modify_self hth₀ fun th => { th with reason, state := reason.reason }
  obtain ⟨th', hth', hstatus⟩ := find_of_statuses hsame.statuses.symm hnoted
  have hreason : th'.reason = reason := congrArg (·.2.1) hstatus
  have hlog : Process.lastWaited s'.log = some e := by
    rw [hsame.lastWaited]
    change Process.lastWaited s₀.log = some e
    rw [hsame₀.lastWaited]
    rfl
  exact ⟨e, th', hlog, hr.1.trans htid, hth', by rw [hreason, htid], by rw [hreason, hr.2]⟩

theorem stopped_iff_stateOf :
    (∀ t th, s.threads.find t = some th → th.state = .stopped) ↔
      ∀ t st, stateOf s t = some st → st = .stopped := by
  constructor
  · intro h t st hst
    obtain ⟨th, hth, rfl⟩ := Option.map_eq_some_iff.mp hst
    exact h t th hth
  · exact fun h t th hth => h t th.state (by rw [stateOf, hth]; rfl)

theorem Recorded.allStopped_iff {e : WaitEvent} {reason r : StopReason} {s₁ : Process}
    (h : Recorded s toAwait e reason s₁) (hr : SameStop reason r) (hsame : SameStates s₁ s')
    (hstop : r.reason = .stopped) : AllStop r s' ↔ s.state = .stopped ∧ s.currentThread = e.tid ∧
      ∀ t th, t ≠ e.tid → s.threads.find t = some th → th.state = .stopped := by
  have htid : r.tid = e.tid := hr.1.trans (h.same.1.trans (stopReason_tid ..))
  have hstates (t : Tid) : Process.stateOf s' t =
      if t = e.tid then (Process.stateOf s t).map fun _ => .stopped else Process.stateOf s t := by
    rw [stateOf_of_statuses hsame.statuses, h.stateOf, ← hr.2, hstop]
  have hown : s'.state = s.state ∧ s'.currentThread = s.currentThread := by
    obtain ⟨before, later, -, -, -, s₀, hsame₀, rfl⟩ := h.takes
    exact ⟨hsame.state.trans hsame₀.state, hsame.current.trans hsame₀.current⟩
  constructor
  · intro hall
    refine ⟨hown.1 ▸ hall.state, ?_, fun t th hne hth => ?_⟩
    · rw [← hown.2, hall.current, htid]
    · refine stopped_iff_stateOf.mp hall.threads t th.state ?_
      rw [hstates, if_neg hne, Process.stateOf, hth]
      rfl
  · rintro ⟨hstate, hcurrent, hothers⟩
    refine ⟨h.recorded hr hsame, stopped_iff_stateOf.mpr fun t st hst => ?_, hown.1.trans hstate,
      hown.2.trans (hcurrent.trans htid.symm)⟩
    rw [hstates] at hst
    split_ifs at hst with ht
    · obtain ⟨_, -, rfl⟩ := Option.map_eq_some_iff.mp hst
      rfl
    · obtain ⟨th, hth, rfl⟩ := Option.map_eq_some_iff.mp hst
      exact hothers t th ht hth

/-- Read as written, `wait_on_signal` does not return; read as meant, all is stopped after
it exactly when its first event ends it and all else was stopped before. -/
theorem allStop_iff (hO : O.Observed) (hlast : ExitsLast s) (toAwait : Option Tid) :
    (0 ∉ s.threads.tids → ∀ r s', waitOnSignal O .asWritten toAwait s ≠ .ok r s') ∧
      ∀ r s', waitOnSignal O .asMeant toAwait s = .ok r s' → r.reason = .stopped →
        (AllStop r s' ↔ StopsAlone O s toAwait) := by
  -- the wait neither stops the others nor removes them
  refine ⟨fun hzero r s' => waitOnSignal_asWritten hO hzero toAwait r, fun r s' h hstop => ?_⟩
  obtain ⟨s₀, s₁, hget, h₁⟩ := bind_eq_ok.mp h
  cases hget
  obtain ⟨x, s₁, hturn, hrest⟩ := bind_eq_ok.mp h₁
  have hfirst := waitOnce_turn hO hturn
  cases x with
  | inr next =>
    obtain ⟨t, hspoiled⟩ := hfirst.spoils hlast
    have hend := spoiled_waitLoop hO _ s₁ next hrest hspoiled
    constructor
    · exact fun hall => absurd hend (hall.not_spoiled t)
    · exact fun halone => absurd hturn (halone.direct next s₁)
  | inl reason =>
    cases hrest
    have hdirect (next : Option Tid) (s₂ : Process) :
        waitOnce O .asMeant toAwait s ≠ .ok (.inr next) s₂ := by
      rw [hturn]
      simp
    cases hfirst with
    | ends hrecorded hexit hstate => exact absurd hstop hexit
    | stops hrecorded hr hsame =>
      rw [hrecorded.allStopped_iff hr hsame hstop]
      constructor
      · rintro ⟨hstate, hcurrent, hothers⟩
        refine ⟨hdirect, hstate, fun e he => ?_, fun e t th he hne hth => ?_⟩
        · rw [hrecorded.next] at he
          cases he
          exact hcurrent
        · rw [hrecorded.next] at he
          cases he
          exact hothers t th hne hth
      · rintro ⟨-, hstate, hcurrent, hothers⟩
        exact ⟨hstate, hcurrent _ hrecorded.next, fun t th => hothers _ t th hrecorded.next⟩

def noThreadZero : Outside :=
  { quiet with cont := fun _ tid => if tid = 0 then throw (.raised "No such process") else pure () }

theorem noThreadZero_observed : noThreadZero.Observed where
  cont b t s := by
    change after (if t = 0 then throw _ else pure () : M Unit) s = s
    split_ifs <;> rfl
  singleStep _ _ := rfl
  zero _ _ := ⟨.raised "No such process", rfl⟩
  hooks := ⟨fun _ => sameStates.pure _, fun _ => sameStates.pure _, fun _ => sameStates.pure _⟩

def faults (tid : Tid) : WaitEvent := { tid, status := 0xb7f#32 }

/-- The current thread of a process that counts as stopped faults. -/
def firstFaults : Process := { twoThreads with events := [faults 1] }

theorem allStop_firstFaults : ∃ r s',
    waitOnSignal noThreadZero .asMeant none firstFaults = .ok r s' ∧ AllStop r s' := by
  have hlast : ExitsLast firstFaults := List.pairwise_singleton _ _
  refine ⟨_, _, rfl, ((allStop_iff noThreadZero_observed hlast none).2 _ _ rfl rfl).mpr ?_⟩
  refine ⟨?_, rfl, ?_, ?_⟩
  · rintro next s' ⟨⟩
  · rintro e ⟨⟩
    rfl
  · rintro e t th - - hth
    have hall : ∀ th ∈ firstFaults.threads.entries, th.state = .stopped := by
      simp [firstFaults, twoThreads]
    exact hall th (List.mem_of_find?_eq_some hth)

def secondFaultsLater : Process :=
  after (resumeAllThreads noThreadZero) { twoThreads with events := [faults 2] }

/-- The first thread runs on. -/
theorem allStop_not_for_all : ¬ ∀ (O : Outside) (s : Process) (toAwait : Option Tid)
    (r : StopReason) (s' : Process), O.Observed → ExitsLast s →
    waitOnSignal O .asMeant toAwait s = .ok r s' → r.reason = .stopped → AllStop r s' := by
  intro h
  have hall := h noThreadZero secondFaultsLater none _ _ noThreadZero_observed
    (List.pairwise_singleton _ _) rfl rfl
  have hrunning := hall.threads 1 _ rfl
  cases hrunning

end KDebugger.Process
