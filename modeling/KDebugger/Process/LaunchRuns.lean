import KDebugger.Process.Launch

namespace KDebugger.Launch

open Schedules

/-- What `launch` ought to end in, whatever else the error says. -/
def Told : Option (List Byte) → Parent → Prop
  | none, p => p = .constructs
  | some message, p => ∃ what, p = .raised what ∧ message <:+: what

/-- However parent and child take turns, a parent that has finished has been told. -/
def Delivers (opts : Options) (answers : Answers) : Prop :=
  ∀ schedule s, follow (step answers) (start opts) schedule = some s → s.parent.Finished →
    Told (failure opts answers) s.parent

/-- The end that is read from is closed by `close_write`, and the read is refused. -/
def Inv (s : State) : Prop :=
  match s.parent with
  | .closeWrite => True
  | .read => s.parentFds.get readFd = none
  | .raised what => what = cannotRead
  | .closeRead _ | .waitpid _ | .constructs => False

variable {opts : Options} {answers : Answers} {s s' : State}

def Child.rank : Child → ℕ
  | setup rest => rest.length + 3
  | report _ => 2
  | exit => 1
  | raised _ | exited | broken | running => 0

def Parent.rank : Parent → ℕ
  | closeWrite => 4
  | read => 3
  | closeRead _ => 2
  | waitpid _ => 1
  | raised _ | constructs => 0

def State.rank (s : State) : ℕ := s.parent.rank + s.child.rank

theorem childStep_cases (hstep : childStep answers s = some s') :
    s'.parent = s.parent ∧ s'.parentFds = s.parentFds ∧ s'.child.rank < s.child.rank := by
  unfold childStep at hstep
  cases hchild : s.child with
  | setup rest =>
    simp only [hchild] at hstep
    match rest with
    | .call c :: rest =>
      -- the rank of a report is below that of any setup, so a failed call may skip the rest
      cases hanswer : answers c <;> simp only [hanswer, Option.some.injEq] at hstep <;> subst hstep
      · exact ⟨rfl, rfl, Nat.lt_succ_self _⟩
      · exact ⟨rfl, rfl, by simp [Child.rank]⟩
    | .closeRead :: rest =>
      simp only [Option.some.injEq] at hstep
      subst hstep
      exact ⟨rfl, rfl, Nat.lt_succ_self _⟩
    | [] =>
      cases hanswer : answers .execlp <;> simp only [hanswer, Option.some.injEq] at hstep <;>
        subst hstep
      · exact ⟨rfl, rfl, Nat.zero_lt_succ _⟩
      · exact ⟨rfl, rfl, Nat.lt_succ_self 2⟩
  | report message =>
    simp only [hchild] at hstep
    split_ifs at hstep <;> cases hstep
    · exact ⟨rfl, rfl, Nat.zero_lt_two⟩
    · exact ⟨rfl, rfl, Nat.zero_lt_two⟩
    · exact ⟨rfl, rfl, Nat.lt_succ_self 1⟩
  | exit =>
    simp only [hchild, Option.some.injEq] at hstep
    subst hstep
    exact ⟨rfl, rfl, Nat.zero_lt_one⟩
  | raised what => simp [hchild] at hstep
  | exited => simp [hchild] at hstep
  | broken => simp [hchild] at hstep
  | running => simp [hchild] at hstep

theorem rank_parentStep (hstep : parentStep s = some s') :
    s'.child = s.child ∧ s'.parent.rank < s.parent.rank := by
  unfold parentStep at hstep
  cases hparent : s.parent with
  | closeWrite =>
    simp only [hparent, Option.some.injEq] at hstep
    subst hstep
    exact ⟨rfl, Nat.lt_succ_self 3⟩
  | read =>
    simp only [hparent] at hstep
    split_ifs at hstep <;> cases hstep
    · exact ⟨rfl, Nat.zero_lt_succ 2⟩
    · exact ⟨rfl, Nat.lt_succ_self 2⟩
    · exact ⟨rfl, Nat.lt_succ_self 2⟩
  | closeRead data =>
    simp only [hparent, Option.some.injEq] at hstep
    subst hstep
    refine ⟨rfl, ?_⟩
    dsimp only
    split_ifs
    · exact Nat.lt_succ_self 1
    · exact Nat.zero_lt_two
  | waitpid data =>
    simp only [hparent] at hstep
    split at hstep <;> cases hstep <;> exact ⟨rfl, Nat.zero_lt_one⟩
  | raised what => simp [hparent] at hstep
  | constructs => simp [hparent] at hstep

theorem rank_step (party : Party) (s s' : State) (hstep : step answers party s = some s') :
    s'.rank < s.rank := by
  unfold State.rank
  cases party with
  | parent =>
    obtain ⟨hchild, hlt⟩ := rank_parentStep hstep
    rw [hchild]
    omega
  | child =>
    obtain ⟨hparent, -, hlt⟩ := childStep_cases hstep
    rw [hparent]
    omega

theorem length_le_of_follow {schedule : List Party}
    (h : follow (step answers) (start opts) schedule = some s) : schedule.length ≤ 11 := by
  have hlength := length_le_rank rank_step h
  have hstart : (start opts).rank ≤ 11 := by
    obtain ⟨debug, replaces⟩ := opts
    cases debug <;> cases replaces <;> decide
  omega

theorem closeWrite_closes_read (fds : Fds) : fds.closeWrite.get readFd = none := rfl

theorem inv_parentStep (h : Inv s) (hstep : parentStep s = some s') : Inv s' := by
  unfold Inv at h
  unfold parentStep at hstep
  cases hparent : s.parent with
  | closeWrite =>
    simp only [hparent, Option.some.injEq] at hstep
    subst hstep
    exact closeWrite_closes_read s.parentFds
  | read =>
    simp only [hparent] at h hstep
    rw [if_pos (by simp [h])] at hstep
    obtain rfl := Option.some.inj hstep
    rfl
  | raised what => simp [hparent] at hstep
  | closeRead data => simp only [hparent] at h
  | waitpid data => simp only [hparent] at h
  | constructs => simp only [hparent] at h

theorem inv_step (party : Party) (s s' : State) (h : Inv s)
    (hstep : step answers party s = some s') : Inv s' := by
  cases party with
  | parent => exact inv_parentStep h hstep
  | child =>
    obtain ⟨hparent, hfds, -⟩ := childStep_cases hstep
    unfold Inv at h ⊢
    rw [hparent, hfds]
    exact h

theorem inv_of_follow {schedule : List Party}
    (h : follow (step answers) (start opts) schedule = some s) : Inv s := by
  have hstart : Inv (start opts) := trivial
  exact follow_invariant inv_step hstart h

theorem finished_eq (h : Inv s) (hfinished : s.parent.Finished) :
    s.parent = .raised cannotRead := by
  unfold Inv at h
  cases hparent : s.parent with
  | raised what =>
    simp only [hparent] at h
    rw [h]
  | constructs => simp only [hparent] at h
  | closeWrite => simp [hparent, Parent.Finished] at hfinished
  | read => simp [hparent, Parent.Finished] at hfinished
  | closeRead data => simp [hparent, Parent.Finished] at hfinished
  | waitpid data => simp [hparent, Parent.Finished] at hfinished

theorem parent_moves (h : Inv s) (hunfinished : ¬ s.parent.Finished) :
    ∃ s', step answers .parent s = some s' := by
  unfold Inv at h
  change ∃ s', parentStep s = some s'
  unfold parentStep
  cases hparent : s.parent with
  | closeWrite => exact ⟨_, rfl⟩
  | read =>
    simp only [hparent] at h
    exact ⟨_, if_pos (by simp [h])⟩
  | raised what => simp [hparent, Parent.Finished] at hunfinished
  | closeRead data => simp only [hparent] at h
  | waitpid data => simp only [hparent] at h
  | constructs => simp only [hparent] at h

/-- The message of a failed call begins with what the error of the read does not say. -/
theorem message_not_in_cannotRead (c : Call) (why : List Byte) :
    ¬ c.message why <:+: cannotRead := by
  intro h
  have hcomplaint : c.complaint <:+: c.message why :=
    (List.prefix_append c.complaint (text ": " ++ why)).isInfix.trans (by simp [Call.message])
  have hin := hcomplaint.trans h
  cases c <;> exact absurd hin (by decide +kernel)

theorem firstFailure_message {rest : List Setup} {message : List Byte}
    (h : firstFailure answers rest = some message) :
    ∃ (c : Call) (why : List Byte), message = c.message why := by
  induction rest with
  | nil =>
    obtain ⟨why, -, rfl⟩ := Option.map_eq_some_iff.mp h
    exact ⟨.execlp, why, rfl⟩
  | cons setup rest ih =>
    cases setup with
    | closeRead => exact ih h
    | call c =>
      cases hc : answers c with
      | none =>
        simp only [firstFailure, hc] at h
        exact ih h
      | some why =>
        simp only [firstFailure, hc, Option.some.injEq] at h
        exact ⟨c, why, h.symm⟩

theorem not_told (opts : Options) (answers : Answers) :
    ¬ Told (failure opts answers) (.raised cannotRead) := by
  cases hfail : failure opts answers with
  | none => exact fun htold => by cases htold
  | some message =>
    obtain ⟨c, why, rfl⟩ := firstFailure_message hfail
    rintro ⟨what, hraised, hin⟩
    obtain rfl := Parent.raised.inj hraised
    exact message_not_in_cannotRead c why hin

/-- Every run is finite, and the parent can go on until it has finished, which it does with
the error of its own read.  So it is told nothing, whatever becomes of the child. -/
theorem never_delivers (opts : Options) (answers : Answers) : ¬ Delivers opts answers ∧
    ∀ schedule s, follow (step answers) (start opts) schedule = some s →
      schedule.length ≤ 11 ∧
      (¬ s.parent.Finished → ∃ s', step answers .parent s = some s') ∧
      (s.parent.Finished → s.parent = .raised cannotRead) := by
  have hruns (schedule : List Party) (s : State)
      (h : follow (step answers) (start opts) schedule = some s) : Inv s := inv_of_follow h
  constructor
  · intro hdelivers
    obtain ⟨schedule, s, hfollow, hfinished⟩ := exists_schedule_to rank_step
      fun schedule s h hunfinished => ⟨.parent, parent_moves (hruns schedule s h) hunfinished⟩
    have htold := hdelivers schedule s hfollow hfinished
    rw [finished_eq (hruns schedule s hfollow) hfinished] at htold
    exact not_told opts answers htold
  · intro schedule s h
    exact ⟨length_le_of_follow h, parent_moves (hruns schedule s h),
      finished_eq (hruns schedule s h)⟩

/-- The child has become the program, and the parent raises. -/
theorem delivers_not_for_all :
    ¬ ∀ opts answers, (∀ message, failure opts answers = some message → message.length ≤ capacity) →
      Delivers opts answers := by
  intro h
  have hdelivers := h ⟨true, false⟩ (fun _ => none) fun message hfail => by cases hfail
  have hrun : ∃ s, follow (step fun _ => none) (start ⟨true, false⟩) [.parent, .parent] = some s ∧
      s.parent = .raised cannotRead := ⟨_, rfl, rfl⟩
  obtain ⟨s, hfollow, hraised⟩ := hrun
  have htold := hdelivers _ s hfollow (hraised ▸ trivial)
  rw [hraised] at htold
  cases htold

end KDebugger.Launch
