import KDebugger.Computation

namespace KDebugger.Iterators

variable {ι α : Type} (value : ι → Option α) (next : ι → Except Failure ι)

/-- From `i` on the values are `as`, and then the end is reached. -/
inductive Walks : ι → List α → Prop where
  | done {i : ι} (hend : value i = none) : Walks i []
  | more {i j : ι} {a : α} {as : List α} (hvalue : value i = some a) (hnext : next i = .ok j)
      (hrest : Walks j as) : Walks i (a :: as)

def collect : ℕ → ι → Except Failure (List α)
  | 0, _ => .error .exhausted
  | n + 1, i =>
    match value i with
    | none => .ok []
    | some a => do
      let j ← next i
      let as ← collect n j
      pure (a :: as)

def anyOf (p : α → Except Failure Bool) : ℕ → ι → Except Failure Bool
  | 0, _ => .error .exhausted
  | n + 1, i =>
    match value i with
    | none => .ok false
    | some a => do
      if ← p a then pure true
      else
        let j ← next i
        anyOf p n j

/-- `while(std::next(it) != end) ++it;` -/
def toLast : ℕ → ι → Except Failure ι
  | 0, _ => .error .exhausted
  | n + 1, i => do
    let j ← next i
    match value j with
    | none => pure i
    | some _ => toLast n j

variable {value next}

theorem Walks.collect {i : ι} {as : List α} (h : Walks value next i as) {n : ℕ}
    (hn : as.length < n) : collect value next n i = .ok as := by
  induction h generalizing n with
  | done hend =>
    obtain ⟨n, rfl⟩ : ∃ k, n = k + 1 := ⟨n - 1, by omega⟩
    rw [Iterators.collect, hend]
  | @more i j a as hvalue hnext hrest ih =>
    rw [List.length_cons] at hn
    obtain ⟨n, rfl⟩ : ∃ k, n = k + 1 := ⟨n - 1, by omega⟩
    rw [Iterators.collect, hvalue]
    simp only [hnext, bind, Except.bind, ih (show as.length < n by omega)]
    rfl

theorem walks_of_collect {n : ℕ} {i : ι} {as : List α} (h : collect value next n i = .ok as) :
    Walks value next i as ∧ as.length < n := by
  induction n generalizing i as with
  | zero => cases h
  | succ n ih =>
    rw [Iterators.collect] at h
    cases hvalue : value i with
    | none =>
      simp only [hvalue, Except.ok.injEq] at h
      subst h
      exact ⟨.done hvalue, Nat.succ_pos n⟩
    | some a =>
      simp only [hvalue] at h
      cases hnext : next i with
      | error e => simp [hnext, bind, Except.bind] at h
      | ok j =>
        cases hrest : Iterators.collect value next n j with
        | error e => simp [hnext, hrest, bind, Except.bind] at h
        | ok rest =>
          simp only [hnext, hrest, bind, Except.bind, pure, Except.pure, Except.ok.injEq] at h
          subst h
          obtain ⟨hwalk, hlength⟩ := ih hrest
          exact ⟨.more hvalue hnext hwalk, Nat.succ_lt_succ hlength⟩

theorem Walks.anyOf {i : ι} {as : List α} (h : Walks value next i as) {p : α → Except Failure Bool}
    {q : α → Bool} (hp : ∀ a ∈ as, p a = .ok (q a)) {n : ℕ} (hn : as.length < n) :
    anyOf value next p n i = .ok (as.any q) := by
  induction h generalizing n with
  | done hend =>
    obtain ⟨n, rfl⟩ : ∃ k, n = k + 1 := ⟨n - 1, by omega⟩
    rw [Iterators.anyOf, hend]
    rfl
  | @more i j a as hvalue hnext hrest ih =>
    rw [List.length_cons] at hn
    obtain ⟨n, rfl⟩ : ∃ k, n = k + 1 := ⟨n - 1, by omega⟩
    rw [Iterators.anyOf, hvalue]
    simp only [hp a List.mem_cons_self, bind, Except.bind]
    cases ha : q a with
    | true => simp [ha, pure, Except.pure]
    | false =>
      have hrest := ih (fun b hb => hp b (List.mem_cons_of_mem a hb)) (show as.length < n by omega)
      simp [ha, hnext, hrest]

theorem Walks.toLast {i : ι} {as : List α} (h : Walks value next i as) {a : α}
    (ha : as.getLast? = some a) {n : ℕ} (hn : as.length ≤ n) :
    ∃ j, toLast value next n i = .ok j ∧ value j = some a := by
  induction h generalizing n with
  | done hend => simp at ha
  | @more i j b as hvalue hnext hrest ih =>
    rw [List.length_cons] at hn
    obtain ⟨n, rfl⟩ : ∃ k, n = k + 1 := ⟨n - 1, by omega⟩
    simp only [Iterators.toLast, hnext, bind, Except.bind]
    cases hrest with
    | done hend =>
      obtain rfl : b = a := by simpa using ha
      exact ⟨i, by simp [hend, pure, Except.pure], hvalue⟩
    | more hvalue' hnext' hrest' =>
      rw [List.getLast?_cons_cons] at ha
      simp only [hvalue']
      exact ih ha (by simpa using hn)

end KDebugger.Iterators
