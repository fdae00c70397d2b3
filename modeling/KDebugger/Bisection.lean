import Mathlib.Data.List.Basic
import Mathlib.Data.Nat.Basic

namespace KDebugger.Bisection

variable {ε : Type}

inductive SearchEnd (ε : Type) where
  | row (k : ℕ)
  | before
  | failed (e : ε)

inductive Bisects (middle : ℕ → ℕ → ℕ) (entry : ℕ → Except ε Ordering) :
    ℕ → ℕ → List ℕ → SearchEnd ε → Prop where
  | empty {low high : ℕ} (h : high < low) : Bisects middle entry low high [] (.row high)
  | failed {low high : ℕ} {e : ε} (h : low ≤ high) (he : entry (middle low high) = .error e) :
      Bisects middle entry low high [middle low high] (.failed e)
  | found {low high : ℕ} (h : low ≤ high) (he : entry (middle low high) = .ok .eq) :
      Bisects middle entry low high [middle low high] (.row (middle low high))
  | upper {low high : ℕ} {reads : List ℕ} {r : SearchEnd ε} (h : low ≤ high)
      (he : entry (middle low high) = .ok .lt)
      (rest : Bisects middle entry (middle low high + 1) high reads r) :
      Bisects middle entry low high (middle low high :: reads) r
  | before {low high : ℕ} (h : low ≤ high) (he : entry (middle low high) = .ok .gt)
      (hzero : middle low high = 0) : Bisects middle entry low high [middle low high] .before
  | lower {low high : ℕ} {reads : List ℕ} {r : SearchEnd ε} (h : low ≤ high)
      (he : entry (middle low high) = .ok .gt) (hpos : middle low high ≠ 0)
      (rest : Bisects middle entry low (middle low high - 1) reads r) :
      Bisects middle entry low high (middle low high :: reads) r

variable {middle : ℕ → ℕ → ℕ} {entry : ℕ → Except ε Ordering} {low high : ℕ}

theorem Bisects.middle_mem {reads : List ℕ} {r : SearchEnd ε} (h : Bisects middle entry low high reads r)
    (hle : low ≤ high) : middle low high ∈ reads := by
  cases h with
  | empty hlt => exact absurd hle (Nat.not_le.mpr hlt)
  | failed | found | before => exact List.mem_singleton_self _
  | upper | lower => exact List.mem_cons_self

theorem exists_bisects {top : ℕ}
    (hmiddle : ∀ low high, low ≤ high → high ≤ top → low ≤ middle low high ∧ middle low high ≤ high)
    (entry : ℕ → Except ε Ordering) (n : ℕ) : ∀ {low high : ℕ}, high + 1 - low ≤ n → high ≤ top →
      ∃ reads r, Bisects middle entry low high reads r ∧ (∀ i ∈ reads, i ≤ high) ∧
        (∀ k, r = .row k → k ≤ high) ∧ reads.length ≤ n := by
  -- a turn leaves a smaller range, so induction on its length
  induction n with
  | zero =>
    intro low high hn _
    exact ⟨[], .row high, .empty (by omega), by simp, by simp, Nat.le_refl 0⟩
  | succ n ih =>
    intro low high hn htop
    by_cases hle : low ≤ high
    · obtain ⟨hlow, hhigh⟩ := hmiddle low high hle htop
      have hread : ∀ i ∈ [middle low high], i ≤ high := by simpa using hhigh
      cases he : entry (middle low high) with
      | error e => exact ⟨_, _, .failed hle he, hread, by simp, by simp⟩
      | ok order =>
        cases order with
        | eq => exact ⟨_, _, .found hle he, hread, by simpa using hhigh, by simp⟩
        | lt =>
          obtain ⟨reads, r, hrest, hreads, hrow, hlength⟩ :=
            @ih (middle low high + 1) high (by omega) htop
          exact ⟨_, r, .upper hle he hrest, List.forall_mem_cons.mpr ⟨hhigh, hreads⟩, hrow,
            Nat.succ_le_succ hlength⟩
        | gt =>
          by_cases hzero : middle low high = 0
          · exact ⟨_, _, .before hle he hzero, hread, by simp, by simp⟩
          · obtain ⟨reads, r, hrest, hreads, hrow, hlength⟩ :=
              @ih low (middle low high - 1) (by omega) (by omega)
            refine ⟨_, r, .lower hle he hzero hrest, List.forall_mem_cons.mpr ⟨hhigh, ?_⟩, ?_,
              Nat.succ_le_succ hlength⟩
            · exact fun i hi => Nat.le_trans (hreads i hi) (by omega)
            · exact fun k hk => Nat.le_trans (hrow k hk) (by omega)
    · exact ⟨[], .row high, .empty (by omega), by simp, by simp, Nat.zero_le _⟩

/-- Among `n` rows in ascending order the loop stops at the last one that is not above what
is looked for, or in front of the first one. -/
theorem Bisects.predecessor {n : ℕ} {order : ℕ → Ordering} {reads : List ℕ} {r : SearchEnd ε}
    (h : Bisects middle entry low high reads r)
    (hmiddle : ∀ low high, low ≤ high → high < n → middle low high ≤ high)
    (hentry : ∀ i < n, entry i = .ok (order i))
    (hsorted : ∀ i j, i < j → j < n → order j ≠ .gt → order i = .lt)
    (hn : high < n) (hrange : low ≤ high + 1) (hbelow : ∀ i < low, order i = .lt)
    (habove : ∀ j, high < j → j < n → order j = .gt) :
    match r with
    | .row k => k < n ∧ order k ≠ .gt ∧ ∀ j, k < j → j < n → order j = .gt
    | .before => order 0 = .gt
    | .failed _ => False := by
  -- the invariant: rows before the range lie at most at `x`, rows behind it lie above
  induction h with
  | @empty low high hlt => exact ⟨hn, by rw [hbelow high (by omega)]; decide, habove⟩
  | failed hle he =>
    rw [hentry _ (by have := hmiddle _ _ hle hn; omega)] at he
    cases he
  | @found low high hle he =>
    have hmid : middle low high < n := by have := hmiddle _ _ hle hn; omega
    rw [hentry _ hmid] at he
    have heq : order (middle low high) = .eq := Except.ok.inj he
    refine ⟨hmid, by rw [heq]; decide, fun j hj hjn => ?_⟩
    by_contra hne
    rw [hsorted _ j hj hjn hne] at heq
    cases heq
  | @upper low high reads r hle he rest ih =>
    have hmid : middle low high < n := by have := hmiddle _ _ hle hn; omega
    rw [hentry _ hmid] at he
    have hlt : order (middle low high) = .lt := Except.ok.inj he
    refine ih hn (Nat.succ_le_succ (hmiddle _ _ hle hn)) (fun i hi => ?_) habove
    rcases Nat.lt_succ_iff_lt_or_eq.mp hi with hi | rfl
    · exact hsorted i _ hi hmid (by rw [hlt]; decide)
    · exact hlt
  | before hle he hzero =>
    rw [hentry _ (by have := hmiddle _ _ hle hn; omega), hzero] at he
    exact Except.ok.inj he
  | @lower low high reads r hle he hpos rest ih =>
    have hmid : middle low high < n := by have := hmiddle _ _ hle hn; omega
    rw [hentry _ hmid] at he
    have hgt : order (middle low high) = .gt := Except.ok.inj he
    have hlow : low ≤ middle low high := by
      by_contra hlt
      rw [hbelow _ (Nat.not_le.mp hlt)] at hgt
      cases hgt
    refine ih (by omega) (by omega) hbelow fun j hj hjn => ?_
    obtain hj | hj : j = middle low high ∨ middle low high < j := by omega
    · rw [hj, hgt]
    · by_contra hne
      rw [hsorted _ j hj hjn hne] at hgt
      cases hgt

end KDebugger.Bisection
