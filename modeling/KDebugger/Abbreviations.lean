import Mathlib.Data.List.Basic
import Mathlib.Order.Lattice
import Mathlib.Order.MinMax

namespace KDebugger.Abbreviations

variable {α : Type} [DecidableEq α]

/-- How many letters two words have in common at their beginnings. -/
def shared : List α → List α → ℕ
  | a :: as, b :: bs => if a = b then shared as bs + 1 else 0
  | _, _ => 0

theorem prefix_iff_le_shared {word name : List α} (h : word <+: name) (other : List α) :
    word <+: other ↔ word.length ≤ shared name other := by
  induction word generalizing name other with
  | nil => simp
  | cons a word ih =>
    obtain ⟨rest, rfl⟩ := h
    cases other with
    | nil => simp [shared]
    | cons b other =>
      rw [List.cons_append, List.cons_prefix_cons, shared, List.length_cons]
      by_cases hab : a = b
      · simp only [hab, true_and, if_true, ih (List.prefix_append word rest)]
        omega
      · simp [hab]

/-- The position of the first name that the word is a prefix of. -/
def select (names : List (List α)) (word : List α) : Option ℕ :=
  names.findIdx? fun name => word.isPrefixOf name

def letters (before : List (List α)) (name : List α) : ℕ :=
  before.foldr (fun other n => max (shared name other + 1) n) 0

theorem letters_le_iff {before : List (List α)} {name : List α} {n : ℕ} :
    letters before name ≤ n ↔ ∀ other ∈ before, shared name other < n := by
  induction before with
  | nil => simp [letters]
  | cons other before ih =>
    rw [letters, List.foldr_cons, max_le_iff, List.forall_mem_cons]
    exact and_congr Nat.succ_le_iff ih

variable {names : List (List α)} {word : List α} {i : ℕ}

theorem select_eq_some_iff : select names word = some i ↔
    ∃ name, names[i]? = some name ∧ word <+: name ∧ letters (names.take i) name ≤ word.length := by
  unfold select
  rw [List.findIdx?_eq_some_iff_getElem]
  simp only [List.isPrefixOf_iff_prefix, letters_le_iff]
  constructor
  · intro ⟨hi, hprefix, hbefore⟩
    refine ⟨names[i], List.getElem?_eq_getElem hi, hprefix, fun other hother => ?_⟩
    obtain ⟨j, hj, rfl⟩ := List.mem_take_iff_getElem.mp hother
    have hno := hbefore j (by omega)
    rw [prefix_iff_le_shared hprefix] at hno
    omega
  · intro ⟨name, hname, hprefix, hletters⟩
    obtain ⟨hi, rfl⟩ := List.getElem?_eq_some_iff.mp hname
    refine ⟨hi, hprefix, fun j hj => ?_⟩
    have hlt := hletters names[j] (List.mem_take_iff_getElem.mpr ⟨j, by omega, rfl⟩)
    rw [prefix_iff_le_shared hprefix]
    omega

theorem ne_select_of_lt {name : List α} (h : names[i]? = some name)
    (hlt : name.length < letters (names.take i) name) : select names word ≠ some i := by
  intro hselect
  obtain ⟨found, hfound, hprefix, hletters⟩ := select_eq_some_iff.mp hselect
  obtain rfl : name = found := Option.some.inj (h.symm.trans hfound)
  have hlength := hprefix.length_le
  omega

end KDebugger.Abbreviations
