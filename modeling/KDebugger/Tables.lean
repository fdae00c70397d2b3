import Mathlib.Data.List.Nodup
import Mathlib.Data.Nat.Bitwise

namespace KDebugger.Tables

variable {α β : Type}

/-- No number is among those whose bit is set, nor comes twice. -/
def allFresh : ℕ → List ℕ → Bool
  | _, [] => true
  | seen, n :: ns => !seen.testBit n && allFresh (seen ||| 2 ^ n) ns

theorem nodup_of_allFresh {seen : ℕ} {ns : List ℕ} (h : allFresh seen ns = true) :
    ns.Nodup ∧ ∀ n ∈ ns, seen.testBit n = false := by
  induction ns generalizing seen with
  | nil => simp
  | cons n ns ih =>
    rw [allFresh, Bool.and_eq_true, Bool.not_eq_true'] at h
    have hrest := ih h.2
    simp only [Nat.testBit_or, Bool.or_eq_false_iff, Nat.testBit_two_pow, decide_eq_false_iff_not]
      at hrest
    refine ⟨List.nodup_cons.mpr ⟨fun hn => (hrest.2 n hn).2 rfl, hrest.1⟩, ?_⟩
    intro k hk
    obtain rfl | hk := List.mem_cons.mp hk
    · exact h.1
    · exact (hrest.2 k hk).1

theorem nodup_of_numbers {key : α → β} (number : β → ℕ) {table : List α}
    (h : allFresh 0 (table.map fun entry => number (key entry)) = true) :
    (table.map key).Nodup := by
  apply List.Nodup.of_map number
  rw [List.map_map]
  exact (nodup_of_allFresh h).1

theorem find?_key_iff [BEq β] [LawfulBEq β] {key : α → β} {table : List α}
    (hnodup : (table.map key).Nodup) {k : β} {entry : α} :
    (table.find? fun e => key e == k) = some entry ↔ entry ∈ table ∧ key entry = k := by
  constructor
  · intro h
    exact ⟨List.mem_of_find?_eq_some h, by simpa using List.find?_some h⟩
  · intro ⟨hmem, hkey⟩
    cases hfind : table.find? fun e => key e == k with
    | none => simpa [hkey] using List.find?_eq_none.mp hfind entry hmem
    | some other =>
      have hother : key other = k := by simpa using List.find?_some hfind
      have hsame := List.inj_on_of_nodup_map hnodup (List.mem_of_find?_eq_some hfind) hmem
        (hother.trans hkey.symm)
      rw [hsame]

end KDebugger.Tables
