import Mathlib.Data.Set.Finite.Basic
import Mathlib.Logic.Relation
import Mathlib.Order.Preorder.Finite
import Mathlib.Order.WellFounded

namespace KDebugger

open Relation

variable {α β : Type} {R : α → α → Prop} {key : α → β} {a : α}

/-- Every chain of steps from `a` ends. -/
def Ending (R : α → α → Prop) (a : α) : Prop := Acc (fun y x => R x y) a

/-- A chain of steps from `a` has the same key twice. -/
def ComesBack (R : α → α → Prop) (key : α → β) (a : α) : Prop :=
  ∃ x y, ReflTransGen R a x ∧ TransGen R x y ∧ key y = key x

/-- States with the same key take the same steps, as far as the keys go. -/
def KeyedSteps (R : α → α → Prop) (key : α → β) : Prop :=
  ∀ a a' b, R a a' → key b = key a → ∃ b', R b b' ∧ key b' = key a'

theorem Ending.of_step {a' : α} (h : Ending R a) (ha : R a a') : Ending R a' := Acc.inv h ha

theorem Ending.of_reaches {x : α} (h : Ending R a) (hx : ReflTransGen R a x) : Ending R x := by
  induction hx with
  | refl => exact h
  | tail _ hstep ih => exact ih.of_step hstep

theorem Ending.not_loops (hkeyed : KeyedSteps R key) {x y : α} (hxy : TransGen R x y)
    (hback : key y = key x) {z : α} (h : Ending R z) :
    ¬ ∃ w, key z = key w ∧ TransGen R w y := by
  induction h with
  | intro z _ ih =>
    rintro ⟨w, hzw, hwy⟩
    obtain ⟨w', hww', hw'y⟩ := TransGen.head'_iff.mp hwy
    obtain ⟨z', hzz', hkey⟩ := hkeyed w w' z hww' hzw
    apply ih z' hzz'
    obtain rfl | hlater := reflTransGen_iff_eq_or_transGen.mp hw'y
    · exact ⟨x, hkey.trans hback, hxy⟩
    · exact ⟨w', hkey, hlater⟩

theorem Ending.not_comesBack (hkeyed : KeyedSteps R key) (h : Ending R a) :
    ¬ ComesBack R key a := by
  rintro ⟨x, y, hax, hxy, hback⟩
  exact (h.of_reaches hax).not_loops hkeyed hxy hback ⟨x, rfl, hxy⟩

theorem ending_of_finite (hfinite : (key '' {x | ReflTransGen R a x}).Finite)
    (h : ¬ ComesBack R key a) : Ending R a := by
  by_contra hnot
  obtain ⟨f, rfl, hf⟩ := not_acc_iff_exists_descending_chain.mp hnot
  have hchain {m n : ℕ} (hmn : m < n) : TransGen R (f m) (f n) :=
    Nat.rel_of_forall_rel_succ_of_lt (TransGen R) (fun n => .single (hf n)) hmn
  have hreach (m : ℕ) : ReflTransGen R (f 0) (f m) := by
    obtain rfl | hm := Nat.eq_zero_or_pos m
    · exact .refl
    · exact (hchain hm).to_reflTransGen
  obtain ⟨m, n, hmn, hkey⟩ :=
    hfinite.exists_lt_map_eq_of_forall_mem fun m => Set.mem_image_of_mem key (hreach m)
  exact h ⟨f m, f n, hreach m, hchain hmn, hkey.symm⟩

theorem ending_of_not_comesBack [Finite β] (h : ¬ ComesBack R key a) : Ending R a :=
  ending_of_finite (Set.toFinite _) h

theorem ending_iff_not_comesBack [Finite β] (hkeyed : KeyedSteps R key) :
    Ending R a ↔ ¬ ComesBack R key a := ⟨Ending.not_comesBack hkeyed, ending_of_not_comesBack⟩

end KDebugger
