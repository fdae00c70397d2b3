import Mathlib.Data.List.Induction
import Mathlib.Logic.Function.Basic

namespace KDebugger

variable {α β κ : Type} [DecidableEq α] [DecidableEq κ] {l : List (α × β)} {a : α}

def lastValue (l : List (α × β)) (a : α) : Option β :=
  (l.filter fun x => x.1 = a).getLast?.map Prod.snd

theorem lastValue_snoc (l : List (α × β)) (x : α × β) (a : α) :
    lastValue (l ++ [x]) a = if x.1 = a then some x.2 else lastValue l a := by
  unfold lastValue
  rw [List.filter_append]
  split_ifs with h
  · simp [h]
  · simp [h]

/-- The assignment of `x.2` to `x.1`. -/
def assign (m : α → Option β) (x : α × β) : α → Option β := Function.update m x.1 (some x.2)

theorem foldl_assign (l : List (α × β)) : l.foldl assign (fun _ => none) = lastValue l := by
  induction l using List.reverseRecOn with
  | nil => rfl
  | append_singleton l x ih =>
    funext a
    rw [List.foldl_append, lastValue_snoc, ← ih]
    simp only [List.foldl_cons, List.foldl_nil, assign, Function.update_apply, eq_comm]

variable (f : α → κ)

def rekeyed (l : List (α × β)) : List (κ × β) := l.map fun x => (f x.1, x.2)

theorem lastValue_rekeyed {x : α × β} (hx : x ∈ l) :
    ∃ y ∈ l, f y.1 = f x.1 ∧ lastValue (rekeyed f l) (f x.1) = lastValue l y.1 := by
  -- by induction from the last assignment on, which is the one that counts
  induction l using List.reverseRecOn with
  | nil => cases hx
  | append_singleton l z ih =>
    have hsnoc : rekeyed f (l ++ [z]) = rekeyed f l ++ [(f z.1, z.2)] := by simp [rekeyed]
    rw [hsnoc, lastValue_snoc]
    by_cases hz : f z.1 = f x.1
    · refine ⟨z, by simp, hz, ?_⟩
      rw [if_pos hz, lastValue_snoc, if_pos rfl]
    · have hmem : x ∈ l := by
        obtain h | h := List.mem_append.mp hx
        · exact h
        · exact absurd (by rw [List.mem_singleton.mp h]) hz
      obtain ⟨y, hy, hkey, hlast⟩ := ih hmem
      refine ⟨y, List.mem_append_left _ hy, hkey, ?_⟩
      have hne : z.1 ≠ y.1 := fun h => hz (by rw [h, hkey])
      rw [if_neg hz, hlast, lastValue_snoc, if_neg hne]

/-- Each key holds its own last value exactly where keys that are taken for one another have
the same. -/
theorem lastValue_rekeyed_iff :
    (∀ x ∈ l, lastValue (rekeyed f l) (f x.1) = lastValue l x.1) ↔
      ∀ x ∈ l, ∀ y ∈ l, f x.1 = f y.1 → lastValue l x.1 = lastValue l y.1 := by
  constructor
  · intro h x hx y hy hkey
    rw [← h x hx, ← h y hy, hkey]
  · intro h x hx
    obtain ⟨y, hy, hkey, hlast⟩ := lastValue_rekeyed f hx
    rw [hlast, h x hx y hy hkey.symm]

end KDebugger
