import Mathlib.Data.List.Basic
import Mathlib.Order.Lattice

namespace KDebugger.OrderedMap

variable {ε α : Type} [LinearOrder α] (key : ε → α)

def insert (x : ε) : List ε → List ε
  -- at a key that is taken nothing changes
  | [] => [x]
  | y :: ys =>
    if key x < key y then x :: y :: ys
    else if key y < key x then y :: insert x ys
    else y :: ys

/-- One `insert` after the other into an empty map. -/
def ofList (xs : List ε) : List ε := xs.foldl (fun m x => insert key x m) []

/-- `lower_bound`: the position of the first entry not below `a`, or the end. -/
def lowerBound (a : α) (m : List ε) : ℕ := m.findIdx fun x => a ≤ key x

def Ascending (m : List ε) : Prop := m.Pairwise fun x y => key x < key y

variable {key} {x y : ε} {m : List ε}

/-- Nothing else comes in, and at a free key the entry does. -/
theorem mem_insert (hfree : ∀ z ∈ m, key z ≠ key x) : y ∈ insert key x m ↔ y = x ∨ y ∈ m := by
  induction m with
  | nil => simp [insert]
  | cons z m ih =>
    have hz := hfree z List.mem_cons_self
    have hrest := ih fun w hw => hfree w (List.mem_cons_of_mem z hw)
    unfold insert
    by_cases hlt : key x < key z
    · rw [if_pos hlt, List.mem_cons]
    · rw [if_neg hlt, if_pos (lt_of_le_of_ne (not_lt.mp hlt) hz), List.mem_cons, hrest,
        List.mem_cons]
      exact or_left_comm

theorem mem_of_mem_insert (h : y ∈ insert key x m) : y = x ∨ y ∈ m := by
  fun_induction insert key x m with
  | case1 => exact .inl (List.mem_singleton.mp h)
  | case2 => exact List.mem_cons.mp h
  | case3 z m _ _ ih =>
    obtain rfl | hy := List.mem_cons.mp h
    · exact .inr List.mem_cons_self
    · exact (ih hy).imp_right (List.mem_cons_of_mem z)
  | case4 => exact .inr h

theorem Ascending.insert (h : Ascending key m) : Ascending key (insert key x m) := by
  fun_induction OrderedMap.insert key x m with
  | case1 => exact List.pairwise_singleton _ x
  | case2 z m hlt =>
    refine List.pairwise_cons.mpr ⟨fun w hw => ?_, h⟩
    obtain rfl | hw := List.mem_cons.mp hw
    · exact hlt
    · exact lt_trans hlt ((List.pairwise_cons.mp h).1 w hw)
  | case3 z m _ hlt ih =>
    obtain ⟨hz, hm⟩ := List.pairwise_cons.mp h
    refine List.pairwise_cons.mpr ⟨fun w hw => ?_, ih hm⟩
    obtain rfl | hw := mem_of_mem_insert hw
    · exact hlt
    · exact hz w hw
  | case4 => exact h

theorem mem_foldl {xs : List ε} (hxs : xs.Pairwise fun x y => key x ≠ key y) :
    ∀ {m : List ε}, (∀ z ∈ m, ∀ x ∈ xs, key z ≠ key x) →
      (y ∈ xs.foldl (fun m x => insert key x m) m ↔ y ∈ xs ∨ y ∈ m) := by
  induction xs with
  | nil => simp
  | cons x xs ih =>
    intro m hm
    obtain ⟨hx, hxs⟩ := List.pairwise_cons.mp hxs
    have hfree : ∀ z ∈ m, key z ≠ key x := fun z hz => hm z hz x List.mem_cons_self
    have hnext : ∀ z ∈ insert key x m, ∀ w ∈ xs, key z ≠ key w := by
      intro z hz w hw
      obtain rfl | hz := mem_of_mem_insert hz
      · exact hx w hw
      · exact hm z hz w (List.mem_cons_of_mem x hw)
    rw [List.foldl_cons, ih hxs hnext, mem_insert hfree, List.mem_cons]
    exact or_left_comm.trans or_assoc.symm

theorem mem_of_mem_foldl {xs : List ε} :
    ∀ {m : List ε}, y ∈ xs.foldl (fun m x => insert key x m) m → y ∈ xs ∨ y ∈ m := by
  induction xs with
  | nil => exact .inr
  | cons x xs ih =>
    intro m hm
    rw [List.foldl_cons] at hm
    obtain hxs | hm := ih hm
    · exact .inl (List.mem_cons_of_mem x hxs)
    · obtain rfl | hm := mem_of_mem_insert hm
      · exact .inl List.mem_cons_self
      · exact .inr hm

theorem mem_of_mem_ofList {xs : List ε} (h : y ∈ ofList key xs) : y ∈ xs :=
  (mem_of_mem_foldl h).resolve_right List.not_mem_nil

theorem mem_ofList {xs : List ε} (hxs : xs.Pairwise fun x y => key x ≠ key y) :
    y ∈ ofList key xs ↔ y ∈ xs := by
  rw [ofList, mem_foldl hxs (by simp)]
  simp

theorem ascending_ofList (xs : List ε) : Ascending key (ofList key xs) := by
  have h : ∀ {m : List ε}, Ascending key m →
      Ascending key (xs.foldl (fun m x => insert key x m) m) := by
    induction xs with
    | nil => exact id
    | cons x xs ih => exact fun hm => ih hm.insert
  exact h List.Pairwise.nil

/-- The entry at the lower bound is not below, and is the first such entry. -/
theorem le_of_lowerBound {a : α} (h : m[lowerBound key a m]? = some x) : a ≤ key x := by
  obtain ⟨hlt, rfl⟩ := List.getElem?_eq_some_iff.mp h
  exact of_decide_eq_true (List.findIdx_getElem (w := hlt))

theorem lowerBound_eq_end {a : α} : m[lowerBound key a m]? = none ↔ ∀ y ∈ m, key y < a := by
  have hend : m.length ≤ lowerBound key a m ↔ lowerBound key a m = m.length :=
    ⟨fun h => Nat.le_antisymm List.findIdx_le_length h, fun h => h ▸ Nat.le_refl _⟩
  rw [List.getElem?_eq_none_iff, hend, lowerBound, List.findIdx_eq_length]
  simp

theorem lowerBound_of_mem (hm : Ascending key m) (hx : x ∈ m) :
    m[lowerBound key (key x) m]? = some x := by
  induction m with
  | nil => cases hx
  | cons z m ih =>
    obtain ⟨hz, hm⟩ := List.pairwise_cons.mp hm
    obtain rfl | hx := List.mem_cons.mp hx
    · simp [lowerBound, List.findIdx_cons]
    · have hlt : ¬ key x ≤ key z := not_le.mpr (hz x hx)
      simpa [lowerBound, List.findIdx_cons, hlt] using ih hm hx

end KDebugger.OrderedMap
