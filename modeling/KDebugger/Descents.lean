import Mathlib.Data.List.Basic

namespace KDebugger.Descents

inductive Forest (α : Type) where
  | nil
  | tree (a : α) (below beside : Forest α)

namespace Forest

variable {α : Type} (p : α → Bool)

def row : Forest α → List α
  | nil => []
  | tree a _ beside => a :: beside.row

/-- All nodes, each before what hangs from it. -/
def preorder : Forest α → List α
  | nil => []
  | tree a below beside => a :: (below.preorder ++ beside.preorder)

/-- All nodes with what hangs from them. -/
def nodes : Forest α → List (α × Forest α)
  | nil => []
  | tree a below beside => (a, below) :: (below.nodes ++ beside.nodes)

/-- The descent. -/
def descend : Forest α → List α
  | nil => []
  | tree a below beside => if p a then a :: below.descend else beside.descend

/-- Nothing marked hangs from an unmarked node, and of a row at most one node is marked. -/
structure Chained (F : Forest α) : Prop where
  hung : ∀ x ∈ F.nodes, p x.1 = false → ∀ b ∈ x.2.preorder, p b = false
  first : (F.row.filter p).length ≤ 1
  single : ∀ x ∈ F.nodes, (x.2.row.filter p).length ≤ 1

variable {p}

theorem nil_chained : Chained p (nil : Forest α) := ⟨nofun, by simp [row], nofun⟩

theorem row_subset (F : Forest α) : F.row ⊆ F.preorder := by
  induction F with
  | nil => exact List.Subset.refl _
  | tree a below beside _ ih =>
    apply List.cons_subset_cons
    exact fun b hb => List.mem_append_right _ (ih hb)

/-- What hangs from a node is among all nodes. -/
theorem preorder_subset {F : Forest α} : ∀ x ∈ F.nodes, x.2.preorder ⊆ F.preorder := by
  induction F with
  | nil => nofun
  | tree a below beside ihBelow ihBeside =>
    intro x hx b hb
    apply List.mem_cons_of_mem
    apply List.mem_append.mpr
    rcases List.mem_cons.mp hx with rfl | hx
    · exact .inl hb
    · rcases List.mem_append.mp hx with hx | hx
      · exact .inl (ihBelow x hx hb)
      · exact .inr (ihBeside x hx hb)

theorem mem_preorder {F : Forest α} {b : α} (hb : b ∈ F.preorder) :
    b ∈ F.row ∨ ∃ x ∈ F.nodes, x.1 ∈ F.row ∧ b ∈ x.2.preorder := by
  induction F with
  | nil => cases hb
  | tree a below beside _ ih =>
    rcases List.mem_cons.mp hb with rfl | hb
    · exact .inl List.mem_cons_self
    rcases List.mem_append.mp hb with hb | hb
    · exact .inr ⟨(a, below), List.mem_cons_self, List.mem_cons_self, hb⟩
    · rcases ih hb with hrow | ⟨x, hx, hrow, hb⟩
      · exact .inl (List.mem_cons_of_mem a hrow)
      · right
        exact ⟨x, List.mem_cons_of_mem _ (List.mem_append_right _ hx), List.mem_cons_of_mem a hrow, hb⟩

/-- Nothing is marked. -/
def Unmarked (p : α → Bool) (F : Forest α) : Prop := ∀ b ∈ F.preorder, p b = false

theorem Unmarked.filter_row {F : Forest α} (h : Unmarked p F) : F.row.filter p = [] :=
  List.filter_eq_nil_iff.mpr fun b hb => by simp [h b (row_subset F hb)]

theorem Unmarked.below {F : Forest α} (h : Unmarked p F) {x : α × Forest α} (hx : x ∈ F.nodes) :
    Unmarked p x.2 := fun b hb => h b (preorder_subset x hx hb)

theorem Unmarked.chained {F : Forest α} (h : Unmarked p F) : Chained p F where
  hung x hx _ := h.below hx
  first := by simp [h.filter_row]
  single x hx := by simp [(h.below hx).filter_row]

theorem Chained.unmarked {F : Forest α} (h : Chained p F) (hrow : F.row.filter p = []) :
    Unmarked p F := by
  have hnone : ∀ b ∈ F.row, p b = false := by simpa using hrow
  intro b hb
  obtain hrow | ⟨x, hx, hxrow, hb⟩ := mem_preorder hb
  · exact hnone b hrow
  · exact h.hung x hx (hnone x.1 hxrow) b hb

section Tree

variable {a : α} {below beside : Forest α}

theorem chained_marked (ha : p a = true) :
    Chained p (tree a below beside) ↔ Chained p below ∧ Unmarked p beside := by
  constructor
  · intro h
    have hbeside : beside.row.filter p = [] := by
      have hfirst := h.first
      rw [row, List.filter_cons_of_pos ha, List.length_cons] at hfirst
      exact List.length_eq_zero_iff.mp (by omega)
    refine ⟨⟨fun x hx => h.hung x ?_, h.single _ List.mem_cons_self, fun x hx => h.single x ?_⟩, ?_⟩
    · exact List.mem_cons_of_mem _ (List.mem_append_left _ hx)
    · exact List.mem_cons_of_mem _ (List.mem_append_left _ hx)
    · have hrest : Chained p beside :=
        ⟨fun x hx => h.hung x (List.mem_cons_of_mem _ (List.mem_append_right _ hx)),
          by simp [hbeside],
          fun x hx => h.single x (List.mem_cons_of_mem _ (List.mem_append_right _ hx))⟩
      exact hrest.unmarked hbeside
  · rintro ⟨hbelow, hbeside⟩
    constructor
    · intro x hx hmark
      rcases List.mem_cons.mp hx with rfl | hx
      · rw [ha] at hmark
        cases hmark
      · rcases List.mem_append.mp hx with hx | hx
        · exact hbelow.hung x hx hmark
        · exact hbeside.below hx
    · rw [row, List.filter_cons_of_pos ha, hbeside.filter_row]
      exact Nat.le_refl 1
    · intro x hx
      rcases List.mem_cons.mp hx with rfl | hx
      · exact hbelow.first
      · rcases List.mem_append.mp hx with hx | hx
        · exact hbelow.single x hx
        · exact hbeside.chained.single x hx

theorem chained_unmarked (ha : p a = false) :
    Chained p (tree a below beside) ↔ Unmarked p below ∧ Chained p beside := by
  have hneg : ¬ p a = true := by simp [ha]
  constructor
  · intro h
    have hfirst := h.first
    rw [row, List.filter_cons_of_neg hneg] at hfirst
    refine ⟨h.hung _ List.mem_cons_self ha, fun x hx => h.hung x ?_, hfirst, fun x hx => h.single x ?_⟩
    · exact List.mem_cons_of_mem _ (List.mem_append_right _ hx)
    · exact List.mem_cons_of_mem _ (List.mem_append_right _ hx)
  · rintro ⟨hbelow, hbeside⟩
    constructor
    · intro x hx hmark
      rcases List.mem_cons.mp hx with rfl | hx
      · exact hbelow
      · rcases List.mem_append.mp hx with hx | hx
        · exact hbelow.below hx
        · exact hbeside.hung x hx hmark
    · rw [row, List.filter_cons_of_neg hneg]
      exact hbeside.first
    · intro x hx
      rcases List.mem_cons.mp hx with rfl | hx
      · simp [hbelow.filter_row]
      · rcases List.mem_append.mp hx with hx | hx
        · exact hbelow.chained.single x hx
        · exact hbeside.single x hx

end Tree

theorem unmarked_iff {F : Forest α} : Unmarked p F ↔ F.preorder.filter p = [] := by
  simp [Unmarked]

theorem descend_sublist (F : Forest α) : (F.descend p).Sublist (F.preorder.filter p) := by
  induction F with
  | nil => exact List.Sublist.refl _
  | tree a below beside ihBelow ihBeside =>
    rw [descend, preorder]
    cases ha : p a with
    | true =>
      rw [List.filter_cons_of_pos ha, List.filter_append]
      exact (ihBelow.trans (List.sublist_append_left _ _)).cons_cons a
    | false =>
      rw [List.filter_cons_of_neg (by simp [ha]), List.filter_append]
      exact ihBeside.trans (List.sublist_append_right _ _)

theorem descend_eq_iff (F : Forest α) : F.descend p = F.preorder.filter p ↔ Chained p F := by
  -- by induction on the forest: a marked node ends its row, and the descent goes on below it
  induction F with
  | nil => exact iff_of_true rfl nil_chained
  | tree a below beside ihBelow ihBeside =>
    have hsub := (descend_sublist (p := p) below).length_le
    have hsub' := (descend_sublist (p := p) beside).length_le
    rw [descend, preorder]
    cases ha : p a with
    | true =>
      rw [chained_marked ha, ← ihBelow, unmarked_iff, List.filter_cons_of_pos ha, List.filter_append,
        if_pos rfl, List.cons_inj_right]
      constructor
      · intro h
        have hlen := congrArg List.length h
        rw [List.length_append] at hlen
        have hnone : beside.preorder.filter p = [] := List.length_eq_zero_iff.mp (by omega)
        rw [hnone, List.append_nil] at h
        exact ⟨h, hnone⟩
      · rintro ⟨h, hnone⟩
        rw [h, hnone, List.append_nil]
    | false =>
      rw [chained_unmarked ha, ← ihBeside, unmarked_iff, List.filter_cons_of_neg (by simp [ha]),
        List.filter_append, if_neg (by simp)]
      constructor
      · intro h
        have hlen := congrArg List.length h
        rw [List.length_append] at hlen
        have hnone : below.preorder.filter p = [] := List.length_eq_zero_iff.mp (by omega)
        rw [hnone, List.nil_append] at h
        exact ⟨hnone, h⟩
      · rintro ⟨hnone, h⟩
        rw [h, hnone, List.nil_append]

end Forest
end KDebugger.Descents
