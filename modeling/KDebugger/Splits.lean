import Mathlib.Data.List.Nodup

namespace KDebugger.Splits

variable {α β : Type} {l₁ l₂ l : List α} {x y : α}

theorem exists_split {i : ℕ} (h : l[i]? = some x) : ∃ l₁ l₂, l = l₁ ++ x :: l₂ ∧ l₁.length = i := by
  obtain ⟨hi, rfl⟩ := List.getElem?_eq_some_iff.mp h
  refine ⟨l.take i, l.drop (i + 1), ?_, ?_⟩
  · rw [← List.drop_eq_getElem_cons hi, List.take_append_drop]
  · rw [List.length_take, Nat.min_eq_left (Nat.le_of_lt hi)]

theorem getElem?_of_findIdx? {p : α → Bool} {i : ℕ} (h : l.findIdx? p = some i) :
    ∃ x, l[i]? = some x ∧ p x = true := by
  obtain ⟨hi, hp, -⟩ := List.findIdx?_eq_some_iff_getElem.mp h
  exact ⟨l[i], List.getElem?_eq_getElem hi, hp⟩

@[simp] theorem modify_split (l₁ l₂ : List α) (x : α) (f : α → α) :
    (l₁ ++ x :: l₂).modify l₁.length f = l₁ ++ f x :: l₂ := by
  induction l₁ with
  | nil => rfl
  | cons y l₁ ih => simpa using ih

@[simp] theorem eraseIdx_split (l₁ l₂ : List α) (x : α) :
    (l₁ ++ x :: l₂).eraseIdx l₁.length = l₁ ++ l₂ := by
  induction l₁ with
  | nil => rfl
  | cons y l₁ ih => simpa using ih

theorem getElem?_replace {i : ℕ} (h : i ≠ l₁.length) :
    (l₁ ++ y :: l₂)[i]? = (l₁ ++ x :: l₂)[i]? := by
  obtain hlt | hgt := Nat.lt_or_gt_of_ne h
  · rw [List.getElem?_append_left hlt, List.getElem?_append_left hlt]
  · obtain ⟨k, rfl⟩ := Nat.exists_eq_add_of_lt hgt
    rw [List.getElem?_append_right (by omega), List.getElem?_append_right (by omega)]
    simp [Nat.add_assoc]

theorem forall_mem_replace {p : α → Prop} (h : ∀ z ∈ l₁ ++ x :: l₂, p z) (hy : p y) :
    ∀ z ∈ l₁ ++ y :: l₂, p z := by
  simp only [List.mem_append, List.mem_cons] at h ⊢
  rintro z (hz | rfl | hz)
  · exact h z (.inl hz)
  · exact hy
  · exact h z (.inr (.inr hz))

theorem forall_mem_erase {p : α → Prop} (h : ∀ z ∈ l₁ ++ x :: l₂, p z) :
    ∀ z ∈ l₁ ++ l₂, p z := by
  simp only [List.mem_append, List.mem_cons] at h ⊢
  rintro z (hz | hz)
  · exact h z (.inl hz)
  · exact h z (.inr (.inr hz))

theorem forall_mem_snoc {p : α → Prop} (h : ∀ z ∈ l, p z) (hx : p x) : ∀ z ∈ l ++ [x], p z := by
  simp only [List.mem_append, List.mem_singleton]
  rintro z (hz | rfl)
  · exact h z hz
  · exact hx

variable {key : α → β}

theorem key_ne (h : ((l₁ ++ x :: l₂).map key).Nodup) : ∀ y ∈ l₁ ++ l₂, key y ≠ key x := by
  intro y hy heq
  rw [List.map_append, List.map_cons, List.nodup_middle, List.nodup_cons, ← List.map_append] at h
  exact h.1 (List.mem_map.mpr ⟨y, hy, heq⟩)

theorem nodup_replace (h : ((l₁ ++ x :: l₂).map key).Nodup) (hy : key y = key x) :
    ((l₁ ++ y :: l₂).map key).Nodup := by
  rwa [List.map_append, List.map_cons, hy, ← List.map_cons, ← List.map_append]

theorem nodup_erase (h : ((l₁ ++ x :: l₂).map key).Nodup) : ((l₁ ++ l₂).map key).Nodup := by
  rw [List.map_append, List.map_cons, List.nodup_middle, List.nodup_cons, ← List.map_append] at h
  exact h.2

theorem nodup_snoc (h : (l.map key).Nodup) (hx : ∀ y ∈ l, key y ≠ key x) :
    ((l ++ [x]).map key).Nodup := by
  rw [List.map_append, List.nodup_append]
  refine ⟨h, by simp, ?_⟩
  rintro a ha b hb rfl
  obtain ⟨y, hy, rfl⟩ := List.mem_map.mp ha
  simp only [List.map_cons, List.map_nil, List.mem_singleton] at hb
  exact hx y hy hb

end KDebugger.Splits
