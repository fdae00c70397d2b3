import KDebugger.Computation
import KDebugger.Splits

namespace KDebugger

open Exec

/-- What a search asks of one member after another.  Where a member is a pointer that leads
nowhere, asking is undefined. -/
structure Question (σ T : Type) where
  ask : T → EStateM Failure σ Bool
  answer : σ → T → Bool
  sound : σ → T → Prop
  ask_ok : ∀ s x, sound s x → ask x s = .ok (answer s x) s
  ask_undefined : ∀ s x, ¬ sound s x → ∃ s', ask x s = .error .undefined s'

namespace Question

variable {σ T : Type}

/-- One whose answer is in the member. -/
def plain (p : T → Bool) : Question σ T where
  ask x := pure (p x)
  answer _ := p
  sound _ _ := True
  ask_ok _ _ _ := rfl
  ask_undefined _ _ h := absurd trivial h

/-- The members up to the first with the property can be asked. -/
def Reached (q : Question σ T) (s : σ) : List T → Prop
  | [] => True
  | x :: l => q.sound s x ∧ (q.answer s x = false → Reached q s l)

variable {q : Question σ T} {s : σ}

theorem reached_of_sound : ∀ {l : List T}, (∀ x ∈ l, q.sound s x) → q.Reached s l := by
  intro l
  induction l with
  | nil => exact fun _ => trivial
  | cons x l ih => exact fun h => ⟨h x List.mem_cons_self,
      fun _ => ih fun y hy => h y (List.mem_cons_of_mem x hy)⟩

/-- The members with the property; every member is asked. -/
def select (q : Question σ T) : List T → EStateM Failure σ (List T)
  | [] => pure []
  | x :: l => do
    let inside ← q.ask x
    let rest ← select q l
    pure (if inside then x :: rest else rest)

theorem select_ok : ∀ {l : List T}, (∀ x ∈ l, q.sound s x) →
    q.select l s = .ok (l.filter (q.answer s)) s := by
  intro l
  induction l with
  | nil => exact fun _ => rfl
  | cons x l ih =>
    intro h
    obtain ⟨hx, hrest⟩ := List.forall_mem_cons.mp h
    unfold select
    rw [bind_ok (q.ask_ok s x hx), bind_ok (ih hrest), List.filter_cons]
    rfl

theorem select_undefined : ∀ {l : List T}, ¬ (∀ x ∈ l, q.sound s x) →
    ∃ s', q.select l s = .error .undefined s' := by
  intro l
  induction l with
  | nil => exact fun h => absurd (by simp) h
  | cons x l ih =>
    intro h
    unfold select
    by_cases hx : q.sound s x
    · obtain ⟨s', hfail⟩ := ih fun hrest => h (List.forall_mem_cons.mpr ⟨hx, hrest⟩)
      rw [bind_ok (q.ask_ok s x hx), bind_error hfail]
      exact ⟨s', rfl⟩
    · obtain ⟨s', hfail⟩ := q.ask_undefined s x hx
      exact ⟨s', bind_error hfail⟩

end Question

/-- Members of type `T`, each with an identity that stays. -/
structure Collection (σ T κ : Type) where
  points : σ → List T
  setPoints : List T → σ → σ
  points_setPoints : ∀ l s, points (setPoints l s) = l
  identity : T → κ
  isEnabled : σ → T → Bool
  /-- what switches the member at a position off -/
  disable : ℕ → EStateM Failure σ Unit

namespace Collection

variable {σ T κ : Type} (c : Collection σ T κ) (q : Question σ T) (s : σ)

def states : List Bool := (c.points s).map (c.isEnabled s)

def identities : List κ := (c.points s).map c.identity

def erased (i : ℕ) (s : σ) : σ := c.setPoints ((c.points s).eraseIdx i) s

def find : Option ℕ := (c.points s).findIdx? (q.answer s)

/-- The member is off, by its `disable` or from before, and the others are as they were. -/
structure SwitchedOff (i : ℕ) (s s' : σ) : Prop where
  called : c.disable i s = .ok () s' ∨ s' = s
  states : c.states s' = (c.states s).set i false
  same : c.identities s' = c.identities s

/-- The first member with the property is switched off and erased, and without one an error
is raised and nothing changes. -/
structure Removes (r : EStateM Failure σ Unit) : Prop where
  absent : c.find q s = none → ∃ what, r s = .error (.raised what) s
  present : ∀ i, c.find q s = some i →
    ∃ s', c.SwitchedOff i s s' ∧ r s = .ok () (c.erased i s')

variable {c q s} {i : ℕ} {s' : σ}

theorem Removes.identities {r : EStateM Failure σ Unit} (h : c.Removes q s r)
    (hi : c.find q s = some i) :
    ∃ s', r s = .ok () s' ∧ c.identities s' = (c.identities s).eraseIdx i := by
  obtain ⟨s₁, hoff, hr⟩ := h.present i hi
  refine ⟨_, hr, ?_⟩
  rw [← hoff.same]
  unfold Collection.identities erased
  simp only [c.points_setPoints, List.eraseIdx_eq_take_drop_succ, List.map_append, List.map_take,
    List.map_drop]

theorem SwitchedOff.refl (hoff : (c.states s)[i]? = some false) : c.SwitchedOff i s s where
  called := .inr rfl
  states := by
    obtain ⟨hi, hvalue⟩ := List.getElem?_eq_some_iff.mp hoff
    rw [← hvalue, List.set_getElem_self]
  same := rfl

theorem SwitchedOff.off (h : c.SwitchedOff i s s) (hi : i < (c.points s).length) :
    (c.states s)[i]? = some false := by
  rw [h.states, List.getElem?_set_self]
  rwa [Collection.states, List.length_map]

end Collection
end KDebugger
