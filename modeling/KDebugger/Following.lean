import KDebugger.Chains
import KDebugger.Computation

namespace KDebugger

open Relation

variable {α β : Type}

/-- An exception, after which the program goes on. -/
def Failure.Thrown : Failure → Prop
  | .raised _ => True
  | .outOfRange => True
  | _ => False

def Conclusive : Except Failure β → Prop
  | .ok _ => True
  | .error e => e.Thrown

def chase (step : α → Except Failure (β ⊕ α)) : ℕ → α → Except Failure β
  -- the number is how deep the stack may get
  | 0, _ => .error .exhausted
  | depth + 1, a =>
    match step a with
    | .error e => .error e
    | .ok (.inl b) => .ok b
    | .ok (.inr a') => chase step depth a'

/-- A step that leads on. -/
def LeadsTo (step : α → Except Failure (β ⊕ α)) (a a' : α) : Prop := step a = .ok (.inr a')

/-- With stack enough, there is a value or an exception. -/
def Settles (f : ℕ → Except Failure β) : Prop := ∃ r, Conclusive r ∧ ∃ N, ∀ n ≥ N, f n = r

variable {step : α → Except Failure (β ⊕ α)} {a a' : α}

theorem chase_of_leadsTo (h : LeadsTo step a a') (n : ℕ) :
    chase step (n + 1) a = chase step n a' := by
  rw [chase, h]

theorem settles_of_leadsTo (h : LeadsTo step a a') (hsettles : Settles (chase step · a')) :
    Settles (chase step · a) := by
  obtain ⟨r, hr, N, hN⟩ := hsettles
  refine ⟨r, hr, N + 1, fun n hn => ?_⟩
  obtain ⟨n, rfl⟩ : ∃ k, n = k + 1 := ⟨n - 1, by omega⟩
  exact (chase_of_leadsTo h n).trans (hN n (by omega))

theorem Ending.settles (h : Ending (LeadsTo step) a) :
    (∀ x, ReflTransGen (LeadsTo step) a x → Conclusive (step x)) → Settles (chase step · a) := by
  induction h with
  | intro a _ ih =>
    intro hall
    have hdone := hall a .refl
    have hlast {r : Except Failure β} (hr : ∀ n, chase step (n + 1) a = r) :
        ∀ n ≥ 1, chase step n a = r := by
      intro n hn
      obtain ⟨n, rfl⟩ : ∃ k, n = k + 1 := ⟨n - 1, by omega⟩
      exact hr n
    cases hstep : step a with
    | error e =>
      rw [hstep] at hdone
      exact ⟨.error e, hdone, 1, hlast fun n => by rw [chase, hstep]⟩
    | ok r =>
      cases r with
      | inl b => exact ⟨.ok b, trivial, 1, hlast fun n => by rw [chase, hstep]⟩
      | inr a' =>
        exact settles_of_leadsTo hstep (ih a' hstep fun x hx => hall x (.head hstep hx))

theorem ending_of_conclusive : ∀ {n : ℕ} {a : α}, Conclusive (chase step n a) →
    Ending (LeadsTo step) a ∧ ∀ x, ReflTransGen (LeadsTo step) a x → Conclusive (step x) := by
  intro n
  induction n with
  | zero => exact fun h => h.elim
  | succ n ih =>
    intro a h
    -- a step that does not lead on is the only one
    have hlast (hno : ∀ a', ¬ LeadsTo step a a') (hdone : Conclusive (step a)) :
        Ending (LeadsTo step) a ∧ ∀ x, ReflTransGen (LeadsTo step) a x → Conclusive (step x) := by
      refine ⟨⟨a, fun a' ha' => absurd ha' (hno a')⟩, fun x hx => ?_⟩
      obtain rfl | ⟨a', ha', -⟩ := hx.cases_head
      · exact hdone
      · exact absurd ha' (hno a')
    rw [chase] at h
    cases hstep : step a with
    | error e =>
      rw [hstep] at h
      refine hlast (fun a' ha' => ?_) ?_
      · cases hstep.symm.trans ha'
      · rw [hstep]
        exact h
    | ok r =>
      rw [hstep] at h
      cases r with
      | inl b =>
        refine hlast (fun a' ha' => ?_) ?_
        · cases hstep.symm.trans ha'
        · rw [hstep]
          trivial
      | inr a' =>
        obtain ⟨hending, hall⟩ := ih h
        have honly {a'' : α} (ha'' : LeadsTo step a a'') : a'' = a' :=
          Sum.inr.inj (Except.ok.inj (ha''.symm.trans hstep))
        refine ⟨⟨a, fun a'' ha'' => honly ha'' ▸ hending⟩, fun x hx => ?_⟩
        obtain rfl | ⟨a'', ha'', hrest⟩ := hx.cases_head
        · rw [hstep]
          trivial
        · exact hall x (honly ha'' ▸ hrest)

theorem settles_iff : Settles (chase step · a) ↔
    Ending (LeadsTo step) a ∧ ∀ x, ReflTransGen (LeadsTo step) a x → Conclusive (step x) := by
  constructor
  · rintro ⟨r, hr, N, hN⟩
    rw [← hN N le_rfl] at hr
    exact ending_of_conclusive hr
  · exact fun h => h.1.settles h.2

theorem chase_mono : ∀ {n : ℕ} {a : α}, Conclusive (chase step n a) → ∀ k ≥ n,
    chase step k a = chase step n a := by
  intro n
  induction n with
  | zero => exact fun h => h.elim
  | succ n ih =>
    intro a h k hk
    obtain ⟨k, rfl⟩ : ∃ j, k = j + 1 := ⟨k - 1, by omega⟩
    unfold chase at h ⊢
    cases hstep : step a with
    | error e => rfl
    | ok r =>
      rw [hstep] at h
      cases r with
      | inl b => rfl
      | inr a' => exact ih h k (by omega)

theorem chase_unique {m n : ℕ} (hm : Conclusive (chase step m a)) (hn : Conclusive (chase step n a)) :
    chase step m a = chase step n a := by
  obtain hle | hle := Nat.le_total m n
  · exact (chase_mono hm n hle).symm
  · exact chase_mono hn m hle

/-- Of finitely many states that are reached, one comes twice unless the chain ends. -/
theorem ending_of_acyclic {R : α → α → Prop} (hfinite : {x | ReflTransGen R a x}.Finite)
    (h : ¬ ∃ x, ReflTransGen R a x ∧ TransGen R x x) : Ending R a := by
  have hkeys : (id '' {x | ReflTransGen R a x}).Finite := by rwa [Set.image_id]
  apply ending_of_finite hkeys
  rintro ⟨x, y, hx, hxy, hsame⟩
  obtain rfl : y = x := hsame
  exact h ⟨y, hx, hxy⟩

theorem ending_iff_acyclic {R : α → α → Prop} (hfinite : {x | ReflTransGen R a x}.Finite) :
    Ending R a ↔ ¬ ∃ x, ReflTransGen R a x ∧ TransGen R x x := by
  refine ⟨fun h => ?_, ending_of_acyclic hfinite⟩
  rintro ⟨x, hx, hcycle⟩
  have hkeyed : KeyedSteps R id := by
    rintro b b' c hstep rfl
    exact ⟨b', hstep, rfl⟩
  exact h.not_comesBack hkeyed ⟨x, x, hx, hcycle, rfl⟩

end KDebugger
