import Mathlib.Data.List.Basic
import Mathlib.Data.Nat.Basic

namespace KDebugger.Nesting

/-- What a step does to the stack. -/
inductive Mark where
  | save
  | take
  | plain
deriving DecidableEq, Repr

/-- No prefix takes more than it saved besides `d`, and in the end nothing of it is left. -/
def Balances : ℕ → List Mark → Prop
  | d, [] => d = 0
  | d, .save :: marks => Balances (d + 1) marks
  | 0, .take :: _ => False
  | d + 1, .take :: marks => Balances d marks
  | d, .plain :: marks => Balances d marks

instance : ∀ (d : ℕ) (marks : List Mark), Decidable (Balances d marks)
  | d, [] => inferInstanceAs (Decidable (d = 0))
  | d, .save :: marks => instDecidableBalances (d + 1) marks
  | 0, .take :: _ => inferInstanceAs (Decidable False)
  | d + 1, .take :: marks => instDecidableBalances d marks
  | 0, .plain :: marks => instDecidableBalances 0 marks
  | d + 1, .plain :: marks => instDecidableBalances (d + 1) marks

variable {τ : Type}

def Moves : Mark → List τ → List τ → Prop
  | .save, s, s' => ∃ x, s' = x :: s
  | .take, s, s' => ∃ x, s = x :: s'
  | .plain, s, s' => s' = s

inductive MovesAll : List Mark → List τ → List τ → Prop where
  | nil (s : List τ) : MovesAll [] s s
  | cons {m : Mark} {marks : List Mark} {s s' s'' : List τ} (h : Moves m s s')
      (rest : MovesAll marks s' s'') : MovesAll (m :: marks) s s''

theorem MovesAll.base {marks : List Mark} {s s' : List τ} (h : MovesAll marks s s') :
    ∀ {d : ℕ} {saved base : List τ}, Balances d marks → saved.length = d → s = saved ++ base →
      s' = base := by
  induction h with
  | nil s =>
    rintro d saved base rfl hlength rfl
    rw [List.length_eq_zero_iff.mp hlength, List.nil_append]
  | @cons m marks s s' s'' h rest ih =>
    rintro d saved base hbalances hlength rfl
    cases m with
    | save =>
      obtain ⟨x, rfl⟩ := h
      have hstack : x :: (saved ++ base) = (x :: saved) ++ base := rfl
      exact ih hbalances (by rw [List.length_cons, hlength]) hstack
    | take =>
      obtain ⟨x, hx⟩ := h
      -- with nothing saved the step would take from below
      cases saved with
      | nil =>
        subst hlength
        exact hbalances.elim
      | cons y saved =>
        subst hlength
        exact ih hbalances rfl (List.cons.inj hx).2.symm
    | plain =>
      subst h
      cases d <;> exact ih hbalances hlength rfl

end KDebugger.Nesting
