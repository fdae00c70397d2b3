import Mathlib.Data.Option.Basic
import Mathlib.Tactic.Common

namespace KDebugger.Schedules

variable {σ ι : Type} {step : ι → σ → Option σ}

def follow (step : ι → σ → Option σ) (s : σ) : List ι → Option σ
  | [] => some s
  | i :: schedule => (step i s).bind fun s' => follow step s' schedule

theorem follow_invariant {I : σ → Prop} (hstep : ∀ i s s', I s → step i s = some s' → I s')
    {schedule : List ι} {s s' : σ} (hs : I s) (h : follow step s schedule = some s') : I s' := by
  induction schedule generalizing s with
  | nil =>
    cases h
    exact hs
  | cons i schedule ih =>
    obtain ⟨mid, hmid, hrest⟩ := Option.bind_eq_some_iff.mp h
    exact ih (hstep i s mid hs hmid) hrest

theorem length_le_rank {rank : σ → ℕ} (hrank : ∀ i s s', step i s = some s' → rank s' < rank s)
    {schedule : List ι} {s s' : σ} (h : follow step s schedule = some s') :
    schedule.length + rank s' ≤ rank s := by
  induction schedule generalizing s with
  | nil =>
    cases h
    simp
  | cons i schedule ih =>
    obtain ⟨mid, hmid, hrest⟩ := Option.bind_eq_some_iff.mp h
    have hlower := hrank i s mid hmid
    have := ih hrest
    rw [List.length_cons]
    omega

/-- When some move is always possible before the end, and moves lower a rank, a schedule
reaches the end. -/
theorem exists_schedule_to {rank : σ → ℕ} {Done : σ → Prop}
    (hrank : ∀ i s s', step i s = some s' → rank s' < rank s) {s : σ}
    (hmoves : ∀ schedule s', follow step s schedule = some s' → ¬ Done s' →
      ∃ i s'', step i s' = some s'') :
    ∃ schedule s', follow step s schedule = some s' ∧ Done s' := by
  -- by induction on the rank, which every move makes smaller
  induction hn : rank s using Nat.strongRecOn generalizing s with
  | ind n ih =>
    by_cases hdone : Done s
    · exact ⟨[], s, rfl, hdone⟩
    obtain ⟨i, mid, hmid⟩ := hmoves [] s rfl hdone
    have hrest : ∀ schedule s', follow step mid schedule = some s' →
        follow step s (i :: schedule) = some s' := by
      intro schedule s' h
      simp [follow, hmid, h]
    obtain ⟨schedule, s', hfollow, hend⟩ := ih (rank mid) (hn ▸ hrank i s mid hmid)
      (fun schedule s' h => hmoves (i :: schedule) s' (hrest schedule s' h)) rfl
    exact ⟨i :: schedule, s', hrest schedule s' hfollow, hend⟩

end KDebugger.Schedules
