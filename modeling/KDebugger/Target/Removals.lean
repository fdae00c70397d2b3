import KDebugger.Collections
import KDebugger.Target.Commands
import KDebugger.Target.SwitchedBreakpoints

namespace KDebugger

open Exec StoppointCollection

namespace Process

variable {s s' : Process} {i : ℕ} {site : BreakpointSite} {point : Watchpoint}

def atAddress {T : Type} [Stoppoint T] (address : VirtAddr) : Question Process T :=
  .plain fun point => Stoppoint.address point == address

end Process

namespace Target

variable {t t' : Target} {i : ℕ} {b : Breakpoint}

theorem siteOf_member {object : ℕ} {site : BreakpointSite} (h : t.member object = some site) :
    siteOf object t = .ok site t := by
  obtain ⟨j, hj, hsite⟩ := Option.bind_eq_some_iff.mp h
  unfold siteOf
  rw [bind_ok (siteIndex_ok hj)]
  exact onProcess_ok (Process.siteAt_ok hsite)

theorem siteOf_lost {object : ℕ} (h : t.member object = none) :
    ∃ t', siteOf object t = .error .undefined t' := by
  unfold siteOf
  cases hj : t.siteObjects.idxOf? object with
  | none => exact ⟨_, bind_error (siteIndex_none hj)⟩
  | some j =>
    rw [member_of_index hj] at h
    rw [bind_ok (siteIndex_ok hj)]
    exact ⟨_, onProcess_error (Process.siteAt_error h)⟩

/-- What is asked of a site through its pointer. -/
def siteQuestion (p : BreakpointSite → Bool) : Question Target ℕ where
  ask object := do
    let site ← siteOf object
    pure (p site)
  answer t object := (t.member object).any p
  sound t object := (t.member object).isSome
  ask_ok t object h := by
    obtain ⟨site, hsite⟩ := Option.isSome_iff_exists.mp h
    rw [bind_ok (siteOf_member hsite), hsite]
    rfl
  ask_undefined t object h := by
    obtain ⟨t', hfail⟩ := siteOf_lost (by simpa using h)
    exact ⟨t', bind_error hfail⟩

/-- `contains_address` asks one site after another. -/
theorem containsAddress_search (a : VirtAddr) (t : Target) : ∀ objects,
    ((siteQuestion (·.address == a)).Reached t objects ∧ containsAddress a objects t =
      .ok (objects.any fun o => (t.member o).any (·.address == a)) t) ∨
    ¬ (siteQuestion (·.address == a)).Reached t objects ∧
      ∃ t', containsAddress a objects t = .error .undefined t' := by
  -- the pointers are followed until one of them has the address
  intro objects
  induction objects with
  | nil => exact .inl ⟨trivial, rfl⟩
  | cons o objects ih =>
    unfold containsAddress
    cases hsite : t.member o with
    | none =>
      obtain ⟨t', hfail⟩ := siteOf_lost hsite
      refine .inr ⟨fun hreached => ?_, t', bind_error hfail⟩
      have hsound : (t.member o).isSome := hreached.1
      rw [hsite] at hsound
      cases hsound
    | some site =>
      rw [bind_ok (siteOf_member hsite)]
      have hanswer : (siteQuestion (·.address == a)).answer t o = (site.address == a) := by
        change (t.member o).any _ = _
        rw [hsite]
        rfl
      have hsound : (siteQuestion (·.address == a)).sound t o :=
        Option.isSome_iff_exists.mpr ⟨site, hsite⟩
      by_cases ha : site.address = a
      · rw [if_pos ha]
        refine .inl ⟨⟨hsound, fun hno => ?_⟩, ?_⟩
        · rw [hanswer, ha] at hno
          simp at hno
        · simp [hsite, ha]
          rfl
      · rw [if_neg ha]
        have hno : (siteQuestion (·.address == a)).answer t o = false := by simp [hanswer, ha]
        obtain ⟨hreached, hrest⟩ | ⟨hlost, hrest⟩ := ih
        · refine .inl ⟨⟨hsound, fun _ => hreached⟩, ?_⟩
          simp [hrest, hsite, ha]
        · exact .inr ⟨fun hreached => hlost (hreached.2 hno), hrest⟩

end Target
end KDebugger
