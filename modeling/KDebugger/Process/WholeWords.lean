import KDebugger.Process.MemoryWrites

namespace KDebugger.Process

open Exec Memory

variable {s s' : Process} {a : VirtAddr} {data : List Byte}

/-- A write that returns has put its data into memory and left every other byte, what is
mapped, and the rest of the process as they were. -/
theorem writeMemory_replaces (hlen : data.length < 2 ^ 64)
    (h : writeMemory a data s = .ok () s') :
    (∀ i (hi : i < data.length), s'.memory.byte (plus a i) = data[i]) ∧
      (∀ x, (∀ i < data.length, x ≠ plus a i) → s'.memory.byte x = s.memory.byte x) ∧
      s' = { s with memory := { s.memory with byte := s'.memory.byte } } := by
  obtain ⟨-, rfl⟩ := writeWords_ok le_rfl (Nat.le_of_lt hlen) h
  refine ⟨fun i hi => overlay_byte_plus _ _ hi (Nat.le_of_lt hlen), fun x hx => ?_, rfl⟩
  apply overlay_byte_of_le
  by_contra hin
  exact hx (x - a).toNat (by omega) (plus_sub x a).symm

theorem writeMemory_replaces_eleven :
    ∃ s', writeMemory 0x1003#64 (List.replicate 11 7#8) untouched = .ok () s' ∧
      (∀ i (hi : i < (List.replicate 11 7#8).length),
        s'.memory.byte (plus 0x1003#64 i) = (List.replicate 11 7#8)[i]) ∧
      (∀ x, (∀ i < (List.replicate 11 7#8).length, x ≠ plus 0x1003#64 i) →
        s'.memory.byte x = untouched.memory.byte x) ∧
      s' = { untouched with memory := { untouched.memory with byte := s'.memory.byte } } :=
  ⟨_, rfl, writeMemory_replaces (by decide) rfl⟩

def slack (n : ℕ) : ℕ := (8 - n % 8) % 8

theorem wordToWrite_eq (hm : s.memory.isMapped a 8 = true) : ∃ w, wordToWrite a data s = .ok w s := by
  unfold wordToWrite
  split_ifs with hlen
  · exact ⟨_, rfl⟩
  · rw [bind_ok (readMemory_eq hm)]
    exact ⟨_, rfl⟩

theorem writeWords_returns_iff {fuel : ℕ} (hfuel : data.length ≤ fuel) :
    (∃ s', writeWords fuel a data s = .ok () s') ↔
      s.memory.isMapped a (data.length + slack data.length) = true := by
  -- by induction on the words, all of which are poked whole
  induction fuel generalizing a data s with
  | zero =>
    obtain rfl : data = [] := List.length_eq_zero_iff.mp (by omega)
    exact iff_of_true ⟨s, rfl⟩ rfl
  | succ fuel ih =>
    unfold writeWords
    by_cases hnil : data = []
    · subst hnil
      exact iff_of_true ⟨s, rfl⟩ rfl
    rw [if_neg hnil]
    have hpos : 0 < data.length := List.length_pos_iff.mpr hnil
    have hwords : data.length + slack data.length =
        8 + ((data.drop 8).length + slack (data.drop 8).length) := by
      rw [List.length_drop]
      unfold slack
      omega
    rw [hwords, isMapped_add, Bool.and_eq_true]
    have hshort : (data.drop 8).length ≤ fuel := by
      rw [List.length_drop]
      omega
    have hrest := fun w => ih (s := { s with memory := s.memory.store a w }) (a := a + 8#64) hshort
    constructor
    · rintro ⟨s', h⟩
      obtain ⟨w, s₁, hword, h₁⟩ := bind_eq_ok.mp h
      obtain rfl : s₁ = s := (within_wordToWrite a data).ok hword
      obtain ⟨_, s₂, hpoke, hloop⟩ := bind_eq_ok.mp h₁
      obtain ⟨hm, rfl⟩ := pokeData_ok hpoke
      exact ⟨hm, (hrest _).mp ⟨s', hloop⟩⟩
    · rintro ⟨hm, hlater⟩
      obtain ⟨w, hword⟩ : ∃ w, wordToWrite a data s = .ok w s := wordToWrite_eq hm
      obtain ⟨s', hloop⟩ := (hrest w).mpr hlater
      refine ⟨s', ?_⟩
      rw [bind_ok hword, bind_ok (pokeData_eq hm _ w)]
      exact hloop

/-- A write into memory that is mapped returns exactly when the rest of its last word is
mapped too. -/
theorem writeMemory_returns_iff (hm : s.memory.isMapped a data.length = true) :
    (∃ s', writeMemory a data s = .ok () s') ↔
      s.memory.isMapped (plus a data.length) (slack data.length) = true := by
  unfold writeMemory
  rw [writeWords_returns_iff le_rfl, isMapped_add, hm, Bool.true_and]

private def onePage : Process :=
  { untouched with
    memory := { untouched.memory with mapped := fun x => x.toNat / 0x1000 = 1 } }

theorem writeMemory_returns_iff_onePage :
    (∃ s', writeMemory 0x1ff8#64 (List.replicate 8 7#8) onePage = .ok () s') ↔
      onePage.memory.isMapped (plus 0x1ff8#64 (List.replicate 8 7#8).length)
        (slack (List.replicate 8 7#8).length) = true :=
  writeMemory_returns_iff (by decide)

/-- The last byte of a page cannot be written when nothing is mapped behind it. -/
theorem writeMemory_returns_not_for_all :
    ¬ ∀ (s : Process) (a : VirtAddr) (data : List Byte),
      s.memory.isMapped a data.length = true → ∃ s', writeMemory a data s = .ok () s' := by
  intro h
  have hwords := (writeWords_returns_iff le_rfl).mp (h onePage 0x1fff#64 [7#8] (by decide))
  exact absurd hwords (by decide)

end KDebugger.Process
