import KDebugger.ElfLookup

namespace KDebugger

/-- The address in the file lies in the section. -/
def Section.Inside (x : Section) (a : BitVec 64) : Prop :=
  x.addr.toNat ≤ a.toNat ∧ a.toNat < x.addr.toNat + x.size.toNat

namespace LoadedElf

/-- No sum wraps, neither for the end of a section nor with the load bias. -/
def Unwrapped (e : LoadedElf) : Prop :=
  ∀ x ∈ e.sectionHeaders, (x.addr + x.size).toNat = x.addr.toNat + x.size.toNat ∧
    (e.loadBias + x.addr + x.size).toNat = e.loadBias.toNat + x.addr.toNat + x.size.toNat

variable {e : LoadedElf} {x : Section}

theorem Unwrapped.file_iff (h : e.Unwrapped) (hx : x ∈ e.sectionHeaders) (a : BitVec 64) :
    (x.addr ≤ a && a < x.addr + x.size) = true ↔ x.Inside a := by
  obtain ⟨hfile, -⟩ := h x hx
  rw [Bool.and_eq_true, decide_eq_true_eq, decide_eq_true_eq, BitVec.le_def, BitVec.lt_def, hfile]
  rfl

theorem Unwrapped.virt_iff (h : e.Unwrapped) (hx : x ∈ e.sectionHeaders) (a : BitVec 64) :
    x.Around e.loadBias (a + e.loadBias) ↔ x.Inside a := by
  obtain ⟨-, hmemory⟩ := h x hx
  have hend := (e.loadBias + x.addr + x.size).isLt
  have hstart : (e.loadBias + x.addr).toNat = e.loadBias.toNat + x.addr.toNat := by
    rw [BitVec.toNat_add, Nat.mod_eq_of_lt (by omega)]
  have ha := a.isLt
  unfold Section.Around Section.Inside
  rw [BitVec.le_def, BitVec.lt_def, hstart, hmemory, BitVec.toNat_add]
  constructor
  · rintro ⟨hle, hlt⟩
    -- a sum that wraps is below the bias
    have hsum : a.toNat + e.loadBias.toNat < 2 ^ 64 := by
      by_contra hwraps
      have hmod : (a.toNat + e.loadBias.toNat) % 2 ^ 64 =
          a.toNat + e.loadBias.toNat - 2 ^ 64 := by
        have hbias := e.loadBias.isLt
        omega
      omega
    rw [Nat.mod_eq_of_lt hsum] at hle hlt
    omega
  · rintro ⟨hle, hlt⟩
    rw [Nat.mod_eq_of_lt (by omega)]
    omega

theorem Unwrapped.reaches_iff (h : e.Unwrapped) (a : BitVec 64) :
    e.Reaches (a + e.loadBias) ↔ ∃ x ∈ e.sectionHeaders, x.Inside a :=
  exists_congr fun _ => and_congr_right fun hx => h.virt_iff hx a

theorem Unwrapped.isSome_sectionContaining (h : e.Unwrapped) (a : BitVec 64) :
    (e.sectionContaining a).isSome = true ↔ ∃ x ∈ e.sectionHeaders, x.Inside a := by
  unfold sectionContaining
  rw [List.find?_isSome]
  exact exists_congr fun _ => and_congr_right fun hx => h.file_iff hx a

end LoadedElf

namespace Elves

variable {elves : Elves} {id : ElfId} {e : LoadedElf}

theorem toVirtAddr_inside (he : elves[id]? = some e) (h : e.Unwrapped) {a : BitVec 64}
    (ha : ∃ x ∈ e.sectionHeaders, x.Inside a) :
    elves.toVirtAddr ⟨some id, a⟩ = .ok (a + e.loadBias) := by
  unfold toVirtAddr
  dsimp only
  rw [he]
  dsimp only
  rw [if_pos ((h.isSome_sectionContaining a).mpr ha)]

/-- From an address inside a section of the file to memory and back, and from one in memory
that has an address in the file to it and back. -/
theorem translation_inverse (he : elves[id]? = some e) (h : e.Unwrapped) :
    (∀ a, (∃ x ∈ e.sectionHeaders, x.Inside a) →
      ∃ v, elves.toVirtAddr ⟨some id, a⟩ = .ok v ∧ e.toFileAddr id v = ⟨some id, a⟩) ∧
    ∀ v, (e.toFileAddr id v).elf ≠ none → elves.toVirtAddr (e.toFileAddr id v) = .ok v := by
  -- the one lookup adds the load bias to the ends of a section and the other subtracts it from the
  -- address
  constructor
  · intro a ha
    refine ⟨a + e.loadBias, toVirtAddr_inside he h ha, ?_⟩
    have hreach := (h.reaches_iff a).mpr ha
    unfold LoadedElf.toFileAddr
    rw [if_pos (LoadedElf.isSome_sectionContainingVirt.mpr hreach), BitVec.add_sub_cancel]
  · intro v hv
    unfold LoadedElf.toFileAddr at hv ⊢
    split_ifs at hv ⊢ with hfound
    · have hback : v - e.loadBias + e.loadBias = v := BitVec.sub_add_cancel v e.loadBias
      have hreach := LoadedElf.isSome_sectionContainingVirt.mp hfound
      rw [← hback, h.reaches_iff] at hreach
      rw [toVirtAddr_inside he h hreach, hback]
    · exact absurd rfl hv

def moved : LoadedElf :=
  { loadBias := 0x555555554000#64, sectionHeaders := [{ addr := 0x1000#64, size := 0x100#64 }] }

theorem unwrapped_moved : moved.Unwrapped := by
  unfold LoadedElf.Unwrapped
  decide

theorem translation_inverse_moved :
    (∀ a, (∃ x ∈ moved.sectionHeaders, x.Inside a) →
      ∃ v, Elves.toVirtAddr [moved] ⟨some 0, a⟩ = .ok v ∧ moved.toFileAddr 0 v = ⟨some 0, a⟩) ∧
    ∀ v, (moved.toFileAddr 0 v).elf ≠ none →
      Elves.toVirtAddr [moved] (moved.toFileAddr 0 v) = .ok v :=
  translation_inverse rfl unwrapped_moved

end Elves
end KDebugger
