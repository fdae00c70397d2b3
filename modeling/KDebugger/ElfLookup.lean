import KDebugger.Elf

namespace KDebugger

def shfAlloc : BitVec 64 := 2#64

namespace Section

/-- The section takes part in the memory of the process. -/
def Allocated (x : Section) : Prop := x.flags &&& shfAlloc ≠ 0#64

instance (x : Section) : Decidable x.Allocated := inferInstanceAs (Decidable (_ ≠ _))

/-- From the bias and the address of the section to where it ends. -/
def Around (x : Section) (bias v : VirtAddr) : Prop :=
  bias + x.addr ≤ v ∧ v < bias + x.addr + x.size

instance (x : Section) (bias v : VirtAddr) : Decidable (x.Around bias v) :=
  inferInstanceAs (Decidable (_ ∧ _))

end Section

namespace LoadedElf

/-- An allocated section of the file contains the address. -/
def Has (e : LoadedElf) (v : VirtAddr) : Prop :=
  ∃ x ∈ e.sectionHeaders, x.Allocated ∧ x.Around e.loadBias v

/-- Some section header of the file has the address in its range. -/
def Reaches (e : LoadedElf) (v : VirtAddr) : Prop := ∃ x ∈ e.sectionHeaders, x.Around e.loadBias v

theorem Has.reaches {e : LoadedElf} {v : VirtAddr} (h : e.Has v) : e.Reaches v := by
  obtain ⟨x, hx, -, haround⟩ := h
  exact ⟨x, hx, haround⟩

theorem isSome_sectionContainingVirt {e : LoadedElf} {v : VirtAddr} :
    (e.sectionContainingVirt v).isSome = true ↔ e.Reaches v := by
  simp [sectionContainingVirt, List.find?_isSome, Reaches, Section.Around]

def toFileAddr (e : LoadedElf) (id : ElfId) (v : VirtAddr) : FileAddr :=
  if (e.sectionContainingVirt v).isSome then { elf := some id, addr := v - e.loadBias } else {}

end LoadedElf

namespace Elves

variable {elves : Elves} {v : VirtAddr} {id : ElfId} {e : LoadedElf}

theorem elfContaining_eq_some : elves.elfContaining v = some id ↔
    (∃ e : LoadedElf, elves[id]? = some e ∧ e.Reaches v) ∧
      ∀ j < id, ∀ e : LoadedElf, elves[j]? = some e → ¬ e.Reaches v := by
  unfold elfContaining
  rw [List.findIdx?_eq_some_iff_getElem]
  simp only [LoadedElf.isSome_sectionContainingVirt]
  constructor
  · rintro ⟨hlt, hreach, hbefore⟩
    refine ⟨⟨_, List.getElem?_eq_getElem hlt, hreach⟩, fun j hj e he => ?_⟩
    obtain ⟨_, rfl⟩ := List.getElem?_eq_some_iff.mp he
    exact hbefore j hj
  · rintro ⟨⟨e, he, hreach⟩, hbefore⟩
    obtain ⟨hlt, rfl⟩ := List.getElem?_eq_some_iff.mp he
    exact ⟨hlt, hreach, fun j hj => hbefore j hj _ (List.getElem?_eq_getElem (by omega))⟩

theorem elfContaining_eq_none :
    elves.elfContaining v = none ↔
      ∀ (j : ElfId) (e : LoadedElf), elves[j]? = some e → ¬ e.Reaches v := by
  unfold elfContaining
  rw [List.findIdx?_eq_none_iff]
  constructor
  · intro h j e he hreach
    have hfalse := h e (List.mem_of_getElem? he)
    rw [← Bool.not_eq_true, LoadedElf.isSome_sectionContainingVirt] at hfalse
    exact hfalse hreach
  · intro h e he
    obtain ⟨j, hj⟩ := List.mem_iff_getElem?.mp he
    rw [← Bool.not_eq_true, LoadedElf.isSome_sectionContainingVirt]
    exact h j e hj

theorem toFileAddr_of_some (h : elves.elfContaining v = some id) (he : elves[id]? = some e) :
    elves.toFileAddr v = { elf := some id, addr := v - e.loadBias } := by
  simp only [toFileAddr, h, he]

theorem toFileAddr_of_none (h : elves.elfContaining v = none) : elves.toFileAddr v = {} := by
  simp only [toFileAddr, h]

def Disjoint (elves : Elves) : Prop :=
  ∀ (i j : ElfId) (e e' : LoadedElf), elves[i]? = some e → elves[j]? = some e' →
    ∀ v, e.Has v → e'.Has v → i = j

/-- The file with an allocated section around the address is found, and the address in it;
without one there is no file and the null address. -/
def LookupRight (elves : Elves) (v : VirtAddr) : Prop :=
  (∀ (i : ElfId) (e : LoadedElf), elves[i]? = some e → e.Has v → elves.elfContaining v = some i ∧
    elves.toFileAddr v = { elf := some i, addr := v - e.loadBias }) ∧
  ((∀ (i : ElfId) (e : LoadedElf), elves[i]? = some e → ¬ e.Has v) →
    elves.elfContaining v = none ∧ elves.toFileAddr v = {})

/-- An address in the range of a section header that is not allocated lies in an allocated
section of the same file or of one before it. -/
def Covered (elves : Elves) : Prop :=
  ∀ (j : ElfId) (e : LoadedElf), elves[j]? = some e → ∀ x ∈ e.sectionHeaders, ¬ x.Allocated →
    ∀ v, x.Around e.loadBias v → ∃ i ≤ j, ∃ e' : LoadedElf, elves[i]? = some e' ∧ e'.Has v

theorem Covered.has (h : elves.Covered) {j : ElfId} (he : elves[j]? = some e) (hreach : e.Reaches v) :
    ∃ i ≤ j, ∃ e' : LoadedElf, elves[i]? = some e' ∧ e'.Has v := by
  obtain ⟨x, hx, haround⟩ := hreach
  by_cases halloc : x.Allocated
  · exact ⟨j, le_rfl, e, he, x, hx, halloc, haround⟩
  · exact h j e he x hx halloc v haround

theorem Covered.lookupRight (h : elves.Covered) (hdisjoint : elves.Disjoint) (v : VirtAddr) :
    elves.LookupRight v := by
  constructor
  · intro i e he hhas
    have hfind : elves.elfContaining v = some i := by
      refine elfContaining_eq_some.mpr ⟨⟨e, he, hhas.reaches⟩, fun j hj e' he' hreach => ?_⟩
      obtain ⟨k, hk, e'', he'', hhas'⟩ := h.has he' hreach
      have hsame := hdisjoint i k e e'' he he'' v hhas hhas'
      exact absurd hsame (Nat.ne_of_gt (lt_of_le_of_lt hk hj))
    exact ⟨hfind, toFileAddr_of_some hfind he⟩
  · intro hnone
    have hfind : elves.elfContaining v = none := by
      refine elfContaining_eq_none.mpr fun j e he hreach => ?_
      obtain ⟨i, -, e', he', hhas⟩ := h.has he hreach
      exact hnone i e' he' hhas
    exact ⟨hfind, toFileAddr_of_none hfind⟩

theorem covered_of_lookupRight (h : ∀ v, elves.LookupRight v) : elves.Covered := by
  intro j e he x hx _ v haround
  by_contra hno
  push Not at hno
  obtain ⟨hsome, hnone⟩ := h v
  by_cases hhas : ∃ (i : ElfId) (e' : LoadedElf), elves[i]? = some e' ∧ e'.Has v
  · obtain ⟨i, e', he', hhas⟩ := hhas
    -- the scan stops at `j` or before, and the file that has the address comes later
    have hlt : j < i := Nat.lt_of_not_le fun hge => hno i hge e' he' hhas
    obtain ⟨-, hbefore⟩ := elfContaining_eq_some.mp (hsome i e' he' hhas).1
    exact hbefore j hlt e he ⟨x, hx, haround⟩
  · push Not at hhas
    exact elfContaining_eq_none.mp (hnone hhas).1 j e he ⟨x, hx, haround⟩

/-- With disjoint allocated sections the file at an address is found, for every address, if
and only if no other section header takes an address first. -/
theorem lookupRight_iff (hdisjoint : elves.Disjoint) :
    (∀ v, elves.LookupRight v) ↔ elves.Covered :=
  ⟨covered_of_lookupRight, fun h v => h.lookupRight hdisjoint v⟩

def programAndLibrary : Elves := [
  { loadBias := 0#64
    sectionHeaders := [{ addr := 0x9000#64, size := 0x1000#64, flags := 6#64 },
      { addr := 0#64, size := 0x2000#64 }] },
  { loadBias := 0x1000#64
    sectionHeaders := [{ addr := 0x100#64, size := 0x100#64, flags := 6#64 }] }]

theorem programAndLibrary_disjoint : programAndLibrary.Disjoint := by
  have hprogram : ∀ e : LoadedElf, programAndLibrary[0]? = some e → ∀ v, e.Has v →
      0x9000#64 ≤ v := by
    rintro e he v ⟨x, hx, halloc, haround⟩
    cases he
    simp only [List.mem_cons, List.not_mem_nil, or_false] at hx
    obtain rfl | rfl := hx
    · exact haround.1
    · exact absurd halloc (by decide)
  have hlibrary : ∀ e : LoadedElf, programAndLibrary[1]? = some e → ∀ v, e.Has v →
      v < 0x1200#64 := by
    rintro e he v ⟨x, hx, -, haround⟩
    cases he
    obtain rfl := List.mem_singleton.mp hx
    exact haround.2
  have hapart {v : VirtAddr} (h : 0x9000#64 ≤ v) (h' : v < 0x1200#64) : False := by bv_omega
  intro i j e e' he he' v hhas hhas'
  have hi : i < 2 := (List.getElem?_eq_some_iff.mp he).1
  have hj : j < 2 := (List.getElem?_eq_some_iff.mp he').1
  match i, j, hi, hj with
  | 0, 0, _, _ => rfl
  | 1, 1, _, _ => rfl
  | 0, 1, _, _ => exact (hapart (hprogram e he v hhas) (hlibrary e' he' v hhas')).elim
  | 1, 0, _, _ => exact (hapart (hprogram e' he' v hhas') (hlibrary e he v hhas)).elim

theorem lookupRight_iff_programAndLibrary :
    (∀ v, programAndLibrary.LookupRight v) ↔ programAndLibrary.Covered :=
  lookupRight_iff programAndLibrary_disjoint

theorem lookupRight_not_for_all : ¬ ∀ elves : Elves, elves.Disjoint → ∀ v, elves.LookupRight v := by
  intro h
  obtain ⟨hsome, -⟩ := h programAndLibrary programAndLibrary_disjoint 0x1100#64
  have hlibrary := hsome 1 _ rfl ⟨_, List.mem_singleton_self _, by decide, by decide⟩
  exact absurd hlibrary.1 (by decide)

end Elves
end KDebugger
