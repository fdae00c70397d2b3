import KDebugger.Paths
import KDebugger.SectionTable

namespace KDebugger

open ByteStream Exec

/-- `sizeof(Elf64_Sym)`. -/
def symbolSize : ℕ := 24

/-- The memory of `m_SymbolTable` after `resize` and `copy`.  With more than `capacity`
symbols `resize` raises. -/
def fillSymbols (img : Image) (capacity : ℕ) (symtab : SectionHeader) : Except Failure (List Byte) := do
  if symtab.entsize = 0#64 then .error .undefined
  else
    let count := symtab.size.toNat / symtab.entsize.toNat
    if capacity < count then .error (.raised "vector::_M_default_append")
    else if symbolSize * count < symtab.size.toNat then .error .undefined
    else do
      let bytes ← outcome (readBytes symtab.size.toNat) (dataAt img symtab.offset.toNat)
      pure (bytes ++ List.replicate (symbolSize * count - symtab.size.toNat) 0#8)

/-- The section `parse_symbol_table` takes the symbols from. -/
def symbolSection (headers : List SectionHeader) (m : SectionMap) : Option SectionHeader :=
  match getSection headers m (text ".symtab") with
  | some x => some x
  | none => getSection headers m (text ".dynsym")

def parseSymbolTable (img : Image) (capacity : ℕ) (headers : List SectionHeader) (m : SectionMap) :
    Except Failure (List Byte) :=
  match symbolSection headers m with
  | none => .ok []
  | some symtab => fillSymbols img capacity symtab

/-- The memory of a vector holds the whole symbols of the section, one after another. -/
structure HoldsSymbols (img : Image) (symtab : SectionHeader) (memory : List Byte) : Prop where
  count : memory.length = symbolSize * (symtab.size.toNat / symbolSize)
  consecutive : BytesAt img symtab.offset.toNat memory

/-- An error is raised, or the vector holds the symbols. -/
def Parsed (img : Image) (symtab : SectionHeader) (r : Except Failure (List Byte)) : Prop :=
  (∃ what, r = .error (.raised what)) ∨ ∃ memory, r = .ok memory ∧ HoldsSymbols img symtab memory

/-- The room that is made is that for the symbols in the section, which they fill, and all of
the section can be read. -/
structure Fits (img : Image) (symtab : SectionHeader) : Prop where
  whole : symbolSize ∣ symtab.size.toNat
  room : symtab.size.toNat / symtab.entsize.toNat = symtab.size.toNat / symbolSize
  readable : ∃ bs : List Byte, bs.length = symtab.size.toNat ∧ BytesAt img symtab.offset.toNat bs

variable {img : Image} {capacity : ℕ} {symtab : SectionHeader}

theorem not_parsed_undefined : ¬ Parsed img symtab (.error .undefined) := by
  rintro (⟨what, h⟩ | ⟨memory, h, -⟩)
  · cases h
  · cases h

theorem copied_iff {n : ℕ} {bs : List Byte} {p : ℕ} :
    outcome (readBytes n) (dataAt img p) = .ok bs ↔ bs.length = n ∧ BytesAt img p bs := by
  unfold outcome
  constructor
  · intro h
    cases hread : readBytes n (dataAt img p) with
    | error e c =>
      rw [hread] at h
      cases h
    | ok bs' c =>
      rw [hread] at h
      cases h
      obtain ⟨hlength, hat, -⟩ := readBytes_ok hread
      exact ⟨hlength, hat⟩
  · rintro ⟨rfl, hat⟩
    rw [readBytes_at (c := dataAt img p) hat]

theorem not_copied {n p : ℕ} (h : ∀ bs : List Byte, ¬ (bs.length = n ∧ BytesAt img p bs)) :
    outcome (readBytes n) (dataAt img p) = .error .undefined := by
  cases hread : readBytes n (dataAt img p) with
  | error e c =>
    obtain rfl := onlyUndefined_readBytes n _ _ _ hread
    unfold outcome
    rw [hread]
  | ok bs c =>
    obtain ⟨hlength, hat, -⟩ := readBytes_ok hread
    exact absurd ⟨hlength, hat⟩ (h bs)

theorem parsed_fillSymbols_iff (hentsize : symtab.entsize ≠ 0#64)
    (hroom : ¬ capacity < symtab.size.toNat / symtab.entsize.toNat) :
    Parsed img symtab (fillSymbols img capacity symtab) ↔ Fits img symtab := by
  have hdiv := Nat.mul_div_le symtab.size.toNat symbolSize
  unfold fillSymbols
  rw [if_neg hentsize]
  dsimp only
  rw [if_neg hroom]
  split_ifs with hover
  · refine iff_of_false not_parsed_undefined fun h => ?_
    have hsize := Nat.div_mul_cancel h.whole
    rw [h.room, Nat.mul_comm] at hover
    omega
  · constructor
    · rintro (⟨what, h⟩ | ⟨memory, h, hholds⟩)
      · cases hcopy : outcome (readBytes symtab.size.toNat) (dataAt img symtab.offset.toNat) with
        | ok bs =>
          rw [hcopy] at h
          cases h
        | error e =>
          by_cases hbytes : ∃ bs : List Byte, bs.length = symtab.size.toNat ∧
              BytesAt img symtab.offset.toNat bs
          · obtain ⟨bs, hbs⟩ := hbytes
            cases hcopy.symm.trans (copied_iff.mpr hbs)
          · rw [not_copied (not_exists.mp hbytes)] at h
            cases h
      · cases hcopy : outcome (readBytes symtab.size.toNat) (dataAt img symtab.offset.toNat) with
        | error e =>
          rw [hcopy] at h
          cases h
        | ok bs =>
          rw [hcopy] at h
          obtain rfl := Except.ok.inj h
          have hbs := copied_iff.mp hcopy
          have hcount := hholds.count
          rw [List.length_append, List.length_replicate, hbs.1] at hcount
          -- what is copied fits into the symbols, and they into what is copied
          have hsize : symtab.size.toNat = symbolSize * (symtab.size.toNat / symbolSize) := by omega
          refine ⟨⟨_, hsize⟩, ?_, bs, hbs⟩
          have hsame : symbolSize * (symtab.size.toNat / symtab.entsize.toNat) =
              symbolSize * (symtab.size.toNat / symbolSize) := by omega
          exact Nat.eq_of_mul_eq_mul_left (by decide) hsame
    · intro h
      obtain ⟨bs, hbs⟩ := h.readable
      have hsize : symbolSize * (symtab.size.toNat / symtab.entsize.toNat) = symtab.size.toNat := by
        rw [h.room]
        exact Nat.mul_div_cancel' h.whole
      right
      refine ⟨bs, ?_, ?_, hbs.2⟩
      · rw [copied_iff.mpr hbs, hsize, Nat.sub_self, List.replicate_zero]
        exact congrArg Except.ok (List.append_nil bs)
      · rw [hbs.1]
        exact (Nat.mul_div_cancel' h.whole).symm

theorem parseSymbolTable_iff (img : Image) (capacity : ℕ) (headers : List SectionHeader)
    (m : SectionMap) (symtab : SectionHeader) (h : symbolSection headers m = some symtab) :
    Parsed img symtab (parseSymbolTable img capacity headers m) ↔ symtab.entsize ≠ 0#64 ∧
      (capacity < symtab.size.toNat / symtab.entsize.toNat ∨ Fits img symtab) := by
  unfold parseSymbolTable
  rw [h]
  dsimp only
  by_cases hentsize : symtab.entsize = 0#64
  · refine iff_of_false ?_ fun h => h.1 hentsize
    unfold fillSymbols
    rw [if_pos hentsize]
    exact not_parsed_undefined
  rw [and_iff_right hentsize]
  by_cases hroom : capacity < symtab.size.toNat / symtab.entsize.toNat
  · refine iff_of_true (.inl ⟨"vector::_M_default_append", ?_⟩) (.inl hroom)
    unfold fillSymbols
    rw [if_neg hentsize]
    exact if_pos hroom
  · rw [or_iff_right hroom]
    exact parsed_fillSymbols_iff hentsize hroom

def symbolFile : Image :=
  .ofList (List.replicate 8 0#8 ++ (List.replicate 24 1#8 ++ List.replicate 24 2#8))

def twoSymbols : SectionHeader :=
  ⟨0#32, 2#32, 0#64, 0#64, 8#64, 48#64, 0#32, 0#32, 8#64, 24#64⟩

def onlySymtab : SectionMap := fun name => if name = text ".symtab" then some 0 else none

theorem fits_twoSymbols : Fits symbolFile twoSymbols where
  whole := ⟨2, rfl⟩
  room := rfl
  readable := ⟨List.replicate 24 1#8 ++ List.replicate 24 2#8, rfl, bytesAt_ofList (by decide)⟩

theorem parseSymbolTable_iff_two :
    Parsed symbolFile twoSymbols (parseSymbolTable symbolFile 1000 [twoSymbols] onlySymtab) :=
  (parseSymbolTable_iff symbolFile 1000 [twoSymbols] onlySymtab twoSymbols (by decide)).mpr
    ⟨by decide, .inr fits_twoSymbols⟩

def unsized : SectionHeader :=
  ⟨0#32, 11#32, 0#64, 0#64, 0#64, 24#64, 0#32, 0#32, 8#64, 0#64⟩

def onlyDynsym : SectionMap := fun name => if name = text ".dynsym" then some 0 else none

theorem symbolSection_unsized : symbolSection [unsized] onlyDynsym = some unsized := by decide

theorem parseSymbolTable_not_for_all : ¬ ∀ (img : Image) (capacity : ℕ)
    (headers : List SectionHeader) (m : SectionMap) (symtab : SectionHeader),
    symbolSection headers m = some symtab →
      Parsed img symtab (parseSymbolTable img capacity headers m) := by
  intro h
  have hparsed := h (Image.ofList (List.replicate 64 0#8)) 1000 [unsized] onlyDynsym unsized symbolSection_unsized
  have hends : parseSymbolTable (Image.ofList (List.replicate 64 0#8)) 1000 [unsized] onlyDynsym = .error .undefined := by
    unfold parseSymbolTable
    rw [symbolSection_unsized]
    rfl
  rw [hends] at hparsed
  exact not_parsed_undefined hparsed

end KDebugger
