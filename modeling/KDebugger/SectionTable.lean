import KDebugger.Dwarf.CursorSpec
import KDebugger.Dwarf.CursorFormats
import Mathlib.Logic.Function.Basic

namespace KDebugger

open ByteStream Exec Dwarf.Cur

/-- `Elf64_Shdr`. -/
structure SectionHeader where
  name : BitVec 32
  type : BitVec 32
  flags : BitVec 64
  addr : BitVec 64
  offset : BitVec 64
  size : BitVec 64
  link : BitVec 32
  info : BitVec 32
  addralign : BitVec 64
  entsize : BitVec 64
deriving DecidableEq, Repr

/-- What is read of `Elf64_Ehdr`. -/
structure FileHeader where
  shoff : BitVec 64
  shentsize : BitVec 16
  shnum : BitVec 16
  shstrndx : BitVec 16
deriving DecidableEq, Repr

def SectionHeader.bytes (x : SectionHeader) : List Byte :=
  leBytes 4 x.name.toNat ++ (leBytes 4 x.type.toNat ++ (leBytes 8 x.flags.toNat ++
    (leBytes 8 x.addr.toNat ++ (leBytes 8 x.offset.toNat ++ (leBytes 8 x.size.toNat ++
      (leBytes 4 x.link.toNat ++ (leBytes 4 x.info.toNat ++ (leBytes 8 x.addralign.toNat ++
        leBytes 8 x.entsize.toNat))))))))

def sectionHeader : Reader SectionHeader := do
  let name ← fixedInt 4
  let type ← fixedInt 4
  let flags ← fixedInt 8
  let addr ← fixedInt 8
  let offset ← fixedInt 8
  let size ← fixedInt 8
  let link ← fixedInt 4
  let info ← fixedInt 4
  let addralign ← fixedInt 8
  let entsize ← fixedInt 8
  pure { name, type, flags, addr, offset, size, link, info, addralign, entsize }

def sectionHeaders : ℕ → Reader (List SectionHeader)
  | 0 => pure []
  | n + 1 => do
    let x ← sectionHeader
    let rest ← sectionHeaders n
    pure (x :: rest)

/-- `m_Data + p`. -/
def dataAt (img : Image) (p : ℕ) : Cursor := ⟨img, p, img.size⟩

def parseSectionHeaders (img : Image) (header : FileHeader) : Except Failure (List SectionHeader) := do
  -- the first header is read for its `sh_size`, which goes nowhere
  if header.shnum = 0#16 ∧ header.shentsize ≠ 0#16 then
    let _ ← outcome sectionHeader (dataAt img header.shoff.toNat)
  outcome (sectionHeaders header.shnum.toNat) (dataAt img header.shoff.toNat)

def getSectionName (img : Image) (header : FileHeader) (headers : List SectionHeader)
    (index : BitVec 32) : Except Failure (List Byte) :=
  match headers[header.shstrndx.toNat]? with
  | none => .error .undefined
  | some table =>
    match cString img (img.size + 1) (table.offset.toNat + index.toNat) with
    | none => .error .undefined
    | some s => .ok s

/-- `m_SectionMap`, from names to positions among the headers. -/
abbrev SectionMap := List Byte → Option ℕ

/-- The loop of `build_section_map`, from the header at `k` on. -/
def enterSections (name : SectionHeader → Except Failure (List Byte)) :
    ℕ → List SectionHeader → SectionMap → Except Failure SectionMap
  | _, [], m => .ok m
  | k, x :: rest, m => do
    let s ← name x
    enterSections name (k + 1) rest (Function.update m s (some k))

def buildSectionMap (img : Image) (header : FileHeader) (headers : List SectionHeader) :
    Except Failure SectionMap :=
  enterSections (fun x => getSectionName img header headers x.name) 0 headers fun _ => none

def getSection (headers : List SectionHeader) (m : SectionMap) (name : List Byte) :
    Option SectionHeader :=
  (m name).bind fun i => headers[i]?

def shnLoreserve : ℕ := 0xff00

def shnXindex : BitVec 16 := 0xffff#16

/-- The number of headers is in the file header, or from `SHN_LORESERVE` on in the first
section header. -/
def Numbered (header : FileHeader) (sections : List SectionHeader) : Prop :=
  (sections.length < shnLoreserve ∧ header.shnum.toNat = sections.length) ∨
    header.shnum = 0#16 ∧ shnLoreserve ≤ sections.length ∧
      sections.head?.map (·.size.toNat) = some sections.length

/-- The position of the section with the names, 0 for none. -/
def stringIndex (header : FileHeader) (sections : List SectionHeader) : ℕ :=
  if header.shstrndx = shnXindex then (sections.head?.map (·.link.toNat)).getD 0
  else header.shstrndx.toNat

/-- The section at a position has the name. -/
def NameAt (img : Image) (header : FileHeader) (sections : List SectionHeader) (i : ℕ)
    (s : List Byte) : Prop :=
  stringIndex header sections ≠ 0 ∧ ∃ table x, sections[stringIndex header sections]? = some table ∧
    sections[i]? = some x ∧ 0#8 ∉ s ∧
      BytesAt img (table.offset.toNat + x.name.toNat) (s ++ [0#8])

structure SectionedFile where
  image : Image
  header : FileHeader
  sections : List SectionHeader
  numbered : Numbered header sections
  /-- the file header is there -/
  started : ∃ bs : List Byte, bs.length = 64 ∧ BytesAt image 0 bs
  nowhere : sections = [] → header.shoff = 0#64
  placed : BytesAt image header.shoff.toNat (sections.flatMap SectionHeader.bytes)
  /-- the index that needs the first section header is one that does not fit -/
  reserved : header.shstrndx = shnXindex → shnLoreserve ≤ stringIndex header sections
  strings : stringIndex header sections = 0 ∨ stringIndex header sections < sections.length
  named : stringIndex header sections ≠ 0 → ∀ i < sections.length, ∃ s,
    NameAt image header sections i s

/-- The headers are loaded in order, and a section with a name of its own is found by it. -/
structure SectionedFile.Loads (F : SectionedFile) : Prop where
  headers : parseSectionHeaders F.image F.header = .ok F.sections
  found : ∀ i s, NameAt F.image F.header F.sections i s →
    (∀ j, NameAt F.image F.header F.sections j s → j = i) →
    ∃ m, buildSectionMap F.image F.header F.sections = .ok m ∧ m s = some i ∧
      getSection F.sections m s = F.sections[i]?

theorem SectionHeader.length_bytes (x : SectionHeader) : x.bytes.length = 64 := by
  simp [SectionHeader.bytes]

theorem reads_sectionHeader (x : SectionHeader) : Reads sectionHeader x.bytes x :=
  reads_bind (reads_fixedInt 4 x.name) <| reads_bind (reads_fixedInt 4 x.type) <|
    reads_bind (reads_fixedInt 8 x.flags) <| reads_bind (reads_fixedInt 8 x.addr) <|
    reads_bind (reads_fixedInt 8 x.offset) <| reads_bind (reads_fixedInt 8 x.size) <|
    reads_bind (reads_fixedInt 4 x.link) <| reads_bind (reads_fixedInt 4 x.info) <|
    reads_bind (reads_fixedInt 8 x.addralign) <| reads_map _ (reads_fixedInt 8 x.entsize)

theorem reads_sectionHeaders : ∀ l : List SectionHeader,
    Reads (sectionHeaders l.length) (l.flatMap SectionHeader.bytes) l := by
  intro l
  induction l with
  | nil => exact reads_pure []
  | cons x l ih =>
    rw [List.flatMap_cons]
    exact reads_bind (reads_sectionHeader x) (reads_map (x :: ·) ih)

theorem exists_header_of_length {bs : List Byte} (h : bs.length = 64) :
    ∃ x : SectionHeader, x.bytes = bs := by
  have hpart (k n : ℕ) (hkn : k + n ≤ 64) :
      leBytes n (fromBytes n ((bs.drop k).take n)).toNat = (bs.drop k).take n := by
    apply leBytes_fromBytes
    rw [List.length_take, List.length_drop, h]
    omega
  refine ⟨⟨fromBytes 4 ((bs.drop 0).take 4), fromBytes 4 ((bs.drop 4).take 4),
    fromBytes 8 ((bs.drop 8).take 8), fromBytes 8 ((bs.drop 16).take 8),
    fromBytes 8 ((bs.drop 24).take 8), fromBytes 8 ((bs.drop 32).take 8),
    fromBytes 4 ((bs.drop 40).take 4), fromBytes 4 ((bs.drop 44).take 4),
    fromBytes 8 ((bs.drop 48).take 8), fromBytes 8 ((bs.drop 56).take 8)⟩, ?_⟩
  have hjoin (k n : ℕ) : (bs.drop k).take n ++ bs.drop (k + n) = bs.drop k := by
    rw [← List.drop_drop, List.take_append_drop]
  unfold SectionHeader.bytes
  dsimp only
  rw [hpart 0 4 (by omega), hpart 4 4 (by omega), hpart 8 8 (by omega), hpart 16 8 (by omega),
    hpart 24 8 (by omega), hpart 32 8 (by omega), hpart 40 4 (by omega), hpart 44 4 (by omega),
    hpart 48 8 (by omega), hpart 56 8 (by omega)]
  have hlast : (bs.drop 56).take 8 = bs.drop 56 := List.take_of_length_le (by simp [h])
  rw [hlast, hjoin 48 8, hjoin 44 4, hjoin 40 4, hjoin 32 8, hjoin 24 8, hjoin 16 8, hjoin 8 8,
    hjoin 4 4, hjoin 0 4]
  rfl

theorem outcome_of_reads {α : Type} {p : Reader α} {bs : List Byte} {a : α} {img : Image} {k : ℕ}
    (h : Reads p bs a) (hat : BytesAt img k bs) (hend : k + bs.length ≤ img.size) :
    outcome p (dataAt img k) = .ok a := by
  unfold outcome
  rw [h (dataAt img k) hat hend]

theorem enterSections_last {name : SectionHeader → Except Failure (List Byte)} :
    ∀ (l : List SectionHeader) (k : ℕ) (m : SectionMap), (∀ x ∈ l, ∃ s, name x = .ok s) →
      ∃ m', enterSections name k l m = .ok m' ∧
        (∀ s, (∀ x ∈ l, name x ≠ .ok s) → m' s = m s) ∧
        ∀ i x s, l[i]? = some x → name x = .ok s →
          (∀ j y, i < j → l[j]? = some y → name y ≠ .ok s) → m' s = some (k + i) := by
  intro l
  induction l with
  | nil => exact fun k m _ => ⟨m, rfl, fun _ _ => rfl, fun i x s hi => by simp at hi⟩
  | cons y l ih =>
    intro k m hnames
    obtain ⟨t, ht⟩ := hnames y List.mem_cons_self
    obtain ⟨m', hrun, hother, hlast⟩ := ih (k + 1) (Function.update m t (some k))
      fun x hx => hnames x (List.mem_cons_of_mem y hx)
    refine ⟨m', ?_, fun s hs => ?_, fun i x s hi hx hafter => ?_⟩
    · rw [enterSections, ht]
      exact hrun
    · have hne : s ≠ t := by
        rintro rfl
        exact hs y List.mem_cons_self ht
      rw [hother s fun x hx => hs x (List.mem_cons_of_mem y hx), Function.update_of_ne hne]
    · cases i with
      | zero =>
        -- no later section has the name, so that the entry stays
        obtain rfl : y = x := Option.some.inj hi
        obtain rfl : t = s := Except.ok.inj (ht.symm.trans hx)
        have hrest : ∀ x ∈ l, name x ≠ .ok t := by
          intro z hz
          obtain ⟨j, hj⟩ := List.mem_iff_getElem?.mp hz
          exact hafter (j + 1) z (Nat.succ_pos j) hj
        rw [hother t hrest, Function.update_self]
        rfl
      | succ i =>
        rw [hlast i x s hi hx fun j z hj hz => hafter (j + 1) z (Nat.succ_lt_succ hj) hz]
        congr 1
        omega

namespace SectionedFile

variable {F : SectionedFile}

theorem getSectionName_iff (hsmall : F.sections.length < shnLoreserve)
    (hstrings : stringIndex F.header F.sections ≠ 0) {i : ℕ} {x : SectionHeader} {s : List Byte}
    (hi : F.sections[i]? = some x) :
    getSectionName F.image F.header F.sections x.name = .ok s ↔
      NameAt F.image F.header F.sections i s := by
  have hlt := F.strings.resolve_left hstrings
  have hindex : stringIndex F.header F.sections = F.header.shstrndx.toNat := by
    unfold stringIndex
    rw [if_neg]
    intro hreserved
    have hlarge := F.reserved hreserved
    omega
  rw [hindex] at hlt
  have htable := List.getElem?_eq_getElem hlt
  unfold getSectionName NameAt
  rw [hindex, htable, hi]
  dsimp only
  constructor
  · intro h
    cases hstring : cString F.image (F.image.size + 1)
        (F.sections[F.header.shstrndx.toNat].offset.toNat + x.name.toNat) with
    | none =>
      rw [hstring] at h
      cases h
    | some s' =>
      rw [hstring] at h
      cases h
      obtain ⟨hnul, hat⟩ := cString_ok hstring
      exact ⟨hindex ▸ hstrings, _, x, rfl, rfl, hnul, hat⟩
  · rintro ⟨-, table, y, hsome, hy, hnul, hat⟩
    obtain rfl := Option.some.inj hsome
    obtain rfl := Option.some.inj hy
    have hsize := hat.end_le_size (by simp)
    rw [List.length_append, List.length_singleton] at hsize
    rw [cString_eq hnul hat (by omega)]

theorem end_le (F : SectionedFile) (hne : F.sections ≠ []) :
    F.header.shoff.toNat + (F.sections.flatMap SectionHeader.bytes).length ≤ F.image.size := by
  apply F.placed.end_le_size
  obtain ⟨x, l, hl⟩ := List.exists_cons_of_ne_nil hne
  intro hnil
  rw [hl, List.flatMap_cons, List.append_eq_nil_iff] at hnil
  have hlength := x.length_bytes
  rw [hnil.1] at hlength
  cases hlength

theorem parse_empty (hempty : F.sections = []) :
    parseSectionHeaders F.image F.header = .ok [] := by
  obtain ⟨bs, hlength, hat⟩ := F.started
  obtain ⟨x, rfl⟩ := exists_header_of_length hlength
  have hsize := hat.end_le_size (by
    intro hnil
    rw [hnil] at hlength
    cases hlength)
  have hfirst : outcome sectionHeader (dataAt F.image F.header.shoff.toNat) = .ok x := by
    rw [F.nowhere hempty]
    exact outcome_of_reads (reads_sectionHeader x) hat (by simpa using hsize)
  have hzero : F.header.shnum = 0#16 := by
    obtain ⟨-, hcount⟩ | ⟨hzero, -⟩ := F.numbered
    · rw [hempty] at hcount
      exact BitVec.eq_of_toNat_eq hcount
    · exact hzero
  unfold parseSectionHeaders
  rw [hfirst, hzero]
  split <;> rfl

theorem parse_small (hsmall : F.sections.length < shnLoreserve) :
    parseSectionHeaders F.image F.header = .ok F.sections := by
  by_cases hempty : F.sections = []
  · rw [hempty]
    exact parse_empty hempty
  have hcount : F.header.shnum.toNat = F.sections.length := by
    obtain ⟨-, hcount⟩ | ⟨-, hlarge, -⟩ := F.numbered
    · exact hcount
    · omega
  have hpos := List.length_pos_iff.mpr hempty
  unfold parseSectionHeaders
  rw [if_neg]
  · rw [hcount]
    exact outcome_of_reads (reads_sectionHeaders F.sections) F.placed (F.end_le hempty)
  · rintro ⟨hzero, -⟩
    rw [hzero] at hcount
    exact absurd hcount (Nat.ne_of_lt hpos)

/-- From `SHN_LORESERVE` on the count in the file header is zero, and so is what is loaded. -/
theorem parse_large (hlarge : shnLoreserve ≤ F.sections.length) :
    parseSectionHeaders F.image F.header ≠ .ok F.sections := by
  -- the number is taken from the first header, and then the headers are counted by `e_shnum`
  have hzero : F.header.shnum = 0#16 := by
    obtain ⟨hsmall, -⟩ | ⟨hzero, -⟩ := F.numbered
    · omega
    · exact hzero
  intro hparse
  unfold parseSectionHeaders at hparse
  rw [hzero] at hparse
  have hnone : F.sections = [] := by
    split at hparse
    · cases hfirst : outcome sectionHeader (dataAt F.image F.header.shoff.toNat) with
      | error e =>
        rw [hfirst] at hparse
        cases hparse
      | ok x =>
        rw [hfirst] at hparse
        exact (Except.ok.inj hparse).symm
    · exact (Except.ok.inj hparse).symm
  rw [hnone] at hlarge
  exact absurd hlarge (by decide)

theorem found_small (hsmall : F.sections.length < shnLoreserve) {i : ℕ} {s : List Byte}
    (hi : NameAt F.image F.header F.sections i s)
    (hunique : ∀ j, NameAt F.image F.header F.sections j s → j = i) :
    ∃ m, buildSectionMap F.image F.header F.sections = .ok m ∧ m s = some i ∧
      getSection F.sections m s = F.sections[i]? := by
  obtain ⟨hstrings, -, x, -, hx, -, -⟩ := id hi
  have hname {j : ℕ} {y : SectionHeader} {t : List Byte} (hy : F.sections[j]? = some y) :=
    getSectionName_iff (s := t) hsmall hstrings hy
  have hall : ∀ y ∈ F.sections, ∃ t,
      getSectionName F.image F.header F.sections y.name = .ok t := by
    intro y hy
    obtain ⟨j, hj⟩ := List.mem_iff_getElem?.mp hy
    obtain ⟨t, ht⟩ := F.named hstrings j (List.getElem?_eq_some_iff.mp hj).1
    exact ⟨t, (hname hj).mpr ht⟩
  obtain ⟨m, hbuild, -, hlast⟩ := enterSections_last F.sections 0 (fun _ => none) hall
  have hfound : m s = some i := by
    rw [hlast i x s hx ((hname hx).mpr hi), Nat.zero_add]
    intro j y hij hy hsame
    exact absurd (hunique j ((hname hy).mp hsame)) (Nat.ne_of_gt hij)
  refine ⟨m, hbuild, hfound, ?_⟩
  unfold getSection
  rw [hfound]
  rfl

/-- The headers are loaded, and the sections found, exactly below the extended numbering. -/
theorem loads_iff (F : SectionedFile) : F.Loads ↔ F.sections.length < shnLoreserve := by
  constructor
  · intro h
    by_contra hlarge
    exact parse_large (Nat.le_of_not_lt hlarge) h.headers
  · exact fun hsmall => ⟨parse_small hsmall, fun i s => found_small hsmall⟩

def blankHeader : SectionHeader := ⟨0#32, 0#32, 0#64, 0#64, 0#64, 0#64, 0#32, 0#32, 0#64, 0#64⟩

def countHeader : SectionHeader := { blankHeader with size := 0xff00#64 }

def extendedImage : Image where
  size := 64 + 64 * 0xff00
  read i := if i < 64 + 64 * 0xff00 then some (if i = 64 + 33 then 0xff#8 else 0#8) else none
  bounded _ h := if_neg (Nat.not_lt.mpr h)

theorem extendedImage_read {i : ℕ} (h : i < 64 + 64 * 0xff00) :
    extendedImage.read i = some (if i = 64 + 33 then 0xff#8 else 0#8) := if_pos h

def extendedSections : List SectionHeader := countHeader :: List.replicate 0xfeff blankHeader

theorem length_extendedSections : extendedSections.length = 0xff00 := by
  rw [extendedSections, List.length_cons, List.length_replicate]

theorem bytes_extendedSections : extendedSections.flatMap SectionHeader.bytes =
    List.replicate 33 0#8 ++ 0xff#8 :: List.replicate (30 + 0xfeff * 64) 0#8 := by
  have hblank : blankHeader.bytes = List.replicate 64 0#8 := by decide
  have hfirst : countHeader.bytes =
      List.replicate 33 0#8 ++ 0xff#8 :: List.replicate 30 0#8 := by decide
  rw [extendedSections, List.flatMap_cons, List.flatMap_replicate, hblank,
    List.flatten_replicate_replicate, hfirst, List.append_assoc, List.cons_append,
    List.replicate_append_replicate]

theorem extendedImage_started : BytesAt extendedImage 0 (List.replicate 64 0#8) := by
  refine bytesAt_of_read fun i hi => ?_
  rw [List.length_replicate] at hi
  rw [List.getElem?_replicate_of_lt hi, Nat.zero_add, extendedImage_read (by omega),
    if_neg (by omega)]

theorem bytesAt_single {img : Image} {p k n : ℕ} {b : Byte}
    (h : ∀ i < k + (n + 1), img.read (p + i) = some (if i = k then b else 0#8)) :
    BytesAt img p (List.replicate k 0#8 ++ b :: List.replicate n 0#8) := by
  refine bytesAt_of_read fun i hi => ?_
  rw [List.length_append, List.length_cons, List.length_replicate, List.length_replicate] at hi
  rw [h i hi]
  by_cases hlt : i < k
  · have hlength : i < (List.replicate k 0#8).length := by rwa [List.length_replicate]
    rw [if_neg (by omega), List.getElem?_append_left hlength, List.getElem?_replicate_of_lt hlt]
  · obtain ⟨j, rfl⟩ : ∃ j, i = k + j := ⟨i - k, by omega⟩
    have hlength : (List.replicate k 0#8).length ≤ k + j := by
      rw [List.length_replicate]
      omega
    rw [List.getElem?_append_right hlength, List.length_replicate, Nat.add_sub_cancel_left]
    cases j with
    | zero => rw [if_pos (by omega), List.getElem?_cons_zero]
    | succ j =>
      rw [if_neg (by omega), List.getElem?_cons_succ, List.getElem?_replicate_of_lt (by omega)]

theorem extendedImage_placed :
    BytesAt extendedImage 64 (extendedSections.flatMap SectionHeader.bytes) := by
  rw [bytes_extendedSections]
  apply bytesAt_single
  intro i hi
  rw [extendedImage_read (by omega)]
  simp only [Nat.add_left_cancel_iff]

/-- `0xff00` headers right behind the file header, the first with their number in its
`sh_size`. -/
def extended : SectionedFile where
  image := extendedImage
  header := ⟨64#64, 64#16, 0#16, 0#16⟩
  sections := extendedSections
  numbered := by
    right
    rw [length_extendedSections]
    exact ⟨rfl, Nat.le_refl _, rfl⟩
  started := ⟨_, List.length_replicate, extendedImage_started⟩
  nowhere h := by
    have hlength := length_extendedSections
    rw [h] at hlength
    cases hlength
  placed := extendedImage_placed
  reserved h := absurd h (by decide)
  strings := .inl rfl
  named h := absurd rfl h

theorem not_loads_always : ¬ ∀ F : SectionedFile, F.Loads := by
  intro h
  have hlarge : shnLoreserve ≤ extended.sections.length := by
    change 0xff00 ≤ extendedSections.length
    rw [length_extendedSections]
  exact parse_large hlarge (h extended).headers

end SectionedFile
end KDebugger
