import KDebugger.Dwarf.EhEntries

namespace KDebugger.Dwarf

open ByteStream Leb128 Exec Cur

/-- The two sections: where they lie in the file, and the addresses they are loaded at
relative to the base of the file. -/
structure EhSections (F : EhFile) where
  hdr : Span
  frame : Span
  hdrAddr : BitVec 64
  frameAddr : BitVec 64
  textAddr : BitVec 64
  hdrContents : F.dw.getSectionContents ".eh_frame_hdr" = some hdr
  frameContents : F.dw.getSectionContents ".eh_frame" = some frame
  hdrStart : F.sectionStart ".eh_frame_hdr" = some hdrAddr
  frameStart : F.sectionStart ".eh_frame" = some frameAddr
  textStart : F.sectionStart ".text" = some textAddr
  fileSize : F.dw.image.size ≤ 2 ^ 64

namespace EhSections

variable {F : EhFile} (S : EhSections F)

/-- The address of what lies at a position of `.eh_frame_hdr`. -/
def hdrAddress (pos : ℕ) : BitVec 64 :=
  S.hdrAddr + (BitVec.ofNat 64 pos - BitVec.ofNat 64 S.hdr.first)

def frameAddress (pos : ℕ) : BitVec 64 :=
  S.frameAddr + (BitVec.ofNat 64 pos - BitVec.ofNat 64 S.frame.first)

/-- What a pointer at the address `own` is added to. -/
def base (own : BitVec 64) : EhBase → BitVec 64
  | .pcrel => own
  | .datarel => S.hdrAddr
  | .textrel => S.textAddr
  | .absolute | .funcrel => 0#64

end EhSections

namespace EhOperand

/-- How far the decoder is off: only long negative `sleb128` numbers are misread. -/
def misread (op : EhOperand) : BitVec 64 := op.decoded - op.value

end EhOperand

/-- An entry of `.eh_frame` with a relative initial location, whose CIE is found. -/
structure EhFde {F : EhFile} (S : EhSections F) (map : CieMap) where
  pos : ℕ
  length : BitVec 32
  ciePointer : BitVec 32
  cie : CommonInformationEntry
  map' : CieMap
  base : EhBase
  location : EhOperand
  range : EhOperand
  augmentation : List Byte
  relative : base = .pcrel ∨ base = .datarel
  baseCode : base.code = cie.fdePointerEncoding &&& 0x70#8
  locationCode : location.format.code = cie.fdePointerEncoding &&& 0x0f#8
  rangeCode : range.format.code = cie.fdePointerEncoding &&& 0x0f#8
  rangePositive : ∀ s, range = .sleb128 s → 0 ≤ slebValue s.bytes
  augmented : if cie.fdeHasAugmentation then
    ∃ (l : Leb) (bs : List Byte), bs.length = l.unsigned.toNat ∧ augmentation = l.bytes ++ bs
    else augmentation = []
  cieFound : F.getCie map (BitVec.ofNat 64 (pos + 4) - ciePointer.signExtend 64) = .ok (cie, map')
  lies : BytesAt F.dw.image pos (leBytes 4 length.toNat ++ (leBytes 4 ciePointer.toNat ++
    (location.bytes ++ (range.bytes ++ augmentation))))
  inside : pos + (8 + (location.bytes.length + (range.bytes.length + augmentation.length))) ≤
    S.frame.last

namespace EhFde

variable {F : EhFile} {S : EhSections F} {map : CieMap} (d : EhFde S map)

def initial : BitVec 64 := S.base (S.frameAddress (d.pos + 8)) d.base + d.location.value

/-- The function of the entry has the program counter. -/
def Covers (pc : BitVec 64) : Prop :=
  d.initial ≤ pc ∧ pc.toNat < d.initial.toNat + d.range.value.toNat

def parsed : FrameDescriptionEntry where
  cie := d.cie.toCie
  initialLocation := ⟨some F.dw.elf,
    (EhBases.mk (BitVec.ofNat 64 (d.pos + 8)) S.textAddr 0#64 0#64).of d.base +
      d.location.decoded⟩
  addressRange := d.range.value
  instructions := ⟨d.pos + (8 + (d.location.bytes.length +
    (d.range.bytes.length + d.augmentation.length))), d.pos + (d.length + 4#32).toNat⟩
  length := d.length + 4#32

theorem range_decoded : d.range.decoded = d.range.value := by
  cases hrange : d.range with
  | sleb128 s =>
    have hpositive := d.rangePositive s hrange
    have hsign : signBit s.bytes = false := by
      by_contra hsign
      rw [Bool.not_eq_false] at hsign
      have hlt := ulebValue_lt s.bytes
      unfold slebValue signWeight at hpositive
      rw [if_pos hsign] at hpositive
      omega
    exact (slebRead_eq_signed_iff s.toLeb).mpr (.inr (.inr hsign))
  | _ => rfl

def fields : FdeFields :=
  ⟨d.length, d.ciePointer, d.base, d.location, d.range, d.augmentation, []⟩

theorem parseFde_eq : outcome (F.parseFde map) ⟨F.dw.image, d.pos, F.sectionEnd ".eh_frame"⟩ =
    .ok (d.parsed, d.map') := by
  have hstop : F.sectionEnd ".eh_frame" = S.frame.last := by
    unfold EhFile.sectionEnd
    rw [S.frameContents]
    rfl
  have hparsed : d.fields.decoded F d.pos d.cie = d.parsed := by
    simp only [FdeFields.decoded, EhFde.parsed, fields, FdeFields.head, d.range_decoded, S.textStart,
      Option.getD_some, List.length_append, leBytes_length, ← Nat.add_assoc, Nat.reduceAdd]
  have hread := @FdeFields.readsAt_parseFde d.fields F map d.map' d.cie d.pos d.baseCode d.locationCode
    d.rangeCode d.augmented d.cieFound
  have hinside := d.inside
  unfold outcome
  rw [hread ⟨F.dw.image, d.pos, F.sectionEnd ".eh_frame"⟩ rfl d.lies (by
    simp only [hstop, FdeFields.head, fields, List.length_append, leBytes_length]
    omega)]
  exact congrArg (fun fde => Except.ok (fde, d.map')) hparsed

end EhFde

structure EhRow {F : EhFile} (S : EhSections F) (map : CieMap) where
  location : EhOperand
  pointer : EhOperand
  fde : EhFde S map

def EhRow.bytes {F : EhFile} {S : EhSections F} {map : CieMap} (row : EhRow S map) : List Byte :=
  row.location.bytes ++ row.pointer.bytes

/-- A search table with the entries it leads to: sorted, one row for each function, the
functions apart. -/
structure EhTable (F : EhFile) (map : CieMap) extends EhSections F where
  header : EhHdr
  parsed : F.parseEhHdr = .ok header
  base : EhBase
  format : EhFormat
  size : ℕ
  relative : base = .pcrel ∨ base = .datarel
  baseCode : base.code = header.encoding &&& 0x70#8
  formatCode : format.code = header.encoding &&& 0x0f#8
  width : format.width = some size
  rows : List (EhRow toEhSections map)
  nonempty : rows ≠ []
  count : header.count = BitVec.ofNat 64 rows.length
  formats : ∀ row ∈ rows, row.location.format = format ∧ row.pointer.format = format
  lies : BytesAt F.dw.image header.searchTable (rows.flatMap EhRow.bytes)
  locations : ∀ (i : ℕ) (row : EhRow toEhSections map), rows[i]? = some row →
    toEhSections.base (toEhSections.hdrAddress (header.searchTable + i * (2 * size))) base +
      row.location.value = row.fde.initial
  pointers : ∀ (i : ℕ) (row : EhRow toEhSections map), rows[i]? = some row →
    toEhSections.base (toEhSections.hdrAddress (header.searchTable + i * (2 * size) + size)) base +
      row.pointer.value = toEhSections.frameAddress row.fde.pos
  sorted : ∀ (i j : ℕ) (row row' : EhRow toEhSections map), i < j → rows[i]? = some row →
    rows[j]? = some row' → row.fde.initial < row'.fde.initial ∧
      row.fde.initial.toNat + row.fde.range.value.toNat ≤ row'.fde.initial.toNat
  bounded : ∀ row ∈ rows, row.fde.initial.toNat + row.fde.range.value.toNat < 2 ^ 64

theorem parseEhHdrAt_start {c c' : Cursor} {header : EhHdr}
    (h : parseEhHdrAt c = .ok header c') : header.start = c.pos := by
  obtain ⟨start, c₁, hstart, h₁⟩ := bind_eq_ok.mp h
  cases hstart
  obtain ⟨_, c₂, -, h₂⟩ := bind_eq_ok.mp h₁
  obtain ⟨_, c₃, -, h₃⟩ := bind_eq_ok.mp h₂
  obtain ⟨_, c₄, -, h₄⟩ := bind_eq_ok.mp h₃
  obtain ⟨_, c₅, -, h₅⟩ := bind_eq_ok.mp h₄
  obtain ⟨_, c₆, -, h₆⟩ := bind_eq_ok.mp h₅
  obtain ⟨_, c₇, -, h₇⟩ := bind_eq_ok.mp h₆
  obtain ⟨_, c₈, -, h₈⟩ := bind_eq_ok.mp h₇
  cases h₈
  rfl

namespace EhTable

variable {F : EhFile} {map : CieMap} (T : EhTable F map)

theorem header_start : T.header.start = T.hdr.first := by
  have h := T.parsed
  unfold EhFile.parseEhHdr at h
  rw [T.hdrStart, T.textStart, T.hdrContents] at h
  dsimp only at h
  unfold outcome at h
  split at h
  · rename_i header c hrun
    rw [← Except.ok.inj h]
    exact parseEhHdrAt_start hrun
  · cases h

def rowTable : RowTable F where
  header := T.header
  parsed := T.parsed
  base := T.base
  format := T.format
  size := T.size
  rows := T.rows.map fun row => (row.location, row.pointer)
  fileSize := T.fileSize
  baseCode := T.baseCode
  formatCode := T.formatCode
  accepted := encodingSize_eq T.formatCode T.width
  nonempty := by simpa using T.nonempty
  count := by rw [T.count, List.length_map]
  formats := List.forall_mem_map.mpr T.formats
  lies := by
    rw [List.flatMap_map]
    exact T.lies

theorem rowTable_text : T.rowTable.text = T.textAddr := by
  rw [RowTable.text, T.textStart]
  rfl

theorem rowTable_row {i : ℕ} {row : EhRow T.toEhSections map} (h : T.rows[i]? = some row) :
    T.rowTable.rows[i]? = some (row.location, row.pointer) := by
  simp [rowTable, h]

/-- How far the file offset of `.eh_frame_hdr` is from its address. -/
def hdrShift : BitVec 64 := BitVec.ofNat 64 T.hdr.first - T.hdrAddr

theorem decoded_eq (pos : ℕ) (op : EhOperand) : T.rowTable.decoded pos op =
    T.toEhSections.base (T.toEhSections.hdrAddress pos) T.base + op.value + T.hdrShift := by
  unfold RowTable.decoded
  rw [T.rowTable_text]
  simp only [rowTable, T.header_start]
  obtain hbase | hbase := T.relative
  · rw [hbase]
    simp only [EhBases.of, EhSections.base, EhSections.hdrAddress, hdrShift]
    bv_omega
  · rw [hbase]
    simp only [EhBases.of, EhSections.base, hdrShift]
    bv_omega

theorem address_eq {i : ℕ} {row : EhRow T.toEhSections map} (h : T.rows[i]? = some row) :
    T.rowTable.address i (row.location, row.pointer) = row.fde.initial + T.hdrShift := by
  rw [← T.locations i row h]
  exact T.decoded_eq _ _

theorem rowAddress_eq {i : ℕ} {row : EhRow T.toEhSections map} (h : T.rows[i]? = some row) :
    T.header.rowAddress F T.textAddr T.size i = .ok (row.fde.initial + T.hdrShift) := by
  rw [← T.address_eq h, ← T.rowTable_text]
  exact T.rowTable.rowAddress_eq (T.rowTable_row h)

theorem pointer_eq {i : ℕ} {row : EhRow T.toEhSections map} (h : T.rows[i]? = some row) :
    T.rowTable.pointer i (row.location, row.pointer) =
      T.toEhSections.frameAddress row.fde.pos + T.hdrShift := by
  rw [← T.pointers i row h]
  exact T.decoded_eq _ _

theorem rowOffset_eq {i : ℕ} {row : EhRow T.toEhSections map} (h : T.rows[i]? = some row) :
    T.header.rowOffset F T.textAddr T.size i =
      .ok (T.toEhSections.frameAddress row.fde.pos + T.hdrShift) := by
  rw [← T.pointer_eq h, ← T.rowTable_text]
  exact T.rowTable.rowOffset_eq (T.rowTable_row h)

/-- The rows have the addresses of their functions and lead to their entries, the entries
have their initial locations, and every program counter is looked up in its entry. -/
structure LookupRight : Prop where
  rows : ∀ (i : ℕ) (row : EhRow T.toEhSections map), T.rows[i]? = some row →
    T.header.rowAddress F T.textAddr T.size i = .ok row.fde.initial
  entries : ∀ (i : ℕ) (row : EhRow T.toEhSections map), T.rows[i]? = some row →
    (T.header.rowOffset F T.textAddr T.size i).map BitVec.toNat = .ok row.fde.pos
  initial : ∀ row ∈ T.rows, ∃ fde map',
    outcome (F.parseFde map) ⟨F.dw.image, row.fde.pos, F.sectionEnd ".eh_frame"⟩ = .ok (fde, map') ∧
      fde.initialLocation = ⟨some F.dw.elf, row.fde.initial⟩
  found : ∀ row ∈ T.rows, ∀ pc, row.fde.Covers pc →
    T.header.find F ⟨some F.dw.elf, pc⟩ = .ok row.fde.pos ∧
      ∃ fde map', T.header.fdeAt F map ⟨some F.dw.elf, pc⟩ = .ok (fde, map') ∧
        fde.initialLocation = ⟨some F.dw.elf, row.fde.initial⟩

/-- Both sections are loaded where they lie in the file, and nothing is read that makes up
for the base of a data-relative initial location. -/
structure Aligned : Prop where
  hdr : T.hdrAddr = BitVec.ofNat 64 T.hdr.first
  frame : T.frameAddr = BitVec.ofNat 64 T.frame.first
  locations : ∀ row ∈ T.rows,
    row.fde.location.misread = if row.fde.base = .datarel then T.hdrAddr else 0#64

variable {T}

theorem initialLocation_eq_iff {row : EhRow T.toEhSections map}
    (hframe : T.frameAddr = BitVec.ofNat 64 T.frame.first) :
    row.fde.parsed.initialLocation = ⟨some F.dw.elf, row.fde.initial⟩ ↔
      row.fde.location.misread = if row.fde.base = .datarel then T.hdrAddr else 0#64 := by
  simp only [EhFde.parsed, FileAddr.mk.injEq, true_and, EhFde.initial, EhOperand.misread]
  obtain hbase | hbase := row.fde.relative
  · simp only [hbase, EhBases.of, EhSections.base, EhSections.frameAddress, hframe, reduceCtorEq,
      if_false]
    constructor <;> intro h <;> bv_omega
  · simp only [hbase, EhBases.of, EhSections.base, if_true]
    constructor <;> intro h <;> bv_omega

theorem pos_lt (d : EhFde T.toEhSections map) : d.pos < 2 ^ 64 := by
  have hend := d.lies.end_le_size (by simp [leBytes])
  have hsize := T.fileSize
  simp only [List.length_append, leBytes_length] at hend
  omega

theorem frameAddress_eq_iff (d : EhFde T.toEhSections map) :
    (T.toEhSections.frameAddress d.pos).toNat = d.pos ↔
      T.frameAddr = BitVec.ofNat 64 T.frame.first := by
  have hpos := pos_lt d
  have hword : (T.toEhSections.frameAddress d.pos).toNat = d.pos ↔
      T.toEhSections.frameAddress d.pos = BitVec.ofNat 64 d.pos := by
    rw [← BitVec.toNat_inj, BitVec.toNat_ofNat, Nat.mod_eq_of_lt hpos]
  rw [hword]
  unfold EhSections.frameAddress
  constructor <;> intro h <;> bv_omega

theorem LookupRight.aligned (h : T.LookupRight) : T.Aligned := by
  obtain ⟨row, hrow⟩ : ∃ row, T.rows[0]? = some row :=
    ⟨_, List.getElem?_eq_getElem (List.length_pos_iff.mpr T.nonempty)⟩
  have hshift : T.hdrShift = 0#64 := by
    have hsame := (T.rowAddress_eq hrow).symm.trans (h.rows 0 row hrow)
    have hsum := Except.ok.inj hsame
    bv_omega
  have hframe : T.frameAddr = BitVec.ofNat 64 T.frame.first := by
    have hentry := h.entries 0 row hrow
    rw [T.rowOffset_eq hrow, hshift, BitVec.add_zero] at hentry
    exact (frameAddress_eq_iff row.fde).mp (Except.ok.inj hentry)
  refine ⟨by unfold hdrShift at hshift; bv_omega, hframe, fun row' hrow' => ?_⟩
  obtain ⟨fde, map', hparse, hinitial⟩ := h.initial row' hrow'
  rw [row'.fde.parseFde_eq] at hparse
  cases hparse
  exact (initialLocation_eq_iff hframe).mp hinitial

theorem find_eq (hrows : ∀ (i : ℕ) (row : EhRow T.toEhSections map), T.rows[i]? = some row →
    T.header.rowAddress F T.textAddr T.size i = .ok row.fde.initial)
    {k : ℕ} {row : EhRow T.toEhSections map} (hrow : T.rows[k]? = some row) {pc : BitVec 64}
    (hpc : row.fde.Covers pc) (elf : ElfId) :
    T.header.find F ⟨some elf, pc⟩ =
      (T.header.rowOffset F T.textAddr T.size k).map BitVec.toNat := by
  -- file offsets stand in for addresses, which is right where the sections are loaded at their
  -- offsets
  have haddress {i : ℕ} {row : EhRow T.toEhSections map} (h : T.rows[i]? = some row) :
      T.rowTable.address i (row.location, row.pointer) = row.fde.initial := by
    have hsame := (T.rowAddress_eq h).symm.trans (hrows i row h)
    rw [T.address_eq h]
    exact Except.ok.inj hsame
  have hget {i : ℕ} {p : EhOperand × EhOperand} (h : T.rowTable.rows[i]? = some p) :
      ∃ row, T.rows[i]? = some row ∧ p = (row.location, row.pointer) := by
    obtain ⟨row, hrow, rfl⟩ := Option.map_eq_some_iff.mp (List.getElem?_map ▸ h)
    exact ⟨row, hrow, rfl⟩
  have hsorted : T.rowTable.Sorted := by
    intro i j p p' hij hp hp'
    obtain ⟨row', hrow', rfl⟩ := hget hp
    obtain ⟨row'', hrow'', rfl⟩ := hget hp'
    rw [haddress hrow', haddress hrow'']
    exact (T.sorted i j row' row'' hij hrow' hrow'').1
  obtain ⟨hbefore, -⟩ | ⟨i, p, hp, hle, hnext, hfind⟩ := T.rowTable.find_cases hsorted elf pc
  · -- the row of the program counter is not in front of the first row
    obtain ⟨first, hfirst⟩ : ∃ first, T.rows[0]? = some first :=
      ⟨_, List.getElem?_eq_getElem (List.length_pos_iff.mpr T.nonempty)⟩
    have hlt := hbefore _ (T.rowTable_row hfirst)
    rw [haddress hfirst] at hlt
    have hcovered := hpc.1
    obtain rfl | hk := Nat.eq_zero_or_pos k
    · obtain rfl := Option.some.inj (hfirst.symm.trans hrow)
      bv_omega
    · have hsmall := (T.sorted 0 k first row hk hfirst hrow).1
      bv_omega
  · obtain ⟨row', hrow', rfl⟩ := hget hp
    have hcovered := hpc.1
    have hend := hpc.2
    rw [haddress hrow'] at hle
    obtain hik | rfl | hki := Nat.lt_trichotomy i k
    · have hlt := hnext k _ hik (T.rowTable_row hrow)
      rw [haddress hrow] at hlt
      bv_omega
    · obtain rfl := Option.some.inj (hrow'.symm.trans hrow)
      rw [T.rowOffset_eq hrow, ← T.pointer_eq hrow]
      exact hfind
    · have hapart := (T.sorted k i row row' hki hrow hrow').2
      bv_omega

theorem Aligned.lookupRight (h : T.Aligned) : T.LookupRight := by
  -- every address that the decoder computes is the one the format defines
  have hshift : T.hdrShift = 0#64 := by
    rw [hdrShift, h.hdr, BitVec.sub_self]
  have hrows : ∀ (i : ℕ) (row : EhRow T.toEhSections map), T.rows[i]? = some row →
      T.header.rowAddress F T.textAddr T.size i = .ok row.fde.initial := by
    intro i row hrow
    rw [T.rowAddress_eq hrow, hshift, BitVec.add_zero]
  have hentries : ∀ (i : ℕ) (row : EhRow T.toEhSections map), T.rows[i]? = some row →
      (T.header.rowOffset F T.textAddr T.size i).map BitVec.toNat = .ok row.fde.pos := by
    intro i row hrow
    rw [T.rowOffset_eq hrow, hshift, BitVec.add_zero]
    exact congrArg Except.ok ((frameAddress_eq_iff row.fde).mpr h.frame)
  have hinitial (row : EhRow T.toEhSections map) (hrow : row ∈ T.rows) :=
    (initialLocation_eq_iff h.frame).mpr (h.locations row hrow)
  refine ⟨hrows, hentries, fun row hrow => ⟨_, _, row.fde.parseFde_eq, hinitial row hrow⟩, ?_⟩
  intro row hrow pc hpc
  obtain ⟨k, hk⟩ := List.mem_iff_getElem?.mp hrow
  have hfind : T.header.find F ⟨some F.dw.elf, pc⟩ = .ok row.fde.pos := by
    rw [find_eq hrows hk hpc, hentries k row hk]
  refine ⟨hfind, row.fde.parsed, row.fde.map', ?_, hinitial row hrow⟩
  have hbounded := T.bounded row hrow
  obtain ⟨hlo, hhi⟩ := hpc
  have hbefore : FileAddr.lt ⟨some F.dw.elf, pc⟩ row.fde.parsed.initialLocation = .ok false := by
    rw [hinitial row hrow]
    exact (if_pos rfl).trans (congrArg Except.ok (decide_eq_false (BitVec.not_lt.mpr hlo)))
  have hbehind : (row.fde.parsed.initialLocation.add row.fde.parsed.addressRange).le
      ⟨some F.dw.elf, pc⟩ = .ok false := by
    have hend : ¬ row.fde.initial + row.fde.range.value ≤ pc := by bv_omega
    rw [hinitial row hrow]
    exact (if_pos rfl).trans (congrArg Except.ok (decide_eq_false hend))
  unfold EhHdr.fdeAt
  rw [hfind]
  dsimp only [bind, Except.bind]
  rw [row.fde.parseFde_eq]
  dsimp only
  rw [hbefore]
  dsimp only
  rw [if_neg (by decide), hbehind]
  rfl

/-- Program counters are looked up as the format has it if and only if both sections are
loaded at their file offsets, and no initial location is relative to data. -/
theorem entriesFound_iff (T : EhTable F map) : T.LookupRight ↔ T.Aligned :=
  ⟨LookupRight.aligned, Aligned.lookupRight⟩

end EhTable

/-- `.eh_frame_hdr` with one row, a CIE and its one entry. -/
def fixedBytes : List Byte :=
  [1#8, 0x1b#8, 0x03#8, 0x3b#8, 0x10#8, 0#8, 0#8, 0#8, 1#8, 0#8, 0#8, 0#8] ++
  [0x00#8, 0x01#8, 0#8, 0#8, 37#8, 0#8, 0#8, 0#8] ++
  [13#8, 0#8, 0#8, 0#8, 0#8, 0#8, 0#8, 0#8, 1#8, 0x7a#8, 0x52#8, 0#8, 1#8, 0x78#8, 16#8, 1#8, 0x1b#8] ++
  [13#8, 0#8, 0#8, 0#8, 21#8, 0#8, 0#8, 0#8, 0xd3#8, 0#8, 0#8, 0#8, 0x10#8, 0#8, 0#8, 0#8, 0#8]

def fixedFile : EhFile where
  dw := {
    elf := 0
    image := .ofList fixedBytes
    getSectionContents name :=
      if name = ".eh_frame_hdr" then some ⟨0, 20⟩
      else if name = ".eh_frame" then some ⟨20, 54⟩ else none
    compileUnits := [] }
  sectionStart name :=
    if name = ".eh_frame_hdr" then some 0x400000#64
    else if name = ".eh_frame" then some 0x400014#64
    else if name = ".text" then some 0x400100#64 else none

def fixedSections : EhSections fixedFile where
  hdr := ⟨0, 20⟩
  frame := ⟨20, 54⟩
  hdrAddr := 0x400000#64
  frameAddr := 0x400014#64
  textAddr := 0x400100#64
  hdrContents := rfl
  frameContents := rfl
  hdrStart := rfl
  frameStart := rfl
  textStart := rfl
  fileSize := by decide

def fixedCie : CommonInformationEntry where
  codeAlignmentFactor := 1#64
  dataAlignmentFactor := 0xfffffffffffffff8#64
  fdePointerEncoding := 0x1b#8
  instructions := ⟨37, 37⟩
  length := 17#32
  fdeHasAugmentation := true

def fixedFde : EhFde fixedSections [] where
  pos := 37
  length := 13#32
  ciePointer := 21#32
  cie := fixedCie
  map' := [(20#32, fixedCie)]
  base := .pcrel
  location := .sdata4 0xd3#32
  range := .sdata4 0x10#32
  augmentation := [0#8]
  relative := .inl rfl
  baseCode := by decide
  locationCode := by decide
  rangeCode := by decide
  rangePositive := nofun
  augmented := ⟨⟨[0#8], by decide, by decide⟩, [], by decide, rfl⟩
  cieFound := by rfl
  lies := bytesAt_ofList (by decide)
  inside := by decide

def fixedTable : EhTable fixedFile [] where
  toEhSections := fixedSections
  header := ⟨0, 12, 1#64, 0x3b#8⟩
  parsed := by rfl
  base := .datarel
  format := .sdata4
  size := 4
  relative := .inr rfl
  baseCode := by decide
  formatCode := by decide
  width := rfl
  rows := [⟨.sdata4 0x100#32, .sdata4 37#32, fixedFde⟩]
  nonempty := List.cons_ne_nil _ _
  count := rfl
  formats := by
    intro row hrow
    obtain rfl := List.mem_singleton.mp hrow
    exact ⟨rfl, rfl⟩
  lies := bytesAt_ofList (by decide)
  locations := by
    intro i row hrow
    match i, hrow with
    | 0, rfl => decide
  pointers := by
    intro i row hrow
    match i, hrow with
    | 0, rfl => decide
  sorted := by
    intro i j row row' hij hrow hrow'
    match j, hrow' with
    | 0, _ => exact absurd hij (Nat.not_lt_zero i)
  bounded := by
    intro row hrow
    obtain rfl := List.mem_singleton.mp hrow
    decide

theorem entriesFound_not_for_all : ¬ ∀ (F : EhFile) (map : CieMap) (T : EhTable F map),
    T.LookupRight := by
  intro h
  have haligned := EhTable.LookupRight.aligned (h _ _ fixedTable)
  exact absurd haligned.hdr (by decide)

end KDebugger.Dwarf
