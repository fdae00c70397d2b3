import KDebugger.Dwarf.CursorSpec
import KDebugger.Dwarf.EhSearch

namespace KDebugger.Dwarf

open ByteStream Leb128 Exec Cur Bisection

/-- The bytes of an operand whose size the format fixes. -/
def EhFormat.width : EhFormat → Option ℕ
  | .absptr | .udata8 | .sdata8 => some 8
  | .udata4 | .sdata4 => some 4
  | .udata2 | .sdata2 => some 2
  | .uleb128 | .sleb128 => none

theorem EhFormat.width_pos {f : EhFormat} {n : ℕ} (h : f.width = some n) : 0 < n := by
  cases f <;> cases h <;> decide

theorem EhOperand.length_of_width {op : EhOperand} {n : ℕ} (h : op.format.width = some n) :
    op.bytes.length = n := by
  cases op <;> simp_all [EhOperand.format, EhFormat.width, EhOperand.bytes]

theorem EhOperand.decoded_of_width {op : EhOperand} {n : ℕ} (h : op.format.width = some n) :
    op.decoded = op.value := by
  cases op <;> first | rfl | simp [EhOperand.format, EhFormat.width] at h

theorem encodingSize_eq {encoding : Byte} {format : EhFormat} {n : ℕ}
    (hcode : format.code = encoding &&& 0x0f#8) (h : format.width = some n) :
    ehFramePointerEncodingSize encoding = .ok n := by
  have hlow : encoding &&& 0x7#8 = format.code &&& 0x7#8 := by
    rw [hcode, BitVec.and_assoc]
    rfl
  unfold ehFramePointerEncodingSize
  rw [hlow]
  cases format <;> cases h <;> rfl

theorem EhFormat.width_of_accepted {encoding : Byte} {format : EhFormat} {n : ℕ}
    (hcode : format.code = encoding &&& 0x0f#8)
    (h : ehFramePointerEncodingSize encoding = .ok n) : format.width = some n := by
  have hlow : encoding &&& 0x7#8 = format.code &&& 0x7#8 := by
    rw [hcode, BitVec.and_assoc]
    rfl
  unfold ehFramePointerEncodingSize at h
  rw [hlow] at h
  cases format <;> cases h <;> rfl

theorem bytesAt_flatMap {α : Type} {img : Image} {f : α → List Byte} {w : ℕ} {l : List α}
    (hlength : ∀ x ∈ l, (f x).length = w) : ∀ {p i : ℕ} {x : α},
    BytesAt img p (l.flatMap f) → l[i]? = some x → BytesAt img (p + i * w) (f x) := by
  induction l with
  | nil =>
    intro p i x _ hx
    simp at hx
  | cons y l ih =>
    intro p i x hat hx
    rw [List.flatMap_cons, bytesAt_append, hlength y List.mem_cons_self] at hat
    cases i with
    | zero =>
      obtain rfl : y = x := by simpa using hx
      simpa using hat.1
    | succ i =>
      have hrest := ih (fun z hz => hlength z (List.mem_cons_of_mem _ hz)) hat.2
        (by simpa using hx)
      have hpos : p + (i + 1) * w = p + w + i * w := by ring
      rwa [hpos]

/-- A table as it lies in a file, in an encoding that has a size. -/
structure RowTable (F : EhFile) where
  header : EhHdr
  parsed : F.parseEhHdr = .ok header
  base : EhBase
  format : EhFormat
  size : ℕ
  rows : List (EhOperand × EhOperand)
  fileSize : F.dw.image.size ≤ 2 ^ 64
  baseCode : base.code = header.encoding &&& 0x70#8
  formatCode : format.code = header.encoding &&& 0x0f#8
  accepted : ehFramePointerEncodingSize header.encoding = .ok size
  nonempty : rows ≠ []
  count : header.count = BitVec.ofNat 64 rows.length
  formats : ∀ row ∈ rows, row.1.format = format ∧ row.2.format = format
  lies : BytesAt F.dw.image header.searchTable
    (rows.flatMap fun row => row.1.bytes ++ row.2.bytes)

namespace RowTable

variable {F : EhFile} (T : RowTable F)

/-- Where `.text` starts. -/
def text (_ : RowTable F) : BitVec 64 := (F.sectionStart ".text").getD 0#64

/-- A header that has been parsed has looked at `.text`. -/
theorem textStart : F.sectionStart ".text" = some T.text := by
  have hparsed := T.parsed
  unfold EhFile.parseEhHdr at hparsed
  unfold text
  cases htext : F.sectionStart ".text" with
  | some a => rfl
  | none =>
    rw [htext] at hparsed
    cases hhdr : F.sectionStart ".eh_frame_hdr" <;> rw [hhdr] at hparsed <;> cases hparsed

def rowPos (i : ℕ) : ℕ := T.header.searchTable + i * (2 * T.size)

def decoded (pos : ℕ) (op : EhOperand) : BitVec 64 :=
  (EhBases.mk (BitVec.ofNat 64 pos) T.text (BitVec.ofNat 64 T.header.start) 0#64).of T.base + op.value

def address (i : ℕ) (row : EhOperand × EhOperand) : BitVec 64 := T.decoded (T.rowPos i) row.1

def pointer (i : ℕ) (row : EhOperand × EhOperand) : BitVec 64 :=
  T.decoded (T.rowPos i + T.size) row.2

theorem width : T.format.width = some T.size := EhFormat.width_of_accepted T.formatCode T.accepted

theorem size_pos : 0 < T.size := EhFormat.width_pos T.width

theorem row_length {row : EhOperand × EhOperand} (h : row ∈ T.rows) :
    row.1.bytes.length = T.size ∧ row.2.bytes.length = T.size := by
  obtain ⟨hlocation, hpointer⟩ := T.formats row h
  exact ⟨EhOperand.length_of_width (by rw [hlocation, T.width]),
    EhOperand.length_of_width (by rw [hpointer, T.width])⟩

theorem row_lies {i : ℕ} {row : EhOperand × EhOperand} (h : T.rows[i]? = some row) :
    BytesAt F.dw.image (T.rowPos i) (row.1.bytes ++ row.2.bytes) := by
  refine bytesAt_flatMap (f := fun row : EhOperand × EhOperand => row.1.bytes ++ row.2.bytes)
    (fun x hx => ?_) T.lies h
  obtain ⟨hlocation, hpointer⟩ := T.row_length hx
  rw [List.length_append, hlocation, hpointer]
  omega

theorem rows_length : ∀ l : List (EhOperand × EhOperand), (∀ row ∈ l, row ∈ T.rows) →
    (l.flatMap fun row => row.1.bytes ++ row.2.bytes).length = l.length * (2 * T.size) := by
  intro l
  induction l with
  | nil => exact fun _ => by simp
  | cons row l ih =>
    intro hl
    obtain ⟨hlocation, hpointer⟩ := T.row_length (hl row List.mem_cons_self)
    have hrest := ih fun row' h => hl row' (List.mem_cons_of_mem _ h)
    rw [List.flatMap_cons, List.length_append, List.length_append, hlocation, hpointer, hrest,
      List.length_cons]
    ring

theorem rows_length_le : T.rows.length * (2 * T.size) ≤ 2 ^ 64 := by
  have hlength := T.rows_length T.rows fun _ => id
  have hne : (T.rows.flatMap fun row => row.1.bytes ++ row.2.bytes) ≠ [] := by
    intro hnil
    rw [hnil, List.length_nil] at hlength
    have hrows := List.length_pos_iff.mpr T.nonempty
    have := Nat.mul_pos hrows (Nat.mul_pos Nat.two_pos T.size_pos)
    omega
  have hend := T.lies.end_le_size hne
  rw [hlength] at hend
  have := T.fileSize
  omega

theorem length_le : T.rows.length ≤ 2 ^ 63 := by
  have hle := T.rows_length_le
  have hsize := T.size_pos
  have : T.rows.length * 2 ≤ T.rows.length * (2 * T.size) := Nat.mul_le_mul_left _ (by omega)
  omega

theorem count_toNat : T.header.count.toNat = T.rows.length := by
  have := T.length_le
  rw [T.count, BitVec.toNat_ofNat, Nat.mod_eq_of_lt (by omega)]

theorem pointerAt_eq {pos stop : ℕ} {op : EhOperand} (hformat : op.format = T.format)
    (hlies : BytesAt F.dw.image pos op.bytes) (hstop : pos + op.bytes.length ≤ stop) :
    T.header.pointerAt F T.text pos stop = .ok (T.decoded pos op) := by
  have hwidth : op.format.width = some T.size := by rw [hformat, T.width]
  let bases : EhBases := ⟨BitVec.ofNat 64 pos, T.text, BitVec.ofNat 64 T.header.start, 0#64⟩
  have hread : parseEhFramePointer T.header.encoding bases ⟨F.dw.image, pos, stop⟩ =
      .ok (bases.of T.base + op.decoded) (Cursor.advance _ op.bytes.length) :=
    reads_parseEhFramePointer T.baseCode (by rw [hformat, T.formatCode]) _ hlies hstop
  unfold EhHdr.pointerAt outcome
  rw [hread, EhOperand.decoded_of_width hwidth]
  rfl

theorem rows_end {i : ℕ} {row : EhOperand × EhOperand} (h : T.rows[i]? = some row) :
    T.rowPos i + 2 * T.size ≤ T.header.searchTable + T.header.count.toNat * (2 * T.size) := by
  obtain ⟨hi, -⟩ := List.getElem?_eq_some_iff.mp h
  have hle : (i + 1) * (2 * T.size) ≤ T.rows.length * (2 * T.size) := Nat.mul_le_mul_right _ hi
  rw [T.count_toNat, rowPos]
  rw [Nat.add_mul] at hle
  omega

theorem rowAddress_eq {i : ℕ} {row : EhOperand × EhOperand} (h : T.rows[i]? = some row) :
    T.header.rowAddress F T.text T.size i = .ok (T.address i row) := by
  have hmem := List.mem_of_getElem? h
  have hlies := T.row_lies h
  have hend := T.rows_end h
  obtain ⟨hlocation, hpointer⟩ := T.row_length hmem
  rw [bytesAt_append] at hlies
  exact T.pointerAt_eq (T.formats row hmem).1 hlies.1 (by unfold rowPos at hend; omega)

theorem rowOffset_eq {i : ℕ} {row : EhOperand × EhOperand} (h : T.rows[i]? = some row) :
    T.header.rowOffset F T.text T.size i = .ok (T.pointer i row) := by
  have hmem := List.mem_of_getElem? h
  have hlies := T.row_lies h
  have hend := T.rows_end h
  obtain ⟨hlocation, hpointer⟩ := T.row_length hmem
  rw [bytesAt_append, hlocation] at hlies
  exact T.pointerAt_eq (T.formats row hmem).2 hlies.2 (by unfold rowPos at hend; omega)

/-- The initial addresses are strictly increasing. -/
def Sorted : Prop :=
  ∀ (i j : ℕ) (row row' : EhOperand × EhOperand), i < j → T.rows[i]? = some row →
    T.rows[j]? = some row' → T.address i row < T.address j row'

/-- The row has the greatest initial address that is not above `x`. -/
structure Greatest (x : BitVec 64) (i : ℕ) (row : EhOperand × EhOperand) : Prop where
  there : T.rows[i]? = some row
  le : T.address i row ≤ x
  greatest : ∀ (j : ℕ) (row' : EhOperand × EhOperand), T.rows[j]? = some row' →
    T.address j row' ≤ x → T.address j row' ≤ T.address i row

/-- Every address is in front of the first row, or has a last row that is not above it, and
that row or nothing is what `operator []` finds. -/
theorem find_cases (hsorted : T.Sorted) (elf : ElfId) (x : BitVec 64) :
    ((∀ row, T.rows[0]? = some row → x < T.address 0 row) ∧
      T.header.find F ⟨some elf, x⟩ = .error (.raised "Address not found in eh_hdr")) ∨
    ∃ (k : ℕ) (row : EhOperand × EhOperand), T.rows[k]? = some row ∧ T.address k row ≤ x ∧
      (∀ (j : ℕ) (row' : EhOperand × EhOperand), k < j → T.rows[j]? = some row' →
        x < T.address j row') ∧
      T.header.find F ⟨some elf, x⟩ = .ok (T.pointer k row).toNat := by
  -- the bisection over the decoded initial addresses
  let order : ℕ → Ordering := fun i => (T.rows[i]?).elim .eq fun row => rowOrder x (T.address i row)
  have horder {i : ℕ} {row : EhOperand × EhOperand} (h : T.rows[i]? = some row) :
      order i = rowOrder x (T.address i row) := by simp only [order, h, Option.elim_some]
  have hget {i : ℕ} (h : i < T.rows.length) : ∃ row, T.rows[i]? = some row :=
    ⟨_, List.getElem?_eq_getElem h⟩
  have hpos := List.length_pos_iff.mpr T.nonempty
  have hlength := T.length_le
  have hcount : (T.header.count - 1#64).toNat = T.rows.length - 1 := by
    have := T.count_toNat
    bv_omega
  obtain ⟨reads, r, hsearch, -, -, hreads⟩ := exists_searches
    (T.header.rowAddress F T.text T.size) x
    (show T.rows.length - 1 < 2 ^ 63 by omega)
  have hfind := EhHdr.find_of_searches T.textStart T.accepted elf (hcount ▸ hsearch)
    (hcount ▸ hreads)
  have hentry : ∀ i < T.rows.length,
      comparedRows (T.header.rowAddress F T.text T.size) x i = .ok (order i) := by
    intro i hi
    obtain ⟨row, hrow⟩ := hget hi
    rw [comparedRows, T.rowAddress_eq hrow, horder hrow]
    rfl
  have hend := hsearch.predecessor
    (fun low high hle hlt => by rw [middleRow_eq (by omega)]; omega) hentry
    (fun i j hij hj hne => by
      obtain ⟨row, hrow⟩ := hget (hij.trans hj)
      obtain ⟨row', hrow'⟩ := hget hj
      rw [horder hrow', ne_eq, rowOrder_eq_gt, BitVec.not_lt] at hne
      rw [horder hrow, rowOrder_eq_lt]
      exact Nat.lt_of_lt_of_le (BitVec.lt_def.mp (hsorted i j row row' hij hrow hrow'))
        (BitVec.le_def.mp hne))
    (by omega) (Nat.zero_le _) (fun i hi => absurd hi (Nat.not_lt_zero i))
    (fun j hj hlt => by omega)
  cases r with
  | failed e => exact hend.elim
  | before =>
    refine .inl ⟨fun row hrow => ?_, hfind⟩
    rw [← rowOrder_eq_gt, ← horder hrow]
    exact hend
  | row k =>
    obtain ⟨hk, hle, hnext⟩ := hend
    obtain ⟨row, hrow⟩ := hget hk
    rw [horder hrow, ne_eq, rowOrder_eq_gt, BitVec.not_lt] at hle
    refine .inr ⟨k, row, hrow, hle, fun j row' hj hrow' => ?_, ?_⟩
    · rw [← rowOrder_eq_gt, ← horder hrow']
      exact hnext j hj (List.getElem?_eq_some_iff.mp hrow').1
    · rw [hfind, searchResult, Except.bind, T.rowOffset_eq hrow]
      rfl

end RowTable

/-- A table in the order the search relies on. -/
structure SortedTable (F : EhFile) extends RowTable F where
  sorted : toRowTable.Sorted

/-- `operator []` finds the entry of the greatest initial address that is not above the
address, and raises an error exactly in front of the first row. -/
theorem SortedTable.find_greatest {F : EhFile} (T : SortedTable F) (elf : ElfId) (x : BitVec 64) :
    (∀ (i : ℕ) (row : EhOperand × EhOperand), T.Greatest x i row →
      T.header.find F ⟨some elf, x⟩ = .ok (T.pointer i row).toNat) ∧
    (∀ row, T.rows[0]? = some row → x < T.address 0 row →
      T.header.find F ⟨some elf, x⟩ = .error (.raised "Address not found in eh_hdr")) ∧
    ∀ e, T.header.find F ⟨some elf, x⟩ = .error e →
      ∀ row, T.rows[0]? = some row → x < T.address 0 row := by
  obtain ⟨hbefore, hfind⟩ | ⟨k, found, hfound, hle, hnext, hfind⟩ := T.find_cases T.sorted elf x
  · refine ⟨fun i row h => ?_, fun _ _ _ => hfind, fun _ _ => hbefore⟩
    obtain ⟨first, hfirst⟩ : ∃ first, T.rows[0]? = some first :=
      ⟨_, List.getElem?_eq_getElem (List.length_pos_iff.mpr T.nonempty)⟩
    have hx := hbefore first hfirst
    have hrow := h.le
    obtain rfl | hi := Nat.eq_zero_or_pos i
    · obtain rfl := Option.some.inj (hfirst.symm.trans h.there)
      bv_omega
    · have hsmall := T.sorted 0 i first row hi hfirst h.there
      bv_omega
  · refine ⟨fun i row h => ?_, fun row hrow hlt => ?_, fun e he => ?_⟩
    · -- no row before the last one has its address, and none behind it is low enough
      have hgreatest := h.greatest k found hfound hle
      obtain hik | rfl | hki := Nat.lt_trichotomy i k
      · have hsmall := T.sorted i k row found hik h.there hfound
        bv_omega
      · obtain rfl := Option.some.inj (hfound.symm.trans h.there)
        exact hfind
      · have habove := hnext i row hki h.there
        have hrow := h.le
        bv_omega
    · obtain rfl | hk := Nat.eq_zero_or_pos k
      · obtain rfl := Option.some.inj (hfound.symm.trans hrow)
        bv_omega
      · have hsmall := T.sorted 0 k row found hk hrow hfound
        bv_omega
    · rw [hfind] at he
      cases he

def pairFile : EhFile where
  dw := {
    elf := 0
    image := .ofList ([1#8, 0x1b#8, 0x03#8, 0x3b#8, 0#8, 0#8, 0#8, 0#8, 2#8, 0#8, 0#8, 0#8] ++
      [0x00#8, 0x10#8, 0#8, 0#8, 0x20#8, 0#8, 0#8, 0#8] ++
      [0x40#8, 0x10#8, 0#8, 0#8, 0x38#8, 0#8, 0#8, 0#8])
    getSectionContents name := if name = ".eh_frame_hdr" then some ⟨0, 28⟩ else none
    compileUnits := [] }
  sectionStart name :=
    if name = ".eh_frame_hdr" then some 0#64 else if name = ".text" then some 0x1000#64 else none

def pairTable : SortedTable pairFile where
  header := ⟨0, 12, 2#64, 0x3b#8⟩
  parsed := by rfl
  base := .datarel
  format := .sdata4
  size := 4
  rows := [(.sdata4 0x1000#32, .sdata4 0x20#32), (.sdata4 0x1040#32, .sdata4 0x38#32)]
  fileSize := by decide
  baseCode := by decide
  formatCode := by decide
  accepted := by rfl
  nonempty := List.cons_ne_nil _ _
  count := rfl
  formats := by decide
  lies := bytesAt_ofList (by decide)
  sorted := by
    intro i j row row' hij hrow hrow'
    obtain ⟨hj, -⟩ := List.getElem?_eq_some_iff.mp hrow'
    simp only [List.length_cons, List.length_nil] at hj
    obtain ⟨rfl, rfl⟩ : i = 0 ∧ j = 1 := by omega
    cases hrow
    cases hrow'
    decide

/-- The last address in front of the second function is one of the first. -/
theorem find_greatest_between :
    pairTable.header.find pairFile ⟨some 0, 0x103f#64⟩ = .ok 0x20 := by
  refine (pairTable.find_greatest 0 0x103f#64).1 0 (.sdata4 0x1000#32, .sdata4 0x20#32)
    ⟨rfl, by decide, fun j row hrow hle => ?_⟩
  obtain ⟨hj, -⟩ := List.getElem?_eq_some_iff.mp hrow
  simp only [pairTable, List.length_cons, List.length_nil] at hj
  obtain rfl | rfl : j = 0 ∨ j = 1 := by omega
  · cases hrow
    decide
  · cases hrow
    exact absurd hle (by decide)

end KDebugger.Dwarf
