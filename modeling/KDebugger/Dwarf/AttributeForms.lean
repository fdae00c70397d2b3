import KDebugger.Dwarf.CursorSpec
import KDebugger.Dwarf.Die

namespace KDebugger.Dwarf

open ByteStream Leb128 Exec Cur

inductive AttrValue where
  | address (v : BitVec 64)
  | constant (v : BitVec 64)
  | block (bs : List Byte)
  /-- an offset from the first byte of the unit -/
  | reference (offset : BitVec 64)
  /-- an offset from the first byte of `.debug_info` -/
  | sectionReference (offset : BitVec 32)
  | sectionOffset (v : BitVec 32)
  | string (s : List Byte)
  /-- an offset from the first byte of `.debug_str` -/
  | stringOffset (v : BitVec 32)

inductive Encodes : Form → AttrValue → List Byte → Prop where
  | addr (v : BitVec 64) : Encodes .addr (.address v) (leBytes 8 v.toNat)
  | data1 (v : BitVec 8) : Encodes .data1 (.constant (v.setWidth 64)) [v]
  | data2 (v : BitVec 16) : Encodes .data2 (.constant (v.setWidth 64)) (leBytes 2 v.toNat)
  | data4 (v : BitVec 32) : Encodes .data4 (.constant (v.setWidth 64)) (leBytes 4 v.toNat)
  | data8 (v : BitVec 64) : Encodes .data8 (.constant v) (leBytes 8 v.toNat)
  | udata (u : Uleb) : Encodes .udata (.constant u.unsigned) u.bytes
  | block1 (n : BitVec 8) {bs : List Byte} (h : bs.length = n.toNat) :
      Encodes .block1 (.block bs) ([n] ++ bs)
  | block2 (n : BitVec 16) {bs : List Byte} (h : bs.length = n.toNat) :
      Encodes .block2 (.block bs) (leBytes 2 n.toNat ++ bs)
  | block4 (n : BitVec 32) {bs : List Byte} (h : bs.length = n.toNat) :
      Encodes .block4 (.block bs) (leBytes 4 n.toNat ++ bs)
  | block (u : Uleb) {bs : List Byte} (h : bs.length = u.value) :
      Encodes .block (.block bs) (u.bytes ++ bs)
  | ref1 (v : BitVec 8) : Encodes .ref1 (.reference (v.setWidth 64)) [v]
  | ref2 (v : BitVec 16) : Encodes .ref2 (.reference (v.setWidth 64)) (leBytes 2 v.toNat)
  | ref4 (v : BitVec 32) : Encodes .ref4 (.reference (v.setWidth 64)) (leBytes 4 v.toNat)
  | ref8 (v : BitVec 64) : Encodes .ref8 (.reference v) (leBytes 8 v.toNat)
  | refAddr (v : BitVec 32) : Encodes .refAddr (.sectionReference v) (leBytes 4 v.toNat)
  | secOffset (v : BitVec 32) : Encodes .secOffset (.sectionOffset v) (leBytes 4 v.toNat)
  | string {s : List Byte} (h : 0#8 ∉ s) : Encodes .string (.string s) (s ++ [0#8])
  | strp (v : BitVec 32) : Encodes .strp (.stringOffset v) (leBytes 4 v.toNat)

/-- The unit a position of `.debug_info` belongs to, when the units are disjoint. -/
def UnitOf (dw : DwarfInfo) (cu : CompileUnit) (pos : ℕ) : Prop :=
  cu ∈ dw.compileUnits ∧
    ∀ cu' ∈ dw.compileUnits, (cu'.data.first ≤ pos ∧ pos < cu'.data.last) ↔ cu' = cu

/-- The accessor for the value, applied to `a`, returns it.  A block is returned as the
span of the last bytes of the encoding, a reference as the DIE it leads to. -/
def Accessed (dw : DwarfInfo) (a : Attr) (bs : List Byte) : AttrValue → Prop
  | .address v => a.asAddress dw = .ok ⟨some dw.elf, v⟩
  | .constant v => a.asInt dw = .ok v
  | .block b => a.asBlock dw =
      .ok ⟨a.location + (bs.length - b.length), a.location + bs.length⟩
  | .reference offset =>
      a.asReference dw = dw.parseDieAt a.cu (a.cu.data.first + offset.toNat)
  | .sectionReference offset => ∀ (debugInfo : Span) (cu : CompileUnit),
      dw.getSectionContents ".debug_info" = some debugInfo →
      UnitOf dw cu (debugInfo.first + offset.toNat) →
      a.asReference dw = dw.parseDieAt cu (debugInfo.first + offset.toNat)
  | .sectionOffset v => a.asSectionOffset dw = .ok v
  | .string s => a.asString dw = .ok s
  | .stringOffset v => ∀ (debugStr : Span) (s : List Byte),
      dw.getSectionContents ".debug_str" = some debugStr → 0#8 ∉ s →
      BytesAt dw.image (debugStr.first + v.toNat) (s ++ [0#8]) →
      debugStr.first + v.toNat + (s ++ [0#8]).length ≤ debugStr.last →
      a.asString dw = .ok s

/-- `skip_form` moves exactly past the encoding and the accessor decodes it, wherever
it lies and whatever else the file holds, unreadable bytes included. -/
def FormLaw (f : Form) (v : AttrValue) (bs : List Byte) : Prop :=
  Reads (skipForm f.code) bs () ∧
    ∀ (dw : DwarfInfo) (a : Attr), a.form = f.code → BytesAt dw.image a.location bs →
      a.location + bs.length ≤ a.cu.data.last → Accessed dw a bs v

theorem decode_of_reads {α : Type} {p : Reader α} {bs : List Byte} {v : α} (h : Reads p bs v)
    {dw : DwarfInfo} {a : Attr} (hat : BytesAt dw.image a.location bs)
    (hstop : a.location + bs.length ≤ a.cu.data.last) : a.decode dw p = .ok v := by
  have := h (dw.cursorIn a.cu a.location) hat hstop
  simp [Attr.decode, outcome, this]

theorem reads_spanHere (bs : List Byte) {dw : DwarfInfo} {a : Attr} {n : ℕ} {α : Type}
    {p : Reader α} {hd : List Byte} {v : α} {size : α → ℕ} (h : Reads p hd v)
    (hsize : size v = bs.length) (hn : n = (hd ++ bs).length)
    (hat : BytesAt dw.image a.location (hd ++ bs))
    (hstop : a.location + n ≤ a.cu.data.last) :
    a.decode dw (do let x ← p; Attr.spanHere (size x)) =
      .ok ⟨a.location + (n - bs.length), a.location + n⟩ := by
  rw [bytesAt_append] at hat
  simp only [List.length_append] at hn
  have hp := h (dw.cursorIn a.cu a.location) hat.1 (by
    change a.location + hd.length ≤ a.cu.data.last
    omega)
  simp only [Attr.decode, outcome, bind_ok hp]
  have hfirst : a.location + (n - bs.length) = a.location + hd.length := by omega
  have hlast : a.location + n = a.location + hd.length + bs.length := by omega
  rw [hfirst, hlast, ← hsize]
  rfl

theorem find_unit {dw : DwarfInfo} {cu : CompileUnit} {pos : ℕ} (h : UnitOf dw cu pos) :
    (dw.compileUnits.find? fun cu => cu.data.first ≤ pos ∧ pos < cu.data.last) = some cu := by
  obtain ⟨hmem, huniq⟩ := h
  cases hf : dw.compileUnits.find? fun cu => cu.data.first ≤ pos ∧ pos < cu.data.last with
  | none =>
    have := List.find?_eq_none.mp hf cu hmem
    simp [(huniq cu hmem).mpr rfl] at this
  | some cu' =>
    have hin : cu'.data.first ≤ pos ∧ pos < cu'.data.last := by
      simpa using List.find?_some hf
    rw [(huniq cu' (List.mem_of_find?_eq_some hf)).mp hin]

theorem accessed_of_encodes {f : Form} {v : AttrValue} {bs : List Byte} (h : Encodes f v bs)
    (h8 : f ≠ .ref8) {dw : DwarfInfo} {a : Attr} (hform : a.form = f.code)
    (hat : BytesAt dw.image a.location bs) (hstop : a.location + bs.length ≤ a.cu.data.last) :
    Accessed dw a bs v := by
  -- one case a form; `as_int` and the others are switches of their own
  cases h <;> simp only [Accessed, Attr.asAddress, Attr.asInt, Attr.asBlock, Attr.asReference,
    Attr.asSectionOffset, Attr.asString, hform, Form.ofCode_code]
  case addr v =>
    exact decode_of_reads (reads_map (fun v => (⟨some dw.elf, v⟩ : FileAddr)) (reads_u64 v)) hat
      hstop
  case data1 v => exact decode_of_reads (reads_map (BitVec.setWidth 64) (reads_u8 v)) hat hstop
  case data2 v => exact decode_of_reads (reads_map (BitVec.setWidth 64) (reads_u16 v)) hat hstop
  case data4 v => exact decode_of_reads (reads_map (BitVec.setWidth 64) (reads_u32 v)) hat hstop
  case data8 v => exact decode_of_reads (reads_u64 v) hat hstop
  case udata u => exact decode_of_reads (reads_uleb128 u.toLeb) hat hstop
  case block1 n bs hn => exact reads_spanHere bs (reads_u8 n) hn.symm rfl hat hstop
  case block2 n bs hn => exact reads_spanHere bs (reads_u16 n) hn.symm rfl hat hstop
  case block4 n bs hn => exact reads_spanHere bs (reads_u32 n) hn.symm rfl hat hstop
  case block u bs hn =>
    exact reads_spanHere bs (reads_uleb128 u.toLeb) (by rw [u.unsigned_toNat, hn]) rfl hat hstop
  case ref1 v =>
    have hlt : v.toNat < 2 ^ 64 := lt_trans v.isLt (by decide)
    rw [decode_of_reads (reads_u8 v) hat hstop, BitVec.toNat_setWidth, Nat.mod_eq_of_lt hlt]
    rfl
  case ref2 v =>
    have hlt : v.toNat < 2 ^ 64 := lt_trans v.isLt (by decide)
    rw [decode_of_reads (reads_u16 v) hat hstop, BitVec.toNat_setWidth, Nat.mod_eq_of_lt hlt]
    rfl
  case ref4 v =>
    have hlt : v.toNat < 2 ^ 64 := lt_trans v.isLt (by decide)
    rw [decode_of_reads (reads_u32 v) hat hstop, BitVec.toNat_setWidth, Nat.mod_eq_of_lt hlt]
    rfl
  case ref8 => exact absurd rfl h8
  case refAddr v =>
    intro debugInfo cu hsec hunit
    rw [decode_of_reads (reads_u32 v) hat hstop]
    simp only [hsec, bind, Except.bind]
    rw [find_unit hunit]
  case secOffset v => exact decode_of_reads (reads_u32 v) hat hstop
  case string s hs => exact decode_of_reads (reads_string hs) hat hstop
  case strp v =>
    intro debugStr s hsec hs hsat hsstop
    rw [decode_of_reads (reads_u32 v) hat hstop]
    have := reads_string hs ⟨dw.image, debugStr.first + v.toNat, debugStr.last⟩ hsat hsstop
    simp only [hsec]
    simp [bind, Except.bind, outcome, this]

/-- The three forms the accessors decode and `skip_form` has no case for. -/
def Unskipped (f : Form) : Prop := f = .addr ∨ f = .data8 ∨ f = .ref8

theorem handled_of_encodes {f : Form} {v : AttrValue} {bs : List Byte} (h : Encodes f v bs)
    (hf : ¬ Unskipped f) : Handled f.code bs := by
  cases h with
  | addr | data8 | ref8 => exact absurd (by simp [Unskipped]) hf
  | data1 | ref1 => exact Handled.fixed rfl
  | data2 | ref2 => exact Handled.fixed (by simp [skippedWidth])
  | data4 | ref4 | refAddr | secOffset | strp => exact Handled.fixed (by simp [skippedWidth])
  | udata u => exact Handled.leb (by simp) u.toLeb
  | block1 n h => exact Handled.block1 n h
  | block2 n h => exact Handled.block2 n h
  | block4 n h => exact Handled.block4 n h
  | block u h => exact Handled.block (by simp) u.toLeb (by rw [u.unsigned_toNat, h])
  | string h => exact Handled.string h

theorem not_reads_skipForm {f : Form} (hf : Unskipped f) (bs : List Byte) :
    ¬ Reads (skipForm f.code) bs () := by
  intro h
  have hat : BytesAt (Image.ofList bs) 0 bs := bytesAt_ofList fun i _ => by rw [Nat.zero_add]
  have hskip := h ⟨Image.ofList bs, 0, bs.length⟩ hat (by simp)
  rcases hf with rfl | rfl | rfl <;>
    simp [skipForm, skipFormWithin, throw_eq] at hskip

theorem formLaw_iff {f : Form} {v : AttrValue} {bs : List Byte} (h : Encodes f v bs) :
    FormLaw f v bs ↔ f ≠ .addr ∧ f ≠ .data8 ∧ f ≠ .ref8 := by
  have hU : (f ≠ .addr ∧ f ≠ .data8 ∧ f ≠ .ref8) ↔ ¬ Unskipped f := by
    simp only [Unskipped, not_or, ne_eq]
  rw [hU]
  constructor
  · intro hlaw hf
    exact not_reads_skipForm hf bs hlaw.1
  · intro hf
    refine ⟨reads_skipForm (handled_of_encodes h hf), fun dw a hform hat hstop => ?_⟩
    exact accessed_of_encodes h (fun h8 => hf (by simp [Unskipped, h8])) hform hat hstop

theorem formLaw_block1 : FormLaw .block1 (.block [0x12#8, 0x34#8]) ([2#8] ++ [0x12#8, 0x34#8]) :=
  (formLaw_iff (Encodes.block1 2#8 rfl)).mpr (by decide)

theorem formLaw_not_for_all : ¬ ∀ (f : Form) (v : AttrValue) (bs : List Byte),
    Encodes f v bs → FormLaw f v bs := by
  intro h
  have hlaw := h .data8 (.constant 7#64) (leBytes 8 7) (Encodes.data8 7#64)
  exact not_reads_skipForm (by simp [Unskipped]) _ hlaw.1

end KDebugger.Dwarf
