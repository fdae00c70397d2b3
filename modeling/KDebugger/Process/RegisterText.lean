import KDebugger.Parse
import KDebugger.Process.RegisterValues

namespace KDebugger

open Numerals ByteStream Words

structure FloatTexts where
  printFloat : BitVec 32 → List Byte
  printDouble : BitVec 64 → List Byte
  printLongDouble : BitVec 128 → List Byte
  toDouble : List Byte → Option (BitVec 64)
  toLongDouble : List Byte → Option (BitVec 128)

def formatBytes (bytes : List Byte) : List Byte :=
  [ParseVector.openChar] ++ joinFormat formatByte [ParseVector.commaChar] bytes ++
    [ParseVector.closeChar]

namespace Value

def bytes (v : Value) : List Byte := (List.range v.size).map (byteOf v.toByte128)

/-- `format` of `handle_register_read`; a byte is printed as its number. -/
def format (floats : FloatTexts) : Value → List Byte
  | .u8 v => formatHex (1 * 2 + 2) v.toNat
  | .u16 v => formatHex (2 * 2 + 2) v.toNat
  | .u32 v => formatHex (4 * 2 + 2) v.toNat
  | .u64 v => formatHex (8 * 2 + 2) v.toNat
  | .i8 v => formatHex (1 * 2 + 2) v.toInt
  | .i16 v => formatHex (2 * 2 + 2) v.toInt
  | .i32 v => formatHex (4 * 2 + 2) v.toInt
  | .i64 v => formatHex (8 * 2 + 2) v.toInt
  | .float v => floats.printFloat v
  | .double v => floats.printDouble v
  | .longDouble v => floats.printLongDouble v
  | .byte64 v => formatBytes (bytes (.byte64 v))
  | .byte128 v => formatBytes (bytes (.byte128 v))

end Value

section Parsing

variable (floats : FloatTexts) (uninitialised : Byte) (behind : List Byte)

def valueOf {α : Type} (o : Option α) : Except Failure α :=
  match o with
  | some a => .ok a
  | none => .error (.raised "bad_optional_access")

/-- The `try` block of `parse_register_value`: `none` when no branch returns.  Integers of
all four sizes are read as a `std::uint8_t`. -/
def parsedValue (info : RegisterInfo) (text : List Byte) : Except Failure (Option Value) :=
  match info.format with
  | .uint =>
    if info.size = 1 then do
      return some (.u8 (← valueOf (toIntegral ⟨8, false⟩ uninitialised text 16)))
    else if info.size = 2 then do
      return some (.u8 (← valueOf (toIntegral ⟨8, false⟩ uninitialised text 16)))
    else if info.size = 4 then do
      return some (.u8 (← valueOf (toIntegral ⟨8, false⟩ uninitialised text 16)))
    else if info.size = 8 then do
      return some (.u8 (← valueOf (toIntegral ⟨8, false⟩ uninitialised text 16)))
    else .ok none
  | .doubleFloat => do return some (.double (← valueOf (floats.toDouble text)))
  | .longDouble => do return some (.longDouble (← valueOf (floats.toLongDouble text)))
  | .vector =>
    if info.size = 8 then do
      return some (.byte64 (fromBytes 8 (← parseVectorOf 8 uninitialised behind text)))
    else if info.size = 16 then do
      return some (.byte128 (fromBytes 16 (← parseVectorOf 16 uninitialised behind text)))
    else .ok none

/-- `parse_register_value`: every exception inside becomes the same error. -/
def parseRegisterValue (info : RegisterInfo) (text : List Byte) : Except Failure Value :=
  match parsedValue floats uninitialised behind info text with
  | .ok (some v) => .ok v
  | .error .undefined => .error .undefined
  | _ => .error (.raised "Invalid format!\n")

end Parsing

namespace RegisterInfo

/-- The sizes of the registers that are not floating-point numbers. -/
def HasSize (info : RegisterInfo) : Prop :=
  (info.format = .uint → info.size = 1 ∨ info.size = 2 ∨ info.size = 4 ∨ info.size = 8) ∧
    (info.format = .vector → info.size = 8 ∨ info.size = 16)

instance (info : RegisterInfo) : Decidable info.HasSize := inferInstanceAs (Decidable (_ ∧ _))

theorem hasSize {info : RegisterInfo} (h : info ∈ gRegisterInfos) : info.HasSize := by
  have hall : ∀ i ∈ gRegisterInfos, i.HasSize := by decide +kernel
  exact hall info h

end RegisterInfo

namespace Registers

/-- The values of the integer and the vector registers. -/
inductive ReadsAs (regs : Registers) (info : RegisterInfo) : Value → Prop
  | u8 (hformat : info.format = .uint) (hsize : info.size = 1) :
      ReadsAs regs info (.u8 (regs.fromData 1 info.offset))
  | u16 (hformat : info.format = .uint) (hsize : info.size = 2) :
      ReadsAs regs info (.u16 (regs.fromData 2 info.offset))
  | u32 (hformat : info.format = .uint) (hsize : info.size = 4) :
      ReadsAs regs info (.u32 (regs.fromData 4 info.offset))
  | u64 (hformat : info.format = .uint) (hsize : info.size = 8) :
      ReadsAs regs info (.u64 (regs.fromData 8 info.offset))
  | byte64 (hformat : info.format = .vector) (hsize : info.size = 8) :
      ReadsAs regs info (.byte64 (regs.fromData 8 info.offset))
  | byte128 (hformat : info.format = .vector) (hsize : info.size = 16) :
      ReadsAs regs info (.byte128 (regs.fromData 16 info.offset))

theorem readsAs_of_read {regs : Registers} {info : RegisterInfo} {v : Value}
    (hsize : info.HasSize) (hformat : info.format = .uint ∨ info.format = .vector)
    (hread : regs.read info = .ok v) : regs.ReadsAs info v := by
  obtain ⟨huint, hvector⟩ := hsize
  unfold read at hread
  by_cases hundefined : regs.isUndefined info
  · rw [if_pos hundefined] at hread
    cases hread
  rw [if_neg hundefined] at hread
  rcases hformat with hf | hf
  · rcases huint hf with hs | hs | hs | hs <;> simp only [hf, hs] at hread <;> cases hread
    · exact .u8 hf hs
    · exact .u16 hf hs
    · exact .u32 hf hs
    · exact .u64 hf hs
  · rcases hvector hf with hs | hs <;> simp [hf, hs] at hread <;> cases hread
    · exact .byte64 hf hs
    · exact .byte128 hf hs

theorem ReadsAs.bytes {regs : Registers} {info : RegisterInfo} {v : Value}
    (h : regs.ReadsAs info v) :
    v.size = info.size ∧ (∀ casts, widen casts info v = v.toByte128) ∧
      ∀ i < v.size, byteOf v.toByte128 i = regs.data (info.offset + i) := by
  cases h with
  | byte128 hformat hsize => exact ⟨hsize.symm, fun _ => rfl, fun i hi => byteOf_fromData regs hi⟩
  | _ hformat hsize =>
    refine ⟨hsize.symm, fun _ => rfl, fun i hi => ?_⟩
    exact (byteOf_widened (by decide) _ i).trans (byteOf_fromData regs hi)

theorem ReadsAs.byte_of_size_one {regs : Registers} {info : RegisterInfo} {v : Value}
    (h : regs.ReadsAs info v) (hone : info.size = 1) : ∃ w, v = .u8 w := by
  cases h with
  | u8 hformat hsize => exact ⟨_, rfl⟩
  | _ hformat hsize => omega

theorem store_same {casts : FloatCasts} {regs : Registers} {info : RegisterInfo} {v : Value}
    (hle : v.size ≤ info.size)
    (hbytes : ∀ i < v.size, byteOf (widen casts info v) i = regs.data (info.offset + i)) :
    regs.store casts info v = .ok regs := by
  have hdata : (regs.put info v.size (widen casts info v)).data = regs.data := by
    funext o
    simp only [put]
    split_ifs with ho
    · have hoffset : info.offset + (o - info.offset) = o := by omega
      rw [hbytes _ (by omega), hoffset]
    · rfl
  rw [store_of_le hle]
  have hcongr : regs.put info v.size (widen casts info v) =
      { regs with data := (regs.put info v.size (widen casts info v)).data } := rfl
  rw [hcongr, hdata]

end Registers

section ReadingBack

variable {floats : FloatTexts} {casts : FloatCasts} {uninitialised : Byte} {behind : List Byte}
  {regs : Registers} {info : RegisterInfo} {v : Value}

theorem format_integer (hv : regs.ReadsAs info v) (hformat : info.format = .uint) :
    v.format floats = formatHex (info.size * 2 + 2) v.toByte128.toNat := by
  cases hv with
  | byte64 hvector hsize => simp [hvector] at hformat
  | byte128 hvector hsize => simp [hvector] at hformat
  | _ hformat hsize =>
    simp only [Value.toByte128]
    rw [toNat_widened (by decide), hsize]
    rfl

theorem parseRegisterValue_integer (hsize : info.HasSize) (hformat : info.format = .uint)
    (width n : ℕ) :
    parseRegisterValue floats uninitialised behind info (formatHex width n) =
      .ok (.u8 (if n < 256 then BitVec.ofNat 8 n else uninitialised)) := by
  have hfits : IntegerType.Fits ⟨8, false⟩ n ↔ n < 256 := by
    simp [IntegerType.Fits]
  have hbyte : toIntegral ⟨8, false⟩ uninitialised (formatHex width n) 16 =
      some (if n < 256 then BitVec.ofNat 8 n else uninitialised) := by
    rw [toIntegral_formatHex]
    simp only [hfits, BitVec.ofInt_natCast]
  rcases hsize.1 hformat with hs | hs | hs | hs <;>
    simp [parseRegisterValue, parsedValue, hformat, hs, hbyte, valueOf, bind, Except.bind, pure,
      Except.pure]

theorem parseVectorOf_bytes (uninitialised : Byte) (behind : List Byte) {n : ℕ} (hn : n ≠ 0)
    (w : BitVec (8 * n)) :
    parseVectorOf n uninitialised behind (formatBytes ((List.range n).map (byteOf w))) =
      .ok ((List.range n).map (byteOf w)) := by
  have hne : (List.range n).map (byteOf w) ≠ [] := by simp [hn]
  have hparse := parseVectorOf_printed uninitialised behind hne
  rwa [List.length_map, List.length_range] at hparse

theorem parseRegisterValue_vector (hv : regs.ReadsAs info v) (hformat : info.format = .vector) :
    parseRegisterValue floats uninitialised behind info (v.format floats) = .ok v := by
  cases hv with
  | byte64 hvector hsize =>
    have hbytes : Value.bytes (.byte64 (regs.fromData 8 info.offset)) =
        (List.range 8).map (byteOf (regs.fromData 8 info.offset)) :=
      List.map_congr_left fun i _ => byteOf_widened (by decide) _ i
    have hback := parseVectorOf_bytes uninitialised behind (by decide)
      (regs.fromData 8 info.offset)
    simp [parseRegisterValue, parsedValue, hformat, hsize, Value.format, hbytes, hback, bind,
      Except.bind, pure, Except.pure, fromBytes_byteOf]
  | byte128 hvector hsize =>
    have hbytes : Value.bytes (.byte128 (regs.fromData 16 info.offset)) =
        (List.range 16).map (byteOf (regs.fromData 16 info.offset)) := rfl
    have hback := parseVectorOf_bytes uninitialised behind (by decide)
      (regs.fromData 16 info.offset)
    simp [parseRegisterValue, parsedValue, hformat, hsize, Value.format, hbytes, hback, bind,
      Except.bind, pure, Except.pure, fromBytes_byteOf]
  | _ hinteger hsize => simp [hinteger] at hformat

end ReadingBack

/-- The text of a value is read back as a value related to it, and writing that value to
the register changes nothing. -/
def GivesBack (floats : FloatTexts) (casts : FloatCasts) (uninitialised : Byte)
    (behind : List Byte) (regs : Registers) (info : RegisterInfo) (v : Value)
    (Same : Value → Prop) : Prop :=
  ∃ v', parseRegisterValue floats uninitialised behind info (v.format floats) = .ok v' ∧ Same v' ∧
    regs.store casts info v' = .ok regs

section GivingBack

variable {floats : FloatTexts} {casts : FloatCasts} {uninitialised : Byte} {behind : List Byte}
  {regs : Registers} {info : RegisterInfo} {v : Value}

theorem givesBack_vector (hv : regs.ReadsAs info v) (hformat : info.format = .vector)
    {Same : Value → Prop} (hsame : Same v) :
    GivesBack floats casts uninitialised behind regs info v Same := by
  obtain ⟨hsize, hwiden, hbytes⟩ := hv.bytes
  refine ⟨v, parseRegisterValue_vector hv hformat, hsame, Registers.store_same hsize.le ?_⟩
  rwa [hwiden casts]

theorem givesBack_integer (hsize : info.HasSize) (hv : regs.ReadsAs info v)
    (hformat : info.format = .uint) {Same : Value → Prop} :
    GivesBack floats casts uninitialised behind regs info v Same ↔
      Same (.u8 (if v.toByte128.toNat < 256 then BitVec.ofNat 8 v.toByte128.toNat
        else uninitialised)) ∧
      regs.store casts info (.u8 (if v.toByte128.toNat < 256
        then BitVec.ofNat 8 v.toByte128.toNat else uninitialised)) = .ok regs := by
  simp [GivesBack, format_integer hv hformat, parseRegisterValue_integer hsize hformat]

theorem store_small (hv : regs.ReadsAs info v) (hlt : v.toByte128.toNat < 256) :
    regs.store casts info (.u8 (BitVec.ofNat 8 v.toByte128.toNat)) = .ok regs := by
  obtain ⟨hsize, hwiden, hbytes⟩ := hv.bytes
  have hpos : 0 < v.size := by cases v <;> exact Nat.succ_pos _
  refine Registers.store_same (v := .u8 _) (show 1 ≤ info.size by omega) ?_
  intro i hi
  have hzero : i = 0 := by
    change i < 1 at hi
    omega
  subst hzero
  rw [← hbytes 0 hpos]
  apply BitVec.eq_of_toNat_eq
  change (byteOf ((BitVec.ofNat 8 v.toByte128.toNat).setWidth 128) 0).toNat = _
  rw [byteOf_widened (by decide), byteOf_toNat, byteOf_toNat, BitVec.toNat_ofNat]
  simp [Nat.mod_eq_of_lt hlt]

/-- A printed value gives its number back exactly when the register is a vector or the
number is below 256; it gives the very same value back exactly when the register is a
vector or one byte wide. -/
theorem givesBack_iff (hinfo : info ∈ gRegisterInfos)
    (hformat : info.format = .uint ∨ info.format = .vector) (hread : regs.read info = .ok v) :
    (GivesBack floats casts uninitialised behind regs info v
        (fun v' => v'.toByte128 = v.toByte128) ↔
      info.format = .vector ∨ v.toByte128.toNat < 256) ∧
    (GivesBack floats casts uninitialised behind regs info v (fun v' => v' = v) ↔
      info.format = .vector ∨ info.size = 1) := by
  -- an integer comes back as one byte, whatever the width of the register
  have hsize := RegisterInfo.hasSize hinfo
  have hv := Registers.readsAs_of_read hsize hformat hread
  rcases hformat with hf | hf
  · rw [givesBack_integer hsize hv hf, givesBack_integer hsize hv hf]
    constructor
    · constructor
      · rintro ⟨hsame, -⟩
        refine .inr ?_
        rw [← hsame, Value.toByte128, toNat_widened (by decide)]
        exact BitVec.isLt _
      · intro h
        have hlt : v.toByte128.toNat < 256 := h.resolve_left (by simp [hf])
        rw [if_pos hlt]
        refine ⟨?_, store_small hv hlt⟩
        apply BitVec.eq_of_toNat_eq
        change ((BitVec.ofNat 8 v.toByte128.toNat).setWidth 128).toNat = _
        rw [toNat_widened (by decide), BitVec.toNat_ofNat, Nat.mod_eq_of_lt hlt]
    · constructor
      · rintro ⟨hsame, -⟩
        refine .inr ?_
        rw [← hv.bytes.1, ← hsame]
        rfl
      · intro h
        have hone : info.size = 1 := h.resolve_left (by simp [hf])
        obtain ⟨w, rfl⟩ := hv.byte_of_size_one hone
        have hnat : (Value.u8 w).toByte128.toNat = w.toNat := toNat_widened (by decide) w
        have hlt : (Value.u8 w).toByte128.toNat < 256 := hnat ▸ w.isLt
        rw [if_pos hlt]
        refine ⟨?_, store_small hv hlt⟩
        rw [hnat, BitVec.ofNat_toNat, BitVec.setWidth_eq]
  · exact ⟨iff_of_true (givesBack_vector hv hf rfl) (.inl hf),
      iff_of_true (givesBack_vector hv hf rfl) (.inl hf)⟩

end GivingBack

section Instances

private def noFloatTexts : FloatTexts where
  printFloat _ := []
  printDouble _ := []
  printLongDouble _ := []
  toDouble _ := none
  toLongDouble _ := none

private def bitCasts : FloatCasts where
  floatToDouble := BitVec.setWidth 64
  floatToLongDouble := BitVec.setWidth 128
  doubleToLongDouble := BitVec.setWidth 128
  longDoubleToDouble := BitVec.setWidth 64

private def raxFile : Registers where
  data o := if o = 80 then 0x34#8 else if o = 81 then 0x12#8 else 0#8
  tid := 1

theorem givesBack_iff_rax :
    (GivesBack noFloatTexts bitCasts 0#8 [0#8] raxFile (defineGpr8L .rax) (.u8 0x34#8)
        (fun v' => v'.toByte128 = (Value.u8 0x34#8).toByte128) ↔
      (defineGpr8L .rax).format = .vector ∨ (Value.u8 0x34#8).toByte128.toNat < 256) ∧
    (GivesBack noFloatTexts bitCasts 0#8 [0#8] raxFile (defineGpr8L .rax) (.u8 0x34#8)
        (fun v' => v' = .u8 0x34#8) ↔
      (defineGpr8L .rax).format = .vector ∨ (defineGpr8L .rax).size = 1) :=
  givesBack_iff (by decide +kernel) (.inl rfl) (by decide +kernel)

/-- The text `0x0000000000001234` of `rax` is not read back. -/
theorem givesBack_not_for_all :
    ¬ ∀ regs info v, info ∈ gRegisterInfos → info.format = .uint ∨ info.format = .vector →
      Registers.read regs info = .ok v →
      GivesBack noFloatTexts bitCasts 0#8 [0#8] regs info v
        (fun v' => v'.toByte128 = v.toByte128) := by
  intro h
  obtain ⟨v', hparse, hsame, -⟩ := h raxFile (defineGpr64 .rax 0) (.u64 0x1234#64)
    (by decide +kernel) (.inl rfl) (by decide +kernel)
  have hvalue : parseRegisterValue noFloatTexts 0#8 [0#8] (defineGpr64 .rax 0)
      ((Value.u64 0x1234#64).format noFloatTexts) = .ok (.u8 0#8) :=
    parseRegisterValue_integer (by decide) rfl _ _
  cases hvalue.symm.trans hparse
  exact absurd hsame (by decide)

end Instances
end KDebugger
