import KDebugger.Leb128

namespace KDebugger.Dwarf

open ByteStream

inductive Form where
  | addr | block2 | block4 | data2 | data4 | data8 | string | block | block1 | data1 | flag
  | sdata | strp | udata | refAddr | ref1 | ref2 | ref4 | ref8 | refUdata | indirect
  | secOffset | exprloc | flagPresent | refSig8
deriving DecidableEq, Repr

namespace Form

def code : Form → BitVec 64
  | addr => 0x01 | block2 => 0x03 | block4 => 0x04 | data2 => 0x05 | data4 => 0x06
  | data8 => 0x07 | string => 0x08 | block => 0x09 | block1 => 0x0a | data1 => 0x0b
  | flag => 0x0c | sdata => 0x0d | strp => 0x0e | udata => 0x0f | refAddr => 0x10
  | ref1 => 0x11 | ref2 => 0x12 | ref4 => 0x13 | ref8 => 0x14 | refUdata => 0x15
  | indirect => 0x16 | secOffset => 0x17 | exprloc => 0x18 | flagPresent => 0x19
  | refSig8 => 0x20

def all : List Form :=
  [addr, block2, block4, data2, data4, data8, string, block, block1, data1, flag, sdata, strp,
    udata, refAddr, ref1, ref2, ref4, ref8, refUdata, indirect, secOffset, exprloc, flagPresent,
    refSig8]

def ofCode (c : BitVec 64) : Option Form := all.find? fun f => f.code == c

@[simp] theorem ofCode_code (f : Form) : ofCode f.code = some f := by
  cases f <;> decide

end Form

namespace Cur

def u8 : Reader (BitVec 8) := fixedInt 1
def u16 : Reader (BitVec 16) := fixedInt 2
def u32 : Reader (BitVec 32) := fixedInt 4
def u64 : Reader (BitVec 64) := fixedInt 8

/-- `finished`: the position is at the end of the area or past it. -/
def finished : Reader Bool := do
  let c ← get
  pure (c.stop ≤ c.pos)

def cString (img : Image) : ℕ → ℕ → Option (List Byte)
  | 0, _ => none
  | fuel + 1, p =>
    match img.read p with
    | none => none
    | some b => if b = 0#8 then some [] else (cString img fuel (p + 1)).map (b :: ·)

/-- `string`: the view runs to the first NUL wherever it is, the position moves past
the first NUL of the area, or past its end. -/
def string : Reader (List Byte) := fun c =>
  if c.stop < c.pos then .error .undefined c
  else
    match cString c.image (c.image.size + 1) c.pos with
    | none => .error .undefined c
    | some s => .ok s { c with pos := min (c.pos + s.length) c.stop + 1 }

/-- The loop of `uleb128` and `sleb128`: the bits, the final shift and the last byte.
Ten groups are shifted by 0, 7, .., 63; shifting an eleventh is undefined. -/
def lebGroups : ℕ → ℕ → BitVec 64 → Reader (BitVec 64 × ℕ × BitVec 8)
  | 0, _, _ => do
    let _ ← u8
    throw .undefined
  | more + 1, shift, res => do
    let byte ← u8
    let masked := (byte &&& 0x7f#8).setWidth 64
    let res := res ||| (masked <<< shift)
    if byte &&& 0x80#8 ≠ 0#8 then lebGroups more (shift + 7) res
    else pure (res, shift + 7, byte)

def uleb128 : Reader (BitVec 64) := do
  let (res, _, _) ← lebGroups 10 0 0#64
  pure res

/-- `sleb128`: the sign is extended when bit 6 of the last byte is set and the shift is
below `sizeof(res)`, which is 8: the width of `res` in bytes, not in bits. -/
def sleb128 : Reader (BitVec 64) := do
  let (res, shift, byte) ← lebGroups 10 0 0#64
  if shift < 8 ∧ byte &&& 0x40#8 ≠ 0#8 then
    pure (res ||| (BitVec.allOnes 64 <<< shift))
  else pure res

def skipString : ℕ → Reader Unit
  | 0 => skip 1
  | left + 1 => fun c =>
    match c.image.read c.pos with
    | none => .error .undefined c
    | some b => if b = 0#8 then skip 1 c else skipString left (c.advance 1)

/-- `skip_form`, with a bound on the nesting of `DW_FORM_indirect`. -/
def skipFormWithin : ℕ → BitVec 64 → Reader Unit
  | 0, _ => throw .exhausted
  | depth + 1, form =>
    match Form.ofCode form with
    | some .data1 | some .ref1 | some .flag => skip 1
    | some .data2 | some .ref2 => skip 2
    | some .data4 | some .ref4 | some .refAddr | some .secOffset | some .strp => skip 4
    | some .sdata => do
      let _ ← sleb128
      pure ()
    | some .udata | some .refUdata => do
      let _ ← uleb128
      pure ()
    | some .block1 => do
      let n ← u8
      skip n.toNat
    | some .block2 => do
      let n ← u16
      skip n.toNat
    | some .block4 => do
      let n ← u32
      skip n.toNat
    | some .block | some .exprloc => do
      let n ← uleb128
      skip n.toNat
    | some .string => fun c => skipString (c.stop - c.pos) c
    | some .indirect => do
      let form' ← uleb128
      skipFormWithin depth form'
    | _ => throw (.raised "Unrecognized DWARF form")

def skipForm (form : BitVec 64) : Reader Unit := fun c =>
  skipFormWithin (c.image.size + 1) form c

end Cur
end KDebugger.Dwarf
