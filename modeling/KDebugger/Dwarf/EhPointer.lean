import KDebugger.Dwarf.CursorSpec

namespace KDebugger.Dwarf

open ByteStream Leb128 Exec Cur

/-- The formats the decoder has a case for. -/
inductive EhFormat where
  | absptr | uleb128 | udata2 | udata4 | udata8 | sleb128 | sdata2 | sdata4 | sdata8
deriving DecidableEq, Repr

namespace EhFormat

def code : EhFormat → Byte
  | absptr => 0x00 | uleb128 => 0x01 | udata2 => 0x02 | udata4 => 0x03 | udata8 => 0x04
  | sleb128 => 0x09 | sdata2 => 0x0a | sdata4 => 0x0b | sdata8 => 0x0c

def ofCode (c : Byte) : Option EhFormat :=
  [absptr, uleb128, udata2, udata4, udata8, sleb128, sdata2, sdata4, sdata8].find?
    fun f => f.code == c

@[simp] theorem ofCode_code (f : EhFormat) : ofCode f.code = some f := by
  cases f <;> decide

end EhFormat

/-- What a pointer is relative to. -/
inductive EhBase where
  | absolute | pcrel | textrel | datarel | funcrel
deriving DecidableEq, Repr

namespace EhBase

def code : EhBase → Byte
  | absolute => 0x00 | pcrel => 0x10 | textrel => 0x20 | datarel => 0x30 | funcrel => 0x40

def ofCode (c : Byte) : Option EhBase :=
  [absolute, pcrel, textrel, datarel, funcrel].find? fun b => b.code == c

@[simp] theorem ofCode_code (b : EhBase) : ofCode b.code = some b := by
  cases b <;> decide

end EhBase

/-- The addresses the relative encodings start from. -/
structure EhBases where
  pc : BitVec 64
  text : BitVec 64
  data : BitVec 64
  func : BitVec 64

def EhBases.of (bases : EhBases) : EhBase → BitVec 64
  | .absolute => 0#64
  | .pcrel => bases.pc
  | .textrel => bases.text
  | .datarel => bases.data
  | .funcrel => bases.func

def parseEhFramePointerWithBase (encoding : Byte) (base : BitVec 64) : Reader (BitVec 64) :=
  -- the low four bits are the format of the operand, bits 4 to 6 what it is relative to
  match EhFormat.ofCode (encoding &&& 0x0f#8) with
  | some .absptr => do
    let v ← u64
    pure (base + v)
  | some .uleb128 => do
    let v ← Cur.uleb128
    pure (base + v)
  | some .udata2 => do
    let v ← u16
    pure (base + v.setWidth 64)
  | some .udata4 => do
    let v ← u32
    pure (base + v.setWidth 64)
  | some .udata8 => do
    let v ← u64
    pure (base + v)
  | some .sleb128 => do
    let v ← Cur.sleb128
    pure (base + v)
  | some .sdata2 => do
    let v ← u16
    pure (base + v.signExtend 64)
  | some .sdata4 => do
    let v ← u32
    pure (base + v.signExtend 64)
  | some .sdata8 => do
    let v ← u64
    pure (base + v)
  | none => throw (.raised "Unkown eh_frame pointer encoding")

def parseEhFramePointer (encoding : Byte) (bases : EhBases) : Reader (BitVec 64) :=
  match EhBase.ofCode (encoding &&& 0x70#8) with
  | some b => parseEhFramePointerWithBase encoding (bases.of b)
  | none => throw (.raised "Unkown eh_frame pointer encoding")

/-- An operand in one of the formats. -/
inductive EhOperand where
  | absptr (v : BitVec 64)
  | uleb128 (u : Uleb)
  | udata2 (v : BitVec 16)
  | udata4 (v : BitVec 32)
  | udata8 (v : BitVec 64)
  | sleb128 (s : Sleb)
  | sdata2 (v : BitVec 16)
  | sdata4 (v : BitVec 32)
  | sdata8 (v : BitVec 64)

namespace EhOperand

def format : EhOperand → EhFormat
  | absptr _ => .absptr
  | uleb128 _ => .uleb128
  | udata2 _ => .udata2
  | udata4 _ => .udata4
  | udata8 _ => .udata8
  | sleb128 _ => .sleb128
  | sdata2 _ => .sdata2
  | sdata4 _ => .sdata4
  | sdata8 _ => .sdata8

def bytes : EhOperand → List Byte
  | absptr v | udata8 v | sdata8 v => leBytes 8 v.toNat
  | uleb128 u => u.bytes
  | udata2 v | sdata2 v => leBytes 2 v.toNat
  | udata4 v | sdata4 v => leBytes 4 v.toNat
  | sleb128 s => s.bytes

def value : EhOperand → BitVec 64
  | absptr v | udata8 v | sdata8 v => v
  | uleb128 u => u.unsigned
  | udata2 v => v.setWidth 64
  | udata4 v => v.setWidth 64
  | sleb128 s => s.signed
  | sdata2 v => v.signExtend 64
  | sdata4 v => v.signExtend 64

/-- The number the decoder makes of it. -/
def decoded : EhOperand → BitVec 64
  | sleb128 s => slebRead s.toLeb
  | op => op.value

end EhOperand

theorem reads_parseEhFramePointerWithBase {encoding : Byte} {base : BitVec 64} {op : EhOperand}
    (h : op.format.code = encoding &&& 0x0f#8) :
    Reads (parseEhFramePointerWithBase encoding base) op.bytes (base + op.decoded) := by
  unfold parseEhFramePointerWithBase
  rw [← h, EhFormat.ofCode_code]
  cases op with
  | absptr v | udata8 v | sdata8 v => exact reads_map (base + ·) (reads_u64 v)
  | uleb128 u => exact reads_map (base + ·) (reads_uleb128 u.toLeb)
  | udata2 v => exact reads_map (fun v : BitVec 16 => base + v.setWidth 64) (reads_u16 v)
  | udata4 v => exact reads_map (fun v : BitVec 32 => base + v.setWidth 64) (reads_u32 v)
  | sleb128 s => exact reads_map (base + ·) (reads_sleb128 s.toLeb)
  | sdata2 v => exact reads_map (fun v : BitVec 16 => base + v.signExtend 64) (reads_u16 v)
  | sdata4 v => exact reads_map (fun v : BitVec 32 => base + v.signExtend 64) (reads_u32 v)

theorem reads_parseEhFramePointer {encoding : Byte} {bases : EhBases} {b : EhBase}
    {op : EhOperand} (hb : b.code = encoding &&& 0x70#8)
    (h : op.format.code = encoding &&& 0x0f#8) :
    Reads (parseEhFramePointer encoding bases) op.bytes (bases.of b + op.decoded) := by
  unfold parseEhFramePointer
  rw [← hb, EhBase.ofCode_code]
  exact reads_parseEhFramePointerWithBase h

end KDebugger.Dwarf
