import KDebugger.Address
import KDebugger.Dwarf.Cursor

namespace KDebugger.Dwarf

open ByteStream Exec Cur

/-- A `span` of the mapped file. -/
structure Span where
  first : ℕ
  last : ℕ
deriving DecidableEq, Repr

structure AttrSpec where
  attr : BitVec 64
  form : BitVec 64
deriving DecidableEq, Repr

structure Abbrev where
  code : BitVec 64
  tag : BitVec 64
  hasChildren : Bool
  attrSpecs : List AttrSpec
deriving DecidableEq, Repr

/-- A unit with the bytes it spans and the abbreviation table found at its offset. -/
structure CompileUnit where
  data : Span
  abbrevTable : List Abbrev
deriving DecidableEq, Repr

/-- What the parsers see of one file: its bytes, its sections, its units. -/
structure DwarfInfo where
  elf : ElfId
  image : Image
  getSectionContents : String → Option Span
  compileUnits : List CompileUnit

def dwAtSibling : BitVec 64 := 0x01
def dwAtName : BitVec 64 := 0x03
def dwAtLowPc : BitVec 64 := 0x11
def dwAtSpecification : BitVec 64 := 0x47
def dwAtAbstractOrigin : BitVec 64 := 0x31
def dwAtRanges : BitVec 64 := 0x55
def dwTagSubprogram : BitVec 64 := 0x2e
def dwTagInlinedSubroutine : BitVec 64 := 0x1d

/-- `die`.  A null entry has only `next`. -/
structure Die where
  pos : Option ℕ := none
  cu : Option CompileUnit := none
  abbrevEntry : Option Abbrev := none
  attrLocs : List ℕ := []
  next : ℕ
deriving DecidableEq, Repr

/-- `attr`: where the value of one attribute of a DIE lies. -/
structure Attr where
  cu : CompileUnit
  type : BitVec 64
  form : BitVec 64
  location : ℕ
deriving DecidableEq, Repr

def CompileUnit.abbrevAt (cu : CompileUnit) (code : BitVec 64) : Option Abbrev :=
  cu.abbrevTable.find? fun a => a.code == code

def skipAttrs : List AttrSpec → Reader (List ℕ)
  | [] => pure []
  | spec :: specs => do
    let loc ← position
    skipForm spec.form
    let locs ← skipAttrs specs
    pure (loc :: locs)

def parseDie (cu : CompileUnit) : Reader Die := do
  let pos ← position
  let abbrevCode ← uleb128
  if abbrevCode = 0#64 then
    let next ← position
    pure { next := next }
  else
    match cu.abbrevAt abbrevCode with
    | none => throw .outOfRange
    | some entry => do
      let attrLocs ← skipAttrs entry.attrSpecs
      let next ← position
      pure { pos := some pos, cu := some cu, abbrevEntry := some entry, attrLocs, next }

namespace DwarfInfo

def cursorIn (dw : DwarfInfo) (cu : CompileUnit) (pos : ℕ) : Cursor := ⟨dw.image, pos, cu.data.last⟩

def parseDieAt (dw : DwarfInfo) (cu : CompileUnit) (pos : ℕ) : Except Failure Die :=
  outcome (parseDie cu) (dw.cursorIn cu pos)

/-- `compile_unit::root`: the DIE after the eleven bytes of the unit header. -/
def root (dw : DwarfInfo) (cu : CompileUnit) : Except Failure Die :=
  dw.parseDieAt cu (cu.data.first + 11)

end DwarfInfo

namespace Die

def contains (d : Die) (attrName : BitVec 64) : Except Failure Bool :=
  match d.abbrevEntry with
  | none => .error .undefined
  | some entry => .ok (entry.attrSpecs.any fun spec => spec.attr == attrName)

/-- `operator []`: the first attribute of that name; without one the function does
not return a value. -/
def attrOf (d : Die) (attrName : BitVec 64) : Except Failure Attr :=
  match d.abbrevEntry, d.cu with
  | some entry, some cu =>
    match (entry.attrSpecs.zip d.attrLocs).find? fun x => x.1.attr == attrName with
    | some (spec, loc) => .ok ⟨cu, spec.attr, spec.form, loc⟩
    | none => .error .undefined
  | _, _ => .error .undefined

end Die

namespace Attr

def decode {α : Type} (dw : DwarfInfo) (a : Attr) (p : Reader α) : Except Failure α :=
  outcome p (dw.cursorIn a.cu a.location)

def asAddress (dw : DwarfInfo) (a : Attr) : Except Failure FileAddr :=
  match Form.ofCode a.form with
  | some .addr => a.decode dw do
    let v ← u64
    pure ⟨some dw.elf, v⟩
  | _ => .error (.raised "Invalid address type")

def asSectionOffset (dw : DwarfInfo) (a : Attr) : Except Failure (BitVec 32) :=
  match Form.ofCode a.form with
  | some .secOffset => a.decode dw u32
  | _ => .error (.raised "Invalid offset type")

def asInt (dw : DwarfInfo) (a : Attr) : Except Failure (BitVec 64) :=
  match Form.ofCode a.form with
  | some .data1 => a.decode dw do
    let v ← u8
    pure (v.setWidth 64)
  | some .data2 => a.decode dw do
    let v ← u16
    pure (v.setWidth 64)
  | some .data4 => a.decode dw do
    let v ← u32
    pure (v.setWidth 64)
  | some .data8 => a.decode dw u64
  | some .udata => a.decode dw uleb128
  | _ => .error (.raised "Invalid integer type")

def spanHere (size : ℕ) : Reader Span := do
  let p ← position
  pure ⟨p, p + size⟩

def asBlock (dw : DwarfInfo) (a : Attr) : Except Failure Span :=
  match Form.ofCode a.form with
  | some .block1 => a.decode dw do
    let n ← u8
    spanHere n.toNat
  | some .block2 => a.decode dw do
    let n ← u16
    spanHere n.toNat
  | some .block4 => a.decode dw do
    let n ← u32
    spanHere n.toNat
  | some .block => a.decode dw do
    let n ← uleb128
    spanHere n.toNat
  | _ => .error (.raised "Invalid block type")

def dieInUnit (dw : DwarfInfo) (a : Attr) (offset : ℕ) : Except Failure Die :=
  dw.parseDieAt a.cu (a.cu.data.first + offset)

def asReference (dw : DwarfInfo) (a : Attr) : Except Failure Die :=
  match Form.ofCode a.form with
  | some .ref1 => do
    let offset ← a.decode dw u8
    a.dieInUnit dw offset.toNat
  | some .ref2 => do
    let offset ← a.decode dw u16
    a.dieInUnit dw offset.toNat
  | some .ref4 => do
    let offset ← a.decode dw u32
    a.dieInUnit dw offset.toNat
  | some .ref8 => do
    let offset ← a.decode dw uleb128
    a.dieInUnit dw offset.toNat
  | some .refAddr => do
    let offset ← a.decode dw u32
    match dw.getSectionContents ".debug_info" with
    | none => .error .undefined
    | some debugInfo =>
      let diePos := debugInfo.first + offset.toNat
      match dw.compileUnits.find? fun cu => cu.data.first ≤ diePos ∧ diePos < cu.data.last with
      | none => .error .undefined
      | some cu => dw.parseDieAt cu diePos
  | _ => .error (.raised "Invalid reference type")

def asString (dw : DwarfInfo) (a : Attr) : Except Failure (List Byte) :=
  match Form.ofCode a.form with
  | some .string => a.decode dw string
  | some .strp => do
    let offset ← a.decode dw u32
    match dw.getSectionContents ".debug_str" with
    | none => .error .undefined
    | some debugStr => outcome string ⟨dw.image, debugStr.first + offset.toNat, debugStr.last⟩
  | _ => .error (.raised "Invalid string type")

end Attr

namespace DwarfInfo

mutual

/-- `operator ++` of the children iterator on the DIE it stands on. -/
def increment (dw : DwarfInfo) : ℕ → Die → Except Failure Die
  -- three ways to the next sibling
  | 0, _ => .error .exhausted
  | fuel + 1, d =>
    match d.abbrevEntry, d.cu with
    | none, _ => .ok d
    | some _, none => .error .undefined
    | some entry, some cu =>
      if !entry.hasChildren then dw.parseDieAt cu d.next
      else do
        if ← d.contains dwAtSibling then
          let sibling ← d.attrOf dwAtSibling
          sibling.asReference dw
        else
          let sub ← dw.parseDieAt cu d.next
          let last ← skipSiblings dw fuel sub
          dw.parseDieAt cu last.next

def skipSiblings (dw : DwarfInfo) : ℕ → Die → Except Failure Die
  | 0, _ => .error .exhausted
  | fuel + 1, d =>
    match d.abbrevEntry with
    | none => .ok d
    | some _ => do
      let d' ← increment dw fuel d
      skipSiblings dw fuel d'

end

def fuel (dw : DwarfInfo) : ℕ := 2 * dw.image.size + 2

/-- The DIEs an iterator standing on `d` yields until it equals `end()`. -/
def collect (dw : DwarfInfo) : ℕ → Die → Except Failure (List Die)
  | 0, _ => .error .exhausted
  | n + 1, d =>
    match d.abbrevEntry with
    | none => .ok []
    | some _ => do
      let d' ← dw.increment dw.fuel d
      let ds ← collect dw n d'
      pure (d :: ds)

/-- `children()`, iterated from `begin()` to `end()`. -/
def children (dw : DwarfInfo) (d : Die) : Except Failure (List Die) :=
  match d.abbrevEntry, d.cu with
  | some entry, some cu =>
    if entry.hasChildren then do
      let first ← dw.parseDieAt cu d.next
      dw.collect dw.fuel first
    else pure []
  | _, _ => .error .undefined

end DwarfInfo
end KDebugger.Dwarf
