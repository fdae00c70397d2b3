import KDebugger.Address
import KDebugger.Process.RegisterInfo
import KDebugger.Words

namespace KDebugger

open ByteStream Words

/-- `registers::value`; the floating-point alternatives by their encodings, a
`long double` with its six bytes of padding. -/
inductive Value where
  | u8 (v : BitVec 8)
  | u16 (v : BitVec 16)
  | u32 (v : BitVec 32)
  | u64 (v : BitVec 64)
  | i8 (v : BitVec 8)
  | i16 (v : BitVec 16)
  | i32 (v : BitVec 32)
  | i64 (v : BitVec 64)
  | float (v : BitVec 32)
  | double (v : BitVec 64)
  | longDouble (v : BitVec 128)
  | byte64 (v : BitVec 64)
  | byte128 (v : BitVec 128)
deriving DecidableEq, Repr

/-- The conversions between floating-point types, which are the machine's. -/
structure FloatCasts where
  floatToDouble : BitVec 32 → BitVec 64
  floatToLongDouble : BitVec 32 → BitVec 128
  doubleToLongDouble : BitVec 64 → BitVec 128
  longDoubleToDouble : BitVec 128 → BitVec 64

namespace Value

def size : Value → ℕ
  | u8 _ | i8 _ => 1
  | u16 _ | i16 _ => 2
  | u32 _ | i32 _ | float _ => 4
  | u64 _ | i64 _ | double _ | byte64 _ => 8
  | longDouble _ | byte128 _ => 16

/-- The object representation, as `to_byte128` extends it with zeros. -/
def toByte128 : Value → BitVec 128
  | u8 v | i8 v => v.setWidth 128
  | u16 v | i16 v => v.setWidth 128
  | u32 v | i32 v | float v => v.setWidth 128
  | u64 v | i64 v | double v | byte64 v => v.setWidth 128
  | longDouble v | byte128 v => v

end Value

def widenSigned {n : ℕ} (size : ℕ) (v : BitVec n) : BitVec 128 :=
  match size with
  | 2 => (v.signExtend 16).setWidth 128
  | 4 => (v.signExtend 32).setWidth 128
  | 8 => (v.signExtend 64).setWidth 128
  | _ => v.setWidth 128

def widen (casts : FloatCasts) (info : RegisterInfo) : Value → BitVec 128
  | .float v =>
    match info.format with
    | .doubleFloat => (casts.floatToDouble v).setWidth 128
    | .longDouble => casts.floatToLongDouble v
    | _ => v.setWidth 128
  | .double v =>
    match info.format with
    | .longDouble => casts.doubleToLongDouble v
    | _ => v.setWidth 128
  | .longDouble v =>
    match info.format with
    | .doubleFloat => (casts.longDoubleToDouble v).setWidth 128
    | _ => v
  | .i8 v => if info.format = .uint then widenSigned info.size v else v.setWidth 128
  | .i16 v => if info.format = .uint then widenSigned info.size v else v.setWidth 128
  | .i32 v => if info.format = .uint then widenSigned info.size v else v.setWidth 128
  | .i64 v => if info.format = .uint then widenSigned info.size v else v.setWidth 128
  -- any other value is filled up with zeros
  | v => v.toByte128

abbrev Tid := ℕ

abbrev UserArea := ℕ → Byte

structure Registers where
  data : UserArea
  undefined : List ℕ := []
  cfa : VirtAddr := 0#64
  tid : Tid

namespace Registers

/-- `is_undefined`, for a register with this info. -/
def isUndefined (regs : Registers) (info : RegisterInfo) : Bool :=
  regs.undefined.contains (info.offset / 2)

def undefine (regs : Registers) (info : RegisterInfo) : Registers :=
  { regs with undefined := regs.undefined ++ [info.offset / 2] }

def fromData (regs : Registers) (n offset : ℕ) : BitVec (8 * n) :=
  fromBytes n ((List.range n).map fun i => regs.data (offset + i))

def read (regs : Registers) (info : RegisterInfo) : Except Failure Value :=
  if regs.isUndefined info then .error (.raised "Register is undefined")
  else
    match info.format with
    | .uint =>
      match info.size with
      | 1 => .ok (.u8 (regs.fromData 1 info.offset))
      | 2 => .ok (.u16 (regs.fromData 2 info.offset))
      | 4 => .ok (.u32 (regs.fromData 4 info.offset))
      | 8 => .ok (.u64 (regs.fromData 8 info.offset))
      | _ => .error (.raised "Unexpected register size")
    | .doubleFloat => .ok (.double (regs.fromData 8 info.offset))
    | .longDouble => .ok (.longDouble (regs.fromData 16 info.offset))
    | .vector =>
      if info.size = 8 then .ok (.byte64 (regs.fromData 8 info.offset))
      else .ok (.byte128 (regs.fromData 16 info.offset))

def readU64 (regs : Registers) (info : RegisterInfo) : Except Failure (BitVec 64) :=
  match regs.read info with
  | .ok (.u64 v) => .ok v
  | .ok _ => .error (.raised "bad_variant_access")
  | .error e => .error e

def readByIdAsU64 (regs : Registers) (id : RegisterId) : Except Failure (BitVec 64) :=
  match registerInfoById id with
  | .ok info => regs.readU64 info
  | .error e => .error e

/-- The bytes of a value put into the file: as many as the value has, not as many as
the register has. -/
def put (regs : Registers) (info : RegisterInfo) (size : ℕ) (wide : BitVec 128) : Registers :=
  { regs with data := fun o =>
      if info.offset ≤ o ∧ o < info.offset + size then byteOf wide (o - info.offset)
      else regs.data o }

/-- What `write` does to the file; a value larger than the register ends the debugger. -/
def store (casts : FloatCasts) (regs : Registers) (info : RegisterInfo) (v : Value) :
    Except Failure Registers :=
  if v.size ≤ info.size then .ok (regs.put info v.size (widen casts info v)) else .error .aborted

def wordAt (regs : Registers) (offset : ℕ) : BitVec 64 := wordOf fun i => regs.data (offset + i)

theorem put_data_of_not_covers (regs : Registers) {info : RegisterInfo} {size : ℕ}
    (wide : BitVec 128) (hsize : size ≤ info.size) {o : ℕ} (ho : ¬ info.Covers o) :
    (regs.put info size wide).data o = regs.data o := by
  apply if_neg
  rintro ⟨hlo, hhi⟩
  exact ho ⟨hlo, by omega⟩

@[simp] theorem put_tid (regs : Registers) (info : RegisterInfo) (size : ℕ) (wide : BitVec 128) :
    (regs.put info size wide).tid = regs.tid := rfl

@[simp] theorem put_undefined (regs : Registers) (info : RegisterInfo) (size : ℕ)
    (wide : BitVec 128) : (regs.put info size wide).undefined = regs.undefined := rfl

theorem store_of_le {casts : FloatCasts} {regs : Registers} {info : RegisterInfo} {v : Value}
    (h : v.size ≤ info.size) :
    regs.store casts info v = .ok (regs.put info v.size (widen casts info v)) := if_pos h

end Registers
end KDebugger
