import KDebugger.Dwarf.Die
import KDebugger.ElfLookup
import KDebugger.Process.Registers

namespace KDebugger.Expression

open ByteStream Exec Dwarf Cur

structure Env where
  self : ElfId
  elf : LoadedElf
  regs : Registers
  /-- `m_InFrameInfo` -/
  inFrameInfo : Bool
  functionContaining : FileAddr → Except Failure (Option Die)
  /-- `read_frame_base_result` of the evaluated `DW_AT_frame_base` -/
  frameBase : Die → Except Failure (BitVec 64)

/-- The local variables of `eval` that the loop changes. -/
structure State where
  stack : List (BitVec 64)
  /-- the number in a `register_result` -/
  mostRecentLocation : Option (BitVec 64) := none
deriving DecidableEq, Repr

def State.push (st : State) (v : BitVec 64) : State := { st with stack := v :: st.stack }

/-- The opcodes of the switch, with the codes DWARF 4 gives them. -/
inductive Opcode where
  | addr | const1u | const1s | const2u | const2s | const4u | const4s | const8u | const8s
  | constu | consts | dup | drop | «over» | pick | swap | rot | fbreg | bregx
deriving DecidableEq, Repr

namespace Opcode

def code : Opcode → Byte
  | addr => 0x03 | const1u => 0x08 | const1s => 0x09 | const2u => 0x0a | const2s => 0x0b
  | const4u => 0x0c | const4s => 0x0d | const8u => 0x0e | const8s => 0x0f | constu => 0x10
  | consts => 0x11 | dup => 0x12 | drop => 0x13 | «over» => 0x14 | pick => 0x15 | swap => 0x16
  | rot => 0x17 | fbreg => 0x91 | bregx => 0x92

def ofCode (c : Byte) : Option Opcode :=
  [addr, const1u, const1s, const2u, const2s, const4u, const4s, const8u, const8s, constu, consts,
    dup, drop, «over», pick, swap, rot, fbreg, bregx].find? fun op => op.code == c

@[simp] theorem ofCode_code (op : Opcode) : ofCode op.code = some op := by
  cases op <;> decide

end Opcode

def dwOpLit0 : Byte := 0x30
def dwOpLit31 : Byte := 0x4f
def dwOpReg0 : Byte := 0x50
def dwOpReg31 : Byte := 0x6f
def dwOpBreg0 : Byte := 0x70
def dwOpBreg31 : Byte := 0x8f

def Env.read (E : Env) (reg : BitVec 32) : Except Failure Value := do
  let info ← registerInfoByDwarf reg
  E.regs.read info

def getU64 : Value → Except Failure (BitVec 64)
  | .u64 v => .ok v
  | _ => .error (.raised "bad_variant_access")

/-- `file_addr{elf, a}.to_virt_addr()`: 0 outside all sections. -/
def Env.toVirtAddr (E : Env) (a : BitVec 64) : VirtAddr :=
  if (E.elf.sectionContaining a).isSome then a + E.elf.loadBias else 0#64

/-- The operand of `DW_OP_fbreg` is read as unsigned; without a function `value` raises. -/
def Env.frameBaseOf (E : Env) (func : Option Die) : Except Failure (BitVec 64) :=
  match func with
  | none => .error (.raised "bad_optional_access")
  | some d => E.frameBase d

def rearrange (st : State) (stack : Option (List (BitVec 64))) : Reader State :=
  match stack with
  | none => throw .undefined
  | some stack => pure { st with stack }

def State.dup : List (BitVec 64) → Option (List (BitVec 64))
  | x :: s => some (x :: x :: s)
  | _ => none

def State.drop : List (BitVec 64) → Option (List (BitVec 64))
  | _ :: s => some s
  | _ => none

def State.pick (i : ℕ) (s : List (BitVec 64)) : Option (List (BitVec 64)) :=
  s[i]?.map (· :: s)

/-- The top two elements exchanged, as the name says; the source hands both to `push_back`. -/
def State.swap : List (BitVec 64) → Option (List (BitVec 64))
  | x :: y :: s => some (y :: x :: s)
  | _ => none

/-- `std::rotate` of the top three, from the top on. -/
def State.rot : List (BitVec 64) → Option (List (BitVec 64))
  | x :: y :: z :: s => some (y :: z :: x :: s)
  | _ => none

def evalSwitch (E : Env) (func : Option Die) (st : State) (opcode : Byte) : Reader State :=
  match Opcode.ofCode opcode with
  | some .addr => do
    let v ← u64
    pure (st.push (E.toVirtAddr v))
  | some .const1u => do
    let v ← u8
    pure (st.push (v.setWidth 64))
  | some .const1s => do
    let v ← u8
    pure (st.push (v.signExtend 64))
  | some .const2u => do
    let v ← u16
    pure (st.push (v.setWidth 64))
  | some .const2s => do
    let v ← u16
    pure (st.push (v.signExtend 64))
  | some .const4u => do
    let v ← u32
    pure (st.push (v.setWidth 64))
  | some .const4s => do
    let v ← u32
    pure (st.push (v.signExtend 64))
  | some .const8u | some .const8s => do
    let v ← u64
    pure (st.push v)
  | some .constu => do
    let v ← uleb128
    pure (st.push v)
  | some .consts => do
    let v ← sleb128
    pure (st.push v)
  | some .bregx => do
    let reg ← uleb128
    let regVal ← ofExcept (E.read (reg.setWidth 32))
    let offset ← sleb128
    let v ← ofExcept (getU64 regVal)
    pure (st.push (v + offset))
  | some .fbreg => do
    let offset ← uleb128
    let base ← ofExcept (E.frameBaseOf func)
    pure (st.push (base + offset))
  | some .dup => rearrange st (State.dup st.stack)
  | some .drop => rearrange st (State.drop st.stack)
  | some .pick => do
    let i ← u8
    rearrange st (State.pick i.toNat st.stack)
  | some .«over» => rearrange st (State.pick 1 st.stack)
  | some .swap => rearrange st (State.swap st.stack)
  | some .rot => rearrange st (State.rot st.stack)
  | none => pure st

def evalTurn (E : Env) (func : Option Die) (st : State) : Reader State := do
  let opcode ← u8
  if dwOpLit0 ≤ opcode ∧ opcode ≤ dwOpLit31 then pure (st.push ((opcode - dwOpLit0).setWidth 64))
  else if dwOpBreg0 ≤ opcode ∧ opcode ≤ dwOpBreg31 then do
    let regVal ← ofExcept (E.read ((opcode - dwOpBreg0).setWidth 32))
    let offset ← sleb128
    let v ← ofExcept (getU64 regVal)
    pure (st.push (v + offset))
  else if dwOpReg0 ≤ opcode ∧ opcode ≤ dwOpReg31 then
    if E.inFrameInfo then do
      let regVal ← ofExcept (E.read ((opcode - dwOpReg0).setWidth 32))
      let v ← ofExcept (getU64 regVal)
      pure (st.push v)
    else pure { st with mostRecentLocation := some ((opcode - dwOpReg0).setWidth 64) }
  else evalSwitch E func st opcode

def evalTurns (E : Env) (func : Option Die) : ℕ → State → Reader State
  | 0, st => pure st
  | n + 1, st => do
    if ← finished then pure st
    else do
      let st' ← evalTurn E func st
      evalTurns E func n st'

/-- The function of the program counter; both the register and the function are looked up
before the loop. -/
def Env.function (E : Env) : Except Failure (Option Die) := do
  let rip ← E.regs.readByIdAsU64 (.gpr64 .rip)
  E.functionContaining (E.elf.toFileAddr E.self rip)

def Env.initialStack (E : Env) (pushCfa : Bool) : List (BitVec 64) :=
  if pushCfa then [E.regs.cfa] else []

/-- `eval` for at most `turns` turns.  Every turn takes a byte, so that it has run to its end
where there are more turns than bytes. -/
def eval (E : Env) (stack : List (BitVec 64)) (turns : ℕ) : Reader State := do
  let func ← ofExcept E.function
  evalTurns E func turns { stack }

end KDebugger.Expression
