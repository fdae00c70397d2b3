import KDebugger.Process.RegisterWrites

namespace KDebugger.Process

open Exec

def encodeHardwareStoppointMode : StoppointMode → BitVec 64
  | .write => 0b01#64
  | .readWrite => 0b11#64
  | .execute => 0b00#64

def encodeHardwareStoppointSize : ℕ → Except Failure (BitVec 64)
  | 1 => .ok 0b00#64
  | 2 => .ok 0b01#64
  | 4 => .ok 0b11#64
  | 8 => .ok 0b10#64
  | _ => .error (.raised "Invalid stoppoint size")

/-- An `int` in an expression with a 64-bit operand. -/
def intMask (v : BitVec 32) : BitVec 64 := v.signExtend 64

def findFreeStoppointRegister (control : BitVec 64) : Except Failure ℕ :=
  match (List.range 4).find? fun i => control &&& intMask (0b11#32 <<< (i * 2)) == 0#64 with
  | none => .error (.raised "No remaining hardware debug registers")
  | some i => .ok i

def clearMask (i : ℕ) : BitVec 32 := (0b11#32 <<< (i * 2)) ||| (0b1111#32 <<< (i * 4 + 16))

def clearSlot (control : BitVec 64) (i : ℕ) : BitVec 64 := control &&& intMask (~~~clearMask i)

def setSlot (control : BitVec 64) (i : ℕ) (modeFlag sizeFlag : BitVec 64) : BitVec 64 :=
  clearSlot control i |||
    (intMask (1#32 <<< (i * 2)) ||| (modeFlag <<< (i * 4 + 16)) ||| (sizeFlag <<< (i * 4 + 18)))

def debugRegister (index : ℤ) : Except Failure RegisterId :=
  RegisterId.ofCode ((RegisterId.dr 0).code + index)

def writeOtherThreads (id : RegisterId) (v : Value) (masked : BitVec 64) : M Unit := do
  let s ← get
  s.threads.tids.forM fun tid =>
    if tid = s.currentThread then pure ()
    else do
      writeRegisterById (some tid) id v true
      writeRegisterById (some tid) (.dr 7) (.u64 masked) true

def setHardwareStoppoint (address : VirtAddr) (mode : StoppointMode) (size : ℕ) : M ℕ := do
  let regs ← getRegisters
  let control ← ofExcept (regs.readByIdAsU64 (.dr 7))
  let freeSpace ← ofExcept (findFreeStoppointRegister control)
  let id ← ofExcept (debugRegister freeSpace)
  -- before the size is looked at, and not taken back
  writeRegisterById none id (.u64 address) true
  let modeFlag := encodeHardwareStoppointMode mode
  let sizeFlag ← ofExcept (encodeHardwareStoppointSize size)
  let masked := setSlot control freeSpace modeFlag sizeFlag
  writeRegisterById none (.dr 7) (.u64 masked) true
  writeOtherThreads id (.u64 address) masked
  pure freeSpace

def shiftIndex : ℤ → Except Failure ℕ
  | .ofNat i => if i * 4 + 16 < 32 then .ok i else .error .undefined
  | .negSucc _ => .error .undefined

/-- `clear_hardware_stoppoint`.  The zero that is written is an `int`, of four bytes. -/
def clearHardwareStoppoint (index : ℤ) : M Unit := do
  let id ← ofExcept (debugRegister index)
  writeRegisterById none id (.i32 0#32) true
  let regs ← getRegisters
  let control ← ofExcept (regs.readByIdAsU64 (.dr 7))
  let i ← ofExcept (shiftIndex index)
  let masked := clearSlot control i
  writeRegisterById none (.dr 7) (.u64 masked) true
  writeOtherThreads id (.i32 0#32) masked

/-- `set_hardware_breakpoint`; the id is not used. -/
def setHardwareBreakpoint (_id : BitVec 32) (address : VirtAddr) : M ℕ :=
  setHardwareStoppoint address .execute 1

/-- `set_watchpoint`; the id is not used. -/
def setWatchpoint (_id : BitVec 32) (address : VirtAddr) (mode : StoppointMode) (size : ℕ) : M ℕ :=
  setHardwareStoppoint address mode size

end KDebugger.Process
