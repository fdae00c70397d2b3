import KDebugger.Dwarf.CallFrame
import KDebugger.Dwarf.LineTable
import KDebugger.Elf
import KDebugger.Process.MemoryReads
import KDebugger.Process.RegisterWrites

namespace KDebugger.Process

open ByteStream Exec Dwarf

structure Traced (σ : Type) where
  getRegisters : Option Tid → EStateM Failure σ Registers
  readMemory : VirtAddr → ℕ → EStateM Failure σ (List Byte)
  write : Registers → RegisterInfo → Value → EStateM Failure σ Registers

def inferior : Traced Process where
  getRegisters otid := getRegisters otid
  readMemory := readMemory
  write regs info v := regs.write info v false

/-- `source_location`, the file by its index. -/
structure SourceLocation where
  file : Option (BitVec 64)
  line : BitVec 64
deriving DecidableEq, Repr

structure FrameInfo where
  elves : Elves
  mainElf : ElfId
  frameElf : FrameElf
  /-- `eh_hdr::operator []` and `parse_fde` -/
  fdeAt : FileAddr → Except Failure Fde
  inlineStackAtAddress : FileAddr → Except Failure (List Die)
  /-- none for an iterator that equals a default one -/
  lineEntryAtAddress : FileAddr → Except Failure (Option Entry)
  lowPc : Die → Except Failure FileAddr
  location : Die → Except Failure SourceLocation

structure StackFrame where
  regs : Registers
  backtraceReportAddress : VirtAddr
  funcDie : Die
  inlined : Bool := false
  location : SourceLocation

section Unwinding

variable {σ : Type} (T : Traced σ)

def unwindRule (oldRegs : Registers) (cfa : BitVec 64) (unwound : Registers)
    (x : BitVec 32 × CfiRule (BitVec 32)) : EStateM Failure σ Registers := do
  let info ← ofExcept (registerInfoByDwarf x.1)
  match x.2 with
  | .undefined => pure (unwound.undefine info)
  | .sameValue => pure unwound
  | .register reg => do
    let other ← ofExcept (registerInfoByDwarf reg)
    let value ← ofExcept (oldRegs.read other)
    T.write unwound info value
  | .offset n => do
    let bytes ← T.readMemory (cfa + n) 8
    T.write unwound info (.u64 (fromBytes 8 bytes))
  | .valOffset n => T.write unwound info (.u64 (cfa + n))

def unwindRules (oldRegs : Registers) (cfa : BitVec 64) :
    Ruleset → Registers → EStateM Failure σ Registers
  | [], unwound => pure unwound
  | x :: rules, unwound => do
    let unwound ← unwindRule T oldRegs cfa unwound x
    unwindRules oldRegs cfa rules unwound

/-- `execute_unwind_rules`: the old registers, of which the CFA is set, and the unwound
ones. -/
def executeUnwindRules (ctx : UnwindContext) (oldRegs : Registers) :
    EStateM Failure σ (Registers × Registers) := do
  let cfaRegInfo ← ofExcept (registerInfoByDwarf ctx.cfaRule.reg)
  let base ← ofExcept (oldRegs.readU64 cfaRegInfo)
  let cfa := base + ctx.cfaRule.offset
  let rsp ← ofExcept (registerInfoById (.gpr64 .rsp))
  let unwound ← T.write oldRegs rsp (.u64 cfa)
  let unwound ← unwindRules T { oldRegs with cfa } cfa ctx.registerRules unwound
  pure ({ oldRegs with cfa }, unwound)

def cfiUnwind (I : FrameInfo) (pc : FileAddr) (regs : Registers) :
    EStateM Failure σ (Registers × Registers) := do
  let fde ← ofExcept (I.fdeAt pc)
  let ctx ← ofExcept (unwindContext I.frameElf fde pc)
  executeUnwindRules T ctx regs

def Traced.getPc (otid : Option Tid) : EStateM Failure σ VirtAddr := do
  let regs ← T.getRegisters otid
  ofExcept (regs.readByIdAsU64 (.gpr64 .rip))

def getPcFileAddress (I : FrameInfo) (otid : Option Tid) : EStateM Failure σ FileAddr := do
  let pc ← T.getPc otid
  pure (I.elves.toFileAddr pc)

def countInlined (I : FrameInfo) (pc : FileAddr) : List Die → Except Failure ℕ
  | [] => .ok 0
  | d :: ds => do
    let lowPc ← I.lowPc d
    if lowPc = pc then
      let n ← countInlined I pc ds
      pure (n + 1)
    else pure 0

def inlineStackAtPc (I : FrameInfo) (tid : Tid) : EStateM Failure σ (List Die) := do
  let pc ← getPcFileAddress T I (some tid)
  if pc.elf = none then pure [] else ofExcept (I.inlineStackAtAddress pc)

/-- `reset_inline_height`, which takes the program counter of the current thread. -/
def resetInlineHeight (I : FrameInfo) (tid : Tid) : EStateM Failure σ ℕ := do
  let stack ← inlineStackAtPc T I tid
  let pc ← getPcFileAddress T I none
  ofExcept (countInlined I pc stack.reverse)

def createBaseFrame (I : FrameInfo) (regs : Registers) (d : Die) (pc : FileAddr)
    (inlined : Bool) : Except Failure StackFrame := do
  let backtracePc ← I.elves.toVirtAddr pc
  let lineEntry ← I.lineEntryAtAddress pc
  let entry := lineEntry.getD {}
  let backtracePc ← if lineEntry = none then .ok backtracePc else I.elves.toVirtAddr entry.address
  pure ⟨regs, backtracePc, d, inlined, ⟨entry.fileEntry, entry.line⟩⟩

/-- `create_inline_stack_frames`, the innermost function first. -/
def createInlineStackFrames (I : FrameInfo) (regs : Registers) :
    List Die → Except Failure (List StackFrame)
  | inner :: outer :: ds => do
    let lowPc ← I.lowPc inner
    let inlinedPc ← I.elves.toVirtAddr lowPc
    let location ← I.location inner
    let frames ← createInlineStackFrames I regs (outer :: ds)
    pure (⟨regs, inlinedPc, outer, !ds.isEmpty, location⟩ :: frames)
  | _ => .ok []

def withLastRegs (frames : List StackFrame) (regs : Registers) : List StackFrame :=
  match frames.getLast? with
  | none => frames
  | some frame => frames.dropLast ++ [{ frame with regs }]

def unwindFrames (I : FrameInfo) :
    ℕ → VirtAddr → FileAddr → Registers → List StackFrame → EStateM Failure σ (List StackFrame)
  -- only the program counter is looked at
  | 0, _, _, _, _ => throw .exhausted
  | n + 1, virtPc, filePc, regs, frames => do
    if virtPc = 0#64 ∨ filePc.elf ≠ some I.mainElf then pure frames
    else do
      let inlineStack ← ofExcept (I.inlineStackAtAddress filePc)
      match inlineStack.reverse with
      | [] => pure frames
      | d :: ds => do
        let base ← ofExcept (createBaseFrame I regs d filePc !ds.isEmpty)
        let inlined ← ofExcept (createInlineStackFrames I regs (d :: ds))
        let (left, regs) ← cfiUnwind T I filePc regs
        let rip ← ofExcept (regs.readByIdAsU64 (.gpr64 .rip))
        let virtPc := rip - 1#64
        unwindFrames I n virtPc (I.elves.toFileAddr virtPc) regs
          (withLastRegs (frames ++ base :: inlined) left)

/-- `stack::unwind`: the inline height and the frames. -/
def stackUnwind (I : FrameInfo) (n : ℕ) (tid : Tid) :
    EStateM Failure σ (ℕ × List StackFrame) := do
  let height ← resetInlineHeight T I tid
  let virtPc ← T.getPc (some tid)
  let filePc ← getPcFileAddress T I (some tid)
  let regs ← T.getRegisters (some tid)
  if filePc.elf = none then pure (height, [])
  else do
    let frames ← unwindFrames T I n virtPc filePc regs []
    pure (height, frames)

end Unwinding
end KDebugger.Process
