import KDebugger.Address
import KDebugger.Dwarf.Die
import KDebugger.Dwarf.EhPointer

namespace KDebugger.Dwarf

open ByteStream Exec Cur

inductive CfiRule (R : Type) where
  | undefined
  | sameValue
  | offset (n : BitVec 64)
  | valOffset (n : BitVec 64)
  | register (r : R)
deriving DecidableEq, Repr

structure CfaRegisterRule where
  reg : BitVec 32 := 0#32
  offset : BitVec 64 := 0#64
deriving DecidableEq, Repr

/-- `unwind_context::ruleset`, in the order of insertion. -/
abbrev Ruleset := List (BitVec 32 × CfiRule (BitVec 32))

namespace Ruleset

def find (rules : Ruleset) (reg : BitVec 32) : Option (CfiRule (BitVec 32)) :=
  (List.find? (fun x => x.1 == reg) rules).map Prod.snd

/-- `emplace`: nothing changes when the key is present. -/
def emplace (rules : Ruleset) (reg : BitVec 32) (rule : CfiRule (BitVec 32)) : Ruleset :=
  match rules.find reg with
  | some _ => rules
  | none => rules ++ [(reg, rule)]

end Ruleset

/-- `common_information_entry`, as far as its instructions need it. -/
structure Cie where
  codeAlignmentFactor : BitVec 64
  dataAlignmentFactor : BitVec 64
  fdePointerEncoding : Byte
  instructions : Span

structure Fde where
  cie : Cie
  initialLocation : FileAddr
  addressRange : BitVec 64
  instructions : Span

/-- What is read of the ELF file: its bytes, whose positions are file offsets, and the
addresses of two of its sections. -/
structure FrameElf where
  elf : ElfId
  image : Image
  textSectionStart : BitVec 64
  gotPltStart : Option (BitVec 64)

structure UnwindContext where
  location : FileAddr := {}
  cfaRule : CfaRegisterRule := {}
  cieRegisterRules : Ruleset := []
  registerRules : Ruleset := []
  ruleStack : List (Ruleset × CfaRegisterRule) := []

namespace UnwindContext

def emplace (ctx : UnwindContext) (reg : BitVec 64) (rule : CfiRule (BitVec 32)) :
    UnwindContext :=
  { ctx with registerRules := ctx.registerRules.emplace (reg.setWidth 32) rule }

def advance (ctx : UnwindContext) (delta : BitVec 64) : UnwindContext :=
  { ctx with location := ctx.location.add delta }

def restore (ctx : UnwindContext) (reg : BitVec 64) : Except Failure UnwindContext :=
  match ctx.cieRegisterRules.find (reg.setWidth 32) with
  | none => .error .outOfRange
  | some rule => .ok (ctx.emplace reg rule)

def rememberState (ctx : UnwindContext) : UnwindContext :=
  { ctx with ruleStack := (ctx.registerRules, ctx.cfaRule) :: ctx.ruleStack }

def restoreState (ctx : UnwindContext) : Except Failure UnwindContext :=
  match ctx.ruleStack with
  | [] => .error .undefined
  | (registerRules, cfaRule) :: ruleStack =>
    .ok { ctx with registerRules, cfaRule, ruleStack }

end UnwindContext

inductive CfaOp where
  | nop | setLoc | advanceLoc1 | advanceLoc2 | advanceLoc4 | offsetExtended | restoreExtended
  | undefined | sameValue | register | rememberState | restoreState | defCfa | defCfaRegister
  | defCfaOffset | defCfaExpression | expression | offsetExtendedSf | defCfaSf | defCfaOffsetSf
  | valOffset | valOffsetSf | valExpression
deriving DecidableEq, Repr

namespace CfaOp

def code : CfaOp → Byte
  | nop => 0x00 | setLoc => 0x01 | advanceLoc1 => 0x02 | advanceLoc2 => 0x03
  | advanceLoc4 => 0x04 | offsetExtended => 0x05 | restoreExtended => 0x06
  | undefined => 0x07 | sameValue => 0x08 | register => 0x09 | rememberState => 0x0a
  | restoreState => 0x0b | defCfa => 0x0c | defCfaRegister => 0x0d | defCfaOffset => 0x0e
  | defCfaExpression => 0x0f | expression => 0x10 | offsetExtendedSf => 0x11
  | defCfaSf => 0x12 | defCfaOffsetSf => 0x13 | valOffset => 0x14 | valOffsetSf => 0x15
  | valExpression => 0x16

def ofCode (c : Byte) : Option CfaOp :=
  [nop, setLoc, advanceLoc1, advanceLoc2, advanceLoc4, offsetExtended, restoreExtended, undefined,
    sameValue, register, rememberState, restoreState, defCfa, defCfaRegister, defCfaOffset,
    defCfaExpression, expression, offsetExtendedSf, defCfaSf, defCfaOffsetSf, valOffset,
    valOffsetSf, valExpression].find? fun op => op.code == c

@[simp] theorem ofCode_code (op : CfaOp) : ofCode op.code = some op := by
  cases op <;> decide

end CfaOp

/-- The bases `DW_CFA_set_loc` is decoded with: `DW_EH_PE_pcrel` takes the file offset of
the operand, not its address. -/
def FrameElf.setLocBases (elf : FrameElf) (fde : Fde) (operand : ℕ) : EhBases where
  pc := BitVec.ofNat 64 operand
  text := elf.textSectionStart
  data := elf.gotPltStart.getD 0#64
  func := fde.initialLocation.addr

/-- The switch over the extended opcodes.  `DW_CFA_nop`, `DW_CFA_def_cfa_register` and
everything it does not know fall through it. -/
def executeExtendedCfi (elf : FrameElf) (fde : Fde) (ctx : UnwindContext) (opcode : Byte) :
    Reader UnwindContext :=
  -- `DW_CFA_def_cfa_register` has no case, so that its operand is the next instruction
  let cie := fde.cie
  match CfaOp.ofCode opcode with
  | some .setLoc => do
    let operand ← position
    let loc ← parseEhFramePointer cie.fdePointerEncoding (elf.setLocBases fde operand)
    pure { ctx with location := ⟨some elf.elf, loc⟩ }
  | some .advanceLoc1 => do
    let delta ← u8
    pure (ctx.advance (delta.setWidth 64 * cie.codeAlignmentFactor))
  | some .advanceLoc2 => do
    let delta ← u16
    pure (ctx.advance (delta.setWidth 64 * cie.codeAlignmentFactor))
  | some .advanceLoc4 => do
    let delta ← u32
    pure (ctx.advance (delta.setWidth 64 * cie.codeAlignmentFactor))
  | some .defCfa => do
    let reg ← uleb128
    let offset ← uleb128
    pure { ctx with cfaRule := ⟨reg.setWidth 32, offset⟩ }
  | some .defCfaSf => do
    let reg ← uleb128
    let offset ← sleb128
    pure { ctx with cfaRule := ⟨reg.setWidth 32, offset * cie.dataAlignmentFactor⟩ }
  | some .defCfaOffset => do
    let offset ← uleb128
    pure { ctx with cfaRule := { ctx.cfaRule with offset } }
  | some .defCfaOffsetSf => do
    let offset ← sleb128
    pure { ctx with cfaRule := { ctx.cfaRule with offset := offset * cie.dataAlignmentFactor } }
  | some .defCfaExpression | some .expression | some .valExpression =>
    throw (.raised "DWARF expressions not yet implemented")
  | some .undefined => do
    let reg ← uleb128
    pure (ctx.emplace reg .undefined)
  | some .sameValue => do
    let reg ← uleb128
    pure (ctx.emplace reg .sameValue)
  | some .offsetExtended => do
    let reg ← uleb128
    let offset ← uleb128
    pure (ctx.emplace reg (.offset (offset * cie.dataAlignmentFactor)))
  | some .offsetExtendedSf => do
    let reg ← uleb128
    let offset ← sleb128
    pure (ctx.emplace reg (.offset (offset * cie.dataAlignmentFactor)))
  | some .valOffset => do
    let reg ← uleb128
    let offset ← uleb128
    pure (ctx.emplace reg (.valOffset (offset * cie.dataAlignmentFactor)))
  | some .valOffsetSf => do
    let reg ← uleb128
    let offset ← sleb128
    pure (ctx.emplace reg (.valOffset (offset * cie.dataAlignmentFactor)))
  | some .register => do
    let reg ← uleb128
    let other ← uleb128
    pure (ctx.emplace reg (.register (other.setWidth 32)))
  | some .restoreExtended => do
    let reg ← uleb128
    ofExcept (ctx.restore reg)
  | some .rememberState => pure ctx.rememberState
  | some .restoreState => ofExcept ctx.restoreState
  | some .nop | some .defCfaRegister | none => pure ctx

def executeCfiInstruction (elf : FrameElf) (fde : Fde) (ctx : UnwindContext) :
    Reader UnwindContext := do
  let opcode ← u8
  let primaryOpcode := opcode &&& 0xc0#8
  let extendedOpcode := opcode &&& 0x3f#8
  if primaryOpcode = 0x40#8 then
    pure (ctx.advance (extendedOpcode.setWidth 64 * fde.cie.codeAlignmentFactor))
  else if primaryOpcode = 0x80#8 then
    let offset ← uleb128
    pure (ctx.emplace (extendedOpcode.setWidth 64) (.offset (offset * fde.cie.dataAlignmentFactor)))
  else if primaryOpcode = 0xc0#8 then
    ofExcept (ctx.restore (extendedOpcode.setWidth 64))
  else executeExtendedCfi elf fde ctx extendedOpcode

def executeInitialInstructions (elf : FrameElf) (fde : Fde) :
    ℕ → UnwindContext → Reader UnwindContext
  | 0, _ => throw .exhausted
  | n + 1, ctx => do
    if ← finished then pure ctx
    else
      let ctx' ← executeCfiInstruction elf fde ctx
      executeInitialInstructions elf fde n ctx'

def executeInstructionsUntil (elf : FrameElf) (fde : Fde) (pc : FileAddr) :
    ℕ → UnwindContext → Reader UnwindContext
  | 0, _ => throw .exhausted
  | n + 1, ctx => do
    if ← finished then pure ctx
    else
      let reached ← ofExcept (ctx.location.le pc)
      if reached then
        let ctx' ← executeCfiInstruction elf fde ctx
        executeInstructionsUntil elf fde pc n ctx'
      else pure ctx

def FrameElf.cursorOver (elf : FrameElf) (s : Span) : Cursor := ⟨elf.image, s.first, s.last⟩

/-- The context `unwind` hands to `execute_unwind_rules`, once the FDE is parsed.  Every
instruction takes a byte, which bounds both loops. -/
def unwindContext (elf : FrameElf) (fde : Fde) (pc : FileAddr) : Except Failure UnwindContext := do
  let below ← pc.lt fde.initialLocation
  let past ← (fde.initialLocation.add fde.addressRange).le pc
  if below || past then .error (.raised "No unwind information at PC")
  else
    let cieSpan := fde.cie.instructions
    let ctx ← outcome (executeInitialInstructions elf fde (cieSpan.last - cieSpan.first + 1) {})
      (elf.cursorOver cieSpan)
    let span := fde.instructions
    outcome (executeInstructionsUntil elf fde pc (span.last - span.first + 1)
        { ctx with cieRegisterRules := ctx.registerRules, location := fde.initialLocation })
      (elf.cursorOver span)

end KDebugger.Dwarf
