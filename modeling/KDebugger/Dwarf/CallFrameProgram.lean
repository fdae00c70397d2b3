import KDebugger.Dwarf.CallFrame
import Mathlib.Logic.Function.Basic

namespace KDebugger.Dwarf

open ByteStream Leb128 Exec Cur

instance neZero_operands : NeZero 64 := ⟨by decide⟩

inductive CfiInstr where
  | nop
  | advanceLoc (delta : Fin 64)
  | advanceLoc1 (delta : BitVec 8)
  | advanceLoc2 (delta : BitVec 16)
  | advanceLoc4 (delta : BitVec 32)
  | setLoc (op : EhOperand)
  | defCfa (reg n : Uleb)
  | defCfaSf (reg : Uleb) (n : Sleb)
  | defCfaRegister (reg : Uleb)
  | defCfaOffset (n : Uleb)
  | defCfaOffsetSf (n : Sleb)
  | undefined (reg : Uleb)
  | sameValue (reg : Uleb)
  | offset (reg : Fin 64) (n : Uleb)
  | offsetExtended (reg n : Uleb)
  | offsetExtendedSf (reg : Uleb) (n : Sleb)
  | valOffset (reg n : Uleb)
  | valOffsetSf (reg : Uleb) (n : Sleb)
  | register (reg other : Uleb)
  | restore (reg : Fin 64)
  | restoreExtended (reg : Uleb)
  | rememberState
  | restoreState

namespace CfiInstr

def bytes : CfiInstr → List Byte
  | nop => [CfaOp.nop.code]
  | advanceLoc delta => [0x40#8 ||| BitVec.ofNat 8 delta]
  | advanceLoc1 delta => [CfaOp.advanceLoc1.code] ++ [delta]
  | advanceLoc2 delta => [CfaOp.advanceLoc2.code] ++ leBytes 2 delta.toNat
  | advanceLoc4 delta => [CfaOp.advanceLoc4.code] ++ leBytes 4 delta.toNat
  | setLoc op => [CfaOp.setLoc.code] ++ op.bytes
  | defCfa reg n => [CfaOp.defCfa.code] ++ (reg.bytes ++ n.bytes)
  | defCfaSf reg n => [CfaOp.defCfaSf.code] ++ (reg.bytes ++ n.bytes)
  | defCfaRegister reg => [CfaOp.defCfaRegister.code] ++ reg.bytes
  | defCfaOffset n => [CfaOp.defCfaOffset.code] ++ n.bytes
  | defCfaOffsetSf n => [CfaOp.defCfaOffsetSf.code] ++ n.bytes
  | undefined reg => [CfaOp.undefined.code] ++ reg.bytes
  | sameValue reg => [CfaOp.sameValue.code] ++ reg.bytes
  | offset reg n => [0x80#8 ||| BitVec.ofNat 8 reg] ++ n.bytes
  | offsetExtended reg n => [CfaOp.offsetExtended.code] ++ (reg.bytes ++ n.bytes)
  | offsetExtendedSf reg n => [CfaOp.offsetExtendedSf.code] ++ (reg.bytes ++ n.bytes)
  | valOffset reg n => [CfaOp.valOffset.code] ++ (reg.bytes ++ n.bytes)
  | valOffsetSf reg n => [CfaOp.valOffsetSf.code] ++ (reg.bytes ++ n.bytes)
  | register reg other => [CfaOp.register.code] ++ (reg.bytes ++ other.bytes)
  | restore reg => [0xc0#8 ||| BitVec.ofNat 8 reg]
  | restoreExtended reg => [CfaOp.restoreExtended.code] ++ reg.bytes
  | rememberState => [CfaOp.rememberState.code]
  | restoreState => [CfaOp.restoreState.code]

end CfiInstr

/-- What an instruction does to the row.  Next to what its operands mean stands what the
decoder makes of them: a signed operand may be misread, a register number is cut to 32
bits. -/
inductive RowAction where
  | keep
  | assign (reg : ℕ) (meant written : CfiRule ℕ)
  | restore (reg : ℕ)
  | cfa (reg : ℕ) (meant written : BitVec 64)
  | cfaRegister (reg : ℕ)
  | cfaOffset (meant written : BitVec 64)
  | remember
  | bringBack

def CfiInstr.action (daf : BitVec 64) : CfiInstr → RowAction
  | .nop | .advanceLoc _ | .advanceLoc1 _ | .advanceLoc2 _ | .advanceLoc4 _ | .setLoc _ => .keep
  | .defCfa reg n => .cfa reg.value n.unsigned n.unsigned
  | .defCfaSf reg n => .cfa reg.value (n.signed * daf) (slebRead n.toLeb * daf)
  | .defCfaRegister reg => .cfaRegister reg.value
  | .defCfaOffset n => .cfaOffset n.unsigned n.unsigned
  | .defCfaOffsetSf n => .cfaOffset (n.signed * daf) (slebRead n.toLeb * daf)
  | .undefined reg => .assign reg.value .undefined .undefined
  | .sameValue reg => .assign reg.value .sameValue .sameValue
  | .offset reg n => .assign reg (.offset (n.unsigned * daf)) (.offset (n.unsigned * daf))
  | .offsetExtended reg n =>
    .assign reg.value (.offset (n.unsigned * daf)) (.offset (n.unsigned * daf))
  | .offsetExtendedSf reg n =>
    .assign reg.value (.offset (n.signed * daf)) (.offset (slebRead n.toLeb * daf))
  | .valOffset reg n =>
    .assign reg.value (.valOffset (n.unsigned * daf)) (.valOffset (n.unsigned * daf))
  | .valOffsetSf reg n =>
    .assign reg.value (.valOffset (n.signed * daf)) (.valOffset (slebRead n.toLeb * daf))
  | .register reg other =>
    .assign reg.value (.register other.value) (.register (other.value % 2 ^ 32))
  | .restore reg => .restore reg
  | .restoreExtended reg => .restore reg.value
  | .rememberState => .remember
  | .restoreState => .bringBack

/-- A row and the rows saved by `DW_CFA_remember_state`. -/
structure Stacked (R : Type) where
  row : R
  saved : List R

namespace Stacked

variable {R : Type}

def update (t : Stacked R) (f : R → R) : Stacked R := { t with row := f t.row }

def remember (t : Stacked R) : Stacked R := { t with saved := t.row :: t.saved }

def bringBack (t : Stacked R) : Stacked R :=
  match t.saved with
  | [] => t
  | row :: saved => ⟨row, saved⟩

end Stacked

structure FrameRow where
  cfaReg : ℕ := 0
  cfaOffset : BitVec 64 := 0#64
  rules : ℕ → Option (CfiRule ℕ) := fun _ => none

def FrameRow.step (initial : ℕ → Option (CfiRule ℕ)) (t : Stacked FrameRow) :
    RowAction → Stacked FrameRow
  | .keep => t
  | .assign reg meant _ =>
    t.update fun row => { row with rules := Function.update row.rules reg (some meant) }
  | .restore reg =>
    t.update fun row => { row with rules := Function.update row.rules reg (initial reg) }
  | .cfa reg meant _ => t.update fun row => { row with cfaReg := reg, cfaOffset := meant }
  | .cfaRegister reg => t.update fun row => { row with cfaReg := reg }
  | .cfaOffset meant _ => t.update fun row => { row with cfaOffset := meant }
  | .remember => t.remember
  | .bringBack => t.bringBack

def FrameRow.run (initial : ℕ → Option (CfiRule ℕ)) (t : Stacked FrameRow) (as : List RowAction) :
    Stacked FrameRow :=
  as.foldl (FrameRow.step initial) t

/-- A rule given to a register: as it is meant and as it is written down. -/
structure Assignment where
  meant : CfiRule ℕ
  written : CfiRule ℕ

/-- The assignments in force, oldest first, and whether the offset of the CFA in force
was read right. -/
structure Live where
  assigned : ℕ → List Assignment := fun _ => []
  cfaRight : Bool := true

namespace Live

def push (l : Live) (reg : ℕ) (a : Assignment) : Live :=
  { l with assigned := Function.update l.assigned reg (l.assigned reg ++ [a]) }

/-- The rule a restore gives back: the last one the initial instructions assigned, of
which the first was written down. -/
def restored (initial : ℕ → List Assignment) (reg : ℕ) : Option Assignment :=
  match (initial reg).head?, (initial reg).getLast? with
  | some first, some last => some ⟨last.meant, first.written⟩
  | _, _ => none

def step (initial : ℕ → List Assignment) (t : Stacked Live) : RowAction → Stacked Live
  | .keep | .cfaRegister _ => t
  | .assign reg meant written => t.update (·.push reg ⟨meant, written⟩)
  | .restore reg =>
    match restored initial reg with
    | none => t
    | some a => t.update (·.push reg a)
  | .cfa _ meant written | .cfaOffset meant written =>
    t.update fun l => { l with cfaRight := meant == written }
  | .remember => t.remember
  | .bringBack => t.bringBack

def run (initial : ℕ → List Assignment) (t : Stacked Live) (as : List RowAction) : Stacked Live :=
  as.foldl (step initial) t

end Live

end KDebugger.Dwarf
