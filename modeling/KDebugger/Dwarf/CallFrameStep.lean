import KDebugger.Dwarf.CallFrameProgram
import Mathlib.Tactic.FinCases

namespace KDebugger.Dwarf

open ByteStream Leb128 Exec Cur

def CfiRule.map {R S : Type} (f : R → S) : CfiRule R → CfiRule S
  | .undefined => .undefined
  | .sameValue => .sameValue
  | .offset n => .offset n
  | .valOffset n => .valOffset n
  | .register r => .register (f r)

def UnwindContext.act (ctx : UnwindContext) : RowAction → Except Failure UnwindContext
  | .keep | .cfaRegister _ => .ok ctx
  | .assign reg _ written =>
    .ok (ctx.emplace (BitVec.ofNat 64 reg) (written.map (BitVec.ofNat 32)))
  | .restore reg => ctx.restore (BitVec.ofNat 64 reg)
  | .cfa reg _ written => .ok { ctx with cfaRule := ⟨(BitVec.ofNat 64 reg).setWidth 32, written⟩ }
  | .cfaOffset _ written => .ok { ctx with cfaRule := { ctx.cfaRule with offset := written } }
  | .remember => .ok ctx.rememberState
  | .bringBack => ctx.restoreState

/-- The location after an instruction that starts at `p`. -/
def CfiInstr.moved (elf : FrameElf) (fde : Fde) (base : EhBase) (p : ℕ) (loc : FileAddr) :
    CfiInstr → FileAddr
  | .advanceLoc delta => loc.add (BitVec.ofNat 64 delta * fde.cie.codeAlignmentFactor)
  | .advanceLoc1 delta => loc.add (delta.setWidth 64 * fde.cie.codeAlignmentFactor)
  | .advanceLoc2 delta => loc.add (delta.setWidth 64 * fde.cie.codeAlignmentFactor)
  | .advanceLoc4 delta => loc.add (delta.setWidth 64 * fde.cie.codeAlignmentFactor)
  | .setLoc op => ⟨some elf.elf, (elf.setLocBases fde (p + 1)).of base + op.decoded⟩
  | _ => loc

/-- The context after an instruction that starts at `p`. -/
def UnwindContext.exec (elf : FrameElf) (fde : Fde) (base : EhBase) (p : ℕ) (ctx : UnwindContext)
    (i : CfiInstr) : Except Failure UnwindContext :=
  { ctx with location := i.moved elf fde base p ctx.location }.act
    (i.action fde.cie.dataAlignmentFactor)

/-- The operand of a `DW_CFA_set_loc` is in the encoding of the CIE, which is direct. -/
def CfiInstr.Fits (encoding : Byte) (base : EhBase) : CfiInstr → Prop
  | .setLoc op =>
    op.format.code = encoding &&& 0x0f#8 ∧ base.code = encoding &&& 0x70#8 ∧
      encoding &&& 0x80#8 = 0#8
  | _ => True

/-- Not the instruction without a case. -/
def CfiInstr.Known (i : CfiInstr) : Prop := ∀ reg, i ≠ .defCfaRegister reg

theorem advanceLoc_opcode (d : Fin 64) :
    (0x40#8 ||| BitVec.ofNat 8 d) &&& 0xc0#8 = 0x40#8 ∧
      ((0x40#8 ||| BitVec.ofNat 8 d) &&& 0x3f#8).setWidth 64 = BitVec.ofNat 64 d := by
  revert d
  decide

theorem offset_opcode (d : Fin 64) :
    (0x80#8 ||| BitVec.ofNat 8 d) &&& 0xc0#8 = 0x80#8 ∧
      ((0x80#8 ||| BitVec.ofNat 8 d) &&& 0x3f#8).setWidth 64 = BitVec.ofNat 64 d := by
  revert d
  decide

theorem restore_opcode (d : Fin 64) :
    (0xc0#8 ||| BitVec.ofNat 8 d) &&& 0xc0#8 = 0xc0#8 ∧
      ((0xc0#8 ||| BitVec.ofNat 8 d) &&& 0x3f#8).setWidth 64 = BitVec.ofNat 64 d := by
  revert d
  decide

section Execution

variable {elf : FrameElf} {fde : Fde} {ctx : UnwindContext}

theorem gives_extended (op : CfaOp) {bs : List Byte} {x : Except Failure UnwindContext}
    (h : Gives (executeExtendedCfi elf fde ctx op.code) bs x) :
    Gives (executeCfiInstruction elf fde ctx) ([op.code] ++ bs) x := by
  have hp : op.code &&& 0xc0#8 = 0x00#8 := by cases op <;> decide
  have he : op.code &&& 0x3f#8 = op.code := by cases op <;> decide
  refine gives_bind (reads_u8 op.code) ?_
  rw [hp, he]
  exact h

theorem gives_bare (op : CfaOp) {x : Except Failure UnwindContext}
    (h : Gives (executeExtendedCfi elf fde ctx op.code) [] x) :
    Gives (executeCfiInstruction elf fde ctx) [op.code] x := gives_extended op h

theorem register_map (other : Uleb) :
    (CfiRule.register (other.value % 2 ^ 32)).map (BitVec.ofNat 32) =
      CfiRule.register (other.unsigned.setWidth 32) := by
  simp only [CfiRule.map, CfiRule.register.injEq]
  apply BitVec.eq_of_toNat_eq
  rw [BitVec.toNat_ofNat, BitVec.toNat_setWidth, other.unsigned_toNat, Nat.mod_mod]

theorem gives_execute {base : EhBase} (p : ℕ) {i : CfiInstr} (hi : i.Known)
    (hset : ∀ op, i ≠ .setLoc op) :
    Gives (executeCfiInstruction elf fde ctx) i.bytes (ctx.exec elf fde base p i) := by
  cases i with
  | setLoc op => exact absurd rfl (hset op)
  | defCfaRegister reg => exact absurd rfl (hi reg)
  | nop => exact gives_bare .nop (reads_pure ctx).gives
  | rememberState => exact gives_bare .rememberState (reads_pure _).gives
  | restoreState => exact gives_bare .restoreState (gives_ofExcept _)
  | advanceLoc delta =>
    obtain ⟨hp, he⟩ := advanceLoc_opcode delta
    change Gives _ ([0x40#8 ||| BitVec.ofNat 8 delta] ++ []) _
    refine gives_bind (reads_u8 _) ?_
    simp only [hp, he, if_true]
    exact (reads_pure _).gives
  | offset reg n =>
    obtain ⟨hp, he⟩ := offset_opcode reg
    refine gives_bind (reads_u8 _) ?_
    simp only [hp, he, if_true, if_neg (by decide : ¬ (0x80#8 : Byte) = 0x40#8)]
    exact (reads_map (fun n => ctx.emplace (BitVec.ofNat 64 reg)
      (.offset (n * fde.cie.dataAlignmentFactor))) (reads_uleb128 n.toLeb)).gives
  | restore reg =>
    obtain ⟨hp, he⟩ := restore_opcode reg
    change Gives _ ([0xc0#8 ||| BitVec.ofNat 8 reg] ++ []) _
    refine gives_bind (reads_u8 _) ?_
    simp only [hp, he, if_true, if_neg (by decide : ¬ (0xc0#8 : Byte) = 0x40#8),
      if_neg (by decide : ¬ (0xc0#8 : Byte) = 0x80#8)]
    exact gives_ofExcept _
  | advanceLoc1 delta =>
    exact gives_extended .advanceLoc1 (reads_map (fun delta : BitVec 8 =>
      ctx.advance (delta.setWidth 64 * fde.cie.codeAlignmentFactor)) (reads_u8 delta)).gives
  | advanceLoc2 delta =>
    exact gives_extended .advanceLoc2 (reads_map (fun delta : BitVec 16 =>
      ctx.advance (delta.setWidth 64 * fde.cie.codeAlignmentFactor)) (reads_u16 delta)).gives
  | advanceLoc4 delta =>
    exact gives_extended .advanceLoc4 (reads_map (fun delta : BitVec 32 =>
      ctx.advance (delta.setWidth 64 * fde.cie.codeAlignmentFactor)) (reads_u32 delta)).gives
  | defCfa reg n =>
    exact gives_extended .defCfa (reads_bind (reads_uleb128 reg.toLeb) (reads_map
      (fun n => { ctx with cfaRule := ⟨reg.unsigned.setWidth 32, n⟩ })
      (reads_uleb128 n.toLeb))).gives
  | defCfaSf reg n =>
    exact gives_extended .defCfaSf (reads_bind (reads_uleb128 reg.toLeb) (reads_map
      (fun n => { ctx with
        cfaRule := ⟨reg.unsigned.setWidth 32, n * fde.cie.dataAlignmentFactor⟩ })
      (reads_sleb128 n.toLeb))).gives
  | defCfaOffset n =>
    exact gives_extended .defCfaOffset (reads_map
      (fun n => ({ ctx with cfaRule := ⟨ctx.cfaRule.reg, n⟩ } : UnwindContext))
      (reads_uleb128 n.toLeb)).gives
  | defCfaOffsetSf n =>
    exact gives_extended .defCfaOffsetSf (reads_map
      (fun n => ({ ctx with
        cfaRule := ⟨ctx.cfaRule.reg, n * fde.cie.dataAlignmentFactor⟩ } : UnwindContext))
      (reads_sleb128 n.toLeb)).gives
  | undefined reg =>
    exact gives_extended .undefined (reads_map (fun reg => ctx.emplace reg .undefined)
      (reads_uleb128 reg.toLeb)).gives
  | sameValue reg =>
    exact gives_extended .sameValue (reads_map (fun reg => ctx.emplace reg .sameValue)
      (reads_uleb128 reg.toLeb)).gives
  | offsetExtended reg n =>
    exact gives_extended .offsetExtended (reads_bind (reads_uleb128 reg.toLeb) (reads_map
      (fun n => ctx.emplace reg.unsigned (.offset (n * fde.cie.dataAlignmentFactor)))
      (reads_uleb128 n.toLeb))).gives
  | offsetExtendedSf reg n =>
    exact gives_extended .offsetExtendedSf (reads_bind (reads_uleb128 reg.toLeb) (reads_map
      (fun n => ctx.emplace reg.unsigned (.offset (n * fde.cie.dataAlignmentFactor)))
      (reads_sleb128 n.toLeb))).gives
  | valOffset reg n =>
    exact gives_extended .valOffset (reads_bind (reads_uleb128 reg.toLeb) (reads_map
      (fun n => ctx.emplace reg.unsigned (.valOffset (n * fde.cie.dataAlignmentFactor)))
      (reads_uleb128 n.toLeb))).gives
  | valOffsetSf reg n =>
    exact gives_extended .valOffsetSf (reads_bind (reads_uleb128 reg.toLeb) (reads_map
      (fun n => ctx.emplace reg.unsigned (.valOffset (n * fde.cie.dataAlignmentFactor)))
      (reads_sleb128 n.toLeb))).gives
  | register reg other =>
    have h : Gives (executeCfiInstruction elf fde ctx) (CfiInstr.register reg other).bytes
        (.ok (ctx.emplace reg.unsigned (.register (other.unsigned.setWidth 32)))) :=
      gives_extended .register (reads_bind (reads_uleb128 reg.toLeb) (reads_map
        (fun other => ctx.emplace reg.unsigned (.register (other.setWidth 32)))
        (reads_uleb128 other.toLeb))).gives
    rw [← register_map] at h
    exact h
  | restoreExtended reg =>
    rw [CfiInstr.bytes, ← List.append_nil reg.bytes]
    exact gives_extended .restoreExtended (gives_bind (reads_uleb128 reg.toLeb) (gives_ofExcept _))

theorem gives_setLoc {base : EhBase} {op : EhOperand} {c : Cursor}
    (hfit : (CfiInstr.setLoc op).Fits fde.cie.fdePointerEncoding base)
    (hat : BytesAt c.image c.pos (CfiInstr.setLoc op).bytes)
    (hstop : c.pos + (CfiInstr.setLoc op).bytes.length ≤ c.stop) :
    executeCfiInstruction elf fde ctx c =
      .ok { ctx with location := (CfiInstr.setLoc op).moved elf fde base c.pos ctx.location }
        (c.advance (CfiInstr.setLoc op).bytes.length) := by
  -- the operand is decoded relative to its own position
  obtain ⟨hop, hrest⟩ := hat
  simp only [CfiInstr.bytes, List.length_append, List.length_singleton] at hstop ⊢
  have hu8 := reads_u8 CfaOp.setLoc.code c ⟨hop, trivial⟩ (by simp only [List.length_singleton]; omega)
  have hptr : parseEhFramePointer fde.cie.fdePointerEncoding (elf.setLocBases fde (c.pos + 1))
      (c.advance 1) = .ok ((elf.setLocBases fde (c.pos + 1)).of base + op.decoded)
        ((c.advance 1).advance op.bytes.length) :=
    reads_parseEhFramePointer hfit.2.1 hfit.1 (c.advance 1) hrest
      (by simp only [Cursor.advance_pos, Cursor.advance_stop]; omega)
  rw [executeCfiInstruction, bind_ok hu8]
  change (position >>= _) (c.advance 1) = _
  rw [bind_ok (show position (c.advance 1) = .ok (c.pos + 1) (c.advance 1) from rfl), bind_ok hptr,
    Cursor.advance_advance]
  rfl

theorem execute_known {base : EhBase} {i : CfiInstr} {c : Cursor} (hi : i.Known)
    (hfit : i.Fits fde.cie.fdePointerEncoding base) (hat : BytesAt c.image c.pos i.bytes)
    (hstop : c.pos + i.bytes.length ≤ c.stop) :
    EndsAs (executeCfiInstruction elf fde ctx c) (ctx.exec elf fde base c.pos i)
      (c.advance i.bytes.length) := by
  by_cases hset : ∃ op, i = .setLoc op
  · obtain ⟨op, rfl⟩ := hset
    exact gives_setLoc hfit hat hstop
  · exact gives_execute c.pos hi (fun op h => hset ⟨op, h⟩) c hat hstop

end Execution

end KDebugger.Dwarf
