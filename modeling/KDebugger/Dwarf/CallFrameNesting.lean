import KDebugger.Nesting
import KDebugger.Dwarf.CallFrame

namespace KDebugger.Dwarf

open ByteStream Exec Cur Nesting

/-- What an instruction with this opcode does to the rule stack. -/
def ruleMark (opcode : Byte) : Mark :=
  if opcode = CfaOp.rememberState.code then .save
  else if opcode = CfaOp.restoreState.code then .take else .plain

/-- Everything an instruction leaves alone that is no business of the rule stack. -/
structure KeepsRuleStack (ctx ctx' : UnwindContext) : Prop where
  ruleStack : ctx'.ruleStack = ctx.ruleStack
  cieRegisterRules : ctx'.cieRegisterRules = ctx.cieRegisterRules

theorem keepsRuleStack_restore (ctx : UnwindContext) (reg : BitVec 64) :
    Returns (KeepsRuleStack ctx) (ofExcept (ctx.restore reg) : Reader UnwindContext) := by
  unfold UnwindContext.restore
  cases ctx.cieRegisterRules.find (reg.setWidth 32) with
  | none => exact Returns.throw _
  | some rule => exact Returns.pure ⟨rfl, rfl⟩

theorem keepsRuleStack_extended (elf : FrameElf) (fde : Fde) (ctx : UnwindContext) {opcode : Byte}
    (hremember : CfaOp.ofCode opcode ≠ some .rememberState)
    (hrestore : CfaOp.ofCode opcode ≠ some .restoreState) :
    Returns (KeepsRuleStack ctx) (executeExtendedCfi elf fde ctx opcode) := by
  unfold executeExtendedCfi
  dsimp only
  cases hop : CfaOp.ofCode opcode with
  | none => exact Returns.pure ⟨rfl, rfl⟩
  | some op =>
    cases op with
    | rememberState => exact absurd hop hremember
    | restoreState => exact absurd hop hrestore
    | advanceLoc1 | advanceLoc2 | advanceLoc4 | undefined | sameValue | defCfaOffset
      | defCfaOffsetSf => exact Returns.of_rest fun _ => Returns.pure ⟨rfl, rfl⟩
    | setLoc | defCfa | defCfaSf | offsetExtended | offsetExtendedSf | valOffset | valOffsetSf
      | register =>
      exact Returns.of_rest fun _ => Returns.of_rest fun _ => Returns.pure ⟨rfl, rfl⟩
    | defCfaExpression | expression | valExpression => exact Returns.throw _
    | restoreExtended => exact Returns.of_rest fun _ => keepsRuleStack_restore ctx _
    | nop | defCfaRegister => exact Returns.pure ⟨rfl, rfl⟩

/-- A run of `execute_cfi_instruction`, none of which raises, with the opcodes it takes. -/
inductive CfiRun (elf : FrameElf) (fde : Fde) :
    UnwindContext → Cursor → List Byte → UnwindContext → Cursor → Prop where
  | nil (ctx : UnwindContext) (c : Cursor) : CfiRun elf fde ctx c [] ctx c
  | cons {ctx ctx' ctx'' : UnwindContext} {c c' c'' : Cursor} {opcode : Byte} {opcodes : List Byte}
      (hread : c.image.read c.pos = some opcode)
      (h : executeCfiInstruction elf fde ctx c = .ok ctx' c')
      (rest : CfiRun elf fde ctx' c' opcodes ctx'' c'') :
      CfiRun elf fde ctx c (opcode :: opcodes) ctx'' c''

variable {elf : FrameElf} {fde : Fde}

theorem code_of_ofCode {opcode : Byte} {op : CfaOp} (h : CfaOp.ofCode opcode = some op) :
    op.code = opcode := by
  simpa using List.find?_some h

theorem extended_of_primary : ∀ opcode : Byte, opcode &&& 0xc0#8 ≠ 0x40#8 →
    opcode &&& 0xc0#8 ≠ 0x80#8 → opcode &&& 0xc0#8 ≠ 0xc0#8 → opcode &&& 0x3f#8 = opcode := by
  decide

theorem executeCfiInstruction_cases {ctx ctx' : UnwindContext} {c c' : Cursor} {opcode : Byte}
    (hread : c.image.read c.pos = some opcode)
    (h : executeCfiInstruction elf fde ctx c = .ok ctx' c') :
    (opcode = CfaOp.rememberState.code ∧ ctx' = ctx.rememberState) ∨
    (opcode = CfaOp.restoreState.code ∧ ctx.restoreState = .ok ctx') ∨
    (ruleMark opcode = .plain ∧ KeepsRuleStack ctx ctx') := by
  have hopcode : u8 c = .ok opcode (c.advance 1) :=
    fixedInt_at (n := 1) (v := opcode) (by simpa [leBytes, BytesAt] using hread)
  unfold executeCfiInstruction at h
  rw [bind_ok hopcode] at h
  by_cases hremember : opcode = CfaOp.rememberState.code
  · subst hremember
    cases h
    exact .inl ⟨rfl, rfl⟩
  by_cases hrestore : opcode = CfaOp.restoreState.code
  · subst hrestore
    exact .inr (.inl ⟨rfl, (ofExcept_eq_ok.mp h).1⟩)
  have hmark : ruleMark opcode = .plain := by
    unfold ruleMark
    rw [if_neg hremember, if_neg hrestore]
  refine .inr (.inr ⟨hmark, ?_⟩)
  have hall : Returns (KeepsRuleStack ctx) (do
      let primaryOpcode := opcode &&& 0xc0#8
      let extendedOpcode := opcode &&& 0x3f#8
      if primaryOpcode = 0x40#8 then
        pure (ctx.advance (extendedOpcode.setWidth 64 * fde.cie.codeAlignmentFactor))
      else if primaryOpcode = 0x80#8 then
        let offset ← uleb128
        pure (ctx.emplace (extendedOpcode.setWidth 64)
          (.offset (offset * fde.cie.dataAlignmentFactor)))
      else if primaryOpcode = 0xc0#8 then
        ofExcept (ctx.restore (extendedOpcode.setWidth 64))
      else executeExtendedCfi elf fde ctx extendedOpcode : Reader UnwindContext) := by
    by_cases h₁ : opcode &&& 0xc0#8 = 0x40#8
    · rw [if_pos h₁]
      exact Returns.pure ⟨rfl, rfl⟩
    by_cases h₂ : opcode &&& 0xc0#8 = 0x80#8
    · rw [if_neg h₁, if_pos h₂]
      exact Returns.of_rest fun _ => Returns.pure ⟨rfl, rfl⟩
    by_cases h₃ : opcode &&& 0xc0#8 = 0xc0#8
    · rw [if_neg h₁, if_neg h₂, if_pos h₃]
      exact keepsRuleStack_restore ctx _
    · rw [if_neg h₁, if_neg h₂, if_neg h₃]
      -- the primary opcode is zero, so the extended one is the opcode itself
      rw [extended_of_primary opcode h₁ h₂ h₃]
      exact keepsRuleStack_extended elf fde ctx (fun hop => hremember (code_of_ofCode hop).symm)
        fun hop => hrestore (code_of_ofCode hop).symm
  exact hall _ _ _ h

theorem moves_ruleStack {ctx ctx' : UnwindContext} {c c' : Cursor} {opcode : Byte}
    (hread : c.image.read c.pos = some opcode)
    (h : executeCfiInstruction elf fde ctx c = .ok ctx' c') :
    Moves (ruleMark opcode) ctx.ruleStack ctx'.ruleStack ∧
      ctx'.cieRegisterRules = ctx.cieRegisterRules := by
  obtain ⟨rfl, rfl⟩ | ⟨rfl, hrestore⟩ | ⟨hmark, hkeeps⟩ := executeCfiInstruction_cases hread h
  · exact ⟨⟨_, rfl⟩, rfl⟩
  · unfold UnwindContext.restoreState at hrestore
    cases hstack : ctx.ruleStack with
    | nil =>
      rw [hstack] at hrestore
      cases hrestore
    | cons x rest =>
      rw [hstack] at hrestore
      cases hrestore
      exact ⟨⟨x, rfl⟩, rfl⟩
  · rw [hmark]
    exact ⟨hkeeps.ruleStack, hkeeps.cieRegisterRules⟩

theorem CfiRun.moves {ctx ctx' : UnwindContext} {c c' : Cursor} {opcodes : List Byte}
    (h : CfiRun elf fde ctx c opcodes ctx' c') :
    MovesAll (opcodes.map ruleMark) ctx.ruleStack ctx'.ruleStack ∧
      ctx'.cieRegisterRules = ctx.cieRegisterRules := by
  induction h with
  | nil ctx c => exact ⟨.nil _, rfl⟩
  | cons hread h rest ih =>
    obtain ⟨hmoves, hcie⟩ := moves_ruleStack hread h
    exact ⟨.cons hmoves ih.1, ih.2.trans hcie⟩

/-- What is remembered is restored, after any instructions that restore as much as they
remember: only the location differs. -/
theorem restored_of_remembered {ctx ctx' : UnwindContext} {c c' : Cursor} {P : List Byte}
    (h : CfiRun elf fde ctx c (CfaOp.rememberState.code :: P) ctx' c')
    (hP : Balances 0 (P.map ruleMark))
    (hrestore : c'.image.read c'.pos = some CfaOp.restoreState.code) :
    executeCfiInstruction elf fde ctx' c' =
      .ok { ctx with location := ctx'.location } (c'.advance 1) := by
  -- only these two instructions touch the rule stack
  cases h with
  | cons hread hremember rest =>
    obtain ⟨-, rfl⟩ | ⟨hop, -⟩ | ⟨hmark, -⟩ := executeCfiInstruction_cases hread hremember
    · obtain ⟨hmoves, hcie⟩ := rest.moves
      have hsaved : ctx.rememberState.ruleStack =
          [] ++ ((ctx.registerRules, ctx.cfaRule) :: ctx.ruleStack) := rfl
      have hstack : ctx'.ruleStack = (ctx.registerRules, ctx.cfaRule) :: ctx.ruleStack :=
        hmoves.base hP rfl hsaved
      have hrestored : ctx'.restoreState = .ok { ctx with location := ctx'.location } := by
        unfold UnwindContext.restoreState
        rw [hstack, hcie]
        rfl
      have hopcode : u8 c' = .ok CfaOp.restoreState.code (c'.advance 1) :=
        fixedInt_at (n := 1) (v := CfaOp.restoreState.code) (by simpa [leBytes, BytesAt] using hrestore)
      unfold executeCfiInstruction
      rw [bind_ok hopcode]
      exact ofExcept_eq_ok.mpr ⟨hrestored, rfl⟩
    · exact absurd hop (by decide)
    · exact absurd hmark (by decide)

namespace SavedRow

/-- Remember, `DW_CFA_def_cfa_offset 16`, restore. -/
def image : Image := .ofList [0x0a, 0x0e, 0x10, 0x0b]

def file : FrameElf := ⟨0, image, 0#64, none⟩

def entry : Fde := ⟨⟨1#64, -8#64, 0#8, ⟨0, 0⟩⟩, ⟨some 0, 0#64⟩, 1#64, ⟨0, 4⟩⟩

def start : UnwindContext := { cfaRule := ⟨7#32, 8#64⟩ }

def changed : UnwindContext :=
  { start.rememberState with cfaRule := ⟨7#32, 16#64⟩ }

theorem run : CfiRun file entry start ⟨image, 0, 4⟩ [0x0a, 0x0e] changed ⟨image, 3, 4⟩ :=
  .cons rfl rfl (.cons rfl rfl (.nil _ _))

theorem restored : executeCfiInstruction file entry changed ⟨image, 3, 4⟩ =
    .ok { start with location := changed.location } ⟨image, 4, 4⟩ :=
  restored_of_remembered run (P := [0x0e]) (by decide) rfl

end SavedRow

end KDebugger.Dwarf
