import KDebugger.Dwarf.CursorFormats
import KDebugger.Dwarf.LineTable

namespace KDebugger.Dwarf

open ByteStream Leb128 Exec Cur

/-- What an instruction tells the machine to do. -/
inductive Act where
  | copy | special (opcode : Byte) | endSequence | advance (n : BitVec 64)
  | column (v : BitVec 64) | negateStmt | setBasicBlock | setPrologueEnd | setEpilogueBegin
  | setIsa | setAddress (v : BitVec 64) | file (f : File) | setDiscriminator (v : BitVec 64)
deriving DecidableEq, Repr

namespace Act

/-- Whether a row is emitted, and the machine after the instruction. -/
def effect (dw : DwarfInfo) (t : LineTable) (m : LineMachine) : Act → Bool × LineMachine
  | copy => (true, m.emit m.registers m.registers.afterRow)
  | special opcode =>
    (true, m.emit (t.special opcode m.registers) (t.special opcode m.registers).afterRow)
  | endSequence => (true, m.emit { m.registers with endSequence := true } t.initial)
  | advance n =>
    (false, m.withRegisters { m.registers with address := m.registers.address.add n })
  | column v => (false, m.withRegisters { m.registers with column := v })
  | negateStmt => (false, m.withRegisters { m.registers with isStmt := !m.registers.isStmt })
  | setBasicBlock => (false, m.withRegisters { m.registers with basicBlockStart := true })
  | setPrologueEnd => (false, m.withRegisters { m.registers with prologueEnd := true })
  | setEpilogueBegin => (false, m.withRegisters { m.registers with epilogueBegin := true })
  | setIsa => (false, m)
  | setAddress v => (false, m.withRegisters { m.registers with address := ⟨some dw.elf, v⟩ })
  | file f => (false, { m with fileNames := m.fileNames ++ [f] })
  | setDiscriminator v => (false, m.withRegisters { m.registers with discriminator := v })

/-- Whether a row is emitted. -/
def emits : Act → Bool
  | copy | special _ | endSequence => true
  | _ => false

def defined : Act → Option File
  | file f => some f
  | _ => none

theorem effect_emits (dw : DwarfInfo) (t : LineTable) (m : LineMachine) (a : Act) :
    (a.effect dw t m).1 = a.emits := by
  cases a <;> rfl

theorem effect_fileNames (dw : DwarfInfo) (t : LineTable) (m : LineMachine) (a : Act) :
    (a.effect dw t m).2.fileNames = m.fileNames ++ a.defined.toList := by
  cases a <;> simp [effect, defined, LineMachine.emit, LineMachine.withRegisters]

end Act

namespace LineTable

def decodeStandard (t : LineTable) (opcode : Byte) : Reader Act :=
  match StandardOp.ofCode opcode with
  | some .copy => pure .copy
  | some .advancePc => do
    let v ← sleb128
    pure (.advance v)
  | some .setFile => do
    let v ← uleb128
    pure (.column v)
  | some .negateStmt => pure .negateStmt
  | some .setBasicBlock => pure .setBasicBlock
  | some .constAddPc =>
    if t.lineRange = 0#8 then throw .undefined
    else pure (.advance (BitVec.ofNat 64 ((255 - t.opcodeBase.toNat) / t.lineRange.toNat)))
  | some .fixedAdvancePc => do
    let v ← u16
    pure (.advance (v.setWidth 64))
  | some .setPrologueEnd => pure .setPrologueEnd
  | some .setEpilogueBegin => pure .setEpilogueBegin
  | some .setIsa => pure .setIsa
  | _ => throw (.raised "Unexpected standard opcode")

def decodeExtended (dw : DwarfInfo) (t : LineTable) (extendedOpcode : Byte) : Reader Act :=
  match ExtendedOp.ofCode extendedOpcode with
  | some .endSequence => pure .endSequence
  | some .setAddress => do
    let v ← u64
    pure (.setAddress v)
  | some .defineFile => do
    let compilationDir ← ofExcept (dw.compilationDir t.cu)
    let file ← parseLineTableFile compilationDir t.includeDirectories
    pure (.file file)
  | some .setDiscriminator => do
    let v ← uleb128
    pure (.setDiscriminator v)
  | none => throw (.raised "Unexpected extended opcode")

def decode (dw : DwarfInfo) (t : LineTable) : Reader Act := do
  let opcode ← u8
  if 0 < opcode.toNat ∧ opcode.toNat < t.opcodeBase.toNat then t.decodeStandard opcode
  else if opcode = 0#8 then
    let _ ← uleb128
    let extendedOpcode ← u8
    t.decodeExtended dw extendedOpcode
  else if t.lineRange = 0#8 then throw .undefined
  else pure (.special opcode)

section Decoding

variable {dw : DwarfInfo} {t : LineTable} {m : LineMachine}

theorem executeStandard_eq (opcode : Byte) : t.executeStandard m opcode =
    (do let a ← t.decodeStandard opcode; pure (a.effect dw t m)) := by
  unfold executeStandard decodeStandard
  cases StandardOp.ofCode opcode with
  | none => rfl
  | some op =>
    cases op with
    | advancePc | setFile | fixedAdvancePc =>
      dsimp only
      rw [bind_assoc]
      rfl
    | constAddPc =>
      dsimp only
      split_ifs <;> rfl
    | copy | advanceLine | setColumn | negateStmt | setBasicBlock | setPrologueEnd
    | setEpilogueBegin | setIsa => rfl

theorem executeExtended_eq (extendedOpcode : Byte) : t.executeExtended dw m extendedOpcode =
    (do let a ← t.decodeExtended dw extendedOpcode; pure (a.effect dw t m)) := by
  unfold executeExtended decodeExtended
  cases ExtendedOp.ofCode extendedOpcode with
  | none => rfl
  | some op =>
    cases op with
    | endSequence => rfl
    | setAddress | setDiscriminator =>
      dsimp only
      rw [bind_assoc]
      rfl
    | defineFile =>
      simp only [bind_assoc]
      rfl

/-- Decoding does not depend on the machine. -/
theorem executeInstruction_eq : t.executeInstruction dw m =
    (do let a ← t.decode dw; pure (a.effect dw t m)) := by
  unfold executeInstruction decode
  rw [bind_assoc]
  refine bind_congr fun opcode => ?_
  split_ifs
  · exact executeStandard_eq opcode
  · simp only [bind_assoc]
    exact bind_congr fun length => bind_congr fun extendedOpcode =>
      executeExtended_eq extendedOpcode
  · rfl
  · rfl

end Decoding

/-- The operands of a standard opcode that has a case. -/
def StandardOperands (t : LineTable) : Option StandardOp → List Byte → Act → Prop
  | some .copy => Bare .copy
  | some .advancePc => SpelledBy Leb.bytes fun l => .advance (slebRead l)
  | some .setFile => SpelledBy Leb.bytes fun l => .column l.unsigned
  | some .negateStmt => Bare .negateStmt
  | some .setBasicBlock => Bare .setBasicBlock
  | some .constAddPc => fun bs a => t.lineRange ≠ 0#8 ∧
      Bare (.advance (BitVec.ofNat 64 ((255 - t.opcodeBase.toNat) / t.lineRange.toNat))) bs a
  | some .fixedAdvancePc =>
    SpelledBy (fun v : BitVec 16 => leBytes 2 v.toNat) fun v => .advance (v.setWidth 64)
  | some .setPrologueEnd => Bare .setPrologueEnd
  | some .setEpilogueBegin => Bare .setEpilogueBegin
  | some .setIsa => Bare .setIsa
  | _ => fun _ _ => False

/-- A file entry whose path can be formed. -/
def SpellsFile (compilationDir : Path) (includeDirectories : List Path) (bs : List Byte)
    (f : File) : Prop :=
  ∃ (name : List Byte) (dir modificationTime fileLength : Leb), 0#8 ∉ name ∧
    bs = (name ++ [0#8]) ++ (dir.bytes ++ (modificationTime.bytes ++ fileLength.bytes)) ∧
    filePath compilationDir includeDirectories name dir.unsigned = .ok f.path ∧
    f.modificationTime = modificationTime.unsigned ∧ f.fileLength = fileLength.unsigned

def ExtendedOperands (dw : DwarfInfo) (t : LineTable) : Option ExtendedOp → List Byte → Act → Prop
  | some .endSequence => Bare .endSequence
  | some .setAddress => SpelledBy (fun v : BitVec 64 => leBytes 8 v.toNat) .setAddress
  | some .defineFile => fun bs a => ∃ compilationDir f, dw.compilationDir t.cu = .ok compilationDir ∧
      SpellsFile compilationDir t.includeDirectories bs f ∧ a = .file f
  | some .setDiscriminator => SpelledBy Leb.bytes fun l => .setDiscriminator l.unsigned
  | none => fun _ _ => False

/-- The opcodes below the opcode base are standard ones, save 0. -/
def IsStandard (t : LineTable) (opcode : Byte) : Prop :=
  0 < opcode.toNat ∧ opcode.toNat < t.opcodeBase.toNat

/-- The instructions the code takes. -/
inductive Encodes (dw : DwarfInfo) (t : LineTable) : List Byte → Act → Prop where
  | standard {opcode : Byte} {operands : List Byte} {a : Act} (hop : t.IsStandard opcode)
      (h : t.StandardOperands (StandardOp.ofCode opcode) operands a) :
      Encodes dw t ([opcode] ++ operands) a
  | extended (length : Leb) {opcode : Byte} {operands : List Byte} {a : Act}
      (h : t.ExtendedOperands dw (ExtendedOp.ofCode opcode) operands a) :
      Encodes dw t ([0#8] ++ (length.bytes ++ ([opcode] ++ operands))) a
  | special {opcode : Byte} (hop : ¬ t.IsStandard opcode) (hzero : opcode ≠ 0#8)
      (hrange : t.lineRange ≠ 0#8) : Encodes dw t [opcode] (.special opcode)

section Formats

variable {dw : DwarfInfo} {t : LineTable}

theorem format_decodeStandard (opcode : Byte) :
    Format (t.decodeStandard opcode) (t.StandardOperands (StandardOp.ofCode opcode)) := by
  unfold decodeStandard StandardOperands
  cases StandardOp.ofCode opcode with
  | none => exact format_throw _
  | some op =>
    cases op with
    | advanceLine | setColumn => exact format_throw _
    | advancePc => exact format_sleb128.map Act.advance
    | setFile => exact format_uleb128.map Act.column
    | fixedAdvancePc => exact (format_fixedInt 2).map fun v => Act.advance (v.setWidth 64)
    | constAddPc =>
      dsimp only
      split_ifs with hrange
      · exact (format_throw _).congr (by simp [hrange])
      · exact (format_pure _).congr (by simp [hrange])
    | copy | negateStmt | setBasicBlock | setPrologueEnd | setEpilogueBegin | setIsa =>
      exact format_pure _

theorem format_parseLineTableFile (compilationDir : Path) (includeDirectories : List Path) :
    Format (parseLineTableFile compilationDir includeDirectories)
      (SpellsFile compilationDir includeDirectories) := by
  refine (format_string.bind fun name => format_uleb128.bind fun dir => format_uleb128.bind fun
    modificationTime => format_uleb128.bind fun fileLength =>
      format_pass fun path _ => format_pure (File.mk path modificationTime fileLength)).congr ?_
  intro bs f
  constructor
  · rintro ⟨_, _, name, rfl, ⟨hname, rfl⟩, _, _, _, rfl, ⟨dir, rfl, rfl⟩, _, _, _, rfl,
      ⟨modificationTime, rfl, rfl⟩, _, _, _, rfl, ⟨fileLength, rfl, rfl⟩, path, hpath, rfl, rfl⟩
    exact ⟨name, dir, modificationTime, fileLength, hname, by simp, hpath, rfl, rfl⟩
  · rintro ⟨name, dir, modificationTime, fileLength, hname, rfl, hpath, hm, hl⟩
    refine ⟨_, _, name, rfl, ⟨hname, rfl⟩, _, _, _, rfl, ⟨dir, rfl, rfl⟩, _, _, _, rfl,
      ⟨modificationTime, rfl, rfl⟩, _, [], _, (List.append_nil _).symm, ⟨fileLength, rfl, rfl⟩,
      f.path, hpath, rfl, ?_⟩
    rw [← hm, ← hl]

theorem format_decodeExtended (opcode : Byte) :
    Format (t.decodeExtended dw opcode) (t.ExtendedOperands dw (ExtendedOp.ofCode opcode)) := by
  unfold decodeExtended ExtendedOperands
  cases ExtendedOp.ofCode opcode with
  | none => exact format_throw _
  | some op =>
    cases op with
    | endSequence => exact format_pure _
    | setAddress => exact (format_fixedInt 8).map Act.setAddress
    | setDiscriminator => exact format_uleb128.map Act.setDiscriminator
    | defineFile =>
      refine (format_pass fun compilationDir _ =>
        (format_parseLineTableFile compilationDir t.includeDirectories).bind fun file =>
          format_pure (Act.file file)).congr fun bs a => ?_
      constructor
      · rintro ⟨compilationDir, hdir, _, _, f, rfl, hf, rfl, rfl⟩
        exact ⟨compilationDir, f, hdir, by simpa using hf, rfl⟩
      · rintro ⟨compilationDir, f, hdir, hf, rfl⟩
        exact ⟨compilationDir, hdir, bs, [], f, (List.append_nil _).symm, hf, rfl, rfl⟩

theorem encodes_cons {opcode : Byte} {bs : List Byte} {a : Act} : Encodes dw t ([opcode] ++ bs) a ↔
    (t.IsStandard opcode ∧ t.StandardOperands (StandardOp.ofCode opcode) bs a) ∨
    (opcode = 0#8 ∧ ∃ (length : Leb) (op : Byte) (operands : List Byte),
      bs = length.bytes ++ ([op] ++ operands) ∧
      t.ExtendedOperands dw (ExtendedOp.ofCode op) operands a) ∨
    (¬ t.IsStandard opcode ∧ opcode ≠ 0#8 ∧ t.lineRange ≠ 0#8 ∧ Bare (.special opcode) bs a) := by
  constructor
  · intro h
    generalize hall : [opcode] ++ bs = all at h
    cases h with
    | standard hop h =>
      obtain ⟨rfl, rfl⟩ := List.cons.inj hall
      exact .inl ⟨hop, h⟩
    | @extended length op operands _ h =>
      obtain ⟨rfl, rfl⟩ := List.cons.inj hall
      exact .inr (.inl ⟨rfl, length, op, operands, rfl, h⟩)
    | special hop hzero hrange =>
      obtain ⟨rfl, rfl⟩ := List.cons.inj hall
      exact .inr (.inr ⟨hop, hzero, hrange, rfl, rfl⟩)
  · rintro (⟨hop, h⟩ | ⟨rfl, length, op, operands, rfl, h⟩ | ⟨hop, hzero, hrange, rfl, rfl⟩)
    · exact .standard hop h
    · exact .extended length h
    · exact .special hop hzero hrange

theorem format_afterOpcode (opcode : Byte) :
    Format (if 0 < opcode.toNat ∧ opcode.toNat < t.opcodeBase.toNat then t.decodeStandard opcode
      else if opcode = 0#8 then do
        let _ ← uleb128
        let extendedOpcode ← u8
        t.decodeExtended dw extendedOpcode
      else if t.lineRange = 0#8 then throw .undefined
      else pure (.special opcode))
    fun operands a => Encodes dw t ([opcode] ++ operands) a := by
  simp only [encodes_cons, IsStandard]
  split_ifs with hop hzero hrange
  · have hzero : opcode ≠ 0#8 := by
      rintro rfl
      exact absurd hop.1 (by simp)
    exact (format_decodeStandard opcode).congr (by simp [hop, hzero])
  · subst hzero
    refine (format_uleb128.bind fun _ => format_u8.bind fun extendedOpcode =>
      format_decodeExtended extendedOpcode).congr fun bs a => ?_
    simp only [hop, not_true_eq_false, ne_eq, false_and, and_false, or_false, false_or, true_and]
    constructor
    · rintro ⟨_, _, _, rfl, ⟨length, rfl, rfl⟩, _, _, op, rfl, ⟨_, rfl, rfl⟩, h⟩
      exact ⟨length, op, _, rfl, h⟩
    · rintro ⟨length, op, operands, rfl, h⟩
      exact ⟨_, _, _, rfl, ⟨length, rfl, rfl⟩, [op], operands, op, rfl, ⟨op, rfl, rfl⟩, h⟩
  · exact (format_throw _).congr (by simp [hop, hzero, hrange])
  · exact (format_pure _).congr (by simp [hop, hzero, hrange])

theorem format_decode : Format (t.decode dw) (Encodes dw t) := by
  refine (format_u8.bind fun opcode => format_afterOpcode opcode).congr fun bs a => ⟨?_, fun h => ?_⟩
  · rintro ⟨_, _, opcode, rfl, ⟨_, rfl, rfl⟩, h⟩
    exact h
  · have hsplit : ∃ opcode operands, bs = [opcode] ++ operands := by
      cases h with
      | standard _ _ | extended _ _ => exact ⟨_, _, rfl⟩
      | special _ _ _ => exact ⟨_, [], rfl⟩
    obtain ⟨opcode, operands, rfl⟩ := hsplit
    exact ⟨_, _, opcode, rfl, ⟨_, rfl, rfl⟩, h⟩

/-- The standard opcodes without a case. -/
def unexpected : List (Option StandardOp) := [none, some .advanceLine, some .setColumn]

def IsException : Failure → Prop
  | .raised _ | .outOfRange => True
  | _ => False

/-- The instructions the code refuses with an exception. -/
inductive Refused (dw : DwarfInfo) (t : LineTable) : List Byte → Prop where
  | standard {opcode : Byte} (hop : t.IsStandard opcode)
      (h : StandardOp.ofCode opcode ∈ unexpected) : Refused dw t [opcode]
  | extended (length : Leb) {opcode : Byte} (h : ExtendedOp.ofCode opcode = none) :
      Refused dw t ([0#8] ++ (length.bytes ++ [opcode]))
  | noDirectory (length : Leb) {opcode : Byte} {e : Failure}
      (hop : ExtendedOp.ofCode opcode = some .defineFile) (hdir : dw.compilationDir t.cu = .error e)
      (he : IsException e) : Refused dw t ([0#8] ++ (length.bytes ++ [opcode]))

theorem u8_of_bytesAt {c : Cursor} {b : Byte} (bs : List Byte)
    (h : BytesAt c.image c.pos ([b] ++ bs)) : u8 c = .ok b (c.advance 1) :=
  (reads_u8 b).at_blind (blind_fixedInt 1) (onward_fixedInt 1) ⟨h.1, trivial⟩

theorem decode_extended {c : Cursor} {length : Leb} {opcode : Byte}
    (h : BytesAt c.image c.pos ([0#8] ++ (length.bytes ++ [opcode]))) :
    t.decode dw c =
      t.decodeExtended dw opcode (c.advance (1 + (length.bytes.length + 1))) := by
  have hrest : BytesAt c.image (c.pos + 1) (length.bytes ++ [opcode]) := h.2
  rw [bytesAt_append] at hrest
  have hlength := (reads_uleb128 length).at_blind blind_uleb128 onward_uleb128
    (c := c.advance 1) hrest.1
  have hopcode : u8 ((c.advance 1).advance length.bytes.length) =
      .ok opcode (((c.advance 1).advance length.bytes.length).advance 1) :=
    u8_of_bytesAt [] hrest.2
  rw [decode, bind_ok (u8_of_bytesAt _ h), if_neg (by simp), if_pos rfl, bind_ok hlength,
    bind_ok hopcode, Cursor.advance_advance, Cursor.advance_advance]

theorem Refused.raises {bs : List Byte} (h : Refused dw t bs) {c : Cursor}
    (hat : BytesAt c.image c.pos bs) : ∃ e c', t.decode dw c = .error e c' ∧ IsException e := by
  cases h with
  | @standard opcode hop h =>
    refine ⟨.raised "Unexpected standard opcode", c.advance 1, ?_, trivial⟩
    have hstandard : 0 < opcode.toNat ∧ opcode.toNat < t.opcodeBase.toNat := hop
    rw [decode, bind_ok (u8_of_bytesAt [] hat), if_pos hstandard, decodeStandard]
    simp only [unexpected, List.mem_cons, List.not_mem_nil, or_false] at h
    rcases h with h | h | h <;> rw [h] <;> rfl
  | extended length h =>
    refine ⟨.raised "Unexpected extended opcode", c.advance (1 + (length.bytes.length + 1)), ?_,
      trivial⟩
    rw [decode_extended hat, decodeExtended, h]
    rfl
  | noDirectory length hop hdir he =>
    refine ⟨_, c.advance (1 + (length.bytes.length + 1)), ?_, he⟩
    rw [decode_extended hat, decodeExtended, hop]
    simp only [hdir]
    exact bind_error (ofExcept_error _ _)

theorem not_exception {α : Type} {p : Reader α} (hp : OnlyUndefined p)
    {c c' : Cursor} {e : Failure} (h : p c = .error e c') : ¬ IsException e := by
  rw [hp _ _ _ h]
  exact id

theorem onlyUndefined_decodeStandard {opcode : Byte}
    (h : StandardOp.ofCode opcode ∉ unexpected) : OnlyUndefined (t.decodeStandard opcode) := by
  unfold decodeStandard
  cases hop : StandardOp.ofCode opcode with
  | none => exact absurd (by simp [hop, unexpected]) h
  | some op =>
    cases op with
    | advanceLine | setColumn => exact absurd (by simp [hop, unexpected]) h
    | advancePc => exact onlyUndefined_sleb128.bind fun _ => onlyUndefined_pure _
    | setFile => exact onlyUndefined_uleb128.bind fun _ => onlyUndefined_pure _
    | fixedAdvancePc => exact (onlyUndefined_fixedInt 2).bind fun _ => onlyUndefined_pure _
    | constAddPc =>
      dsimp only
      split_ifs
      · exact onlyUndefined_throw
      · exact onlyUndefined_pure _
    | copy | negateStmt | setBasicBlock | setPrologueEnd | setEpilogueBegin | setIsa =>
      exact onlyUndefined_pure _

theorem onlyUndefined_parseLineTableFile (compilationDir : Path) (includeDirectories : List Path) :
    OnlyUndefined (parseLineTableFile compilationDir includeDirectories) := by
  refine onlyUndefined_string.bind fun file => onlyUndefined_uleb128.bind fun dir =>
    onlyUndefined_uleb128.bind fun _ => onlyUndefined_uleb128.bind fun _ => ?_
  refine OnlyUndefined.bind ?_ fun _ => onlyUndefined_pure _
  unfold filePath
  split
  · exact onlyUndefined_throw
  · split_ifs
    · exact onlyUndefined_pure _
    · exact onlyUndefined_pure _
    · split
      · exact onlyUndefined_throw
      · exact onlyUndefined_pure _

theorem decodeExtended_raises {opcode : Byte} {c c' : Cursor} {e : Failure}
    (h : t.decodeExtended dw opcode c = .error e c') (he : IsException e) :
    ExtendedOp.ofCode opcode = none ∨
      (ExtendedOp.ofCode opcode = some .defineFile ∧ dw.compilationDir t.cu = .error e) := by
  unfold decodeExtended at h
  cases hop : ExtendedOp.ofCode opcode with
  | none => exact .inl rfl
  | some op =>
    rw [hop] at h
    cases op with
    | endSequence => cases h
    | setAddress =>
      exact absurd he (not_exception
        ((onlyUndefined_fixedInt 8).bind fun _ => onlyUndefined_pure _) h)
    | setDiscriminator =>
      exact absurd he (not_exception
        (onlyUndefined_uleb128.bind fun _ => onlyUndefined_pure _) h)
    | defineFile =>
      refine .inr ⟨rfl, ?_⟩
      cases hdir : dw.compilationDir t.cu with
      | error e' =>
        simp only [hdir] at h
        rw [bind_error (ofExcept_error _ _)] at h
        cases h
        rfl
      | ok compilationDir =>
        simp only [hdir] at h
        rw [bind_ok (ofExcept_ok _ _)] at h
        exact absurd he (not_exception
          ((onlyUndefined_parseLineTableFile _ _).bind fun _ => onlyUndefined_pure _) h)

theorem refused_of_raises {c c' : Cursor} {e : Failure} (h : t.decode dw c = .error e c')
    (he : IsException e) : ∃ bs, Refused dw t bs ∧ BytesAt c.image c.pos bs := by
  unfold decode at h
  cases hopcode : u8 c with
  | error e' c₁ =>
    rw [bind_error hopcode] at h
    cases h
    exact absurd he (not_exception (onlyUndefined_fixedInt 1) hopcode)
  | ok opcode c₁ =>
    rw [bind_ok hopcode] at h
    obtain ⟨hread, rfl⟩ := u8_ok hopcode
    split_ifs at h with hop hzero hrange
    · refine ⟨[opcode], .standard hop ?_, hread, trivial⟩
      by_contra hcase
      exact not_exception (onlyUndefined_decodeStandard hcase) h he
    · subst hzero
      cases hlength : uleb128 (c.advance 1) with
      | error e' c₂ =>
        rw [bind_error hlength] at h
        cases h
        exact absurd he (not_exception onlyUndefined_uleb128 hlength)
      | ok v c₂ =>
        rw [bind_ok hlength] at h
        obtain ⟨length, hat, rfl, -⟩ := uleb128_ok hlength
        cases hextended : u8 ((c.advance 1).advance length.bytes.length) with
        | error e' c₃ =>
          rw [bind_error hextended] at h
          cases h
          exact absurd he (not_exception (onlyUndefined_fixedInt 1) hextended)
        | ok extendedOpcode c₃ =>
          rw [bind_ok hextended] at h
          obtain ⟨hread', -⟩ := u8_ok hextended
          have hbytes : BytesAt c.image c.pos ([0#8] ++ (length.bytes ++ [extendedOpcode])) := by
            have hrest : BytesAt c.image (c.pos + 1) (length.bytes ++ [extendedOpcode]) :=
              (bytesAt_append _ _ _ _).mpr ⟨hat, hread', trivial⟩
            exact ⟨hread, hrest⟩
          rcases decodeExtended_raises h he with hnone | ⟨hdefine, hdir⟩
          · exact ⟨_, .extended length hnone, hbytes⟩
          · exact ⟨_, .noDirectory length hdefine hdir he, hbytes⟩
    · cases h
      exact he.elim
    · cases h

end Formats

end LineTable
end KDebugger.Dwarf
