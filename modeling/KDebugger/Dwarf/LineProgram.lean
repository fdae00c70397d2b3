import KDebugger.Dwarf.CursorSpec
import KDebugger.Dwarf.LineTable

namespace KDebugger.Dwarf

open ByteStream Leb128 Exec Cur

/-- A file entry of a header or of a `DW_LNE_define_file`. -/
structure FileEntry where
  name : List Byte
  dir : Uleb
  modificationTime : Uleb
  fileLength : Uleb
  named : name ≠ []
  noNul : 0#8 ∉ name

def FileEntry.bytes (f : FileEntry) : List Byte :=
  (f.name ++ [0#8]) ++ (f.dir.bytes ++ (f.modificationTime.bytes ++ f.fileLength.bytes))

/-- An instruction with its operands.  The length of an extended one counts its
opcode and its operands. -/
inductive LineInstr where
  | copy
  | advancePc (u : Uleb)
  | advanceLine (s : Sleb)
  | setFile (u : Uleb)
  | setColumn (u : Uleb)
  | negateStmt
  | setBasicBlock
  | constAddPc
  | fixedAdvancePc (v : BitVec 16)
  | setPrologueEnd
  | setEpilogueBegin
  | setIsa (u : Uleb)
  | special (op : Byte) (h : 13 ≤ op.toNat)
  | endSequence (len : Uleb) (h : len.value = 1)
  | setAddress (len : Uleb) (h : len.value = 9) (v : BitVec 64)
  | defineFile (len : Uleb) (f : FileEntry) (h : len.value = 1 + f.bytes.length)
  | setDiscriminator (len : Uleb) (u : Uleb) (h : len.value = 1 + u.bytes.length)

namespace LineInstr

def extended (len : Uleb) (op : ExtendedOp) (operands : List Byte) : List Byte :=
  [0#8] ++ (len.bytes ++ ([op.code] ++ operands))

def bytes : LineInstr → List Byte
  | copy => [StandardOp.copy.code]
  | advancePc u => [StandardOp.advancePc.code] ++ u.bytes
  | advanceLine s => [StandardOp.advanceLine.code] ++ s.bytes
  | setFile u => [StandardOp.setFile.code] ++ u.bytes
  | setColumn u => [StandardOp.setColumn.code] ++ u.bytes
  | negateStmt => [StandardOp.negateStmt.code]
  | setBasicBlock => [StandardOp.setBasicBlock.code]
  | constAddPc => [StandardOp.constAddPc.code]
  | fixedAdvancePc v => [StandardOp.fixedAdvancePc.code] ++ leBytes 2 v.toNat
  | setPrologueEnd => [StandardOp.setPrologueEnd.code]
  | setEpilogueBegin => [StandardOp.setEpilogueBegin.code]
  | setIsa u => [StandardOp.setIsa.code] ++ u.bytes
  | special op _ => [op]
  | endSequence len _ => extended len .endSequence []
  | setAddress len _ v => extended len .setAddress (leBytes 8 v.toNat)
  | defineFile len f _ => extended len .defineFile f.bytes
  | setDiscriminator len u _ => extended len .setDiscriminator u.bytes

def isEnd : LineInstr → Bool
  | endSequence _ _ => true
  | _ => false

end LineInstr

/-- A row of the matrix, the index of the operation in an instruction left out. -/
structure Row where
  address : BitVec 64
  file : BitVec 64
  line : BitVec 64
  column : BitVec 64
  isStmt : Bool
  basicBlock : Bool
  endSequence : Bool
  prologueEnd : Bool
  epilogueBegin : Bool
  discriminator : BitVec 64
deriving DecidableEq, Repr

structure LineRegisters extends Row where
  isa : BitVec 64

/-- What a header says about its program. -/
structure LineParams where
  defaultIsStmt : Bool
  lineBase : ℤ
  lineRange : ℕ

namespace LineParams

def initial (prm : LineParams) : LineRegisters where
  address := 0#64
  file := 1#64
  line := 1#64
  column := 0#64
  isStmt := prm.defaultIsStmt
  basicBlock := false
  endSequence := false
  prologueEnd := false
  epilogueBegin := false
  discriminator := 0#64
  isa := 0#64

/-- A row is appended and the registers that belong to one row only are reset. -/
def append (r : LineRegisters) : LineRegisters × Option Row :=
  ({ r with basicBlock := false, prologueEnd := false, epilogueBegin := false,
            discriminator := 0#64 }, some r.toRow)

/-- Section 6.2.5: the registers after an instruction and the row it appends. -/
def step (prm : LineParams) (r : LineRegisters) : LineInstr → LineRegisters × Option Row
  | .copy => append r
  | .advancePc u => ({ r with address := r.address + u.unsigned }, none)
  | .advanceLine s => ({ r with line := r.line + s.signed }, none)
  | .setFile u => ({ r with file := u.unsigned }, none)
  | .setColumn u => ({ r with column := u.unsigned }, none)
  | .negateStmt => ({ r with isStmt := !r.isStmt }, none)
  | .setBasicBlock => ({ r with basicBlock := true }, none)
  | .constAddPc =>
    ({ r with address := r.address + BitVec.ofNat 64 ((255 - 13) / prm.lineRange) }, none)
  | .fixedAdvancePc v => ({ r with address := r.address + v.setWidth 64 }, none)
  | .setPrologueEnd => ({ r with prologueEnd := true }, none)
  | .setEpilogueBegin => ({ r with epilogueBegin := true }, none)
  | .setIsa u => ({ r with isa := u.unsigned }, none)
  | .special op _ =>
    append
      { r with
        address := r.address + BitVec.ofNat 64 ((op.toNat - 13) / prm.lineRange)
        line := r.line + BitVec.ofInt 64 (prm.lineBase + ((op.toNat - 13) % prm.lineRange : ℕ)) }
  | .endSequence _ _ => (prm.initial, some { r.toRow with endSequence := true })
  | .setAddress _ _ v => ({ r with address := v }, none)
  | .defineFile _ _ _ => (r, none)
  | .setDiscriminator _ u _ => ({ r with discriminator := u.unsigned }, none)

def run (prm : LineParams) : LineRegisters → List LineInstr → List Row
  | _, [] => []
  | r, i :: is =>
    match prm.step r i with
    | (r', some row) => row :: prm.run r' is
    | (r', none) => prm.run r' is

end LineParams

def Entry.row (e : Entry) : Row where
  address := e.address.addr
  file := e.fileIndex
  line := e.line
  column := e.column
  isStmt := e.isStmt
  basicBlock := e.basicBlockStart
  endSequence := e.endSequence
  prologueEnd := e.prologueEnd
  epilogueBegin := e.epilogueBegin
  discriminator := e.discriminator

def FileEntry.file (compilationDir : Path) (includes : List Path) (f : FileEntry) : File where
  path :=
    if f.name.head? = some 0x2f#8 then f.name
    else if f.dir.value = 0 then pathJoin compilationDir f.name
    else pathJoin (includes.getD (f.dir.value - 1) []) f.name
  modificationTime := f.modificationTime.unsigned
  fileLength := f.fileLength.unsigned

/-- Its directory is in the list. -/
def FileEntry.Within (includes : List Path) (f : FileEntry) : Prop := f.dir.value ≤ includes.length

def LineInstr.Within (includes : List Path) : LineInstr → Prop
  | defineFile _ f _ => f.Within includes
  | _ => True

/-- What the code does on an instruction: whether it emits a row, and the machine
after it; `none` where it raises.  `DW_LNS_set_isa` is left out, since the code does
not execute it as one instruction. -/
def LineTable.effect (dw : DwarfInfo) (t : LineTable) (compilationDir : Path) (m : LineMachine) :
    LineInstr → Option (Bool × LineMachine)
  | .copy => some (true, m.emit m.registers m.registers.afterRow)
  | .advancePc u =>
    some (false, m.withRegisters
      { m.registers with address := m.registers.address.add (slebRead u.toLeb) })
  | .advanceLine _ => none
  | .setFile u => some (false, m.withRegisters { m.registers with column := u.unsigned })
  | .setColumn _ => none
  | .negateStmt =>
    some (false, m.withRegisters { m.registers with isStmt := !m.registers.isStmt })
  | .setBasicBlock => some (false, m.withRegisters { m.registers with basicBlockStart := true })
  | .constAddPc =>
    some (false, m.withRegisters
      { m.registers with
        address := m.registers.address.add
          (BitVec.ofNat 64 ((255 - t.opcodeBase.toNat) / t.lineRange.toNat)) })
  | .fixedAdvancePc v =>
    some (false, m.withRegisters
      { m.registers with address := m.registers.address.add (v.setWidth 64) })
  | .setPrologueEnd => some (false, m.withRegisters { m.registers with prologueEnd := true })
  | .setEpilogueBegin => some (false, m.withRegisters { m.registers with epilogueBegin := true })
  | .setIsa _ => none
  | .special op _ =>
    some (true, m.emit (t.special op m.registers) (t.special op m.registers).afterRow)
  | .endSequence _ _ => some (true, m.emit { m.registers with endSequence := true } t.initial)
  | .setAddress _ _ v =>
    some (false, m.withRegisters { m.registers with address := ⟨some dw.elf, v⟩ })
  | .defineFile _ f _ =>
    some (false,
      { m with fileNames := m.fileNames ++ [f.file compilationDir t.includeDirectories] })
  | .setDiscriminator _ u _ =>
    some (false, m.withRegisters { m.registers with discriminator := u.unsigned })

theorem filePath_eq {compilationDir : Path} {includes : List Path} {f : FileEntry}
    (hf : f.Within includes) :
    filePath compilationDir includes f.name f.dir.unsigned =
      .ok (f.file compilationDir includes).path := by
  obtain ⟨b, s, hname⟩ := List.exists_cons_of_ne_nil f.named
  have hval := f.dir.unsigned_toNat
  have hzero : f.dir.unsigned = 0#64 ↔ f.dir.value = 0 := by
    rw [← BitVec.toNat_inj, hval]
    rfl
  simp only [filePath, FileEntry.file, hname, List.head?_cons, Option.some.injEq, hzero]
  split_ifs with hb hd
  · rfl
  · rfl
  · have hindex : (f.dir.unsigned - 1#64).toNat = f.dir.value - 1 := by
      have hone : 1#64 ≤ f.dir.unsigned := by
        rw [BitVec.le_def, hval]
        exact Nat.pos_of_ne_zero hd
      rw [BitVec.toNat_sub_of_le hone, hval]
      rfl
    have hlt : f.dir.value - 1 < includes.length := by
      have hle : f.dir.value ≤ includes.length := hf
      omega
    rw [hindex, List.getElem?_eq_getElem hlt, List.getD_eq_getElem _ _ hlt]

theorem reads_pass {α β : Type} {x : Except Failure α} {a : α} {f : α → Reader β} {bs : List Byte}
    {b : β} (h : x = .ok a) (hf : Reads (f a) bs b) : Reads (ofExcept x >>= f) bs b := by
  subst h
  exact reads_bind (reads_pure a) hf

theorem reads_parseLineTableFile {compilationDir : Path} {includes : List Path} {f : FileEntry}
    (hf : f.Within includes) :
    Reads (parseLineTableFile compilationDir includes) f.bytes (f.file compilationDir includes) := by
  refine reads_bind (reads_string f.noNul) (reads_bind (reads_uleb128 f.dir.toLeb)
    (reads_bind (reads_uleb128 f.modificationTime.toLeb) ?_))
  rw [← List.append_nil f.fileLength.bytes]
  exact reads_bind (reads_uleb128 f.fileLength.toLeb) (reads_pass (filePath_eq hf) (reads_pure _))

section Instructions

variable {dw : DwarfInfo} {t : LineTable} {m : LineMachine} {r : Bool × LineMachine}

theorem reads_standard (op : StandardOp) {bs : List Byte} (hbase : t.opcodeBase = 13#8)
    (h : Reads (t.executeStandard m op.code) bs r) :
    Reads (t.executeInstruction dw m) ([op.code] ++ bs) r := by
  refine reads_bind (reads_u8 op.code) ?_
  have hop : 0 < op.code.toNat ∧ op.code.toNat < t.opcodeBase.toNat := by
    rw [hbase]
    cases op <;> decide
  rw [if_pos hop]
  exact h

theorem reads_extended (op : ExtendedOp) {len : Uleb} {bs : List Byte}
    (h : Reads (t.executeExtended dw m op.code) bs r) :
    Reads (t.executeInstruction dw m) (LineInstr.extended len op bs) r := by
  refine reads_bind (reads_u8 0#8) ?_
  rw [if_neg (by simp), if_pos rfl]
  exact reads_bind (reads_uleb128 len.toLeb) (reads_bind (reads_u8 op.code) h)

theorem reads_special {op : Byte} (hbase : t.opcodeBase = 13#8) (hrange : t.lineRange ≠ 0#8)
    (h : 13 ≤ op.toNat) :
    Reads (t.executeInstruction dw m) [op]
      (true, m.emit (t.special op m.registers) (t.special op m.registers).afterRow) := by
  have hzero : op ≠ 0#8 := by
    rintro rfl
    simp at h
  have hge : ¬ (0 < op.toNat ∧ op.toNat < t.opcodeBase.toNat) := by
    rw [hbase]
    simp only [BitVec.toNat_ofNat]
    omega
  change Reads _ ([op] ++ []) _
  refine reads_bind (reads_u8 op) ?_
  rw [if_neg hge, if_neg hzero, if_neg hrange]
  exact reads_pure _

theorem reads_bare (op : StandardOp) (hbase : t.opcodeBase = 13#8)
    (h : t.executeStandard m op.code = pure r) :
    Reads (t.executeInstruction dw m) [op.code] r := by
  have hread : Reads (t.executeStandard m op.code) [] r := by
    rw [h]
    exact reads_pure r
  exact reads_standard op hbase hread

theorem reads_executeInstruction {compilationDir : Path} {i : LineInstr}
    (hbase : t.opcodeBase = 13#8) (hrange : t.lineRange ≠ 0#8)
    (hdir : dw.compilationDir t.cu = .ok compilationDir) (hi : i.Within t.includeDirectories)
    (heff : t.effect dw compilationDir m i = some r) :
    Reads (t.executeInstruction dw m) i.bytes r := by
  cases i <;> simp only [LineTable.effect, Option.some.injEq, reduceCtorEq] at heff <;>
    subst heff
  case copy => exact reads_bare .copy hbase rfl
  case advancePc u =>
    exact reads_standard .advancePc hbase (reads_map
      (fun v => (false, m.withRegisters { m.registers with address := m.registers.address.add v }))
      (reads_sleb128 u.toLeb))
  case setFile u =>
    exact reads_standard .setFile hbase (reads_map
      (fun v => (false, m.withRegisters { m.registers with column := v })) (reads_uleb128 u.toLeb))
  case negateStmt => exact reads_bare .negateStmt hbase rfl
  case setBasicBlock => exact reads_bare .setBasicBlock hbase rfl
  case constAddPc =>
    refine reads_bare .constAddPc hbase ?_
    simp only [LineTable.executeStandard, StandardOp.ofCode_code, if_neg hrange]
  case fixedAdvancePc v =>
    exact reads_standard .fixedAdvancePc hbase (reads_map
      (fun v : BitVec 16 => (false, m.withRegisters
        { m.registers with address := m.registers.address.add (v.setWidth 64) })) (reads_u16 v))
  case setPrologueEnd => exact reads_bare .setPrologueEnd hbase rfl
  case setEpilogueBegin => exact reads_bare .setEpilogueBegin hbase rfl
  case special op h => exact reads_special hbase hrange h
  case endSequence len h => exact reads_extended .endSequence (reads_pure _)
  case setAddress len h v =>
    exact reads_extended .setAddress (reads_map
      (fun v => (false, m.withRegisters { m.registers with address := ⟨some dw.elf, v⟩ }))
      (reads_u64 v))
  case defineFile len f h =>
    refine reads_extended .defineFile ?_
    refine reads_pass hdir ?_
    exact reads_map (fun file => (false, { m with fileNames := m.fileNames ++ [file] }))
      (reads_parseLineTableFile hi)
  case setDiscriminator len u h =>
    exact reads_extended .setDiscriminator (reads_map
      (fun v => (false, m.withRegisters { m.registers with discriminator := v }))
      (reads_uleb128 u.toLeb))

theorem executeInstruction_raises {compilationDir : Path} {i : LineInstr} {c : Cursor}
    (hbase : t.opcodeBase = 13#8) (hisa : ∀ u, i ≠ .setIsa u)
    (heff : t.effect dw compilationDir m i = none) (hat : BytesAt c.image c.pos i.bytes)
    (hstop : c.pos + i.bytes.length ≤ c.stop) :
    ∃ c', t.executeInstruction dw m c = .error (.raised "Unexpected standard opcode") c' := by
  -- these two have no case
  have key : ∀ (op : StandardOp) (bs : List Byte), op = .advanceLine ∨ op = .setColumn →
      i.bytes = [op.code] ++ bs →
      ∃ c', t.executeInstruction dw m c = .error (.raised "Unexpected standard opcode") c' := by
    intro op bs hop hbytes
    rw [hbytes] at hat hstop
    simp only [List.length_append, List.length_singleton] at hstop
    have hread := reads_u8 op.code c ⟨hat.1, trivial⟩ (by simp; omega)
    refine ⟨c.advance 1, ?_⟩
    rw [LineTable.executeInstruction, bind_ok hread, hbase]
    rcases hop with rfl | rfl <;> rfl
  cases i <;> simp only [LineTable.effect, reduceCtorEq] at heff
  case advanceLine s => exact key .advanceLine s.bytes (.inl rfl) rfl
  case setColumn u => exact key .setColumn u.bytes (.inr rfl) rfl
  case setIsa u => exact absurd rfl (hisa u)

end Instructions

end KDebugger.Dwarf
