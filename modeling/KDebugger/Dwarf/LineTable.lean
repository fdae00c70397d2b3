import KDebugger.Dwarf.Die

namespace KDebugger.Dwarf

open ByteStream Exec Cur

/-- The standard opcodes, with the codes DWARF 4 gives them. -/
inductive StandardOp where
  | copy | advancePc | advanceLine | setFile | setColumn | negateStmt | setBasicBlock
  | constAddPc | fixedAdvancePc | setPrologueEnd | setEpilogueBegin | setIsa
deriving DecidableEq, Repr

namespace StandardOp

def code : StandardOp → Byte
  | copy => 1 | advancePc => 2 | advanceLine => 3 | setFile => 4 | setColumn => 5
  | negateStmt => 6 | setBasicBlock => 7 | constAddPc => 8 | fixedAdvancePc => 9
  | setPrologueEnd => 10 | setEpilogueBegin => 11 | setIsa => 12

def ofCode (c : Byte) : Option StandardOp :=
  [copy, advancePc, advanceLine, setFile, setColumn, negateStmt, setBasicBlock, constAddPc,
    fixedAdvancePc, setPrologueEnd, setEpilogueBegin, setIsa].find? fun op => op.code == c

@[simp] theorem ofCode_code (op : StandardOp) : ofCode op.code = some op := by
  cases op <;> decide

end StandardOp

inductive ExtendedOp where
  | endSequence | setAddress | defineFile | setDiscriminator
deriving DecidableEq, Repr

namespace ExtendedOp

def code : ExtendedOp → Byte
  | endSequence => 1 | setAddress => 2 | defineFile => 3 | setDiscriminator => 4

def ofCode (c : Byte) : Option ExtendedOp :=
  [endSequence, setAddress, defineFile, setDiscriminator].find? fun op => op.code == c

@[simp] theorem ofCode_code (op : ExtendedOp) : ofCode op.code = some op := by
  cases op <;> decide

end ExtendedOp

abbrev Path := List Byte

/-- `operator /` of paths: an absolute right side replaces the left one. -/
def pathJoin (a b : Path) : Path :=
  if b.head? = some 0x2f#8 then b
  else if a = [] ∨ a.getLast? = some 0x2f#8 then a ++ b
  else a ++ 0x2f#8 :: b

structure File where
  path : Path
  modificationTime : BitVec 64
  fileLength : BitVec 64
deriving DecidableEq, Repr

structure LineTable where
  data : Span
  cu : CompileUnit
  defaultIsStmt : Bool
  lineBase : BitVec 8
  lineRange : BitVec 8
  opcodeBase : BitVec 8
  includeDirectories : List Path
  fileNames : List File

/-- `line_table::entry`.  `fileEntry` is the index the pointer is formed with. -/
structure Entry where
  address : FileAddr := {}
  fileIndex : BitVec 64 := 1#64
  line : BitVec 64 := 1#64
  column : BitVec 64 := 0#64
  isStmt : Bool := false
  basicBlockStart : Bool := false
  endSequence : Bool := false
  prologueEnd : Bool := false
  epilogueBegin : Bool := false
  discriminator : BitVec 64 := 0#64
  fileEntry : Option (BitVec 64) := none
deriving DecidableEq, Repr

/-- What an instruction works on: `m_Current`, `m_Registers` and the files of the table. -/
structure LineMachine where
  current : Entry
  registers : Entry
  fileNames : List File

/-- `line_table::iterator` with the files of its table. -/
structure LineIterator where
  machine : LineMachine
  pos : Option ℕ

def dwAtStmtList : BitVec 64 := 0x10
def dwAtCompDir : BitVec 64 := 0x1b

def DwarfInfo.compilationDir (dw : DwarfInfo) (cu : CompileUnit) : Except Failure Path := do
  let root ← dw.root cu
  let a ← root.attrOf dwAtCompDir
  a.asString dw

def filePath (compilationDir : Path) (includeDirectories : List Path) (file : List Byte)
    (dirIndex : BitVec 64) : Except Failure Path :=
  match file with
  | [] => .error .undefined
  | b :: _ =>
    if b = 0x2f#8 then .ok file
    else if dirIndex = 0#64 then .ok (pathJoin compilationDir file)
    else
      match includeDirectories[(dirIndex - 1#64).toNat]? with
      | none => .error .undefined
      | some dir => .ok (pathJoin dir file)

def parseLineTableFile (compilationDir : Path) (includeDirectories : List Path) :
    Reader File := do
  let file ← string
  let dirIndex ← uleb128
  let modificationTime ← uleb128
  let fileLength ← uleb128
  let path ← ofExcept (filePath compilationDir includeDirectories file dirIndex)
  pure ⟨path, modificationTime, fileLength⟩

def expectedOpcodeLengths : List Byte := [0, 1, 1, 1, 1, 0, 0, 0, 1, 0, 0, 1]

def require (c : Bool) (what : String) : Reader Unit := if c then pure () else throw (.raised what)

/-- The loop over the standard opcode lengths: `n` lengths from the `i`-th on. -/
def checkOpcodeLengths : ℕ → ℕ → Reader Unit
  | 0, _ => pure ()
  | n + 1, i => do
    let length ← u8
    match expectedOpcodeLengths[i]? with
    | none => throw .undefined
    | some expected =>
      require (length == expected) "Unexpected opcode lengths"
      checkOpcodeLengths n (i + 1)

def parseIncludeDirectories (compilationDir : Path) : ℕ → Reader (List Path)
  | 0 => throw .exhausted
  | fuel + 1 => do
    let dir ← string
    if dir = [] then pure []
    else
      let rest ← parseIncludeDirectories compilationDir fuel
      pure ((if dir.head? = some 0x2f#8 then dir else pathJoin compilationDir dir) :: rest)

def peek : Reader Byte := fun c =>
  match c.image.read c.pos with
  | none => .error .undefined c
  | some b => .ok b c

def parseFileNames (compilationDir : Path) (includeDirectories : List Path) :
    ℕ → Reader (List File)
  | 0 => throw .exhausted
  | fuel + 1 => do
    let b ← peek
    if b = 0#8 then pure []
    else
      let file ← parseLineTableFile compilationDir includeDirectories
      let rest ← parseFileNames compilationDir includeDirectories fuel
      pure (file :: rest)

/-- The end of the table, its `default_is_stmt`, `line_base`, `line_range` and
`opcode_base`, from its first byte up to the standard opcode lengths. -/
def parseLineTableHeader : Reader (ℕ × Byte × Byte × Byte × Byte) := do
  let size ← u32
  let start ← position
  let version ← u16
  require (version == 4#16) "Only DWARF 4 is supported right now"
  let _ ← u32
  let minimumInstructionLength ← u8
  require (minimumInstructionLength == 1#8) "Invalid minimum instruction length"
  let maximumOperationsPerInstruction ← u8
  require (maximumOperationsPerInstruction == 1#8) "Invalid maximum operations per instruction"
  let defaultIsStmt ← u8
  let lineBase ← u8
  let lineRange ← u8
  let opcodeBase ← u8
  checkOpcodeLengths (opcodeBase.toNat - 1) 0
  pure (start + size.toNat, defaultIsStmt, lineBase, lineRange, opcodeBase)

def parseLineTableAt (dw : DwarfInfo) (cu : CompileUnit) : Reader LineTable := do
  let (last, defaultIsStmt, lineBase, lineRange, opcodeBase) ← parseLineTableHeader
  let compilationDir ← ofExcept (dw.compilationDir cu)
  let includeDirectories ← parseIncludeDirectories compilationDir (dw.image.size + 1)
  let fileNames ← parseFileNames compilationDir includeDirectories (dw.image.size + 1)
  skip 1
  let first ← position
  pure
    { data := ⟨first, last⟩
      cu
      defaultIsStmt := defaultIsStmt != 0#8
      lineBase
      lineRange
      opcodeBase
      includeDirectories
      fileNames }

/-- `parse_line_table`; a unit without `DW_AT_stmt_list` has none. -/
def parseLineTable (dw : DwarfInfo) (cu : CompileUnit) : Except Failure (Option LineTable) := do
  let root ← dw.root cu
  if ← root.contains dwAtStmtList then
    let a ← root.attrOf dwAtStmtList
    let offset ← a.asSectionOffset dw
    match dw.getSectionContents ".debug_line" with
    | none => throw .undefined
    | some debugLine =>
      let t ← outcome (parseLineTableAt dw cu)
        ⟨dw.image, debugLine.first + offset.toNat, debugLine.last⟩
      pure (some t)
  else pure none

def Entry.afterRow (r : Entry) : Entry :=
  { r with
    basicBlockStart := false
    prologueEnd := false
    epilogueBegin := false
    discriminator := 0#64 }

namespace LineMachine

def withRegisters (m : LineMachine) (r : Entry) : LineMachine := { m with registers := r }

/-- Copies the registers out as a row and goes on with `r`. -/
def emit (m : LineMachine) (row r : Entry) : LineMachine := { m with current := row, registers := r }

def withFileEntry (m : LineMachine) : LineMachine :=
  { m with current := { m.current with fileEntry := some (m.current.fileIndex - 1#64) } }

end LineMachine

namespace LineTable

def initial (t : LineTable) : Entry := { isStmt := t.defaultIsStmt }

def special (t : LineTable) (opcode : Byte) (r : Entry) : Entry :=
  let adjusted := opcode.toNat - t.opcodeBase.toNat
  { r with
    address := r.address.add (BitVec.ofNat 64 (adjusted / t.lineRange.toNat))
    line := r.line + BitVec.ofInt 64 (t.lineBase.toInt + (adjusted % t.lineRange.toNat : ℕ)) }

def executeStandard (t : LineTable) (m : LineMachine) (opcode : Byte) :
    Reader (Bool × LineMachine) :=
  let r := m.registers
  match StandardOp.ofCode opcode with
  | some .copy => pure (true, m.emit r r.afterRow)
  | some .advancePc => do
    let v ← sleb128
    pure (false, m.withRegisters { r with address := r.address.add v })
  -- the operand is the file, and it is the column that is written
  | some .setFile => do
    let v ← uleb128
    pure (false, m.withRegisters { r with column := v })
  | some .negateStmt => pure (false, m.withRegisters { r with isStmt := !r.isStmt })
  | some .setBasicBlock => pure (false, m.withRegisters { r with basicBlockStart := true })
  | some .constAddPc =>
    if t.lineRange = 0#8 then throw .undefined
    else
      let n := (255 - t.opcodeBase.toNat) / t.lineRange.toNat
      pure (false, m.withRegisters { r with address := r.address.add (BitVec.ofNat 64 n) })
  | some .fixedAdvancePc => do
    let v ← u16
    pure (false, m.withRegisters { r with address := r.address.add (v.setWidth 64) })
  | some .setPrologueEnd => pure (false, m.withRegisters { r with prologueEnd := true })
  | some .setEpilogueBegin => pure (false, m.withRegisters { r with epilogueBegin := true })
  | some .setIsa => pure (false, m)
  | _ => throw (.raised "Unexpected standard opcode")

def executeExtended (dw : DwarfInfo) (t : LineTable) (m : LineMachine) (extendedOpcode : Byte) :
    Reader (Bool × LineMachine) :=
  let r := m.registers
  match ExtendedOp.ofCode extendedOpcode with
  | some .endSequence => pure (true, m.emit { r with endSequence := true } t.initial)
  | some .setAddress => do
    let v ← u64
    pure (false, m.withRegisters { r with address := ⟨some dw.elf, v⟩ })
  | some .defineFile => do
    let compilationDir ← ofExcept (dw.compilationDir t.cu)
    let file ← parseLineTableFile compilationDir t.includeDirectories
    pure (false, { m with fileNames := m.fileNames ++ [file] })
  | some .setDiscriminator => do
    let v ← uleb128
    pure (false, m.withRegisters { r with discriminator := v })
  | none => throw (.raised "Unexpected extended opcode")

/-- `execute_instruction`: whether a row was emitted, and the machine after it. -/
def executeInstruction (dw : DwarfInfo) (t : LineTable) (m : LineMachine) :
    Reader (Bool × LineMachine) := do
  let opcode ← u8
  if 0 < opcode.toNat ∧ opcode.toNat < t.opcodeBase.toNat then t.executeStandard m opcode
  else if opcode = 0#8 then
    let _ ← uleb128
    let extendedOpcode ← u8
    t.executeExtended dw m extendedOpcode
  else if t.lineRange = 0#8 then throw .undefined
  else
    let r := t.special opcode m.registers
    pure (true, m.emit r r.afterRow)

def executeUntilRow (dw : DwarfInfo) (t : LineTable) : ℕ → LineMachine → Reader LineMachine
  | 0, _ => throw .exhausted
  | fuel + 1, m => do
    let (emitted, m') ← t.executeInstruction dw m
    if emitted then pure m' else executeUntilRow dw t fuel m'

/-- `operator ++`.  Every instruction takes a byte, which bounds the loop. -/
def increment (dw : DwarfInfo) (t : LineTable) (it : LineIterator) : Except Failure LineIterator :=
  match it.pos with
  | none => .error .undefined
  | some p =>
    if p = t.data.last then .ok { it with pos := none }
    else
      match t.executeUntilRow dw (dw.image.size + 1) it.machine ⟨dw.image, p, t.data.last⟩ with
      | .ok m c => .ok ⟨m.withFileEntry, some c.pos⟩
      | .error e _ => .error e

/-- `begin()`, when the table has these files. -/
def begin (dw : DwarfInfo) (t : LineTable) (fileNames : List File) : Except Failure LineIterator :=
  t.increment dw ⟨⟨{}, t.initial, fileNames⟩, some t.data.first⟩

def rowsFrom (dw : DwarfInfo) (t : LineTable) : ℕ → LineIterator → Except Failure (List Entry)
  | 0, _ => .error .exhausted
  | n + 1, it =>
    match it.pos with
    | none => .ok []
    | some _ => do
      let it' ← t.increment dw it
      let rows ← rowsFrom dw t n it'
      pure (it.machine.current :: rows)

def rows (dw : DwarfInfo) (t : LineTable) : Except Failure (List Entry) := do
  let it ← t.begin dw t.fileNames
  t.rowsFrom dw (dw.image.size + 2) it

end LineTable
end KDebugger.Dwarf
