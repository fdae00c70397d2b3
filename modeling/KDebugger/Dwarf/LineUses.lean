import KDebugger.Dwarf.LineArea
import KDebugger.Dwarf.LineHeader
import Mathlib.Logic.Relation

namespace KDebugger.Dwarf

open ByteStream Exec Cur Relation

/-- An index into one of the arrays, which has so many elements, or a divisor. -/
inductive LineUse where
  | opcodeLength (i : ℕ)
  | directory (index : BitVec 64) (count : ℕ)
  | file (index : BitVec 64) (count : ℕ)
  | division (divisor : Byte)

def LineUse.Sound : LineUse → Prop
  | opcodeLength i => i < expectedOpcodeLengths.length
  | directory index count | file index count => (index - 1#64).toNat < count
  | division divisor => divisor ≠ 0#8

namespace LineUses

def parseLineTableStart : Reader (ℕ × Byte × Byte × Byte × Byte) := do
  let size ← u32
  let start ← position
  let version ← u16
  require (version == 4#16) "Only DWARF 4 is supported right now"
  let _ ← u32
  let minimumInstructionLength ← u8
  require (minimumInstructionLength == 1#8) "Invalid minimum instruction length"
  let maximumOperationsPerInstruction ← u8
  require (maximumOperationsPerInstruction == 1#8) "Invalid maximum operations per instruction"
  let defaultIsStmt ← u8
  let lineBase ← u8
  let lineRange ← u8
  let opcodeBase ← u8
  pure (start + size.toNat, defaultIsStmt, lineBase, lineRange, opcodeBase)

def opcodeBase (start : ℕ × Byte × Byte × Byte × Byte) : Byte := start.2.2.2.2

/-- The loop over the standard opcode lengths, with how many are left and which is next. -/
inductive ReadsLength (c₀ : Cursor) : ℕ → ℕ → Cursor → Prop where
  | first {start : ℕ × Byte × Byte × Byte × Byte} {c : Cursor}
      (h : parseLineTableStart c₀ = .ok start c) :
      ReadsLength c₀ ((opcodeBase start).toNat - 1) 0 c
  | next {n i : ℕ} {length : Byte} {c c' : Cursor} (h : ReadsLength c₀ (n + 1) i c)
      (hread : u8 c = .ok length c') (hexpected : expectedOpcodeLengths[i]? = some length) :
      ReadsLength c₀ n (i + 1) c'

def fileFields : Reader (List Byte × BitVec 64 × BitVec 64 × BitVec 64) := do
  let file ← string
  let dirIndex ← uleb128
  let modificationTime ← uleb128
  let fileLength ← uleb128
  pure (file, dirIndex, modificationTime, fileLength)

/-- `parse_line_table_file` looks up the directory of a relative name. -/
inductive FileUses (includeDirectories : List Path) (c : Cursor) : LineUse → Prop where
  | directory {file : List Byte} {dirIndex modificationTime fileLength : BitVec 64} {c' : Cursor}
      (hfields : fileFields c = .ok (file, dirIndex, modificationTime, fileLength) c')
      (hrelative : file.head? ≠ some 0x2f#8) (hne : dirIndex ≠ 0#64) :
      FileUses includeDirectories c (.directory dirIndex includeDirectories.length)

def NextFile (compilationDir : Path) (includeDirectories : List Path) (c c' : Cursor) : Prop :=
  ∃ b file, peek c = .ok b c ∧ b ≠ 0#8 ∧
    parseLineTableFile compilationDir includeDirectories c = .ok file c'

structure ReadsFile (dw : DwarfInfo) (cu : CompileUnit) (c₀ : Cursor)
    (includeDirectories : List Path) (c : Cursor) : Prop where
  reached : ∃ start compilationDir c₁ c₂, parseLineTableHeader c₀ = .ok start c₁ ∧
    dw.compilationDir cu = .ok compilationDir ∧
    parseIncludeDirectories compilationDir (dw.image.size + 1) c₁ = .ok includeDirectories c₂ ∧
    ReflTransGen (NextFile compilationDir includeDirectories) c₂ c
  unfinished : ∃ b, peek c = .ok b c ∧ b ≠ 0#8

/-- A table that is used: its files, and its iterators, with the files they last saw. -/
structure InUse where
  fileNames : List File
  iterators : List LineIterator

def seeing (it : LineIterator) (fileNames : List File) : LineIterator :=
  { it with machine.fileNames := fileNames }

def NoRow (dw : DwarfInfo) (t : LineTable) (a b : LineMachine × ℕ) : Prop :=
  ∃ c', t.executeInstruction dw a.1 ⟨dw.image, a.2, t.data.last⟩ = .ok (false, b.1) c' ∧ c'.pos = b.2

/-- `++` on an iterator gets to the instruction at a position with this machine. -/
structure Executing (dw : DwarfInfo) (t : LineTable) (it : LineIterator) (m : LineMachine)
    (q : ℕ) : Prop where
  unfinished : it.pos ≠ some t.data.last
  reached : ∃ p, it.pos = some p ∧ ReflTransGen (NoRow dw t) (it.machine, p) (m, q)

/-- What can be done with a table: an iterator is constructed or copied and incremented.
When an instruction raises an exception, what the ones before it did remains. -/
inductive Step (dw : DwarfInfo) (t : LineTable) (s : InUse) : InUse → Prop where
  | constructed : Step dw t s
      ⟨s.fileNames, ⟨⟨{}, t.initial, s.fileNames⟩, some t.data.first⟩ :: s.iterators⟩
  | incremented {it it' : LineIterator} (hit : it ∈ s.iterators)
      (hnext : t.increment dw (seeing it s.fileNames) = .ok it') :
      Step dw t s ⟨it'.machine.fileNames, it' :: s.iterators⟩
  | raised {it : LineIterator} {m : LineMachine} {q : ℕ} {e : Failure} {c' : Cursor}
      (hit : it ∈ s.iterators) (hexec : Executing dw t (seeing it s.fileNames) m q)
      (hraised : t.executeInstruction dw m ⟨dw.image, q, t.data.last⟩ = .error e c')
      (he : LineTable.IsException e) : Step dw t s ⟨m.fileNames, ⟨m, some q⟩ :: s.iterators⟩

def Reachable (dw : DwarfInfo) (t : LineTable) : InUse → Prop :=
  ReflTransGen (Step dw t) ⟨t.fileNames, []⟩

/-- The opcodes that divide by `line_range`. -/
def Divides (t : LineTable) (opcode : Byte) : Prop :=
  (t.IsStandard opcode ∧ StandardOp.ofCode opcode = some .constAddPc) ∨
    (¬ t.IsStandard opcode ∧ opcode ≠ 0#8)

structure DefinesFile (dw : DwarfInfo) (t : LineTable) (c c' : Cursor) : Prop where
  extended : ∃ length extendedOpcode c₁ c₂, u8 c = .ok 0#8 c₁ ∧ uleb128 c₁ = .ok length c₂ ∧
    u8 c₂ = .ok extendedOpcode c' ∧ ExtendedOp.ofCode extendedOpcode = some .defineFile
  compiled : ∃ compilationDir, dw.compilationDir t.cu = .ok compilationDir

/-- `execute_instruction` divides and looks up a directory; after a row `++` takes its file. -/
inductive InstructionUses (dw : DwarfInfo) (t : LineTable) (m : LineMachine) (c : Cursor) :
    LineUse → Prop where
  | division {opcode : Byte} {c' : Cursor} (hop : u8 c = .ok opcode c') (h : Divides t opcode) :
      InstructionUses dw t m c (.division t.lineRange)
  | defineFile {c' : Cursor} {u : LineUse} (h : DefinesFile dw t c c')
      (hu : FileUses t.includeDirectories c' u) : InstructionUses dw t m c u
  | row {m' : LineMachine} {c' : Cursor} (h : t.executeInstruction dw m c = .ok (true, m') c') :
      InstructionUses dw t m c (.file m'.current.fileIndex m'.fileNames.length)

end LineUses

open LineUses

/-- All uses of the table at a cursor, in the parse and in every later computation of a row. -/
inductive Uses (dw : DwarfInfo) (cu : CompileUnit) (c₀ : Cursor) : LineUse → Prop where
  | length {n i : ℕ} {c : Cursor} (h : ReadsLength c₀ (n + 1) i c) : Uses dw cu c₀ (.opcodeLength i)
  | file {includeDirectories : List Path} {c : Cursor} {u : LineUse}
      (h : ReadsFile dw cu c₀ includeDirectories c) (hu : FileUses includeDirectories c u) :
      Uses dw cu c₀ u
  | instruction {t : LineTable} {c : Cursor} {s : InUse} {it : LineIterator} {m : LineMachine}
      {q : ℕ} {u : LineUse} (ht : parseLineTableAt dw cu c₀ = .ok t c) (hs : Reachable dw t s)
      (hit : it ∈ s.iterators) (hexec : Executing dw t (seeing it s.fileNames) m q)
      (hu : InstructionUses dw t m ⟨dw.image, q, t.data.last⟩ u) : Uses dw cu c₀ u

namespace LineUses

section Lengths

variable {c₀ c : Cursor} {start : ℕ × Byte × Byte × Byte × Byte}

theorem ReadsLength.split {n i : ℕ} {c' : Cursor} (h : ReadsLength c₀ n i c') :
    ∃ start c, parseLineTableStart c₀ = .ok start c ∧ n + i = (opcodeBase start).toNat - 1 ∧
      i ≤ expectedOpcodeLengths.length ∧ c' = c.advance i ∧
      BytesAt c.image c.pos (expectedOpcodeLengths.take i) := by
  induction h with
  | @first start c h => exact ⟨start, c, h, rfl, Nat.zero_le _, rfl, trivial⟩
  | @next n i length c₁ c' h hread hexpected ih =>
    obtain ⟨start, c, hstart, hcount, -, rfl, hat⟩ := ih
    obtain ⟨hbyte, rfl⟩ := u8_ok hread
    obtain ⟨hi, hlength⟩ := List.getElem?_eq_some_iff.mp hexpected
    refine ⟨start, c, hstart, by omega, hi, Cursor.advance_advance _ _ _, ?_⟩
    rw [← List.take_append_getElem hi, bytesAt_append, List.length_take_of_le hi.le, hlength]
    exact ⟨hat, hbyte, trivial⟩

theorem readsLength_of_bytesAt (h : parseLineTableStart c₀ = .ok start c) {i : ℕ} :
    ∀ {n : ℕ}, n + i = (opcodeBase start).toNat - 1 → i ≤ expectedOpcodeLengths.length →
      BytesAt c.image c.pos (expectedOpcodeLengths.take i) → ReadsLength c₀ n i (c.advance i) := by
  induction i with
  | zero =>
    rintro n hcount - -
    obtain rfl : n = (opcodeBase start).toNat - 1 := hcount
    exact .first h
  | succ i ih =>
    intro n hcount hi hat
    rw [← List.take_append_getElem hi, bytesAt_append,
      List.length_take_of_le (Nat.le_of_succ_le hi)] at hat
    have hrest := ih (n := n + 1) (by omega) (Nat.le_of_succ_le hi) hat.1
    rw [← Cursor.advance_advance]
    exact hrest.next (LineTable.u8_of_bytesAt [] hat.2) (List.getElem?_eq_getElem hi)

theorem readsLength_sound_iff :
    (∀ n i c, ReadsLength c₀ (n + 1) i c → (LineUse.opcodeLength i).Sound) ↔
      ∀ start c, parseLineTableStart c₀ = .ok start c →
        (opcodeBase start).toNat ≤ 13 ∨ ¬ BytesAt c.image c.pos expectedOpcodeLengths := by
  constructor
  · intro h start c hstart
    by_contra hnot
    obtain ⟨hbase, hat⟩ : 13 < (opcodeBase start).toNat ∧
        BytesAt c.image c.pos expectedOpcodeLengths := by simpa using hnot
    have hreads := readsLength_of_bytesAt hstart (i := 12)
      (n := (opcodeBase start).toNat - 14 + 1) (by omega) le_rfl hat
    exact absurd (h _ _ _ hreads) (Nat.lt_irrefl 12)
  · intro h n i c' hreads
    obtain ⟨start, c, hstart, hcount, hle, -, hat⟩ := hreads.split
    by_contra hnot
    have hi : i = 12 := Nat.le_antisymm hle (Nat.not_lt.mp hnot)
    subst hi
    rcases h start c hstart with hbase | hother
    · omega
    · exact hother hat

end Lengths

def NamesDirectory (includeDirectories : List Path) (c : Cursor) : Prop :=
  ∀ file dirIndex modificationTime fileLength c',
    fileFields c = .ok (file, dirIndex, modificationTime, fileLength) c' →
      file.head? = some 0x2f#8 ∨ dirIndex.toNat ≤ includeDirectories.length

theorem fileUses_sound_iff {includeDirectories : List Path} {c : Cursor} :
    (∀ u, FileUses includeDirectories c u → u.Sound) ↔ NamesDirectory includeDirectories c := by
  constructor
  · intro h file dirIndex modificationTime fileLength c' hfields
    by_cases hrelative : file.head? = some 0x2f#8
    · exact .inl hrelative
    · refine .inr ?_
      by_cases hne : dirIndex = 0#64
      · simp [hne]
      · have hsound : (dirIndex - 1#64).toNat < includeDirectories.length :=
          h _ (.directory hfields hrelative hne)
        bv_omega
  · rintro h u ⟨hfields, hrelative, hne⟩
    have hle := (h _ _ _ _ _ hfields).resolve_left hrelative
    change (_ - 1#64).toNat < includeDirectories.length
    bv_omega

/-- An instruction divides by zero nowhere, names one of the directories, and emits a row only
when there are files. -/
structure OrderlyInstruction (dw : DwarfInfo) (t : LineTable) (m : LineMachine) (c : Cursor) :
    Prop where
  divides : ∀ opcode c', u8 c = .ok opcode c' → Divides t opcode → t.lineRange ≠ 0#8
  defines : ∀ c', DefinesFile dw t c c' → NamesDirectory t.includeDirectories c'
  row : ∀ a c', t.decode dw c = .ok a c' → a.emits = true → m.fileNames ≠ []

section Instructions

variable {dw : DwarfInfo} {t : LineTable} {m : LineMachine}

theorem effect_fileIndex (a : Act) (h : m.registers.fileIndex = 1#64) :
    (a.effect dw t m).2.registers.fileIndex = 1#64 ∧
      (a.emits = true → (a.effect dw t m).2.current.fileIndex = 1#64) := by
  cases a <;> first | exact ⟨h, fun _ => h⟩ | exact ⟨rfl, fun _ => h⟩ | exact ⟨h, nofun⟩

theorem executeInstruction_ok {c c' : Cursor} {r : Bool × LineMachine}
    (h : t.executeInstruction dw m c = .ok r c') :
    ∃ a, t.decode dw c = .ok a c' ∧ r = a.effect dw t m := by
  rw [LineTable.executeInstruction_eq] at h
  obtain ⟨a, c₁, hdecode, h⟩ := bind_eq_ok.mp h
  cases h
  exact ⟨a, hdecode, rfl⟩

theorem executeInstruction_of_decode {c c' : Cursor} {a : Act} (h : t.decode dw c = .ok a c') :
    t.executeInstruction dw m c = .ok (a.effect dw t m) c' := by
  rw [LineTable.executeInstruction_eq, bind_ok h]
  rfl

theorem row_file {a : Act} (hm : m.registers.fileIndex = 1#64)
    (hrow : a.emits = true) :
    (LineUse.file (a.effect dw t m).2.current.fileIndex (a.effect dw t m).2.fileNames.length).Sound ↔
      m.fileNames ≠ [] := by
  have hdefined : a.defined = none := by
    cases a <;> first | rfl | cases hrow
  rw [(effect_fileIndex a hm).2 hrow, a.effect_fileNames, hdefined, Option.toList_none,
    List.append_nil]
  exact List.length_pos_iff

theorem instructionUses_sound_iff {c : Cursor} (hm : m.registers.fileIndex = 1#64) :
    (∀ u, InstructionUses dw t m c u → u.Sound) ↔ OrderlyInstruction dw t m c := by
  constructor
  · intro h
    refine ⟨fun opcode c' hop hdivides => h _ (.division hop hdivides), fun c' hdefines =>
      fileUses_sound_iff.mp fun u hu => h u (.defineFile hdefines hu), fun a c' hdecode hrow => ?_⟩
    have hexec := executeInstruction_of_decode (m := m) hdecode
    rw [← Prod.mk.eta (p := a.effect dw t m), a.effect_emits, hrow] at hexec
    exact (row_file hm hrow).mp (h _ (.row hexec))
  · rintro h u (⟨hop, hdivides⟩ | ⟨hdefines, hu⟩ | ⟨hexec⟩)
    · exact h.divides _ _ hop hdivides
    · exact fileUses_sound_iff.mpr (h.defines _ hdefines) u hu
    · obtain ⟨a, hdecode, heffect⟩ := executeInstruction_ok hexec
      have hrow : a.emits = true := by rw [← a.effect_emits dw t m, ← heffect]
      have hsound := (@row_file dw t m a hm hrow).mpr (h.row a _ hdecode hrow)
      rwa [← heffect] at hsound

end Instructions

section States

variable {dw : DwarfInfo} {t : LineTable}

theorem executing_fileIndex {it : LineIterator} {m : LineMachine} {q : ℕ}
    (h : Executing dw t it m q) (hit : it.machine.registers.fileIndex = 1#64) :
    m.registers.fileIndex = 1#64 := by
  obtain ⟨p, -, hrun⟩ := h.reached
  generalize hb : (m, q) = b at hrun
  suffices hall : b.1.registers.fileIndex = 1#64 by
    rw [← hb] at hall
    exact hall
  clear hb
  induction hrun with
  | refl => exact hit
  | tail _ hstep ih =>
    obtain ⟨c', hexec, -⟩ := hstep
    obtain ⟨a, -, heffect⟩ := executeInstruction_ok hexec
    have hindex := (@effect_fileIndex dw t _ a ih).1
    rwa [← heffect] at hindex

theorem executeUntilRow_fileIndex {n : ℕ} : ∀ {m m' : LineMachine} {c c' : Cursor},
    t.executeUntilRow dw n m c = .ok m' c' → m.registers.fileIndex = 1#64 →
      m'.registers.fileIndex = 1#64 := by
  induction n with
  | zero => exact fun h _ => nomatch h
  | succ n ih =>
    -- the loop ends with this instruction or goes on from the machine after it
    intro m m' c c' h hm
    obtain ⟨r, c₁, hexec, hrest⟩ := bind_eq_ok.mp h
    obtain ⟨a, -, rfl⟩ := executeInstruction_ok hexec
    have hindex := (@effect_fileIndex dw t m a hm).1
    by_cases hrow : (a.effect dw t m).1 = true
    · simp only [hrow, if_true] at hrest
      cases hrest
      exact hindex
    · simp only [hrow] at hrest
      exact ih hrest hindex

theorem increment_fileIndex {it it' : LineIterator} (h : t.increment dw it = .ok it')
    (hit : it.machine.registers.fileIndex = 1#64) : it'.machine.registers.fileIndex = 1#64 := by
  unfold LineTable.increment at h
  split at h
  · cases h
  · split_ifs at h with hp
    · cases h
      exact hit
    · split at h
      next m c hloop =>
        cases h
        have hindex := executeUntilRow_fileIndex hloop hit
        exact hindex
      next => cases h

theorem reachable_fileIndex {s : InUse} (h : Reachable dw t s) :
    ∀ it ∈ s.iterators, it.machine.registers.fileIndex = 1#64 := by
  induction h with
  | refl => exact fun it hit => absurd hit List.not_mem_nil
  | tail _ hstep ih =>
    cases hstep with
    | constructed => exact List.forall_mem_cons.mpr ⟨rfl, ih⟩
    | incremented hit hnext =>
      have hbefore := ih _ hit
      exact List.forall_mem_cons.mpr ⟨increment_fileIndex hnext hbefore, ih⟩
    | raised hit hexec _ _ =>
      have hbefore := ih _ hit
      exact List.forall_mem_cons.mpr ⟨executing_fileIndex hexec hbefore, ih⟩

end States

end LineUses

/-- What a header and its program have to be like. -/
structure Orderly (dw : DwarfInfo) (cu : CompileUnit) (c₀ : Cursor) : Prop where
  lengths : ∀ start c, parseLineTableStart c₀ = .ok start c →
    (opcodeBase start).toNat ≤ 13 ∨ ¬ BytesAt c.image c.pos expectedOpcodeLengths
  files : ∀ includeDirectories c, ReadsFile dw cu c₀ includeDirectories c →
    NamesDirectory includeDirectories c
  program : ∀ t c, parseLineTableAt dw cu c₀ = .ok t c → ∀ s, Reachable dw t s →
    ∀ it ∈ s.iterators, ∀ m q, Executing dw t (seeing it s.fileNames) m q →
      OrderlyInstruction dw t m ⟨dw.image, q, t.data.last⟩

theorem uses_sound_iff (dw : DwarfInfo) (cu : CompileUnit) (c₀ : Cursor) :
    (∀ u, Uses dw cu c₀ u → u.Sound) ↔ Orderly dw cu c₀ := by
  -- one part for each kind of place that indexes or divides
  constructor
  · intro h
    refine ⟨readsLength_sound_iff.mp fun n i c hreads => h _ (.length hreads),
      fun dirs c hfile => fileUses_sound_iff.mp fun u hu => h u (.file hfile hu), ?_⟩
    intro t c ht s hs it hit m q hexec
    have hm := executing_fileIndex hexec (reachable_fileIndex hs it hit)
    exact (instructionUses_sound_iff hm).mp fun u hu => h u (.instruction ht hs hit hexec hu)
  · rintro h u (⟨hreads⟩ | ⟨hfile, hu⟩ | ⟨ht, hs, hit, hexec, hu⟩)
    · exact readsLength_sound_iff.mpr h.lengths _ _ _ hreads
    · exact fileUses_sound_iff.mpr (h.files _ _ hfile) u hu
    · have hbefore := reachable_fileIndex hs _ hit
      have hm := executing_fileIndex hexec hbefore
      exact (instructionUses_sound_iff hm).mpr (h.program _ _ ht _ hs _ hit _ _ hexec) u hu

namespace ThirteenOpcodes

def header : List Byte :=
  leBytes 4 32 ++ (leBytes 2 4 ++ (leBytes 4 26 ++
    ([1#8, 1#8, 1#8, 0xfb#8, 14#8, 14#8] ++ (expectedOpcodeLengths ++ [1#8]) ++
      [0#8, 0x61#8, 0#8, 0#8, 0#8, 0#8, 0#8])))

def cursor : Cursor := ⟨.ofList header, 0, header.length⟩

def info : DwarfInfo := ⟨0, .ofList header, fun _ => none, []⟩

theorem start_eq : parseLineTableStart cursor =
    .ok (36, 1#8, 0xfb#8, 14#8, 14#8) (cursor.advance 16) := rfl

end ThirteenOpcodes

theorem uses_not_sound_everywhere : ¬ ∀ (dw : DwarfInfo) (cu : CompileUnit) (c₀ : Cursor)
    (u : LineUse), Uses dw cu c₀ u → u.Sound := by
  intro h
  have hsound := h ThirteenOpcodes.info ⟨⟨0, 0⟩, []⟩ ThirteenOpcodes.cursor
  have hbase := readsLength_sound_iff.mp (fun _ _ _ hreads => hsound _ (.length hreads))
    _ _ ThirteenOpcodes.start_eq
  exact hbase.elim (by decide) fun hother => hother (bytesAt_ofList (by decide))

end KDebugger.Dwarf
