import KDebugger.Dwarf.DieTree
import KDebugger.Dwarf.LineRows

namespace KDebugger.Dwarf

open ByteStream Leb128 Exec Cur

/-- Version 4, instructions of one byte, one operation each, thirteen as the first
special opcode. -/
structure LineHeader where
  headerLength : BitVec 32
  defaultIsStmt : Byte
  lineBase : Byte
  lineRange : Byte
  directories : List (List Byte)
  files : List FileEntry
  rangeNe : lineRange ≠ 0#8
  named : ∀ d ∈ directories, d ≠ [] ∧ 0#8 ∉ d
  within : ∀ f ∈ files, f.dir.value ≤ directories.length

namespace LineHeader

/-- From the version to the standard opcode lengths. -/
def fixedBytes (h : LineHeader) : List Byte :=
  leBytes 2 (4#16).toNat ++ (leBytes 4 h.headerLength.toNat ++ ([1#8] ++ ([1#8] ++
    ([h.defaultIsStmt] ++ ([h.lineBase] ++ ([h.lineRange] ++ ([13#8] ++
      expectedOpcodeLengths)))))))

def directoryBytes (ds : List (List Byte)) : List Byte := ds.flatMap (· ++ [0#8]) ++ [0#8]

def fileBytes (fs : List FileEntry) : List Byte := fs.flatMap FileEntry.bytes

/-- The header after the field that gives the size of the table. -/
def body (h : LineHeader) : List Byte :=
  h.fixedBytes ++ (directoryBytes h.directories ++ (fileBytes h.files ++ [0#8]))

def params (h : LineHeader) : LineParams where
  defaultIsStmt := h.defaultIsStmt != 0#8
  lineBase := h.lineBase.toInt
  lineRange := h.lineRange.toNat

def includes (h : LineHeader) (compilationDir : Path) : List Path :=
  h.directories.map fun d => if d.head? = some 0x2f#8 then d else pathJoin compilationDir d

/-- The table of a header, its program lying between `first` and `last`. -/
def table (h : LineHeader) (cu : CompileUnit) (compilationDir : Path) (first last : ℕ) :
    LineTable where
  data := ⟨first, last⟩
  cu := cu
  defaultIsStmt := h.defaultIsStmt != 0#8
  lineBase := h.lineBase
  lineRange := h.lineRange
  opcodeBase := 13#8
  includeDirectories := h.includes compilationDir
  fileNames := h.files.map fun f => f.file compilationDir (h.includes compilationDir)

end LineHeader

theorem reads_check {α : Type} {c : Bool} {what : String} {f : Unit → Reader α} {bs : List Byte}
    {a : α} (hc : c = true) (hf : Reads (f ()) bs a) : Reads (require c what >>= f) bs a := by
  subst hc
  exact reads_bind (reads_pure ()) hf

theorem expectedOpcodeLengths_length : expectedOpcodeLengths.length = 12 := rfl

theorem reads_checkOpcodeLengths (n : ℕ) :
    ∀ {i : ℕ}, i + n = 12 → Reads (checkOpcodeLengths n i) (expectedOpcodeLengths.drop i) () := by
  induction n with
  | zero =>
    intro i hi
    rw [List.drop_eq_nil_of_le (by rw [expectedOpcodeLengths_length]; omega)]
    exact reads_pure ()
  | succ n ih =>
    intro i hi
    have hlt : i < expectedOpcodeLengths.length := by
      rw [expectedOpcodeLengths_length]
      omega
    rw [List.drop_eq_getElem_cons hlt]
    refine reads_bind (reads_u8 _) ?_
    rw [List.getElem?_eq_getElem hlt]
    exact reads_check (by simp) (ih (by omega))

/-- What the header parser does after the size, from where `start` is. -/
theorem parseLineTableHeader_eq {h : LineHeader} {size : BitVec 32} {c : Cursor}
    (hat : BytesAt c.image c.pos (leBytes 4 size.toNat ++ h.fixedBytes))
    (hstop : c.pos + (leBytes 4 size.toNat ++ h.fixedBytes).length ≤ c.stop) :
    parseLineTableHeader c =
      .ok (c.pos + 4 + size.toNat, h.defaultIsStmt, h.lineBase, h.lineRange, 13#8)
        (c.advance (4 + h.fixedBytes.length)) := by
  simp only [bytesAt_append, List.length_append, leBytes_length] at hat hstop
  have hsize := reads_u32 size c hat.1 (by simp only [leBytes_length]; omega)
  rw [leBytes_length] at hsize
  have hrest : ∀ start : ℕ, Reads (do
      let version ← u16
      require (version == 4#16) "Only DWARF 4 is supported right now"
      let _ ← u32
      let minimumInstructionLength ← u8
      require (minimumInstructionLength == 1#8) "Invalid minimum instruction length"
      let maximumOperationsPerInstruction ← u8
      require (maximumOperationsPerInstruction == 1#8)
        "Invalid maximum operations per instruction"
      let defaultIsStmt ← u8
      let lineBase ← u8
      let lineRange ← u8
      let opcodeBase ← u8
      checkOpcodeLengths (opcodeBase.toNat - 1) 0
      pure (start + size.toNat, defaultIsStmt, lineBase, lineRange, opcodeBase)) h.fixedBytes
      (start + size.toNat, h.defaultIsStmt, h.lineBase, h.lineRange, 13#8) := by
    intro start
    refine reads_bind (reads_u16 4#16) (reads_check rfl (reads_bind (reads_u32 h.headerLength) ?_))
    refine reads_bind (reads_u8 1#8) (reads_check rfl (reads_bind (reads_u8 1#8)
      (reads_check rfl ?_)))
    refine reads_bind (reads_u8 h.defaultIsStmt) (reads_bind (reads_u8 h.lineBase)
      (reads_bind (reads_u8 h.lineRange) (reads_bind (reads_u8 13#8) ?_)))
    exact reads_map (fun _ => (start + size.toNat, h.defaultIsStmt, h.lineBase, h.lineRange, 13#8))
      (reads_checkOpcodeLengths 12 rfl)
  rw [parseLineTableHeader, bind_ok hsize,
    bind_ok (show position (c.advance 4) = .ok (c.pos + 4) (c.advance 4) from rfl),
    ← Cursor.advance_advance]
  exact hrest (c.pos + 4) (c.advance 4) hat.2
    (by simp only [Cursor.advance_pos, Cursor.advance_stop]; omega)

theorem reads_parseIncludeDirectories {compilationDir : Path} (ds : List (List Byte)) :
    ∀ {fuel : ℕ}, (∀ d ∈ ds, d ≠ [] ∧ 0#8 ∉ d) → ds.length < fuel →
      Reads (parseIncludeDirectories compilationDir fuel) (LineHeader.directoryBytes ds)
        (ds.map fun d => if d.head? = some 0x2f#8 then d else pathJoin compilationDir d) := by
  induction ds with
  | nil =>
    intro fuel _ hlen
    obtain ⟨fuel, rfl⟩ : ∃ k, fuel = k + 1 := ⟨fuel - 1, by simp at hlen; omega⟩
    change Reads _ (([] ++ [0#8]) ++ []) _
    exact reads_bind (reads_string (s := []) (by simp)) (reads_pure [])
  | cons d ds ih =>
    intro fuel hds hlen
    obtain ⟨fuel, rfl⟩ : ∃ k, fuel = k + 1 := ⟨fuel - 1, by simp at hlen; omega⟩
    obtain ⟨hne, hno⟩ := hds d List.mem_cons_self
    have hbytes : LineHeader.directoryBytes (d :: ds) =
        (d ++ [0#8]) ++ LineHeader.directoryBytes ds := by
      simp [LineHeader.directoryBytes]
    rw [hbytes]
    refine reads_bind (reads_string hno) ?_
    rw [if_neg hne]
    exact reads_map ((if d.head? = some 0x2f#8 then d else pathJoin compilationDir d) :: ·)
      (ih (fun x hx => hds x (List.mem_cons_of_mem _ hx)) (by simpa using hlen))

theorem parseFileNames_eq {compilationDir : Path} {includes : List Path} (fs : List FileEntry) :
    ∀ {fuel : ℕ} {c : Cursor}, (∀ f ∈ fs, f.Within includes) → fs.length < fuel →
      BytesAt c.image c.pos (LineHeader.fileBytes fs ++ [0#8]) →
      c.pos + (LineHeader.fileBytes fs).length ≤ c.stop →
      parseFileNames compilationDir includes fuel c =
        .ok (fs.map fun f => f.file compilationDir includes)
          (c.advance (LineHeader.fileBytes fs).length) := by
  induction fs with
  | nil =>
    intro fuel c _ hlen hat _
    obtain ⟨fuel, rfl⟩ : ∃ k, fuel = k + 1 := ⟨fuel - 1, by simp at hlen; omega⟩
    have hpeek : peek c = .ok 0#8 c := by
      simp only [peek, show c.image.read c.pos = some 0#8 from hat.1]
    rw [parseFileNames, bind_ok hpeek]
    rfl
  | cons f fs ih =>
    intro fuel c hfs hlen hat hstop
    obtain ⟨fuel, rfl⟩ : ∃ k, fuel = k + 1 := ⟨fuel - 1, by simp at hlen; omega⟩
    obtain ⟨b, s, hname⟩ := List.exists_cons_of_ne_nil f.named
    have hb : b ≠ 0#8 := by
      rintro rfl
      exact f.noNul (by simp [hname])
    have hbytes : LineHeader.fileBytes (f :: fs) ++ [0#8] =
        f.bytes ++ (LineHeader.fileBytes fs ++ [0#8]) := by
      simp [LineHeader.fileBytes]
    have hlength : (LineHeader.fileBytes (f :: fs)).length =
        f.bytes.length + (LineHeader.fileBytes fs).length := by
      simp [LineHeader.fileBytes]
    rw [hbytes, bytesAt_append] at hat
    rw [hlength] at hstop ⊢
    have hpeek : peek c = .ok b c := by
      have hfirst : c.image.read c.pos = some b := by
        have := hat.1
        rw [FileEntry.bytes, hname] at this
        exact this.1
      simp only [peek, hfirst]
    have hfile : parseLineTableFile compilationDir includes c =
        .ok (f.file compilationDir includes) (c.advance f.bytes.length) :=
      reads_parseLineTableFile (hfs f List.mem_cons_self) c hat.1 (by omega)
    have hrest := ih (c := c.advance f.bytes.length)
      (fun x hx => hfs x (List.mem_cons_of_mem _ hx)) (by simpa using hlen) hat.2
      (by simp only [Cursor.advance_pos, Cursor.advance_stop]; omega)
    rw [parseFileNames, bind_ok hpeek, if_neg hb, bind_ok hfile, bind_ok hrest,
      Cursor.advance_advance]
    rfl

/-- A header and a program in a file, at the place the unit says. -/
structure LineSource (dw : DwarfInfo) (cu : CompileUnit) (h : LineHeader) (P : List LineInstr) where
  root : Die
  stmtList : Attr
  offset : BitVec 32
  debugLine : Span
  compilationDir : Path
  size : BitVec 32
  rootEq : dw.root cu = .ok root
  containsEq : root.contains dwAtStmtList = .ok true
  attrEq : root.attrOf dwAtStmtList = .ok stmtList
  offsetEq : stmtList.asSectionOffset dw = .ok offset
  sectionEq : dw.getSectionContents ".debug_line" = some debugLine
  dirEq : dw.compilationDir cu = .ok compilationDir
  sizeEq : size.toNat = h.body.length + (programBytes P).length
  placed : BytesAt dw.image (debugLine.first + offset.toNat)
    (leBytes 4 size.toNat ++ (h.body ++ programBytes P))
  ends : debugLine.first + offset.toNat + 4 + size.toNat ≤ debugLine.last

section Table

variable {dw : DwarfInfo} {cu : CompileUnit} {h : LineHeader} {P : List LineInstr}

def LineSource.first (src : LineSource dw cu h P) : ℕ :=
  src.debugLine.first + src.offset.toNat + 4 + h.body.length

def LineSource.table (src : LineSource dw cu h P) : LineTable :=
  h.table cu src.compilationDir src.first (src.first + (programBytes P).length)

theorem length_directories_le (ds : List (List Byte)) :
    ds.length < (LineHeader.directoryBytes ds).length := by
  induction ds with
  | nil => simp [LineHeader.directoryBytes]
  | cons d ds ih =>
    simp only [LineHeader.directoryBytes, List.flatMap_cons, List.length_append,
      List.length_cons, List.length_nil] at ih ⊢
    omega

theorem length_files_le (fs : List FileEntry) : fs.length ≤ (LineHeader.fileBytes fs).length := by
  induction fs with
  | nil => simp
  | cons f fs ih =>
    have hf : 0 < f.bytes.length := by
      simp only [FileEntry.bytes, List.length_append, List.length_singleton]
      omega
    simp only [LineHeader.fileBytes, List.flatMap_cons, List.length_append,
      List.length_cons] at ih ⊢
    omega

theorem LineHeader.body_length (h : LineHeader) :
    h.body.length = h.fixedBytes.length + ((directoryBytes h.directories).length +
      ((fileBytes h.files).length + 1)) := by
  simp [body]

theorem parseLineTableAt_eq (src : LineSource dw cu h P) :
    outcome (parseLineTableAt dw cu)
      ⟨dw.image, src.debugLine.first + src.offset.toNat, src.debugLine.last⟩ = .ok src.table := by
  -- the fields of the header in their order, then the lists and the program
  let c : Cursor := ⟨dw.image, src.debugLine.first + src.offset.toNat, src.debugLine.last⟩
  let c₁ := c.advance (4 + h.fixedBytes.length)
  let c₂ := c₁.advance (LineHeader.directoryBytes h.directories).length
  have hends := src.ends
  have hsize := src.sizeEq
  have hlength := h.body_length
  have hbytes : leBytes 4 src.size.toNat ++ (h.body ++ programBytes P) =
      (leBytes 4 src.size.toNat ++ h.fixedBytes) ++
        (LineHeader.directoryBytes h.directories ++
          ((LineHeader.fileBytes h.files ++ [0#8]) ++ programBytes P)) := by
    simp [LineHeader.body]
  have hplaced := src.placed
  rw [hbytes, bytesAt_append] at hplaced
  obtain ⟨hfixed, hrest⟩ := hplaced
  obtain ⟨hdirs, htail⟩ := (bytesAt_append _ _ _ _).mp hrest
  obtain ⟨hfiles, -⟩ := (bytesAt_append _ _ _ _).mp htail
  simp only [List.length_append, leBytes_length] at hdirs hfiles
  have hsizeDirs := hdirs.end_le_size (by simp [LineHeader.directoryBytes])
  have hsizeFiles := hfiles.end_le_size (by simp)
  simp only [List.length_append, List.length_singleton] at hsizeFiles
  have hlenDirs := length_directories_le h.directories
  have hlenFiles := length_files_le h.files
  have h₁ : parseLineTableHeader c = .ok (c.pos + 4 + src.size.toNat, h.defaultIsStmt,
      h.lineBase, h.lineRange, 13#8) c₁ :=
    parseLineTableHeader_eq hfixed (by simp only [List.length_append, leBytes_length, c]; omega)
  have h₂ : parseIncludeDirectories src.compilationDir (dw.image.size + 1) c₁ =
      .ok (h.includes src.compilationDir) c₂ :=
    reads_parseIncludeDirectories h.directories h.named (by omega) c₁ hdirs
      (by simp only [Cursor.advance_pos, Cursor.advance_stop, c₁, c]; omega)
  have hwithin : ∀ f ∈ h.files, f.Within (h.includes src.compilationDir) := by
    intro f hf
    simpa [FileEntry.Within, LineHeader.includes] using h.within f hf
  have h₃ : parseFileNames src.compilationDir (h.includes src.compilationDir)
      (dw.image.size + 1) c₂ = .ok
        (h.files.map fun f => f.file src.compilationDir (h.includes src.compilationDir))
        (c₂.advance (LineHeader.fileBytes h.files).length) :=
    parseFileNames_eq h.files hwithin (by omega) hfiles
      (by simp only [Cursor.advance_pos, Cursor.advance_stop, c₂, c₁, c]; omega)
  have hfirst : src.debugLine.first + src.offset.toNat + (4 + h.fixedBytes.length) +
      (LineHeader.directoryBytes h.directories).length +
        (LineHeader.fileBytes h.files).length + 1 = src.first := by
    simp only [LineSource.first, hlength]
    omega
  have hlast : src.debugLine.first + src.offset.toNat + 4 + src.size.toNat =
      src.first + (programBytes P).length := by
    simp only [LineSource.first, hsize]
    omega
  simp only [parseLineTableAt, outcome]
  rw [bind_ok h₁]
  simp only [src.dirEq]
  rw [bind_ok (ofExcept_ok _ _), bind_ok h₂, bind_ok h₃, bind_ok (skip_eq 1 _),
    bind_ok (position_eq _)]
  simp only [pure, EStateM.pure, Cursor.advance_pos, c₂, c₁, c, hfirst, hlast]
  rfl

theorem parseLineTable_eq (src : LineSource dw cu h P) :
    parseLineTable dw cu = .ok (some src.table) := by
  simp only [parseLineTable, src.rootEq, src.containsEq, src.attrEq, src.offsetEq, src.sectionEq,
    bind, Except.bind, if_true, parseLineTableAt_eq src]
  rfl

/-- The table parsed from the file has a traversal, and its rows are those of the
standard's state machine on the same program. -/
def RowsOfStandard (dw : DwarfInfo) (cu : CompileUnit) (h : LineHeader) (P : List LineInstr) :
    Prop :=
  ∃ t es, parseLineTable dw cu = .ok (some t) ∧ t.rows dw = .ok es ∧
    es.map Entry.row = h.params.run h.params.initial P

theorem LineSource.holds (src : LineSource dw cu h P)
    (hw : ∀ i ∈ P, i.Within (h.includes src.compilationDir)) (hisa : NoIsa P) :
    Holds dw src.table src.compilationDir src.first P where
  base := rfl
  range := h.rangeNe
  dir := src.dirEq
  within := hw
  noIsa := hisa
  bytes := by
    have hplaced := src.placed
    rw [bytesAt_append, bytesAt_append] at hplaced
    have hbytes := hplaced.2.2
    rw [leBytes_length] at hbytes
    exact hbytes
  ends := rfl

theorem rowsOfStandard_iff_agrees (src : LineSource dw cu h P) (hc : Closed P)
    (hw : ∀ i ∈ P, i.Within (h.includes src.compilationDir)) (hisa : NoIsa P) :
    RowsOfStandard dw cu h P ↔
      Agrees dw src.table src.compilationDir ⟨{}, src.table.initial, src.table.fileNames⟩
        h.params.initial P := by
  have hyields := rows_yields hc (src.holds hw hisa)
  have hparse := parseLineTable_eq src
  constructor
  · rintro ⟨t, es, ht, hrows, heq⟩
    obtain rfl : src.table = t := by simpa using hparse.symm.trans ht
    cases hrun : src.table.run dw src.compilationDir
        ⟨{}, src.table.initial, src.table.fileNames⟩ P with
    | none =>
      rw [hrun] at hyields
      obtain ⟨e, he⟩ := hyields
      simp [he] at hrows
    | some es' =>
      rw [hrun] at hyields
      obtain rfl : es' = es := by simpa using hyields.symm.trans hrows
      exact ⟨es', hrun, heq⟩
  · rintro ⟨es, hrun, heq⟩
    rw [hrun] at hyields
    exact ⟨src.table, es, hparse, hyields, heq⟩

/-- A program that sets no instruction set architecture is run as the standard says
exactly when it is faithful. -/
theorem rowsOfStandard_iff (src : LineSource dw cu h P) (hc : Closed P)
    (hw : ∀ i ∈ P, i.Within (h.includes src.compilationDir)) (hisa : NoIsa P) :
    RowsOfStandard dw cu h P ↔ Faithful 0 P :=
  (rowsOfStandard_iff_agrees src hc hw hisa).trans
    (agrees_iff rfl P (.inl hc) hisa tracks_initial)

end Table

namespace SmallLineTable

def header : LineHeader where
  headerLength := 20#32
  defaultIsStmt := 1#8
  lineBase := 0xfb#8
  lineRange := 14#8
  directories := []
  files := []
  rangeNe := by decide
  named := by simp
  within := by simp

theorem rootCode_ne : (Uleb.small 1).toLeb.unsigned ≠ 0#64 := by decide

/-- The root of a unit with the table at the start of `.debug_line` and `/` as its
directory. -/
def rootHead : Head :=
  ⟨(Uleb.small 1).toLeb,
    ⟨1#64, 0x11#64, false,
      [⟨dwAtStmtList, Form.secOffset.code⟩, ⟨dwAtCompDir, Form.string.code⟩]⟩,
    [[0#8, 0#8, 0#8, 0#8], [0x2f#8] ++ [0#8]], rfl, rootCode_ne,
    .cons (.fixed (f := .secOffset) rfl) (.cons (.string (by decide)) .nil)⟩

def unit : CompileUnit := ⟨⟨0, 18⟩, [rootHead.entry]⟩

def size (P : List LineInstr) : BitVec 32 :=
  BitVec.ofNat 32 (header.body.length + (programBytes P).length)

def table (P : List LineInstr) : List Byte :=
  leBytes 4 (size P).toNat ++ (header.body ++ programBytes P)

def info (P : List LineInstr) : DwarfInfo where
  elf := 0
  image := .ofList (List.replicate 11 0#8 ++ (rootHead.bytes ++ table P))
  getSectionContents s :=
    if s = ".debug_line" then some ⟨18, 18 + (table P).length⟩ else none
  compileUnits := [unit]

theorem placed_root (P : List LineInstr) : Placed (info P).image unit 11 rootHead.bytes :=
  ⟨bytesAt_ofList_append (List.replicate 11 0#8) rootHead.bytes (table P), by decide⟩

theorem root_eq (P : List LineInstr) : (info P).root unit = .ok (rootHead.die unit 11) :=
  parseDieAt_head (placed_root P) rfl

theorem stmtList_eq (P : List LineInstr) :
    Attr.asSectionOffset (info P) ⟨unit, dwAtStmtList, Form.secOffset.code, 12⟩ = .ok 0#32 := by
  have hat : BytesAt (info P).image 12 ([0#8, 0#8, 0#8, 0#8] ++ [0x2f#8, 0#8]) :=
    (placed_root P).1.2
  exact accessed_of_encodes (.secOffset 0#32) (by decide) (f := .secOffset) rfl
    ((bytesAt_append _ _ _ _).mp hat).1 (by decide)

theorem compilationDir_eq (P : List LineInstr) : (info P).compilationDir unit = .ok [0x2f#8] := by
  have hat : BytesAt (info P).image 12 ([0#8, 0#8, 0#8, 0#8] ++ ([0x2f#8] ++ [0#8])) :=
    (placed_root P).1.2
  have hstr : Attr.asString (info P) ⟨unit, dwAtCompDir, Form.string.code, 16⟩ = .ok [0x2f#8] :=
    accessed_of_encodes (.string (s := [0x2f#8]) (by decide)) (by decide) (f := .string) rfl
      ((bytesAt_append _ _ _ _).mp hat).2 (by decide)
  rw [DwarfInfo.compilationDir, root_eq]
  exact hstr

/-- The table with any program that fits. -/
def source (P : List LineInstr)
    (hP : header.body.length + (programBytes P).length < 2 ^ 32) :
    LineSource (info P) unit header P where
  root := rootHead.die unit 11
  stmtList := ⟨unit, dwAtStmtList, Form.secOffset.code, 12⟩
  offset := 0#32
  debugLine := ⟨18, 18 + (table P).length⟩
  compilationDir := [0x2f#8]
  size := size P
  rootEq := root_eq P
  containsEq := rfl
  attrEq := rfl
  offsetEq := stmtList_eq P
  sectionEq := rfl
  dirEq := compilationDir_eq P
  sizeEq := by rw [size, BitVec.toNat_ofNat, Nat.mod_eq_of_lt hP]
  placed := by
    have hat := bytesAt_ofList_append (List.replicate 11 0#8 ++ rootHead.bytes) (table P) []
    rw [List.append_nil, List.append_assoc] at hat
    exact hat
  ends := by
    have hlen : (table P).length = 4 + (header.body.length + (programBytes P).length) := by
      simp [table]
    change 18 + 0 + 4 + (size P).toNat ≤ 18 + (table P).length
    rw [hlen, size, BitVec.toNat_ofNat, Nat.mod_eq_of_lt hP]
    omega

theorem endLength : (Uleb.small 1).value = 1 := rfl

def good : List LineInstr :=
  [.setAddress (.small 9) rfl 0x1000#64, .copy, .advancePc (.small 63), .special 20#8 (by decide),
    .endSequence (.small 1) endLength]

def bad : List LineInstr :=
  [.advanceLine ⟨(Uleb.small 1).toLeb, by decide, by decide⟩, .endSequence (.small 1) endLength]

end SmallLineTable

/-- A program without the four instructions that go wrong. -/
theorem rowsOfStandard_iff_good :
    RowsOfStandard (SmallLineTable.info SmallLineTable.good) SmallLineTable.unit
      SmallLineTable.header SmallLineTable.good :=
  (rowsOfStandard_iff (SmallLineTable.source SmallLineTable.good (by decide))
    (closed_append [_, _, _, _] rfl) (by simp [SmallLineTable.good, LineInstr.Within])
    (by simp [NoIsa, SmallLineTable.good])).mpr ⟨by decide, by decide, by decide, trivial⟩

/-- The table of a program with a `DW_LNS_advance_line` cannot be traversed. -/
theorem rowsOfStandard_not_for_all : ¬ ∀ (dw : DwarfInfo) (cu : CompileUnit) (h : LineHeader)
    (P : List LineInstr) (src : LineSource dw cu h P), Closed P →
      (∀ i ∈ P, i.Within (h.includes src.compilationDir)) → RowsOfStandard dw cu h P := by
  intro hall
  let src := SmallLineTable.source SmallLineTable.bad (by decide)
  have hc : Closed SmallLineTable.bad := closed_append [_] rfl
  have hw : ∀ i ∈ SmallLineTable.bad, i.Within (SmallLineTable.header.includes src.compilationDir) := by
    simp [SmallLineTable.bad, LineInstr.Within]
  have hisa : NoIsa SmallLineTable.bad := by simp [NoIsa, SmallLineTable.bad]
  exact agrees_raise rfl ((rowsOfStandard_iff_agrees src hc hw hisa).mp (hall _ _ _ _ src hc hw))

end KDebugger.Dwarf
