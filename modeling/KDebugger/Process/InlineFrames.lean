import KDebugger.Dwarf.SourcePlaces
import KDebugger.Process.StackRuns

namespace KDebugger.Process

open Exec Dwarf

/-- `die::location`. -/
def dieLocation (dw : DwarfInfo) (lines : LineTables) (d : Die) : Except Failure SourceLocation := do
  let file ← d.file dw lines
  let line ← d.line dw
  pure ⟨some file, line⟩

/-- With the lookups in the debugging information of the main program; `index` is what there
is of the function index. -/
def FrameInfo.over (I : FrameInfo) (dw : DwarfInfo) (lines : LineTables)
    (order : FunctionIndex → FunctionIndex) (depth : ℕ) (index : FunctionIndex) : FrameInfo :=
  { I with
    mainElf := dw.elf
    inlineStackAtAddress := fun pc => outcome (dw.inlineStackAtAddress order depth pc) index
    lineEntryAtAddress := dw.lineEntryAtAddress lines
    lowPc := fun d => d.lowPc dw
    location := dieLocation dw lines }

theorem loaded_of_toFileAddr {elves : Elves} {v : VirtAddr} {id : ElfId}
    (h : (elves.toFileAddr v).elf = some id) : ∃ e, elves[id]? = some e := by
  unfold Elves.toFileAddr at h
  cases hfound : elves.elfContaining v with
  | none =>
    rw [hfound] at h
    cases h
  | some id' =>
    rw [hfound] at h
    dsimp only at h
    cases he : elves[id']? with
    | none =>
      rw [he] at h
      cases h
    | some e =>
      rw [he] at h
      cases h
      exact ⟨e, he⟩

theorem toVirtAddr_loaded {elves : Elves} {e : LoadedElf} {id : ElfId} {a : FileAddr}
    (he : elves[id]? = some e) (ha : a.elf = some id) : ∃ v, elves.toVirtAddr a = .ok v := by
  unfold Elves.toVirtAddr
  rw [ha]
  dsimp only
  rw [he]
  exact ⟨_, rfl⟩

section Stacks

variable (I : FrameInfo) (dw : DwarfInfo) (lines : LineTables)

/-- What the outer frame has of the subroutine that is inlined there: where it is called, and
where its code begins. -/
structure CalledFrom (inner outer : StackFrame) : Prop where
  located : ∃ number line, inner.funcDie.RecordsCallSite dw lines number line ∧
    outer.location = ⟨some (number - 1#64), line⟩
  reported : ∃ low, inner.funcDie.lowPc dw = .ok low ∧
    I.elves.toVirtAddr low = .ok outer.backtraceReportAddress

/-- The frames of the functions `ds`, the innermost one first. -/
structure FramesOf (regs : Registers) (ds : List Die) (frames : List StackFrame) : Prop where
  functions : frames.map StackFrame.funcDie = ds
  registers : ∀ frame ∈ frames, frame.regs = regs
  /-- the last frame is that of the function itself -/
  marked : frames.map StackFrame.inlined = List.replicate (ds.length - 1) true ++ [false]
  linked : frames.IsChain (CalledFrom I dw lines)

/-- The call is recorded. -/
def Sited (d : Die) : Prop := ∃ number line, d.RecordsCallSite dw lines number line

variable {I dw lines} {regs : Registers} {order : FunctionIndex → FunctionIndex} {depth : ℕ}
  {index : FunctionIndex}

theorem Sited.location {d : Die} (h : Sited dw lines d) : ∃ number line,
    d.RecordsCallSite dw lines number line ∧
      dieLocation dw lines d = .ok ⟨some (number - 1#64), line⟩ := by
  obtain ⟨number, line, hsite⟩ := h
  refine ⟨number, line, hsite, ?_⟩
  unfold dieLocation
  rw [hsite.file_eq, hsite.line_eq]
  rfl

theorem framesOf_created : ∀ {ds : List Die} {d : Die} {base : StackFrame}
    {frames : List StackFrame}, base.funcDie = d → base.inlined = !ds.isEmpty → base.regs = regs →
      (∀ e ∈ (d :: ds).dropLast, Sited dw lines e) →
      createInlineStackFrames (I.over dw lines order depth index) regs (d :: ds) = .ok frames →
      FramesOf I dw lines regs (d :: ds) (base :: frames) := by
  intro ds
  induction ds with
  | nil =>
    intro d base frames hdie hinlined hregs hsited h
    cases h
    exact ⟨by rw [List.map_singleton, hdie], by simpa using hregs, by simp [hinlined],
      List.IsChain.singleton base⟩
  | cons outer ds ih =>
    intro inner base frames hdie hinlined hregs hsited h
    obtain ⟨hinner, hfurther⟩ := List.forall_mem_cons.mp hsited
    unfold createInlineStackFrames at h
    obtain ⟨low, hlow, h₁⟩ := except_bind_eq_ok.mp h
    obtain ⟨inlinedPc, hvirt, h₂⟩ := except_bind_eq_ok.mp h₁
    obtain ⟨location, hlocation, h₃⟩ := except_bind_eq_ok.mp h₂
    obtain ⟨rest, hrest, h₄⟩ := except_bind_eq_ok.mp h₃
    cases h₄
    -- the frame of `outer` is the base of what is further out
    have hframes : FramesOf I dw lines regs (outer :: ds)
        (⟨regs, inlinedPc, outer, !ds.isEmpty, location⟩ :: rest) := ih rfl rfl rfl hfurther hrest
    obtain ⟨number, line, hsite, hrecorded⟩ := hinner.location
    have hcalled : CalledFrom I dw lines base ⟨regs, inlinedPc, outer, !ds.isEmpty, location⟩ := by
      refine ⟨⟨number, line, hdie ▸ hsite, ?_⟩, low, hdie ▸ hlow, hvirt⟩
      exact Except.ok.inj (hlocation.symm.trans hrecorded)
    refine ⟨?_, List.forall_mem_cons.mpr ⟨hregs, hframes.registers⟩, ?_, ?_⟩
    · rw [List.map_cons, hdie, hframes.functions]
    · rw [List.map_cons, hinlined, hframes.marked]
      rfl
    · exact List.IsChain.cons_cons hcalled hframes.linked

theorem FramesOf.sited {ds : List Die} {f : Die} {frames : List StackFrame}
    (h : FramesOf I dw lines regs (ds ++ [f]) frames) : ∀ d ∈ ds, Sited dw lines d := by
  intro d hd
  obtain ⟨i, hi, rfl⟩ := List.getElem_of_mem hd
  have hlength : frames.length = ds.length + 1 := by
    simpa using congrArg List.length h.functions
  have hlt : i < frames.length := by omega
  have hdie : frames[i].funcDie = ds[i] := by
    have hget : (frames.map StackFrame.funcDie)[i]? = (ds ++ [f])[i]? := by rw [h.functions]
    rw [List.getElem?_map, List.getElem?_eq_getElem hlt, List.getElem?_append_left hi,
      List.getElem?_eq_getElem hi] at hget
    exact Option.some.inj hget
  obtain ⟨number, line, hsite, -⟩ := (List.isChain_iff_getElem.mp h.linked i (by omega)).located
  exact ⟨number, line, hdie ▸ hsite⟩

/-- All frames are made when the calls are recorded and every subroutine has a `low_pc`. -/
theorem createInlineStackFrames_total {e : LoadedElf} (helf : I.elves[dw.elf]? = some e) (f : Die) :
    ∀ {ds : List Die}, (∀ d ∈ ds, (∃ low, d.lowPc dw = .ok low ∧ low.elf = some dw.elf) ∧
      Sited dw lines d) →
      ∃ frames, createInlineStackFrames (I.over dw lines order depth index) regs (ds ++ [f]) =
        .ok frames := by
  intro ds
  induction ds with
  | nil => exact fun _ => ⟨[], rfl⟩
  | cons d ds ih =>
    intro h
    obtain ⟨⟨⟨low, hlow, hfile⟩, hsited⟩, hrest⟩ := List.forall_mem_cons.mp h
    obtain ⟨frames, hframes⟩ := ih hrest
    obtain ⟨outer, rest, hcons⟩ : ∃ outer rest, ds ++ [f] = outer :: rest :=
      List.exists_cons_of_ne_nil (List.concat_ne_nil f ds)
    obtain ⟨number, line, -, hlocation⟩ := hsited.location
    rw [List.cons_append, hcons]
    rw [hcons] at hframes
    unfold createInlineStackFrames
    obtain ⟨v, hvirt⟩ := toVirtAddr_loaded helf hfile
    refine ⟨⟨regs, v, outer, !rest.isEmpty, ⟨some (number - 1#64), line⟩⟩ :: frames,
      except_bind_eq_ok.mpr ⟨low, hlow, except_bind_eq_ok.mpr ⟨v, hvirt, ?_⟩⟩⟩
    exact except_bind_eq_ok.mpr ⟨_, hlocation, except_bind_eq_ok.mpr ⟨frames, hframes, rfl⟩⟩

theorem createBaseFrame_iff {e : LoadedElf} (helf : I.elves[dw.elf]? = some e) {pc : FileAddr}
    (hpc : pc.elf = some dw.elf) (d : Die) (inlined : Bool) :
    (∃ base, createBaseFrame (I.over dw lines order depth index) regs d pc inlined = .ok base) ↔
      ∃ entry, dw.lineEntryAtAddress lines pc = .ok entry := by
  constructor
  · rintro ⟨base, hbase⟩
    obtain ⟨backtracePc, -, h₁⟩ := except_bind_eq_ok.mp hbase
    obtain ⟨entry, hentry, -⟩ := except_bind_eq_ok.mp h₁
    exact ⟨entry, hentry⟩
  · rintro ⟨entry, hentry⟩
    obtain ⟨v, hvirt⟩ := toVirtAddr_loaded helf hpc
    cases entry with
    | none =>
      refine ⟨⟨regs, v, d, inlined, ⟨none, 1#64⟩⟩, ?_⟩
      exact except_bind_eq_ok.mpr ⟨v, hvirt, except_bind_eq_ok.mpr ⟨none, hentry, rfl⟩⟩
    | some row =>
      obtain ⟨w, hrow⟩ := toVirtAddr_loaded helf ((elf_of_lineEntry hentry).trans hpc)
      refine ⟨⟨regs, w, d, inlined, ⟨row.fileEntry, row.line⟩⟩, ?_⟩
      exact except_bind_eq_ok.mpr ⟨v, hvirt, except_bind_eq_ok.mpr ⟨some row, hentry,
        except_bind_eq_ok.mpr ⟨w, hrow, rfl⟩⟩⟩

end Stacks

section Left

variable {σ : Type} {T : Traced σ} {I : FrameInfo} {s s' : σ} {regs left unwound : Registers}

theorem cfiUnwind_left {pc : FileAddr} (h : cfiUnwind T I pc regs s = .ok (left, unwound) s') :
    ∃ cfa, left = { regs with cfa } := by
  obtain ⟨fde, s₁, -, h₁⟩ := bind_eq_ok.mp h
  obtain ⟨ctx, s₂, -, h₂⟩ := bind_eq_ok.mp h₁
  obtain ⟨info, s₃, -, h₃⟩ := bind_eq_ok.mp h₂
  obtain ⟨base, s₄, -, h₄⟩ := bind_eq_ok.mp h₃
  obtain ⟨rsp, s₅, -, h₅⟩ := bind_eq_ok.mp h₄
  obtain ⟨unwound₁, s₆, -, h₆⟩ := bind_eq_ok.mp h₅
  obtain ⟨unwound₂, s₇, -, h₇⟩ := bind_eq_ok.mp h₆
  cases h₇
  exact ⟨_, rfl⟩

theorem withLastRegs_append (before : List StackFrame) {frames : List StackFrame} (hne : frames ≠ []) :
    withLastRegs (before ++ frames) left = before ++ withLastRegs frames left := by
  unfold withLastRegs
  rw [List.getLast?_append_of_ne_nil before hne, List.getLast?_eq_some_getLast hne]
  dsimp only
  rw [List.dropLast_append_of_ne_nil hne, List.append_assoc]

theorem withLastRegs_same {frames : List StackFrame} (h : ∀ frame ∈ frames, frame.regs = regs) :
    withLastRegs frames regs = frames := by
  unfold withLastRegs
  cases hlast : frames.getLast? with
  | none => rfl
  | some frame =>
    obtain ⟨before, rfl⟩ := List.getLast?_eq_some_iff.mp hlast
    obtain rfl := h frame (List.mem_append_right _ (List.mem_singleton_self frame))
    simp

end Left

section Turns

variable {σ : Type} {T : Traced σ} {I : FrameInfo} {s : σ} {st : Stack} {regs : Registers}
  {pc : VirtAddr}

theorem after_turn_error {inlineStack ds : List Die} {d : Die} {e : Failure} (hzero : pc ≠ 0#64)
    (helf : (I.elves.toFileAddr pc).elf = some I.mainElf)
    (hstack : I.inlineStackAtAddress (I.elves.toFileAddr pc) = .ok inlineStack)
    (hrev : inlineStack.reverse = d :: ds)
    (hbase : createBaseFrame I regs d (I.elves.toFileAddr pc) (!ds.isEmpty) = .error e) :
    (after (Stack.turn I T regs pc) (s, st)).2 = st := by
  have hraise : Stack.createBaseFrame I regs d (I.elves.toFileAddr pc) (!ds.isEmpty) (s, st) =
      .error e (s, st) := by
    unfold Stack.createBaseFrame
    rw [hbase]
    exact bind_error (ofExcept_error _ _)
  have hmake : Stack.makeFrames I T regs pc d ds (s, st) = .error e (s, st) := bind_error hraise
  unfold Stack.turn
  rw [if_neg (not_or.mpr ⟨hzero, not_not.mpr helf⟩), hstack, after_bind_ok (ofExcept_ok _ _), hrev]
  change (after (Stack.makeFrames I T regs pc d ds >>= _) _).2 = _
  rw [after_bind_error hmake]

theorem after_turn_made {inlineStack ds : List Die} {d : Die} {base : StackFrame}
    {frames : List StackFrame} (hzero : pc ≠ 0#64)
    (helf : (I.elves.toFileAddr pc).elf = some I.mainElf)
    (hstack : I.inlineStackAtAddress (I.elves.toFileAddr pc) = .ok inlineStack)
    (hrev : inlineStack.reverse = d :: ds)
    (hbase : createBaseFrame I regs d (I.elves.toFileAddr pc) (!ds.isEmpty) = .ok base)
    (hframes : createInlineStackFrames I regs (d :: ds) = .ok frames)
    (hregs : ∀ frame ∈ base :: frames, frame.regs = regs) :
    ∃ cfa, (after (Stack.turn I T regs pc) (s, st)).2 =
      { st with frames := st.frames ++ withLastRegs (base :: frames) { regs with cfa } } := by
  have hmade : (after (Stack.turn I T regs pc) (s, st)).2 =
      (after (Stack.makeFrames I T regs pc d ds) (s, st)).2 := by
    unfold Stack.turn
    rw [if_neg (not_or.mpr ⟨hzero, not_not.mpr helf⟩), hstack, after_bind_ok (ofExcept_ok _ _), hrev]
    exact congrArg Prod.snd (after_bind_unchanged (fun _ _ => rfl) (s, st))
  rw [hmade]
  unfold Stack.makeFrames
  rw [after_bind_ok (createBaseFrame_ok.mpr ⟨base, hbase, rfl⟩),
    after_bind_ok (createInlineStackFrames_ok.mpr ⟨frames, hframes, rfl⟩)]
  cases hcfi : cfiUnwind T I (I.elves.toFileAddr pc) regs s with
  | error e s' =>
    -- without call frame information the frames stay as they are
    rw [after_bind_error (onProcess_error hcfi)]
    refine ⟨regs.cfa, ?_⟩
    rw [withLastRegs_same hregs, List.append_assoc]
    rfl
  | ok r s' =>
    obtain ⟨left, unwound⟩ := r
    obtain ⟨cfa, rfl⟩ := cfiUnwind_left hcfi
    rw [after_bind_ok (onProcess_ok hcfi)]
    change ∃ cfa, (after (onStack _ >>= _) _).2 = _
    rw [after_bind_ok (onStack_eq _ _)]
    refine ⟨cfa, ?_⟩
    have hrest : ∀ p : σ × Stack, after ((ofExcept (unwound.readByIdAsU64 (.gpr64 .rip)) :
        EStateM Failure (σ × Stack) VirtAddr) >>= fun rip => pure (rip - 1#64, unwound)) p = p := by
      intro p
      rw [after_bind_unchanged fun _ _ => rfl]
      cases unwound.readByIdAsU64 (.gpr64 .rip) <;> rfl
    refine (congrArg Prod.snd (hrest _)).trans ?_
    rw [List.append_assoc, List.singleton_append, withLastRegs_append _ (List.cons_ne_nil _ _)]

end Turns

/-- The frames of the stack are added, the innermost function first and all with the registers of
the turn; unwinding from the last one notes the CFA in it. -/
def Appended (I : FrameInfo) (dw : DwarfInfo) (lines : LineTables) (regs : Registers)
    (inlineStack : List Die) (st st' : Stack) : Prop :=
  ∃ frames cfa, FramesOf I dw lines regs inlineStack.reverse frames ∧
    st' = { st with frames := st.frames ++ withLastRegs frames { regs with cfa } }

section Law

variable {σ : Type} {T : Traced σ} {I : FrameInfo} {dw : DwarfInfo} {lines : LineTables}
  {order : FunctionIndex → FunctionIndex} {depth : ℕ} {index : FunctionIndex} {s : σ} {st : Stack}
  {regs : Registers} {pc : VirtAddr} {f : Die} {inlined : List Die}

/-- One frame is added for each function exactly when the line of the program counter can be
looked up and the call of every inlined subroutine is recorded. -/
theorem turn_appends_iff (hzero : pc ≠ 0#64) (helf : (I.elves.toFileAddr pc).elf = some dw.elf)
    (hstack : outcome (dw.inlineStackAtAddress order depth (I.elves.toFileAddr pc)) index =
      .ok (f :: inlined)) :
    Appended I dw lines regs (f :: inlined) st
        (after (Stack.turn (I.over dw lines order depth index) T regs pc) (s, st)).2 ↔
      (∃ entry, dw.lineEntryAtAddress lines (I.elves.toFileAddr pc) = .ok entry) ∧
        ∀ d ∈ inlined, Sited dw lines d := by
  -- the location and the report address of a frame come from the function one further in
  obtain ⟨e, he⟩ := loaded_of_toFileAddr helf
  obtain ⟨d, ds, hcons⟩ : ∃ d ds, (f :: inlined).reverse = d :: ds :=
    List.exists_cons_of_ne_nil (by simp)
  have hlast : inlined.reverse ++ [f] = d :: ds := by rw [← hcons, List.reverse_cons]
  have hbase : (∃ base, createBaseFrame (I.over dw lines order depth index) regs d
      (I.elves.toFileAddr pc) (!ds.isEmpty) = .ok base) ↔
      ∃ entry, dw.lineEntryAtAddress lines (I.elves.toFileAddr pc) = .ok entry :=
    createBaseFrame_iff he helf d (!ds.isEmpty)
  constructor
  · rintro ⟨frames, cfa, hframes, hafter⟩
    refine ⟨hbase.mp ?_, fun d hd => ?_⟩
    · -- a base frame that fails leaves nothing behind
      cases hcreated : createBaseFrame (I.over dw lines order depth index) regs d
          (I.elves.toFileAddr pc) (!ds.isEmpty) with
      | ok base => exact ⟨base, rfl⟩
      | error err =>
        rw [after_turn_error (I := I.over dw lines order depth index) hzero helf hstack hcons
          hcreated] at hafter
        have hlength : frames.length = ds.length + 1 := by
          simpa [hcons] using congrArg List.length hframes.functions
        have hsame := congrArg (fun st => st.frames.length) hafter
        simp only [List.length_append, length_withLastRegs] at hsame
        omega
    · rw [List.reverse_cons] at hframes
      exact hframes.sited d (List.mem_reverse.mpr hd)
  · rintro ⟨hline, hsited⟩
    obtain ⟨base, hbase⟩ := hbase.mpr hline
    obtain ⟨hdie, hinlined, hregs⟩ := createBaseFrame_of_ok hbase
    have hplaced : ∀ d ∈ inlined.reverse, (∃ low, d.lowPc dw = .ok low ∧ low.elf = some dw.elf) ∧
        Sited dw lines d := by
      intro d hd
      have hmem := List.mem_reverse.mp hd
      exact ⟨lowPc_of_inlinedAt (inlinedAt_of_inlineStack hstack d hmem), hsited d hmem⟩
    obtain ⟨frames, hframes⟩ : ∃ frames, createInlineStackFrames (I.over dw lines order depth index)
        regs (d :: ds) = .ok frames := hlast ▸ createInlineStackFrames_total he f hplaced
    have hall : FramesOf I dw lines regs (d :: ds) (base :: frames) := by
      apply framesOf_created hdie hinlined hregs ?_ hframes
      intro d hd
      rw [← hlast, List.dropLast_concat] at hd
      exact (hplaced d hd).2
    obtain ⟨cfa, hafter⟩ : ∃ cfa,
        (after (Stack.turn (I.over dw lines order depth index) T regs pc) (s, st)).2 =
          { st with frames := st.frames ++ withLastRegs (base :: frames) { regs with cfa } } :=
      after_turn_made hzero helf hstack hcons hbase hframes hall.registers
    exact ⟨base :: frames, cfa, hcons ▸ hall, hafter⟩

end Law

section Instances

theorem hasConstant_data1 {dw : DwarfInfo} {d : Die} {attrName : BitVec 64} {a : Attr} {v : BitVec 8}
    (hattr : d.attrOf attrName = .ok a) (hform : a.form = Form.data1.code)
    (hread : dw.image.read a.location = some v) (hstop : a.location + 1 ≤ a.cu.data.last) :
    d.HasConstant dw attrName (v.setWidth 64) :=
  ⟨a, .data1, [v], hattr, hform, .data1 v, ⟨hread, trivial⟩, hstop⟩

private def inlinedSpecs : List AttrSpec :=
  [⟨dwAtName, Form.string.code⟩, ⟨dwAtRanges, Form.secOffset.code⟩,
    ⟨dwAtCallFile, Form.data1.code⟩, ⟨dwAtCallLine, Form.data1.code⟩]

private def callingUnit : CompileUnit where
  data := ⟨0, 40⟩
  abbrevTable := [⟨1#64, 0x11#64, true, []⟩,
    ⟨2#64, dwTagSubprogram, true, [⟨dwAtName, Form.string.code⟩, ⟨dwAtRanges, Form.secOffset.code⟩]⟩,
    ⟨3#64, dwTagInlinedSubroutine, true, inlinedSpecs⟩,
    ⟨4#64, dwTagInlinedSubroutine, false, inlinedSpecs⟩]

private def callingInfo : DwarfInfo where
  elf := 0
  image := .ofList (List.replicate 11 0#8 ++ [1#8] ++ [2#8, 0x66#8, 0#8, 0#8, 0#8, 0#8, 0#8] ++
    [3#8, 0x67#8, 0#8, 0#8, 0#8, 0#8, 0#8, 1#8, 10#8] ++
    [4#8, 0x68#8, 0#8, 0#8, 0#8, 0#8, 0#8, 1#8, 20#8] ++ [0#8, 0#8, 0#8] ++ rangeBytes InlinedCode.items)
  getSectionContents _ := some ⟨40, 72⟩
  compileUnits := [callingUnit]

private def callingTable : LineTable where
  data := ⟨0, 0⟩
  cu := callingUnit
  defaultIsStmt := true
  lineBase := 0#8
  lineRange := 1#8
  opcodeBase := 1#8
  includeDirectories := []
  fileNames := [⟨[0x61#8], 0#64, 0#64⟩]

private def callingFunction : Die :=
  { pos := some 12, cu := some callingUnit, abbrevEntry := callingUnit.abbrevAt 2#64,
    attrLocs := [13, 15], next := 19 }

private def calledOuter : Die :=
  { pos := some 19, cu := some callingUnit, abbrevEntry := callingUnit.abbrevAt 3#64,
    attrLocs := [20, 22, 26, 27], next := 28 }

private def calledInner : Die :=
  { pos := some 28, cu := some callingUnit, abbrevEntry := callingUnit.abbrevAt 4#64,
    attrLocs := [29, 31, 35, 36], next := 37 }

private def callingElves : FrameInfo :=
  { oneFunction with elves := [{ loadBias := 0#64, sectionHeaders := [⟨0x1000#64, 256#64, 2#64⟩] }] }

private theorem sited_called : ∀ d ∈ [calledOuter, calledInner],
    Sited callingInfo (fun _ => some callingTable) d := by
  intro d hd
  have hfile : ∀ loc ∈ [26, 35], callingInfo.image.read loc = some 1#8 := by decide +kernel
  rcases List.mem_pair.mp hd with rfl | rfl
  · refine ⟨_, _, ⟨_, rfl, rfl⟩, hasConstant_data1 rfl rfl (hfile 26 (by simp)) (by decide), ?_,
      hasConstant_data1 (v := 10#8) rfl rfl (by decide +kernel) (by decide)⟩
    exact ⟨_, callingTable, rfl, rfl, by decide, by decide⟩
  · refine ⟨_, _, ⟨_, rfl, rfl⟩, hasConstant_data1 rfl rfl (hfile 35 (by simp)) (by decide), ?_,
      hasConstant_data1 (v := 20#8) rfl rfl (by decide +kernel) (by decide)⟩
    exact ⟨_, callingTable, rfl, rfl, by decide, by decide⟩

/-- Three frames for the stack at 0x1008. -/
theorem turn_appends_nested : Appended callingElves callingInfo (fun _ => some callingTable)
    { data := fun _ => 0#8, tid := 1 } [callingFunction, calledOuter, calledInner] {}
    (after (Stack.turn (callingElves.over callingInfo (fun _ => some callingTable) id 6 []) inferior
      { data := fun _ => 0#8, tid := 1 } 0x1008#64) (atSixteen, {})).2 :=
  (turn_appends_iff (by decide) (by decide) (by decide +kernel)).mpr
    ⟨⟨none, by decide +kernel⟩, sited_called⟩

theorem turn_appends_not_for_all : ¬ ∀ (I : FrameInfo) (dw : DwarfInfo) (lines : LineTables)
    (order : FunctionIndex → FunctionIndex) (depth : ℕ) (index : FunctionIndex) (s : Process)
    (st : Stack) (regs : Registers) (pc : VirtAddr) (f : Die) (inlined : List Die), pc ≠ 0#64 →
    (I.elves.toFileAddr pc).elf = some dw.elf →
    outcome (dw.inlineStackAtAddress order depth (I.elves.toFileAddr pc)) index =
      .ok (f :: inlined) →
    Appended I dw lines regs (f :: inlined) st
      (after (Stack.turn (I.over dw lines order depth index) inferior regs pc) (s, st)).2 := by
  intro h
  let f := LinkedChild.function.die (InlinedCode.unit InlinedCode.direct) 12
  let d := InlinedCode.inlined.die (InlinedCode.unit InlinedCode.direct) 19
  obtain ⟨frames, cfa, hframes, -⟩ := h callingElves (InlinedCode.info InlinedCode.direct)
    (fun _ => none) id 4 [] atSixteen {} { data := fun _ => 0#8, tid := 1 } 0x1008#64 f [d]
    (by decide) (by decide) (by decide +kernel)
  have hall : FramesOf callingElves (InlinedCode.info InlinedCode.direct) (fun _ => none)
      { data := fun _ => 0#8, tid := 1 } ([d] ++ [f]) frames := hframes
  obtain ⟨number, line, hsite⟩ := hall.sited d (List.mem_singleton_self d)
  obtain ⟨a, -, -, hattr, -⟩ := hsite.file
  cases hattr

end Instances
end KDebugger.Process
