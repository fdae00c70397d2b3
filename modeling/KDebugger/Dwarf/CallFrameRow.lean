import KDebugger.Dwarf.CallFrameTable

namespace KDebugger.Dwarf

open ByteStream Leb128 Exec Cur

namespace FrameSetting

variable (s : FrameSetting)

def actions (P : List CfiInstr) : List RowAction :=
  P.map (CfiInstr.action s.fde.cie.dataAlignmentFactor)

/-- The actions of the FDE that count for `pc`. -/
def executedActions (P : List CfiInstr) (pc : FileAddr) : List RowAction :=
  s.actions (s.executed pc.addr s.fde.instructions.first s.fde.initialLocation.addr P)

def initialRow (C : List CfiInstr) : Stacked FrameRow :=
  FrameRow.run (fun _ => none) ⟨{}, []⟩ (s.actions C)

def row (C P : List CfiInstr) (pc : FileAddr) : FrameRow :=
  (FrameRow.run (s.initialRow C).row.rules (s.initialRow C) (s.executedActions P pc)).row

def initialLive (C : List CfiInstr) : Stacked Live :=
  Live.run (fun _ => []) ⟨{}, []⟩ (s.actions C)

def live (C P : List CfiInstr) (pc : FileAddr) : Live :=
  (Live.run (s.initialLive C).row.assigned (s.initialLive C) (s.executedActions P pc)).row

/-- The programs `C` and `P` of the CIE and the FDE, where the file has them. -/
structure Source (C P : List CfiInstr) : Prop where
  cieAt : BytesAt s.elf.image s.fde.cie.instructions.first (cfiBytes C)
  cieEnd : s.fde.cie.instructions.first + (cfiBytes C).length = s.fde.cie.instructions.last
  fdeAt : BytesAt s.elf.image s.fde.instructions.first (cfiBytes P)
  fdeEnd : s.fde.instructions.first + (cfiBytes P).length = s.fde.instructions.last
  fits : ∀ i ∈ C ++ P, i.Fits s.fde.cie.fdePointerEncoding s.base
  balanced : Balanced 0 (C ++ P)
  elf : s.fde.initialLocation.elf = some s.elf.elf

/-- The program counter is of the file and inside the range of the FDE. -/
structure Covers (pc : FileAddr) : Prop where
  elf : pc.elf = some s.elf.elf
  start : s.fde.initialLocation.addr.toNat ≤ pc.addr.toNat
  stop : pc.addr.toNat < s.fde.initialLocation.addr.toNat + s.fde.addressRange.toNat

/-- What runs for `pc` is plain and sets the locations it means. -/
structure RegularAt (C P : List CfiInstr) (pc : FileAddr) : Prop where
  cie : ∀ i ∈ C, i.Plain
  fde : s.Regular pc.addr s.fde.instructions.first s.fde.initialLocation.addr P

/-- `unwind` builds the row of the table. -/
def RowLaw (C P : List CfiInstr) (pc : FileAddr) : Prop :=
  ∃ ctx, unwindContext s.elf s.fde pc = .ok ctx ∧
    ctx.cfaRule.reg.toNat = (s.row C P pc).cfaReg ∧
    ctx.cfaRule.offset = (s.row C P pc).cfaOffset ∧
    ∀ r, ruleOf ctx.registerRules r = (s.row C P pc).rules r

/-- Nothing stops `unwind` before the rules are complete. -/
structure Completes (C P : List CfiInstr) (pc : FileAddr) : Prop where
  inSpace : s.fde.initialLocation.addr.toNat + s.fde.addressRange.toNat < 2 ^ 64
  cieFound : ∀ a ∈ s.actions C, a.Found fun _ => []
  fdeFound : ∀ a ∈ s.executedActions P pc, a.Found (s.initialLive C).row.assigned

/-- The rules in force do not depend on which assignment counts. -/
structure Settled (C P : List CfiInstr) (pc : FileAddr) : Prop extends s.Completes C P pc where
  cfaRight : (s.live C P pc).cfaRight = true
  agree : ∀ r, ((s.live C P pc).assigned r).head?.map Assignment.written =
    ((s.live C P pc).assigned r).getLast?.map Assignment.meant

variable {s}

theorem tracksAll_start : TracksAll {} ⟨{}, []⟩ ⟨{}, []⟩ where
  row := {
    cfaReg := rfl
    cfaOffset := by simp
    written := fun r => by simp [ruleOf, Ruleset.find]
    meant := fun r => rfl }
  saved := .nil

theorem tracksInitial_start : TracksInitial [] (fun _ => none) fun _ => [] where
  written r := by simp [ruleOf, Ruleset.find]
  meant _ := rfl

theorem cie_tracks {C P : List CfiInstr} (hsource : s.Source C P) (hplain : ∀ i ∈ C, i.Plain) :
    EndsTracked (executeInitialInstructions s.elf s.fde
        (s.fde.cie.instructions.last - s.fde.cie.instructions.first + 1) {}
        (s.elf.cursorOver s.fde.cie.instructions))
      (∀ a ∈ s.actions C, a.Found fun _ => []) [] (s.initialRow C) (s.initialLive C) := by
  have hlen := length_le_cfiBytes C
  have hend := hsource.cieEnd
  apply initialInstructions_tracks tracksInitial_start tracksAll_start _ _ hsource.cieAt hend
  · omega
  · intro i hi
    exact ⟨hplain i hi, hsource.fits i (List.mem_append_left P hi)⟩
  · exact hsource.balanced.of_append

theorem fde_tracks {C P : List CfiInstr} {pc : FileAddr} (hsource : s.Source C P)
    (hpc : s.Covers pc)
    (hreg : s.Regular pc.addr s.fde.instructions.first s.fde.initialLocation.addr P)
    {ctx : UnwindContext} (h : TracksAll ctx (s.initialRow C) (s.initialLive C)) :
    EndsTracked (executeInstructionsUntil s.elf s.fde pc
        (s.fde.instructions.last - s.fde.instructions.first + 1)
        { ctx with cieRegisterRules := ctx.registerRules, location := s.fde.initialLocation }
        (s.elf.cursorOver s.fde.instructions))
      (∀ a ∈ s.executedActions P pc, a.Found (s.initialLive C).row.assigned) ctx.registerRules
      (FrameRow.run (s.initialRow C).row.rules (s.initialRow C) (s.executedActions P pc))
      (Live.run (s.initialLive C).row.assigned (s.initialLive C) (s.executedActions P pc)) := by
  have hlen := length_le_cfiBytes P
  have hend := hsource.fdeEnd
  let start : UnwindContext :=
    { ctx with cieRegisterRules := ctx.registerRules, location := s.fde.initialLocation }
  have hinit : TracksInitial start.cieRegisterRules (s.initialRow C).row.rules
      (s.initialLive C).row.assigned := ⟨h.row.written, h.row.meant⟩
  have hstart : TracksAll start (s.initialRow C) (s.initialLive C) := ⟨h.row, h.saved⟩
  have hfits : ∀ i ∈ P, i.Fits s.fde.cie.fdePointerEncoding s.base :=
    fun i hi => hsource.fits i (List.mem_append_right C hi)
  have hbal : Balanced (s.initialLive C).saved.length P :=
    balanced_run s.fde.cie.dataAlignmentFactor hsource.balanced
  exact instructionsUntil_tracks hpc.elf hsource.elf hinit hstart hreg hfits hbal hsource.fdeAt
    hend (by omega)

theorem below_eq {C P : List CfiInstr} {pc : FileAddr} (hsource : s.Source C P)
    (hpc : s.Covers pc) : pc.lt s.fde.initialLocation = .ok false := by
  have hnot : ¬ pc.addr < s.fde.initialLocation.addr := by
    rw [BitVec.lt_def]
    have := hpc.start
    omega
  rw [FileAddr.lt, if_pos (hpc.elf.trans hsource.elf.symm), decide_eq_false hnot]

theorem past_eq {C P : List CfiInstr} {pc : FileAddr} (hsource : s.Source C P)
    (hpc : s.Covers pc) :
    (s.fde.initialLocation.add s.fde.addressRange).le pc = .ok (decide
      (¬ s.fde.initialLocation.addr.toNat + s.fde.addressRange.toNat < 2 ^ 64)) := by
  rw [FileAddr.le, FileAddr.add_elf, FileAddr.add_addr, if_pos (hsource.elf.trans hpc.elf.symm)]
  congr 1
  rw [decide_eq_decide, BitVec.le_def, BitVec.toNat_add]
  have hstart := hpc.start
  have hstop := hpc.stop
  have hpc := pc.addr.isLt
  have hrange := s.fde.addressRange.isLt
  omega

theorem unwindContext_eq {C P : List CfiInstr} {pc : FileAddr} (hsource : s.Source C P)
    (hpc : s.Covers pc) :
    unwindContext s.elf s.fde pc =
      if s.fde.initialLocation.addr.toNat + s.fde.addressRange.toNat < 2 ^ 64 then do
        let ctx ← outcome (executeInitialInstructions s.elf s.fde
          (s.fde.cie.instructions.last - s.fde.cie.instructions.first + 1) {})
          (s.elf.cursorOver s.fde.cie.instructions)
        outcome (executeInstructionsUntil s.elf s.fde pc
          (s.fde.instructions.last - s.fde.instructions.first + 1)
          { ctx with cieRegisterRules := ctx.registerRules, location := s.fde.initialLocation })
          (s.elf.cursorOver s.fde.instructions)
      else .error (.raised "No unwind information at PC") := by
  unfold unwindContext
  rw [below_eq hsource hpc, past_eq hsource hpc]
  by_cases hspace : s.fde.initialLocation.addr.toNat + s.fde.addressRange.toNat < 2 ^ 64
  · simp only [hspace, not_true_eq_false, decide_false, if_true]
    rfl
  · simp only [hspace, not_false_eq_true, decide_true, if_false]
    rfl

theorem unwindContext_tracks {C P : List CfiInstr} {pc : FileAddr} (hsource : s.Source C P)
    (hpc : s.Covers pc) (hreg : s.RegularAt C P pc) (h : s.Completes C P pc) :
    ∃ ctx, unwindContext s.elf s.fde pc = .ok ctx ∧
      TracksRow ctx.registerRules ctx.cfaRule (s.row C P pc) (s.live C P pc) := by
  obtain ⟨ctx, c, hcie, -, htracks⟩ := (cie_tracks hsource hreg.cie).1 h.cieFound
  obtain ⟨ctx', c', hfde, -, htracks'⟩ := (fde_tracks hsource hpc hreg.fde htracks).1 h.fdeFound
  refine ⟨ctx', ?_, htracks'.row⟩
  rw [unwindContext_eq hsource hpc, if_pos h.inSpace]
  simp only [outcome, hcie, bind, Except.bind, hfde]

theorem completes_of_ok {C P : List CfiInstr} {pc : FileAddr} (hsource : s.Source C P)
    (hpc : s.Covers pc) (hreg : s.RegularAt C P pc) {ctx : UnwindContext}
    (h : unwindContext s.elf s.fde pc = .ok ctx) : s.Completes C P pc := by
  rw [unwindContext_eq hsource hpc] at h
  by_cases hspace : s.fde.initialLocation.addr.toNat + s.fde.addressRange.toNat < 2 ^ 64
  swap
  · rw [if_neg hspace] at h
    cases h
  rw [if_pos hspace] at h
  by_cases hcieFound : ∀ a ∈ s.actions C, a.Found fun _ => []
  swap
  · obtain ⟨e, c, hcie⟩ := (cie_tracks hsource hreg.cie).2 hcieFound
    simp only [outcome, hcie, bind, Except.bind, reduceCtorEq] at h
  obtain ⟨start, c, hcie, -, htracks⟩ := (cie_tracks hsource hreg.cie).1 hcieFound
  by_cases hfdeFound : ∀ a ∈ s.executedActions P pc, a.Found (s.initialLive C).row.assigned
  swap
  · obtain ⟨e, c, hfde⟩ := (fde_tracks hsource hpc hreg.fde htracks).2 hfdeFound
    simp only [outcome, hcie, bind, Except.bind, hfde, reduceCtorEq] at h
  exact ⟨hspace, hcieFound, hfdeFound⟩

/-- `unwind` on plain programs: exactly the settled ones give the row of the table. -/
theorem rowLaw_iff {C P : List CfiInstr} {pc : FileAddr} (hsource : s.Source C P)
    (hpc : s.Covers pc) (hreg : s.RegularAt C P pc) :
    s.RowLaw C P pc ↔ s.Settled C P pc := by
  -- the rules of the code are the first live assignments, those of the standard the last ones
  constructor
  · rintro ⟨ctx, hok, -, hoffset, hrules⟩
    have hcompletes := completes_of_ok hsource hpc hreg hok
    obtain ⟨ctx', hok', htracks⟩ := unwindContext_tracks hsource hpc hreg hcompletes
    obtain rfl : ctx = ctx' := by
      rw [hok] at hok'
      exact Except.ok.inj hok'
    refine ⟨hcompletes, htracks.cfaOffset.mp hoffset, fun r => ?_⟩
    rw [← htracks.written, ← htracks.meant]
    exact hrules r
  · intro h
    obtain ⟨ctx, hok, htracks⟩ := unwindContext_tracks hsource hpc hreg h.toCompletes
    refine ⟨ctx, hok, htracks.cfaReg, htracks.cfaOffset.mpr h.cfaRight, fun r => ?_⟩
    rw [htracks.written, htracks.meant]
    exact h.agree r

def ofPrograms (C P : List CfiInstr) : FrameSetting where
  elf := {
    elf := 0
    image := Image.ofList (cfiBytes C ++ cfiBytes P)
    textSectionStart := 0x1000#64
    gotPltStart := none }
  fde := {
    cie := {
      codeAlignmentFactor := 1#64
      dataAlignmentFactor := -8#64
      fdePointerEncoding := 0x00#8
      instructions := ⟨0, (cfiBytes C).length⟩ }
    initialLocation := ⟨some 0, 0x1000#64⟩
    addressRange := 0x20#64
    instructions := ⟨(cfiBytes C).length, (cfiBytes C).length + (cfiBytes P).length⟩ }
  base := .absolute
  address := BitVec.ofNat 64

theorem ofPrograms_source {C P : List CfiInstr}
    (hfits : ∀ i ∈ C ++ P, i.Fits 0x00#8 .absolute) (hbal : Balanced 0 (C ++ P)) :
    (ofPrograms C P).Source C P where
  cieAt := bytesAt_ofList_append [] (cfiBytes C) (cfiBytes P)
  cieEnd := Nat.zero_add _
  fdeAt := by
    have h := bytesAt_ofList_append (cfiBytes C) (cfiBytes P) []
    rwa [List.append_nil] at h
  fdeEnd := rfl
  fits := hfits
  balanced := hbal
  elf := rfl

/-- The CIE of a compiler: the CFA is eight bytes above the stack pointer, the return
address below it. -/
def callEntry : List CfiInstr := [.defCfa (.small 7) (.small 8), .offset 16 (.small 1)]

def pushFrame : List CfiInstr :=
  [.advanceLoc 1, .defCfaOffset (.small 16), .offset 6 (.small 2), .advanceLoc 4]

theorem pushFrame_executed :
    (ofPrograms callEntry pushFrame).executedActions pushFrame ⟨some 0, 0x1002#64⟩ =
      [.keep, .cfaOffset 16#64 16#64, .assign 6 (.offset (-16#64)) (.offset (-16#64)), .keep] := by
  rfl

theorem pushFrame_live :
    (ofPrograms callEntry pushFrame).live callEntry pushFrame ⟨some 0, 0x1002#64⟩ =
      ((({} : Live).push 16 ⟨.offset (-8#64), .offset (-8#64)⟩).push 6
        ⟨.offset (-16#64), .offset (-16#64)⟩) := by
  rfl

theorem rowLaw_iff_pushFrame :
    ((ofPrograms callEntry pushFrame).RowLaw callEntry pushFrame ⟨some 0, 0x1002#64⟩ ↔
      (ofPrograms callEntry pushFrame).Settled callEntry pushFrame ⟨some 0, 0x1002#64⟩) ∧
    (ofPrograms callEntry pushFrame).Settled callEntry pushFrame ⟨some 0, 0x1002#64⟩ := by
  refine ⟨rowLaw_iff (ofPrograms_source ?_ ?_) ⟨rfl, by decide, by decide⟩ ⟨?_, ?_⟩, ?_⟩
  · simp [callEntry, pushFrame, CfiInstr.Fits]
  · simp [callEntry, pushFrame, Balanced]
  · have h7 : (Uleb.small 7).value < 2 ^ 32 := by rw [Uleb.small_value]; decide
    simpa [callEntry, CfiInstr.Plain] using h7
  · simp [ofPrograms, pushFrame, Regular, CfiInstr.Plain, LocationRight]
  · refine ⟨⟨by decide, ?_, ?_⟩, ?_, fun r => ?_⟩
    · simp [actions, callEntry, CfiInstr.action, RowAction.Found]
    · rw [pushFrame_executed]
      simp [RowAction.Found]
    · rw [pushFrame_live]
      rfl
    · rw [pushFrame_live]
      by_cases h6 : r = 6
      · subst h6
        rfl
      · by_cases h16 : r = 16
        · subst h16
          rfl
        · simp [Live.push, h6, h16]

def moveSaved : List CfiInstr := [.offset 6 (.small 2), .offset 6 (.small 3)]

theorem rowLaw_not_for_all : ¬ ∀ (s : FrameSetting) (C P : List CfiInstr) (pc : FileAddr),
    s.Source C P → s.Covers pc → s.RowLaw C P pc := by
  intro h
  have hsource : (ofPrograms [] moveSaved).Source [] moveSaved :=
    ofPrograms_source (by simp [moveSaved, CfiInstr.Fits]) (by simp [moveSaved, Balanced])
  have hcovers : (ofPrograms [] moveSaved).Covers ⟨some 0, 0x1002#64⟩ :=
    ⟨rfl, by decide, by decide⟩
  obtain ⟨ctx, hok, -, -, hrules⟩ := h _ _ _ _ hsource hcovers
  obtain ⟨ctx', hok', htracks⟩ := unwindContext_tracks hsource hcovers
    ⟨by simp, by simp [ofPrograms, moveSaved, Regular, CfiInstr.Plain, LocationRight]⟩
    ⟨by decide, by simp [actions], by
      simp [executedActions, actions, moveSaved, executed, ofPrograms, RowAction.Found,
        CfiInstr.action]⟩
  obtain rfl : ctx = ctx' := by
    rw [hok] at hok'
    exact Except.ok.inj hok'
  -- the code still has the first offset, the row of the standard the second
  have hcode : ruleOf ctx.registerRules 6 = some (.offset (-16#64)) := htracks.written 6
  have hrow := hrules 6
  rw [hcode] at hrow
  exact absurd (hrow : some (CfiRule.offset (-16#64)) = some (.offset (-24#64))) (by decide)

end FrameSetting

end KDebugger.Dwarf
