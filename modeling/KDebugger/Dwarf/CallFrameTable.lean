import KDebugger.Dwarf.CallFrameTracks

namespace KDebugger.Dwarf

open ByteStream Leb128 Exec Cur

/-- Registers that key a rule fit 32 bits, and the instruction is not the one without a
case. -/
def CfiInstr.Plain : CfiInstr → Prop
  | .defCfaRegister _ => False
  | .defCfa reg _ | .defCfaSf reg _ | .undefined reg | .sameValue reg | .offsetExtended reg _
  | .offsetExtendedSf reg _ | .valOffset reg _ | .valOffsetSf reg _ | .register reg _
  | .restoreExtended reg => reg.value < 2 ^ 32
  | _ => True

theorem CfiInstr.Plain.known {i : CfiInstr} (h : i.Plain) : i.Known := by
  rintro reg rfl
  exact h

theorem CfiInstr.Plain.sound {i : CfiInstr} (h : i.Plain) (daf : BitVec 64) :
    (i.action daf).Sound := by
  cases i with
  | defCfaRegister reg => exact h
  | nop | advanceLoc _ | advanceLoc1 _ | advanceLoc2 _ | advanceLoc4 _ | setLoc _
  | defCfaOffset _ | defCfaOffsetSf _ | rememberState | restoreState => trivial
  | defCfa reg _ | defCfaSf reg _ | restoreExtended reg => exact h
  | undefined reg | sameValue reg | offsetExtended reg _ | offsetExtendedSf reg _
  | valOffset reg _ | valOffsetSf reg _ => exact ⟨h, rfl⟩
  | register reg other => exact ⟨h, by simp [CfiRule.map]⟩
  | offset reg n =>
    have := reg.isLt
    exact ⟨by omega, rfl⟩
  | restore reg =>
    have := reg.isLt
    change (reg : ℕ) < 2 ^ 32
    omega

/-- A file with an FDE, what its pointers are relative to, and the address each byte of
the file is loaded at. -/
structure FrameSetting where
  elf : FrameElf
  fde : Fde
  base : EhBase
  address : ℕ → BitVec 64

namespace FrameSetting

/-- The bases `DW_CFA_set_loc` is meant to be decoded with. -/
def meantBases (s : FrameSetting) (operand : ℕ) : EhBases where
  pc := s.address operand
  text := s.elf.textSectionStart
  data := s.elf.gotPltStart.getD 0#64
  func := s.fde.initialLocation.addr

/-- The location after an instruction that starts at `p`. -/
def next (s : FrameSetting) (p : ℕ) (loc : BitVec 64) : CfiInstr → BitVec 64
  | .advanceLoc delta => loc + BitVec.ofNat 64 delta * s.fde.cie.codeAlignmentFactor
  | .advanceLoc1 delta => loc + delta.setWidth 64 * s.fde.cie.codeAlignmentFactor
  | .advanceLoc2 delta => loc + delta.setWidth 64 * s.fde.cie.codeAlignmentFactor
  | .advanceLoc4 delta => loc + delta.setWidth 64 * s.fde.cie.codeAlignmentFactor
  | .setLoc op => (s.meantBases (p + 1)).of s.base + op.value
  | _ => loc

/-- A `DW_CFA_set_loc` sets the location it means: a pc-relative operand lies where its
file offset is its address, and a signed one is read right. -/
def LocationRight (s : FrameSetting) (p : ℕ) : CfiInstr → Prop
  | .setLoc op =>
    (s.base = .pcrel → s.address (p + 1) = BitVec.ofNat 64 (p + 1)) ∧ op.decoded = op.value
  | _ => True

/-- The instructions of an FDE that count for `pc`. -/
def executed (s : FrameSetting) (pc : BitVec 64) : ℕ → BitVec 64 → List CfiInstr → List CfiInstr
  | _, _, [] => []
  | p, loc, i :: P =>
    if loc ≤ pc then i :: s.executed pc (p + i.bytes.length) (s.next p loc i) P else []

def Regular (s : FrameSetting) (pc : BitVec 64) : ℕ → BitVec 64 → List CfiInstr → Prop
  | _, _, [] => True
  | p, loc, i :: P =>
    loc ≤ pc →
      (i.Plain ∧ s.LocationRight p i) ∧ s.Regular pc (p + i.bytes.length) (s.next p loc i) P

theorem moved_eq (s : FrameSetting) {p : ℕ} {i : CfiInstr} (h : s.LocationRight p i)
    (loc : FileAddr) : (i.moved s.elf s.fde s.base p loc).addr = s.next p loc.addr i := by
  cases i with
  | setLoc op =>
    obtain ⟨hpc, hop⟩ := h
    simp only [CfiInstr.moved, next, hop]
    congr 1
    cases hb : s.base with
    | pcrel => exact (hpc hb).symm
    | absolute | textrel | datarel | funcrel => rfl
  | _ => rfl

theorem moved_elf (s : FrameSetting) (p : ℕ) (i : CfiInstr) {loc : FileAddr}
    (h : loc.elf = some s.elf.elf) :
    (i.moved s.elf s.fde s.base p loc).elf = some s.elf.elf := by
  cases i <;> simp [CfiInstr.moved, h]

end FrameSetting

/-- No prefix brings back more rows than it saves; `d` rows are saved already. -/
def Balanced : ℕ → List CfiInstr → Prop
  | _, [] => True
  | d, .rememberState :: P => Balanced (d + 1) P
  | d, .restoreState :: P => 0 < d ∧ Balanced (d - 1) P
  | d, _ :: P => Balanced d P

theorem balanced_step (live : ℕ → List Assignment) {l : Stacked Live} {i : CfiInstr}
    {P : List CfiInstr} (daf : BitVec 64) (h : Balanced l.saved.length (i :: P)) :
    (i.action daf = .bringBack → l.saved ≠ []) ∧
      Balanced (Live.step live l (i.action daf)).saved.length P := by
  cases i with
  | rememberState => exact ⟨by simp [CfiInstr.action], h⟩
  | restoreState =>
    obtain ⟨row, saved⟩ := l
    obtain ⟨hpos, hrest⟩ := h
    cases saved with
    | nil => simp at hpos
    | cons x xs => exact ⟨by simp, hrest⟩
  | restore reg =>
    refine ⟨by simp [CfiInstr.action], ?_⟩
    simp only [CfiInstr.action, Live.step]
    cases Live.restored live reg <;> exact h
  | restoreExtended reg =>
    refine ⟨by simp [CfiInstr.action], ?_⟩
    simp only [CfiInstr.action, Live.step]
    cases Live.restored live reg.value <;> exact h
  | _ => exact ⟨by simp [CfiInstr.action], h⟩

theorem Balanced.of_append {C P : List CfiInstr} {d : ℕ} (h : Balanced d (C ++ P)) : Balanced d C := by
  induction C generalizing d with
  | nil => trivial
  | cons i C ih =>
    cases i with
    | restoreState => exact ⟨h.1, ih h.2⟩
    | _ => exact ih h

theorem balanced_run {live : ℕ → List Assignment} {C P : List CfiInstr} {l : Stacked Live}
    (daf : BitVec 64) (h : Balanced l.saved.length (C ++ P)) :
    Balanced (Live.run live l (C.map (CfiInstr.action daf))).saved.length P := by
  induction C generalizing l with
  | nil => exact h
  | cons i C ih => exact ih (balanced_step live daf h).2

def cfiBytes (P : List CfiInstr) : List Byte := P.flatMap CfiInstr.bytes

theorem CfiInstr.bytes_ne_nil (i : CfiInstr) : i.bytes ≠ [] := by
  cases i <;> simp [CfiInstr.bytes]

theorem length_le_cfiBytes (P : List CfiInstr) : P.length ≤ (cfiBytes P).length := by
  induction P with
  | nil => simp
  | cons i P ih =>
    have hi := List.length_pos_iff.mpr i.bytes_ne_nil
    simp only [cfiBytes, List.flatMap_cons, List.length_append, List.length_cons] at ih ⊢
    omega

section Loops

variable {s : FrameSetting} {initial : ℕ → Option (CfiRule ℕ)} {live : ℕ → List Assignment}

theorem execute_tracks {i : CfiInstr} {p last : ℕ} {ctx : UnwindContext} {t : Stacked FrameRow}
    {l : Stacked Live} (hinit : TracksInitial ctx.cieRegisterRules initial live)
    (h : TracksAll ctx t l) (hplain : i.Plain)
    (hfit : i.Fits s.fde.cie.fdePointerEncoding s.base)
    (hback : i.action s.fde.cie.dataAlignmentFactor = .bringBack → l.saved ≠ [])
    (hat : BytesAt s.elf.image p i.bytes) (hstop : p + i.bytes.length ≤ last)
    (hf : (i.action s.fde.cie.dataAlignmentFactor).Found live) :
    ∃ ctx', executeCfiInstruction s.elf s.fde ctx ⟨s.elf.image, p, last⟩ =
        .ok ctx' ⟨s.elf.image, p + i.bytes.length, last⟩ ∧
      ctx'.location = i.moved s.elf s.fde s.base p ctx.location ∧
      ctx'.cieRegisterRules = ctx.cieRegisterRules ∧
      TracksAll ctx' (FrameRow.step initial t (i.action s.fde.cie.dataAlignmentFactor))
        (Live.step live l (i.action s.fde.cie.dataAlignmentFactor)) := by
  let moved : UnwindContext := { ctx with location := i.moved s.elf s.fde s.base p ctx.location }
  have hmoved : TracksAll moved t l := ⟨h.row, h.saved⟩
  have hinit' : TracksInitial moved.cieRegisterRules initial live := hinit
  obtain ⟨ctx', hact, hloc, hcie, htracks⟩ := tracks_act hinit' hmoved
    (hplain.sound s.fde.cie.dataAlignmentFactor) hf hback
  have hexec : EndsAs (executeCfiInstruction s.elf s.fde ctx ⟨s.elf.image, p, last⟩)
      (moved.act (i.action s.fde.cie.dataAlignmentFactor))
      ⟨s.elf.image, p + i.bytes.length, last⟩ :=
    execute_known hplain.known hfit hat hstop
  rw [hact] at hexec
  exact ⟨ctx', hexec, hloc, hcie, htracks⟩

theorem execute_fails {i : CfiInstr} {p last : ℕ} {ctx : UnwindContext}
    (hinit : TracksInitial ctx.cieRegisterRules initial live) (hplain : i.Plain)
    (hfit : i.Fits s.fde.cie.fdePointerEncoding s.base)
    (hat : BytesAt s.elf.image p i.bytes) (hstop : p + i.bytes.length ≤ last)
    (hf : ¬ (i.action s.fde.cie.dataAlignmentFactor).Found live) :
    ∃ c', executeCfiInstruction s.elf s.fde ctx ⟨s.elf.image, p, last⟩ =
      .error .outOfRange c' := by
  let moved : UnwindContext := { ctx with location := i.moved s.elf s.fde s.base p ctx.location }
  have hinit' : TracksInitial moved.cieRegisterRules initial live := hinit
  have hexec : EndsAs (executeCfiInstruction s.elf s.fde ctx ⟨s.elf.image, p, last⟩)
      (moved.act (i.action s.fde.cie.dataAlignmentFactor))
      ⟨s.elf.image, p + i.bytes.length, last⟩ :=
    execute_known hplain.known hfit hat hstop
  rw [act_not_found hinit' (hplain.sound _) hf] at hexec
  exact hexec

/-- A loop ends with a tracked context, or with an error when a restore finds no rule. -/
def EndsTracked (result : EStateM.Result Failure Cursor UnwindContext) (found : Prop)
    (cie : Ruleset) (t : Stacked FrameRow) (l : Stacked Live) : Prop :=
  (found → ∃ ctx c, result = .ok ctx c ∧ ctx.cieRegisterRules = cie ∧ TracksAll ctx t l) ∧
    (¬ found → ∃ e c, result = .error e c)

theorem EndsTracked.cons {result : EStateM.Result Failure Cursor UnwindContext} {cie : Ruleset}
    {t : Stacked FrameRow} {l : Stacked Live} {a : RowAction} {as : List RowAction}
    (hf : a.Found live)
    (h : EndsTracked result (∀ a ∈ as, a.Found live) cie
      (FrameRow.run initial (FrameRow.step initial t a) as) (Live.run live (Live.step live l a) as)) :
    EndsTracked result (∀ b ∈ a :: as, b.Found live) cie
      (FrameRow.run initial t (a :: as)) (Live.run live l (a :: as)) := by
  constructor
  · intro hall
    exact h.1 fun b hb => hall b (List.mem_cons_of_mem a hb)
  · intro hnot
    apply h.2
    intro hall
    apply hnot
    simp only [List.forall_mem_cons]
    exact ⟨hf, hall⟩

theorem EndsTracked.fail {result : EStateM.Result Failure Cursor UnwindContext} {cie : Ruleset}
    {t : Stacked FrameRow} {l : Stacked Live} {a : RowAction} {as : List RowAction}
    (hf : ¬ a.Found live) (h : ∃ e c, result = .error e c) :
    EndsTracked result (∀ b ∈ a :: as, b.Found live) cie t l :=
  ⟨fun hall => absurd (hall a (List.mem_cons_self ..)) hf, fun _ => h⟩

theorem endsTracked_nil {ctx : UnwindContext} {t : Stacked FrameRow} {l : Stacked Live}
    (h : TracksAll ctx t l) (c : Cursor) :
    EndsTracked (.ok ctx c) (∀ a ∈ ([] : List RowAction), a.Found live) ctx.cieRegisterRules t l :=
  ⟨fun _ => ⟨ctx, c, rfl, rfl, h⟩, fun hnot => absurd (by simp) hnot⟩

theorem finished_at {img : Image} {p last : ℕ} :
    finished ⟨img, p, last⟩ = .ok (decide (last ≤ p)) ⟨img, p, last⟩ := rfl

theorem initialInstructions_tracks {C : List CfiInstr} :
    ∀ {p last n : ℕ} {ctx : UnwindContext} {t : Stacked FrameRow} {l : Stacked Live},
      TracksInitial ctx.cieRegisterRules initial live → TracksAll ctx t l →
      (∀ i ∈ C, i.Plain ∧ i.Fits s.fde.cie.fdePointerEncoding s.base) →
      Balanced l.saved.length C → BytesAt s.elf.image p (cfiBytes C) →
      p + (cfiBytes C).length = last → C.length < n →
      EndsTracked (executeInitialInstructions s.elf s.fde n ctx ⟨s.elf.image, p, last⟩)
        (∀ a ∈ C.map (CfiInstr.action s.fde.cie.dataAlignmentFactor), a.Found live)
        ctx.cieRegisterRules
        (FrameRow.run initial t (C.map (CfiInstr.action s.fde.cie.dataAlignmentFactor)))
        (Live.run live l (C.map (CfiInstr.action s.fde.cie.dataAlignmentFactor))) := by
  induction C with
  | nil =>
    intro p last n ctx t l _ h _ _ _ hlast hn
    obtain ⟨n, rfl⟩ : ∃ m, n = m + 1 := ⟨n - 1, by simp only [List.length_nil] at hn; omega⟩
    have hend : last ≤ p := by simp [cfiBytes] at hlast; omega
    rw [executeInitialInstructions, bind_ok finished_at, decide_eq_true hend]
    exact endsTracked_nil h _
  | cons i C ih =>
    intro p last n ctx t l hinit h hC hbal hat hlast hn
    obtain ⟨n, rfl⟩ : ∃ m, n = m + 1 := ⟨n - 1, by simp only [List.length_cons] at hn; omega⟩
    obtain ⟨hplain, hfit⟩ := hC i (List.mem_cons_self ..)
    obtain ⟨hback, hbal'⟩ :=
      balanced_step live s.fde.cie.dataAlignmentFactor hbal
    simp only [cfiBytes, List.flatMap_cons, bytesAt_append, List.length_append] at hat hlast
    have hpos := List.length_pos_iff.mpr i.bytes_ne_nil
    have hnot : ¬ last ≤ p := by omega
    have hstop : p + i.bytes.length ≤ last := by omega
    rw [executeInitialInstructions, bind_ok finished_at, decide_eq_false hnot]
    by_cases hf : (i.action s.fde.cie.dataAlignmentFactor).Found live
    · obtain ⟨ctx', hexec, -, hcie, htracks⟩ :=
        execute_tracks hinit h hplain hfit hback hat.1 hstop hf
      refine EndsTracked.cons hf ?_
      simp only [Bool.false_eq_true, if_false]
      rw [bind_ok hexec, ← hcie]
      rw [← hcie] at hinit
      exact ih hinit htracks (fun j hj => hC j (List.mem_cons_of_mem i hj)) hbal' hat.2
        (by simp only [cfiBytes]; omega) (by simpa using hn)
    · obtain ⟨c', hexec⟩ := execute_fails hinit hplain hfit hat.1 hstop hf
      refine EndsTracked.fail hf ⟨.outOfRange, c', ?_⟩
      simp only [Bool.false_eq_true, if_false]
      exact bind_error hexec

theorem instructionsUntil_tracks {pc : FileAddr} (hpc : pc.elf = some s.elf.elf)
    {P : List CfiInstr} :
    ∀ {p last n : ℕ} {ctx : UnwindContext} {t : Stacked FrameRow} {l : Stacked Live},
      ctx.location.elf = some s.elf.elf →
      TracksInitial ctx.cieRegisterRules initial live → TracksAll ctx t l →
      s.Regular pc.addr p ctx.location.addr P →
      (∀ i ∈ P, i.Fits s.fde.cie.fdePointerEncoding s.base) →
      Balanced l.saved.length P → BytesAt s.elf.image p (cfiBytes P) →
      p + (cfiBytes P).length = last → P.length < n →
      let as := (s.executed pc.addr p ctx.location.addr P).map
        (CfiInstr.action s.fde.cie.dataAlignmentFactor)
      EndsTracked (executeInstructionsUntil s.elf s.fde pc n ctx ⟨s.elf.image, p, last⟩)
        (∀ a ∈ as, a.Found live) ctx.cieRegisterRules (FrameRow.run initial t as)
        (Live.run live l as) := by
  induction P with
  | nil =>
    intro p last n ctx t l _ _ h _ _ _ _ hlast hn
    obtain ⟨n, rfl⟩ : ∃ m, n = m + 1 := ⟨n - 1, by simp only [List.length_nil] at hn; omega⟩
    have hend : last ≤ p := by simp [cfiBytes] at hlast; omega
    rw [executeInstructionsUntil, bind_ok finished_at, decide_eq_true hend]
    exact endsTracked_nil h _
  | cons i P ih =>
    intro p last n ctx t l helf hinit h hreg hP hbal hat hlast hn
    obtain ⟨n, rfl⟩ : ∃ m, n = m + 1 := ⟨n - 1, by simp only [List.length_cons] at hn; omega⟩
    simp only [cfiBytes, List.flatMap_cons, bytesAt_append, List.length_append] at hat hlast
    have hpos := List.length_pos_iff.mpr i.bytes_ne_nil
    have hnot : ¬ last ≤ p := by omega
    have hstop : p + i.bytes.length ≤ last := by omega
    have hle : ctx.location.le pc = .ok (decide (ctx.location.addr ≤ pc.addr)) := by
      rw [FileAddr.le, if_pos (helf.trans hpc.symm)]
    rw [executeInstructionsUntil, bind_ok finished_at, decide_eq_false hnot]
    simp only [Bool.false_eq_true, if_false]
    rw [bind_ok (ofExcept_eq_ok.mpr ⟨hle, rfl⟩)]
    by_cases hreached : ctx.location.addr ≤ pc.addr
    · obtain ⟨⟨hplain, hright⟩, hreg'⟩ := hreg hreached
      obtain ⟨hback, hbal'⟩ :=
        balanced_step live s.fde.cie.dataAlignmentFactor hbal
      simp only [FrameSetting.executed, if_pos hreached, List.map_cons, decide_eq_true hreached,
        if_true]
      by_cases hf : (i.action s.fde.cie.dataAlignmentFactor).Found live
      · obtain ⟨ctx', hexec, hloc, hcie, htracks⟩ :=
          execute_tracks hinit h hplain (hP i (List.mem_cons_self ..)) hback hat.1 hstop hf
        have haddr : ctx'.location.addr = s.next p ctx.location.addr i := by
          rw [hloc, s.moved_eq hright]
        refine EndsTracked.cons hf ?_
        rw [bind_ok hexec, ← hcie, ← haddr]
        rw [← hcie] at hinit
        rw [← haddr] at hreg'
        exact ih (by rw [hloc]; exact s.moved_elf p i helf) hinit htracks hreg'
          (fun j hj => hP j (List.mem_cons_of_mem i hj)) hbal' hat.2
          (by simp only [cfiBytes]; omega) (by simpa using hn)
      · obtain ⟨c', hexec⟩ :=
          execute_fails hinit hplain (hP i (List.mem_cons_self ..)) hat.1 hstop hf
        exact EndsTracked.fail hf ⟨.outOfRange, c', bind_error hexec⟩
    · simp only [FrameSetting.executed, if_neg hreached, decide_eq_false hreached,
        Bool.false_eq_true, if_false]
      exact endsTracked_nil h _

end Loops

end KDebugger.Dwarf
