import KDebugger.Process.HardwareRuns
import KDebugger.Process.SigstopLedger

namespace KDebugger.Process

open Exec Words KDebugger.Splits StoppointCollection

variable {s s' : Process} {th : ThreadState} {control masked : BitVec 64} {n : Fin 8} {v : Value}
  {otid : Option Tid} {i size : ℕ} {address : VirtAddr} {mode : StoppointMode}

theorem writeDr_cases (hth : s.threads.find (s.valueOr otid) = some th) (n : Fin 8) {v : Value}
    (hv : v.size ≤ 8) :
    (s.kernel.write (.word (drOffset n)) (s.storedFile th (defineDr n) v).data (s.user s.pid) = none ∧
      writeRegisterById otid (.dr n) v true s = .error (requestError (.word 0))
        (s.withFile (s.valueOr otid) (s.storedFile th (defineDr n) v))) ∨
    (∃ u, u ≠ s.user s.pid ∧ writeRegisterById otid (.dr n) v true s =
      .error (requestError (.word 0))
        ((s.withFile (s.valueOr otid) (s.storedFile th (defineDr n) v)).setUser s.pid u)) ∨
    ∃ u, writeRegisterById otid (.dr n) v true s =
      .ok () ((s.withFile (s.valueOr otid) (s.storedFile th (defineDr n) v)).setUser s.pid u) := by
  have hplaced : (defineDr n).Placed :=
    RegisterInfo.placed (registerInfoBy_mem (registerInfoById_dr n))
  let file := s.storedFile th (defineDr n) v
  let s₀ := s.withFile (s.valueOr otid) file
  cases hfirst : s.kernel.write (.word (drOffset n)) file.data (s.user s.pid) with
  | none => exact .inl ⟨rfl, writeDr_refused hth hv hfirst⟩
  | some u₁ =>
    right
    have hwrite : writeRegisterById otid (.dr n) v true s = file.handOver (defineDr n) true s₀ := by
      unfold writeRegisterById
      rw [registerInfoById_dr, bind_ok (ofExcept_ok _ _), writeRegister_eq hth hv]
    have hdeliver (s : Process) (otid : Option Tid) : file.deliver (defineDr n) otid s =
        pokeRegisters s.pid (.word (drOffset n)) file.data s := by
      rw [deliver_eq file hplaced, dr_part]
    have hone : file.deliver (defineDr n) none s₀ = .ok () (s₀.setUser s.pid u₁) :=
      (hdeliver s₀ none).trans (pokeRegisters_taken hfirst)
    cases hsecond : s.kernel.write (.word (drOffset n)) file.data u₁ with
    | none =>
      -- the same request of the same registers would have been taken
      have hne : u₁ ≠ s.user s.pid := by
        rintro rfl
        rw [hfirst] at hsecond
        cases hsecond
      have hrefused : (s₀.setUser s.pid u₁).kernel.write (.word (drOffset n)) file.data
          ((s₀.setUser s.pid u₁).user s.pid) = none := by
        rw [setUser_user_self]
        exact hsecond
      refine .inl ⟨u₁, hne, ?_⟩
      rw [hwrite]
      refine (bind_ok hone).trans ?_
      exact (hdeliver _ (some file.tid)).trans (pokeRegisters_refused hrefused)
    | some u₂ =>
      have htaken : (s₀.setUser s.pid u₁).kernel.write (.word (drOffset n)) file.data
          ((s₀.setUser s.pid u₁).user s.pid) = some u₂ := by
        rw [setUser_user_self]
        exact hsecond
      refine .inr ⟨u₂, ?_⟩
      rw [hwrite]
      refine (bind_ok hone).trans ?_
      refine ((hdeliver _ (some file.tid)).trans (pokeRegisters_taken htaken)).trans ?_
      exact congrArg _ (setUser_setUser ..)

theorem debugFiles_after_writeDr (hth : s.threads.find (s.valueOr otid) = some th) (n : Fin 8)
    (hv : v.size ≤ 8) : (after (writeRegisterById otid (.dr n) v true) s).debugFiles =
      changeFiles s.debugFiles [s.valueOr otid] fun file =>
        file.store n (storeWord s.casts v (file.words n)) := by
  rw [← debugFiles_withFile hth hv]
  obtain ⟨-, h⟩ | ⟨u, -, h⟩ | ⟨u, h⟩ := writeDr_cases hth n hv <;> rw [after, h] <;> rfl

/-- The debug registers in the file of one thread are as before. -/
def SameFileOf (t : Tid) (s s' : Process) : Prop :=
  s'.currentThread = s.currentThread ∧ s'.debugFiles t = s.debugFiles t

theorem sameFileOf (t : Tid) : Frame (SameFileOf t) where
  refl _ := ⟨rfl, rfl⟩
  trans h h' := ⟨h'.1.trans h.1, h'.2.trans h.2⟩

theorem within_otherTurn (current t : Tid) (n : Fin 8) (hv : v.size ≤ 8) (masked : BitVec 64) :
    Within (SameFileOf current) (otherTurn current (.dr n) v masked t) := by
  by_cases ht : t = current
  · unfold otherTurn
    rw [if_pos ht]
    exact (sameFileOf current).pure ()
  have hwrite (m : Fin 8) {w : Value} (hw : w.size ≤ 8) :
      Within (SameFileOf current) (writeRegisterById (some t) (.dr m) w true) := by
    intro s
    refine ⟨(within_writeRegisterById _ _ _ _ s).current, ?_⟩
    cases hth : s.threads.find (s.valueOr (some t)) with
    | none =>
      unfold writeRegisterById writeRegister
      rw [registerInfoById_dr, after_bind_ok (ofExcept_ok _ _), after_bind_ok (get_eq s),
        after_bind_error (getRegisters_error hth)]
    | some th =>
      rw [debugFiles_after_writeDr hth m hw]
      exact if_neg fun hin => ht (List.mem_singleton.mp hin).symm
  unfold otherTurn
  rw [if_neg ht]
  exact (sameFileOf current).bind (hwrite n hv) fun _ => hwrite 7 le_rfl

theorem within_turns (current : Tid) (n : Fin 8) (hv : v.size ≤ 8) (masked : BitVec 64) :
    ∀ ts : List Tid, Within (SameFileOf current) (ts.forM (otherTurn current (.dr n) v masked)) := by
  intro ts
  induction ts with
  | nil => exact (sameFileOf current).pure ()
  | cons t ts ih =>
    exact (sameFileOf current).bind (within_otherTurn current t n hv masked) fun _ => ih

theorem debugControl_of_masked (hc : s.debugControl = some control) (n : Fin 8) (a : ℕ)
    (hv : v.size ≤ 8) (masked : BitVec 64) :
    (after (do
      writeRegisterById none (.dr 7) (.u64 masked) true
      writeOtherThreads (.dr n) v masked
      pure a : M ℕ) s).debugControl = some masked := by
  obtain ⟨file, hfile, hcontrol⟩ := file_of_debugControl hc
  obtain ⟨th, hth, -⟩ := find_of_debugFiles hfile
  have hthread : s.threads.find (s.valueOr none) = some th := hth
  let s₁ := after (writeRegisterById none (.dr 7) (.u64 masked) true) s
  have hcurrent : s₁.currentThread = s.currentThread :=
    (within_writeRegisterById none (.dr 7) (.u64 masked) true s).current
  have hfile₁ : s₁.debugFiles s.currentThread = some (file.store 7 masked) := by
    have hfiles : s₁.debugFiles = _ := debugFiles_after_writeDr hthread 7 (v := .u64 masked) le_rfl
    rw [hfiles]
    change changeFiles s.debugFiles [s.currentThread] _ s.currentThread = _
    unfold changeFiles
    rw [if_pos (List.mem_singleton_self _), hfile, Option.map_some, storeWord_u64]
    rfl
  have hmasked : (file.store 7 masked).control = some masked := by
    have h := control_slot hcontrol s.casts 7 (.u64 masked) masked
    simpa [DebugFile.slot, DebugFile.store, storeWord_u64] using h
  have hend : SameFileOf s.currentThread s₁ (after (do
      writeRegisterById none (.dr 7) (.u64 masked) true
      writeOtherThreads (.dr n) v masked
      pure a : M ℕ) s) := by
    cases hrun : writeRegisterById none (.dr 7) (.u64 masked) true s with
    | error e s₂ =>
      have hs₁ : s₁ = s₂ := by
        unfold s₁ after
        rw [hrun]
      rw [after_bind_error hrun, hs₁]
      exact (sameFileOf _).refl _
    | ok u s₂ =>
      have hs₁ : s₁ = s₂ := by
        unfold s₁ after
        rw [hrun]
      rw [after_bind_ok hrun, ← hs₁]
      apply (sameFileOf s.currentThread).bind_at
      · rw [after, writeOtherThreads_eq, hcurrent]
        exact within_turns s.currentThread n hv masked _ s₁
      · exact fun _ s' _ => (sameFileOf _).refl s'
  rw [debugControl_eq, hend.1, hcurrent, hend.2, hfile₁, Option.bind_some, hmasked]

/-- The kernel refuses the address in the slot that is free, and the file has it already. -/
def StuckAt (s : Process) (th : ThreadState) (control : BitVec 64) (address : VirtAddr) : Prop :=
  ∃ i, findFreeStoppointRegister control = .ok i ∧ th.regs.wordAt (drOffset i) = address ∧
    s.kernel.write (.word (drOffset i)) th.regs.data (s.user s.pid) = none

theorem withFile_same {t : Tid} (hth : s.threads.find t = some th) : s.withFile t th.regs = s := by
  have hmodify (ts : Threads) (hth : ts.find t = some th) :
      ts.modify t (fun th' => { th' with regs := th.regs }) = ts := by
    obtain ⟨entries, hnodup⟩ := ts
    have hmem : th ∈ entries := List.mem_of_find?_eq_some hth
    unfold Threads.modify
    congr 1
    conv_rhs => rw [← List.map_id entries]
    apply List.map_congr_left
    intro th' hmem'
    by_cases ht : th'.tid = t
    · have hsame : th' = th := List.inj_on_of_nodup_map hnodup hmem' hmem
        (ht.trans (Threads.find_tid hth).symm)
      rw [if_pos ht, hsame]
      rfl
    · rw [if_neg ht]
      rfl
  unfold withFile
  rw [hmodify _ hth]

theorem storedFile_same (n : Fin 8) (h : th.regs.wordAt (drOffset n) = address) :
    s.storedFile th (defineDr n) (.u64 address) = th.regs := by
  have hdata : (s.storedFile th (defineDr n) (.u64 address)).data = th.regs.data := by
    funext o
    have hput : (s.storedFile th (defineDr n) (.u64 address)).data o =
        if drOffset n ≤ o ∧ o < drOffset n + 8
        then byteOf (widen s.casts (defineDr n) (.u64 address)) (o - drOffset n)
        else th.regs.data o := rfl
    rw [hput]
    split_ifs with ho
    · have hlt : o - drOffset n < 8 := by omega
      have hbyte : byteOf (widen s.casts (defineDr n) (.u64 address)) (o - drOffset n) =
          byteOf address (o - drOffset n) := byteOf_widened (by decide) address _
      rw [hbyte, ← h, Registers.wordAt, byteOf_wordOf _ hlt, Nat.add_sub_cancel' ho.1]
    · rfl
  have hput : s.storedFile th (defineDr n) (.u64 address) =
      { th.regs with data := (s.storedFile th (defineDr n) (.u64 address)).data } := rfl
  rw [hput, hdata]

theorem debugControl_eq_of (hth : s.threads.find (s.valueOr none) = some th)
    (h7 : th.regs.readByIdAsU64 (.dr 7) = .ok control) : s.debugControl = some control :=
  debugControl_eq_some.mpr ⟨th, hth, h7⟩

theorem masked_ne (hi : i < 4) (hoff : slotEnabled control i = false) (m z : BitVec 2) :
    setSlot control i (m.setWidth 64) (z.setWidth 64) ≠ control := by
  intro heq
  have hon := slotEnabled_setSlot (c := control) (m := m) (z := z) hi hi
  rw [heq, hoff] at hon
  simp at hon

theorem setHardwareStoppoint_eq (hth : s.threads.find (s.valueOr none) = some th)
    (h7 : th.regs.readByIdAsU64 (.dr 7) = .ok control)
    (hfree : findFreeStoppointRegister control = .ok i) (hi : i < 8) (address : VirtAddr)
    (mode : StoppointMode) (size : ℕ) :
    setHardwareStoppoint address mode size s = (do
      writeRegisterById none (.dr ⟨i, hi⟩) (.u64 address) true
      let sizeFlag ← ofExcept (encodeHardwareStoppointSize size)
      let masked := setSlot control i (encodeHardwareStoppointMode mode) sizeFlag
      writeRegisterById none (.dr 7) (.u64 masked) true
      writeOtherThreads (.dr ⟨i, hi⟩) (.u64 address) masked
      pure i : M ℕ) s := by
  unfold setHardwareStoppoint
  rw [bind_ok (getRegisters_eq hth), h7, bind_ok (ofExcept_ok _ _), hfree,
    bind_ok (ofExcept_ok _ _), debugRegister_eq hi, bind_ok (ofExcept_ok _ _)]

theorem setHardwareStoppoint_stuck (hth : s.threads.find (s.valueOr none) = some th)
    (h7 : th.regs.readByIdAsU64 (.dr 7) = .ok control) (hstuck : StuckAt s th control address)
    (mode : StoppointMode) (size : ℕ) :
    setHardwareStoppoint address mode size s = .error (requestError (.word 0)) s := by
  obtain ⟨i, hfree, hword, hrefused⟩ := hstuck
  have hi : i < 8 := lt_trans (findFree_ok hfree).1 (by decide)
  have hsame := storedFile_same (s := s) ⟨i, hi⟩ hword
  have hfail := writeDr_refused (n := ⟨i, hi⟩) (v := .u64 address) hth le_rfl (by rwa [hsame])
  rw [hsame, withFile_same hth] at hfail
  exact (setHardwareStoppoint_eq hth h7 hfree hi address mode size).trans (bind_error hfail)

/-- A refused address that changes nothing was in the file already. -/
theorem stuck_of_unchanged (hth : s.threads.find (s.valueOr none) = some th)
    (hfree : findFreeStoppointRegister control = .ok i) (hi : i < 8)
    (hrefused : s.kernel.write (.word (drOffset i))
      (s.storedFile th (defineDr ⟨i, hi⟩) (.u64 address)).data (s.user s.pid) = none)
    (heq : s.withFile (s.valueOr none) (s.storedFile th (defineDr ⟨i, hi⟩) (.u64 address)) = s) :
    StuckAt s th control address := by
  have hfile := debugFiles_withFile (n := ⟨i, hi⟩) (v := .u64 address) hth le_rfl
  rw [heq] at hfile
  have hcurrent := congrFun hfile (s.valueOr none)
  unfold changeFiles debugFiles at hcurrent
  rw [if_pos (List.mem_singleton_self _), hth, Option.map_some, Option.map_some,
    Option.some.injEq, storeWord_u64] at hcurrent
  have hword : th.regs.wordAt (drOffset i) = address := by
    have hwords := congrFun (congrArg DebugFile.words hcurrent) i
    simpa [DebugFile.store] using hwords
  rw [storedFile_same (s := s) ⟨i, hi⟩ hword] at hrefused
  exact ⟨i, hfree, hword, hrefused⟩

/-- The address goes out first, then the size is looked at, then DR7 goes out. -/
theorem setHardwareStoppoint_changed (hth : s.threads.find (s.valueOr none) = some th)
    (h7 : th.regs.readByIdAsU64 (.dr 7) = .ok control)
    (hfree : findFreeStoppointRegister control = .ok i) (hstuck : ¬ StuckAt s th control address)
    (hends : ¬ (ValidSize size ∧ s.Takes (s.setPlan address mode size))) :
    ∃ e s', setHardwareStoppoint address mode size s = .error e s' ∧ (e = invalidSize ∨ s' ≠ s) := by
  obtain ⟨hi, hoff⟩ := findFree_ok hfree
  have hi8 : i < 8 := lt_trans hi (by decide)
  have hset := setHardwareStoppoint_eq hth h7 hfree hi8 address mode size
  obtain ⟨hrefused, hfail⟩ | ⟨u, hu, hfail⟩ | ⟨u, hok⟩ :=
    writeDr_cases (v := .u64 address) hth ⟨i, hi8⟩ le_rfl
  · exact ⟨_, _, hset.trans (bind_error hfail),
      .inr fun heq => hstuck (stuck_of_unchanged hth hfree hi8 hrefused heq)⟩
  · refine ⟨_, _, hset.trans (bind_error hfail), .inr fun heq => hu ?_⟩
    have huser := congrArg (fun p : Process => p.user s.pid) heq
    exact (setUser_user_self _ _).symm.trans huser
  · have hset₁ := hset.trans (bind_ok hok)
    by_cases hsize : ValidSize size
    · rw [encodeSize_eq hsize, bind_ok (ofExcept_ok _ _), encodeMode_eq] at hset₁
      obtain ⟨htakes, -⟩ | ⟨-, e, s', hfail⟩ := setHardwareStoppoint_ends (s := s) address mode hsize
      · exact absurd ⟨hsize, htakes⟩ hends
      refine ⟨e, s', hfail, .inr fun heq => ?_⟩
      have hc := debugControl_eq_of hth h7
      have hmasked := debugControl_of_masked
        ((debugControl_of_writeDr (ne_seven hi) le_rfl hok).trans hc) ⟨i, hi8⟩ i
        (v := .u64 address) le_rfl
        (setSlot control i ((modeBits mode).setWidth 64) ((lengthBits size).setWidth 64))
      rw [after, ← hset₁, hfail, heq, hc] at hmasked
      exact masked_ne hi hoff _ _ (Option.some.inj hmasked).symm
    · rw [encodeSize_error hsize] at hset₁
      exact ⟨invalidSize, _, hset₁, .inl rfl⟩

theorem setHardwareStoppoint_cases (hth : s.threads.find (s.valueOr none) = some th)
    (h7 : th.regs.readByIdAsU64 (.dr 7) = .ok control) (address : VirtAddr) (mode : StoppointMode)
    (size : ℕ) :
    (NoSlotFree control ∧ setHardwareStoppoint address mode size s = .error noRegisters s) ∨
    (StuckAt s th control address ∧
      setHardwareStoppoint address mode size s = .error (requestError (.word 0)) s) ∨
    (ValidSize size ∧ s.Takes (s.setPlan address mode size) ∧
      ∃ i s', setHardwareStoppoint address mode size s = .ok i s' ∧ RegistersOnly s s') ∨
    (¬ NoSlotFree control ∧ ¬ StuckAt s th control address ∧
      ¬ (ValidSize size ∧ s.Takes (s.setPlan address mode size)) ∧
      ∃ e s', setHardwareStoppoint address mode size s = .error e s' ∧ (e = invalidSize ∨ s' ≠ s)) := by
  obtain ⟨hnone, hfree⟩ | ⟨i, hi, hoff, hfree⟩ := findFree_cases control
  · refine .inl ⟨hnone, ?_⟩
    unfold setHardwareStoppoint
    rw [bind_ok (getRegisters_eq hth), h7, bind_ok (ofExcept_ok _ _), hfree]
    rfl
  right
  have hnotFull : ¬ NoSlotFree control := by
    intro hnone
    rw [findFree_none hnone] at hfree
    cases hfree
  by_cases hstuck : StuckAt s th control address
  · exact .inl ⟨hstuck, setHardwareStoppoint_stuck hth h7 hstuck mode size⟩
  right
  by_cases hends : ValidSize size ∧ s.Takes (s.setPlan address mode size)
  · obtain ⟨-, c, j, s₁, -, -, hok, hwritten⟩ | ⟨hnot, -⟩ :=
      setHardwareStoppoint_ends (s := s) address mode hends.1
    · exact .inl ⟨hends.1, hends.2, j, s₁, hok, hwritten.only⟩
    · exact absurd hends.2 hnot
  · exact .inr ⟨hnotFull, hstuck, hends, setHardwareStoppoint_changed hth h7 hfree hstuck hends⟩

/-- What enabling may raise: no register is free, or a register cannot be written. -/
def EnableError (e : Failure) : Prop :=
  e = noRegisters ∨ e = .raised "Could not write to user area"

/-- The watchpoint is there, enabled and of a valid size; or the step that raised left
everything but the counter of ids, and if it was the enabling, for a reason it has. -/
structure WatchpointSafe (s : Process) (a : VirtAddr) (mode : StoppointMode) (size : ℕ) : Prop where
  refused : ∀ e s₁, createWatchpoint a mode size s = .error e s₁ →
    (∃ what, e = .raised what) ∧ SameButId s s₁
  raised : ∀ s₁ e s₂, createWatchpoint a mode size s = .ok () s₁ →
    enableWatchpoint s.watchpoints.length s₁ = .error e s₂ → EnableError e ∧ s₂ = s₁
  enabled : ∀ s₁ s₂, createWatchpoint a mode size s = .ok () s₁ →
    enableWatchpoint s.watchpoints.length s₁ = .ok () s₂ →
    ValidSize size ∧ ∃ point : Watchpoint, s₂.watchpoints = s.watchpoints ++ [point] ∧
      point.address = a ∧ point.mode = mode ∧ point.size = size ∧ point.isEnabled = true

section Ends

variable {a : VirtAddr} {mode : StoppointMode} {size : ℕ} {s₁ s₂ : Process}

theorem safe_of_refused {what : String}
    (hcreate : createWatchpoint a mode size s = .error (.raised what) s₁) (hsame : SameButId s s₁) :
    WatchpointSafe s a mode size where
  refused e s' h := by
    rw [hcreate] at h
    cases h
    exact ⟨⟨what, rfl⟩, hsame⟩
  raised _ _ _ h := by
    rw [hcreate] at h
    cases h
  enabled _ _ h := by
    rw [hcreate] at h
    cases h

theorem safe_of_raised {e : Failure} (hcreate : createWatchpoint a mode size s = .ok () s₁)
    (henable : enableWatchpoint s.watchpoints.length s₁ = .error e s₁) (he : EnableError e) :
    WatchpointSafe s a mode size where
  refused _ _ h := by
    rw [hcreate] at h
    cases h
  raised s' e' s'' h h' := by
    rw [hcreate] at h
    cases h
    rw [henable] at h'
    cases h'
    exact ⟨he, rfl⟩
  enabled _ _ h h' := by
    rw [hcreate] at h
    cases h
    rw [henable] at h'
    cases h'

theorem safe_of_enabled (hcreate : createWatchpoint a mode size s = .ok () s₁)
    (henable : enableWatchpoint s.watchpoints.length s₁ = .ok () s₂) (hsize : ValidSize size)
    (hpoint : ∃ point : Watchpoint, s₂.watchpoints = s.watchpoints ++ [point] ∧
      point.address = a ∧ point.mode = mode ∧ point.size = size ∧ point.isEnabled = true) :
    WatchpointSafe s a mode size where
  refused _ _ h := by
    rw [hcreate] at h
    cases h
  raised _ _ _ h h' := by
    rw [hcreate] at h
    cases h
    rw [henable] at h'
    cases h'
  enabled _ _ h h' := by
    rw [hcreate] at h
    cases h
    rw [henable] at h'
    cases h'
    exact ⟨hsize, hpoint⟩

end Ends

theorem not_enableError_invalidSize : ¬ EnableError invalidSize := by
  rintro (h | h) <;> simp [noRegisters, invalidSize] at h

theorem enableWatchpoint_cases (hth : s.threads.find (s.valueOr none) = some th)
    (h7 : th.regs.readByIdAsU64 (.dr 7) = .ok control) {points : List Watchpoint}
    {point : Watchpoint} (hpoints : s.watchpoints = points ++ [point])
    (hoff : point.isEnabled = false) :
    ((NoSlotFree control ∨ StuckAt s th control point.address) ∧
      ∃ e, EnableError e ∧ enableWatchpoint points.length s = .error e s) ∨
    (ValidSize point.size ∧ s.Takes (s.setPlan point.address point.mode point.size) ∧
      ∃ (i : ℕ) (s' : Process), enableWatchpoint points.length s = .ok () s' ∧ s'.watchpoints =
        points ++ [{ point with hardwareRegisterIndex := i, isEnabled := true }]) ∨
    (¬ NoSlotFree control ∧ ¬ StuckAt s th control point.address ∧
      ¬ (ValidSize point.size ∧ s.Takes (s.setPlan point.address point.mode point.size)) ∧
      ∃ e s', enableWatchpoint points.length s = .error e s' ∧ (e = invalidSize ∨ s' ≠ s)) := by
  unfold enableWatchpoint
  rw [bind_ok (watchpointAt_split hpoints)]
  simp only [hoff, Bool.false_eq_true, if_false]
  have hset : setWatchpoint point.id point.address point.mode point.size s =
      setHardwareStoppoint point.address point.mode point.size s := rfl
  obtain ⟨hnone, hfail⟩ | ⟨hstuck, hfail⟩ | ⟨hsize, htakes, i, s₁, hok, hr⟩ |
      ⟨hnone, hstuck, hends, e, s₁, hfail, hchanged⟩ :=
    setHardwareStoppoint_cases hth h7 point.address point.mode point.size
  · exact .inl ⟨.inl hnone, noRegisters, .inl rfl, bind_error (hset.trans hfail)⟩
  · exact .inl ⟨.inr hstuck, _, .inr rfl, bind_error (hset.trans hfail)⟩
  · right; left
    have hpoints₁ : s₁.watchpoints = points ++ point :: [] := hr.same.points.trans hpoints
    let s₂ : Process := { s₁ with
      watchpoints := points ++ { point with hardwareRegisterIndex := (i : ℤ) } :: [] }
    let s₃ : Process := { s₁ with
      watchpoints := points ++ { point with hardwareRegisterIndex := (i : ℤ), isEnabled := true } :: [] }
    refine ⟨hsize, htakes, i, s₃, ?_, rfl⟩
    rw [bind_ok (hset.trans hok), bind_ok (modifyWatchpoint_split hpoints₁ _)]
    exact modifyWatchpoint_split (s := s₂) rfl _
  · exact .inr (.inr ⟨hnone, hstuck, hends, e, s₁, bind_error (hset.trans hfail), hchanged⟩)

/-- Enabling leaves the process as it was, or the watchpoint is enabled: no slot is left for the
size to be looked at; or the kernel refuses the address, which is in the file already; or the size
is valid and the kernel takes what enabling asks for. -/
def EnablingSafe (s : Process) (th : ThreadState) (control : BitVec 64) (a : VirtAddr)
    (mode : StoppointMode) (size : ℕ) : Prop :=
  NoSlotFree control ∨ StuckAt s th control a ∨ ValidSize size ∧ s.Takes (s.setPlan a mode size)

theorem reason_of_safe (hth : s.threads.find (s.valueOr none) = some th)
    (h7 : th.regs.readByIdAsU64 (.dr 7) = .ok control) {a : VirtAddr} {mode : StoppointMode}
    {size : ℕ} (hsafe : WatchpointSafe s a mode size) :
    Refused s a size ∨ size ≤ 8 ∧ EnablingSafe s th control a mode size := by
  obtain ⟨hrefused, -⟩ | ⟨-, -, s₁, hcreate, -⟩ |
      ⟨-, hshort, point, id, rfl, rfl, rfl, hoff, hcreate⟩ := createWatchpoint_cases s a mode size
  · exact .inl hrefused
  · obtain ⟨⟨what, h⟩, -⟩ := hsafe.refused _ _ hcreate
    cases h
  · let s₁ : Process := { s with lastWatchpointId := id, watchpoints := s.watchpoints ++ [point] }
    refine .inr ⟨hshort, ?_⟩
    obtain ⟨hleft | hleft, -⟩ | ⟨hsize, htakes, -⟩ | ⟨-, -, -, e, s₂, henable, hchanged⟩ :=
      enableWatchpoint_cases (s := s₁) hth h7 rfl hoff
    · exact .inl hleft
    · exact .inr (.inl hleft)
    · exact .inr (.inr ⟨hsize, htakes⟩)
    · obtain ⟨herror, hsame⟩ := hsafe.raised _ _ _ hcreate henable
      obtain rfl | hne := hchanged
      · exact absurd herror not_enableError_invalidSize
      · exact absurd hsame hne

theorem safe_of_reason (hth : s.threads.find (s.valueOr none) = some th)
    (h7 : th.regs.readByIdAsU64 (.dr 7) = .ok control) {a : VirtAddr} {mode : StoppointMode}
    {size : ℕ} (h : Refused s a size ∨ size ≤ 8 ∧ EnablingSafe s th control a mode size) :
    WatchpointSafe s a mode size := by
  obtain ⟨-, what, s₁, hcreate, hsame⟩ | ⟨hadmitted, hlong, -⟩ |
      ⟨hadmitted, -, point, id, rfl, rfl, rfl, hoff, hcreate⟩ := createWatchpoint_cases s a mode size
  · exact safe_of_refused hcreate hsame
  · obtain h | ⟨h, -⟩ := h
    · exact absurd h hadmitted
    · omega
  · let s₁ : Process := { s with lastWatchpointId := id, watchpoints := s.watchpoints ++ [point] }
    obtain ⟨-, e, herror, henable⟩ | ⟨hsize, -, i, s₂, henable, hpoints⟩ |
        ⟨hnone, hstuck, hends, -⟩ := enableWatchpoint_cases (s := s₁) hth h7 rfl hoff
    · exact safe_of_raised hcreate henable herror
    · exact safe_of_enabled hcreate henable hsize ⟨_, hpoints, rfl, rfl, rfl, rfl⟩
    · exfalso
      obtain h | ⟨-, h | h | h⟩ := h
      · exact hadmitted h
      · exact hnone h
      · exact hstuck h
      · exact hends h

/-- Creating and enabling is safe for one of these reasons, and for no other. -/
theorem watchpointSafe_iff (hth : s.threads.find (s.valueOr none) = some th)
    (h7 : th.regs.readByIdAsU64 (.dr 7) = .ok control) (a : VirtAddr) (mode : StoppointMode)
    (size : ℕ) :
    WatchpointSafe s a mode size ↔
      Refused s a size ∨ size ≤ 8 ∧ EnablingSafe s th control a mode size :=
  ⟨reason_of_safe hth h7, safe_of_reason hth h7⟩

theorem watchpointSafe_fourBytes : WatchpointSafe untouched 0x1000#64 .write 4 := by
  obtain ⟨th, hth, h7⟩ := debugControl_eq_some.mp untouched_alone.control
  have hsize : ValidSize 4 := .inr (.inr (.inl rfl))
  have htakes : untouched.Takes (untouched.setPlan 0x1000#64 .write 4) := by decide +kernel
  exact (watchpointSafe_iff hth h7 _ _ _).mpr (.inr ⟨by decide, .inr (.inr ⟨hsize, htakes⟩)⟩)

/-- Three bytes are aligned to the mask of three, and refused with DR0 written. -/
theorem watchpointSafe_not_for_all : ¬ ∀ (s : Process) (th : ThreadState) (control : BitVec 64)
    (a : VirtAddr) (mode : StoppointMode) (size : ℕ),
    s.threads.find (s.valueOr none) = some th → th.regs.readByIdAsU64 (.dr 7) = .ok control →
    WatchpointSafe s a mode size := by
  intro h
  let th : ThreadState := { tid := 1, regs := { data := fun _ => 0#8, tid := 1 } }
  have hth : untouched.threads.find (untouched.valueOr none) = some th := rfl
  have h7 : th.regs.readByIdAsU64 (.dr 7) = .ok 0#64 := by decide +kernel
  have hsafe := h untouched th 0#64 0x1000#64 .write 3 hth h7
  obtain (htaken | halign | hread) | ⟨-, hfull | ⟨i, hi, hword, -⟩ | ⟨hsize, -⟩⟩ :=
    reason_of_safe hth h7 hsafe
  · exact absurd htaken (by decide)
  · exact halign (by decide)
  · exact absurd hread (by decide +kernel)
  · exact absurd (hfull 0 (by decide)) (by decide)
  · have hfree : findFreeStoppointRegister 0#64 = .ok 0 := by decide +kernel
    rw [hfree] at hi
    cases hi
    exact absurd hword (by decide +kernel)
  · exact absurd hsize (by decide)

end KDebugger.Process
