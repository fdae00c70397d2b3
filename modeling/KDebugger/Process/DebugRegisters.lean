import KDebugger.Process.DebugRequests

namespace KDebugger.Process

open ByteStream Words Exec

variable {s s' : Process} {c : BitVec 64} {i : ℕ} {size : ℕ}

/-- The requests that set slot `i`. -/
def setRequests (s : Process) (c : BitVec 64) (i : ℕ) (address : VirtAddr) (mode : StoppointMode)
    (size : ℕ) : List (UserPart × UserArea) :=
  slotRequests i (setSlot c i ((modeBits mode).setWidth 64) ((lengthBits size).setWidth 64))
    (s.slotWords i (.u64 address))

/-- The requests that clear slot `i`. -/
def clearRequests (s : Process) (c : BitVec 64) (i : ℕ) : List (UserPart × UserArea) :=
  slotRequests i (clearSlot c i) (s.slotWords i (.i32 0#32))

/-- DR7 in a file, where it is not undefined. -/
def DebugFile.control (file : DebugFile) : Option (BitVec 64) :=
  if file.undefined.contains ((defineDr 7).offset / 2) then none else some (file.words 7)

theorem readDr_file (regs : Registers) (n : Fin 8) : regs.readByIdAsU64 (.dr n) =
    if regs.isUndefined (defineDr n) then .error (.raised "Register is undefined")
    else .ok (regs.wordAt (drOffset n)) := by
  unfold Registers.readByIdAsU64 Registers.readU64
  rw [registerInfoById_dr]
  simp only [Registers.read]
  split_ifs <;> rfl

theorem debugControl_eq : s.debugControl = (s.debugFiles s.currentThread).bind DebugFile.control := by
  unfold debugControl debugFiles
  rw [Option.bind_map]
  apply Option.bind_congr
  intro th _
  simp only [Function.comp_apply, DebugFile.control]
  rw [readDr_file]
  unfold Registers.isUndefined
  split_ifs <;> rfl

theorem debugControl_eq_some : s.debugControl = some c ↔ ∃ th,
    s.threads.find (s.valueOr none) = some th ∧ th.regs.readByIdAsU64 (.dr 7) = .ok c := by
  unfold debugControl
  rw [Option.bind_eq_some_iff]
  apply exists_congr
  intro th
  apply and_congr_right
  intro _
  cases th.regs.readByIdAsU64 (.dr 7) with
  | ok c' => simp [Except.toOption]
  | error e => simp [Except.toOption]

theorem file_of_debugControl (hc : s.debugControl = some c) :
    ∃ file, s.debugFiles s.currentThread = some file ∧ file.control = some c := by
  rw [debugControl_eq] at hc
  exact Option.bind_eq_some_iff.mp hc

theorem read_control (hc : s.debugControl = some c) :
    ∃ regs : Registers, getRegisters none s = .ok regs s ∧ regs.readByIdAsU64 (.dr 7) = .ok c := by
  obtain ⟨th, hth, hread⟩ := debugControl_eq_some.mp hc
  exact ⟨th.regs, getRegisters_eq hth, hread⟩

theorem read_no_control {α : Type} {f : BitVec 64 → M α} (hc : s.debugControl = none) :
    ∃ e, (getRegisters none >>= fun regs => ofExcept (regs.readByIdAsU64 (.dr 7)) >>= f) s =
      .error e s := by
  cases hth : s.threads.find (s.valueOr none) with
  | none => exact ⟨_, bind_error (getRegisters_error hth)⟩
  | some th =>
    rw [bind_ok (getRegisters_eq hth)]
    cases hread : th.regs.readByIdAsU64 (.dr 7) with
    | ok c =>
      rw [debugControl_eq_some.mpr ⟨th, hth, hread⟩] at hc
      cases hc
    | error e => exact ⟨e, rfl⟩

theorem debugRegister_eq (hi : i < 8) : debugRegister i = .ok (.dr ⟨i, hi⟩) :=
  ofCode_dr ⟨i, hi⟩

theorem DebugFile.slot_words_seven (file : DebugFile) (casts : FloatCasts) (n : ℕ) (v : Value)
    (masked : BitVec 64) : (file.slot casts n v masked).words 7 = masked := by
  simp [DebugFile.slot, DebugFile.store]

theorem control_slot {file : DebugFile} (hfile : file.control = some c) (casts : FloatCasts)
    (n : ℕ) (v : Value) (masked : BitVec 64) :
    (file.slot casts n v masked).control = some masked := by
  unfold DebugFile.control at hfile
  have hdefined : ¬ file.undefined.contains ((defineDr 7).offset / 2) = true := by
    intro hundefined
    rw [if_pos hundefined] at hfile
    cases hfile
  exact (if_neg hdefined).trans (congrArg some (file.slot_words_seven casts n v masked))

theorem debugControl_slot (hc : s.debugControl = some c) (honly : RegistersOnly s s') {n : ℕ}
    {v : Value} {masked : BitVec 64}
    (hfiles : s'.debugFiles = fun t => (s.debugFiles t).map (DebugFile.slot s.casts n v masked)) :
    s'.debugControl = some masked := by
  obtain ⟨file, hfile, hcontrol⟩ := file_of_debugControl hc
  have hfile' : s'.debugFiles s'.currentThread = some (file.slot s.casts n v masked) := by
    rw [hfiles, honly.current]
    exact congrArg (Option.map _) hfile
  rw [debugControl_eq, hfile']
  exact control_slot hcontrol _ _ _ _

theorem asks_setHardwareStoppoint (hc : s.debugControl = some c)
    (hfree : findFreeStoppointRegister c = .ok i) (address : VirtAddr) (mode : StoppointMode)
    (hsize : ValidSize size) :
    Asks (s.setRequests c i address mode size) i
      (fun t => (s.debugFiles t).map (DebugFile.slot s.casts i (.u64 address)
        (setSlot c i ((modeBits mode).setWidth 64) ((lengthBits size).setWidth 64))))
      (setHardwareStoppoint address mode size) s := by
  obtain ⟨regs, hregs, hread⟩ := read_control hc
  obtain ⟨file, hfile, -⟩ := file_of_debugControl hc
  have hi8 : i < 8 := by
    have := (findFree_ok hfree).1
    omega
  let masked := setSlot c i ((modeBits mode).setWidth 64) ((lengthBits size).setWidth 64)
  have hslot := asks_slot (n := ⟨i, hi8⟩) (v := .u64 address) (p := do
    writeRegisterById none (.dr 7) (.u64 masked) true
    writeOtherThreads (.dr ⟨i, hi8⟩) (.u64 address) masked
    pure i) hfile le_rfl masked i fun _ _ _ => rfl
  refine hslot.of_eq ?_
  unfold setHardwareStoppoint
  rw [bind_ok hregs, hread, bind_ok (ofExcept_ok _ _), hfree, bind_ok (ofExcept_ok _ _),
    debugRegister_eq hi8, bind_ok (ofExcept_ok _ _), encodeSize_eq hsize, encodeMode_eq]
  rfl

/-- Slot `i` is cleared where the kernel takes what that asks for. -/
theorem asks_clearHardwareStoppoint (hc : s.debugControl = some c) (hi : i < 4) :
    Asks (s.clearRequests c i) ()
      (fun t => (s.debugFiles t).map (DebugFile.slot s.casts i (.i32 0#32) (clearSlot c i)))
      (clearHardwareStoppoint i) s := by
  obtain ⟨file, hfile, hcontrol⟩ := file_of_debugControl hc
  have hi8 : i < 8 := by omega
  have hshift : shiftIndex i = .ok i := if_pos (by omega)
  have hslot := asks_slot (n := ⟨i, hi8⟩) (v := .i32 0#32) (p := do
    let regs ← getRegisters
    let control ← ofExcept (regs.readByIdAsU64 (.dr 7))
    let j ← ofExcept (shiftIndex i)
    writeRegisterById none (.dr 7) (.u64 (clearSlot control j)) true
    writeOtherThreads (.dr ⟨i, hi8⟩) (.i32 0#32) (clearSlot control j)) hfile (by decide)
      (clearSlot c i) () ?_
  · refine hslot.of_eq ?_
    unfold clearHardwareStoppoint
    rw [debugRegister_eq hi8, bind_ok (ofExcept_ok _ _)]
  · intro s₁ honly hfiles
    have hc₁ : s₁.debugControl = some c := by
      have hfile₁ : s₁.debugFiles s₁.currentThread =
          some (file.store i (storeWord s.casts (.i32 0#32) (file.words i))) := by
        rw [hfiles, honly.current]
        simp [changeFiles, hfile]
      rw [debugControl_eq, hfile₁, Option.bind_some, ← hcontrol]
      unfold DebugFile.control
      simp [DebugFile.store, Ne.symm (ne_seven hi)]
    obtain ⟨regs, hregs, hread⟩ := read_control hc₁
    rw [bind_ok hregs, hread, bind_ok (ofExcept_ok _ _), hshift, bind_ok (ofExcept_ok _ _)]
    simp only [bind_pure_unit]

end KDebugger.Process
