import KDebugger.Process.ThreadWrites
import KDebugger.Process.Unwind

namespace KDebugger.Process

open ByteStream Exec Dwarf

/-- No byte of memory and no register of any thread differs afterwards. -/
def LeavesInferior {α : Type} (s : Process) (p : M α) : Prop :=
  (after p s).memory = s.memory ∧ (after p s).user = s.user

abbrev Handed := ℕ → Option Byte

/-- The registers of the leader with the notes in them. -/
def held (s : Process) (h : Handed) : UserArea := fun o => (h o).getD (s.user s.pid o)

/-- A write into a register file, with a note of what the kernel makes of it. -/
def noteWrite (s : Process) (regs : Registers) (info : RegisterInfo) (v : Value) :
    EStateM Failure Handed Registers := do
  let regs' ← ofExcept (regs.store s.casts info v)
  let h ← get
  match s.kernel.write info.part regs'.data (s.held h) with
  | none => throw (requestError info.part)
  | some u => do
    set fun o => if info.part.Covers o then some (u o) else h o
    pure regs'

def noting (s : Process) : Traced Handed where
  getRegisters otid := ofExcept (outcome (getRegisters otid) s)
  readMemory address amount := ofExcept (outcome (readMemory address amount) s)
  write := noteWrite s

/-- The leader holds every byte that is noted. -/
def Holds {α : Type} (s : Process) (q : EStateM Failure Handed α) : Prop :=
  ∀ o b, after q (fun _ => none) o = some b → s.user s.pid o = b

/-- The process with the notes in its leader. -/
def handing (s : Process) (h : Handed) : Process := s.setUser s.pid (s.held h)

variable {s : Process}

section Sides

variable {σ τ : Type} {R : σ → τ → Prop} {T : Traced σ} {T' : Traced τ}

/-- Two processes that answer alike. -/
structure Traced.Agree (R : σ → τ → Prop) (T : Traced σ) (T' : Traced τ) : Prop where
  getRegisters : ∀ otid, Matches R (T.getRegisters otid) (T'.getRegisters otid)
  readMemory : ∀ address amount, Matches R (T.readMemory address amount) (T'.readMemory address amount)
  write : ∀ regs {info : RegisterInfo} v, info.Placed →
    Matches R (T.write regs info v) (T'.write regs info v)

theorem placed_of_registerInfoBy {f : RegisterInfo → Bool} {info : RegisterInfo}
    (h : registerInfoBy f = .ok info) : info.Placed := RegisterInfo.placed (registerInfoBy_mem h)

variable (hT : T.Agree R T')

include hT

theorem Traced.Agree.unwindRule (oldRegs : Registers) (cfa : BitVec 64) (unwound : Registers)
    (x : BitVec 32 × CfiRule (BitVec 32)) :
    Matches R (unwindRule T oldRegs cfa unwound x) (unwindRule T' oldRegs cfa unwound x) := by
  obtain ⟨reg, rule⟩ := x
  apply Matches.ofExcept_bind
  intro info hinfo
  have hplaced := placed_of_registerInfoBy hinfo
  cases rule with
  | undefined => exact .pure _
  | sameValue => exact .pure _
  | register other =>
    apply Matches.ofExcept_bind
    intro otherInfo _
    exact (Matches.ofExcept _).bind fun v => hT.write _ v hplaced
  | offset n => exact (hT.readMemory _ _).bind fun bytes => hT.write _ _ hplaced
  | valOffset n => exact hT.write _ _ hplaced

theorem Traced.Agree.unwindRules (oldRegs : Registers) (cfa : BitVec 64) :
    ∀ (rules : Ruleset) (unwound : Registers),
      Matches R (unwindRules T oldRegs cfa rules unwound) (unwindRules T' oldRegs cfa rules unwound) := by
  intro rules
  induction rules with
  | nil => exact fun _ => .pure _
  | cons x rules ih => exact fun unwound => (hT.unwindRule oldRegs cfa unwound x).bind ih

theorem Traced.Agree.executeUnwindRules (ctx : UnwindContext) (oldRegs : Registers) :
    Matches R (executeUnwindRules T ctx oldRegs) (executeUnwindRules T' ctx oldRegs) := by
  apply Matches.ofExcept_bind
  intro cfaInfo _
  apply Matches.ofExcept_bind
  intro base _
  apply Matches.ofExcept_bind
  intro rsp hrsp
  apply (hT.write _ _ (placed_of_registerInfoBy hrsp)).bind
  intro unwound
  exact (hT.unwindRules _ _ _ _).bind fun _ => .pure _

theorem Traced.Agree.cfiUnwind (I : FrameInfo) (pc : FileAddr) (regs : Registers) :
    Matches R (cfiUnwind T I pc regs) (cfiUnwind T' I pc regs) := by
  apply Matches.ofExcept_bind
  intro fde _
  apply Matches.ofExcept_bind
  intro ctx _
  exact hT.executeUnwindRules ctx regs

theorem Traced.Agree.getPc (otid : Option Tid) : Matches R (T.getPc otid) (T'.getPc otid) :=
  (hT.getRegisters otid).bind fun _ => .ofExcept _

theorem Traced.Agree.getPcFileAddress (I : FrameInfo) (otid : Option Tid) :
    Matches R (getPcFileAddress T I otid) (getPcFileAddress T' I otid) :=
  (hT.getPc otid).bind fun _ => .pure _

theorem Traced.Agree.resetInlineHeight (I : FrameInfo) (tid : Tid) :
    Matches R (resetInlineHeight T I tid) (resetInlineHeight T' I tid) := by
  apply Matches.bind
  · apply (hT.getPcFileAddress I _).bind
    intro pc
    split_ifs
    · exact .pure _
    · exact .ofExcept _
  · exact fun stack => (hT.getPcFileAddress I _).bind fun pc => .ofExcept _

theorem Traced.Agree.unwindFrames (I : FrameInfo) :
    ∀ (n : ℕ) (virtPc : VirtAddr) (filePc : FileAddr) (regs : Registers) (frames : List StackFrame),
      Matches R (unwindFrames T I n virtPc filePc regs frames)
        (unwindFrames T' I n virtPc filePc regs frames) := by
  intro n
  induction n with
  | zero => exact fun _ _ _ _ => .throw _
  | succ n ih =>
    intro virtPc filePc regs frames
    unfold Process.unwindFrames
    split_ifs
    · exact .pure _
    apply Matches.ofExcept_bind
    intro inlineStack _
    cases inlineStack.reverse with
    | nil => exact .pure _
    | cons d ds =>
      apply Matches.ofExcept_bind
      intro base _
      apply Matches.ofExcept_bind
      intro inlined _
      apply (hT.cfiUnwind I filePc regs).bind
      rintro ⟨left, regs'⟩
      apply Matches.ofExcept_bind
      intro rip _
      exact ih _ _ _ _

theorem Traced.Agree.stackUnwind (I : FrameInfo) (n : ℕ) (tid : Tid) :
    Matches R (stackUnwind T I n tid) (stackUnwind T' I n tid) := by
  apply (hT.resetInlineHeight I tid).bind
  intro height
  apply (hT.getPc _).bind
  intro virtPc
  apply (hT.getPcFileAddress I _).bind
  intro filePc
  apply (hT.getRegisters _).bind
  intro regs
  split_ifs
  · exact .pure _
  · exact (hT.unwindFrames I n virtPc filePc regs []).bind fun _ => .pure _

end Sides

theorem getRegisters_handing (h : Handed) (otid : Option Tid) :
    outcome (getRegisters otid) (s.handing h) = outcome (getRegisters otid) s ∧
      after (getRegisters otid) (s.handing h) = s.handing h := by
  unfold outcome after
  cases hth : s.threads.find (s.valueOr otid) with
  | none =>
    have hth' : (s.handing h).threads.find ((s.handing h).valueOr otid) = none := hth
    rw [getRegisters_error hth, getRegisters_error hth']
    exact ⟨rfl, rfl⟩
  | some th =>
    have hth' : (s.handing h).threads.find ((s.handing h).valueOr otid) = some th := hth
    rw [getRegisters_eq hth, getRegisters_eq hth']
    exact ⟨rfl, rfl⟩

theorem readMemory_handing (h : Handed) (address : VirtAddr) (amount : ℕ) :
    outcome (readMemory address amount) (s.handing h) = outcome (readMemory address amount) s ∧
      after (readMemory address amount) (s.handing h) = s.handing h := by
  refine ⟨?_, within_readMemory unchanged address amount _⟩
  unfold readMemory outcome
  rw [bind_ok (get_eq _), bind_ok (get_eq _)]
  have hmemory : (s.handing h).memory = s.memory := rfl
  rw [hmemory]
  cases s.memory.readv (remoteChunks amount address amount) <;> rfl

theorem setUser_handing {h : Handed} {part : UserPart} {data u : UserArea}
    (hu : s.kernel.write part data (s.held h) = some u) :
    (s.handing h).setUser s.pid u = s.handing fun o => if part.Covers o then some (u o) else h o := by
  have hheld : s.held (fun o => if part.Covers o then some (u o) else h o) = u := by
    funext o
    by_cases ho : part.Covers o
    · simp only [held, if_pos ho, Option.getD_some]
    · rw [RegisterKernel.write_elsewhere hu ho]
      simp only [held, if_neg ho]
  unfold handing
  rw [setUser_setUser, hheld]

theorem deliver_handing (regs : Registers) {info : RegisterInfo} (hplaced : info.Placed)
    (h : Handed) : regs.deliver info none (s.handing h) =
      pokeRegisters s.pid info.part regs.data (s.handing h) :=
  deliver_eq (s := s.handing h) regs hplaced none

theorem handOver_taken (regs : Registers) {info : RegisterInfo} (hplaced : info.Placed)
    {h : Handed} {u : UserArea} (hu : s.kernel.write info.part regs.data (s.held h) = some u) :
    regs.handOver info false (s.handing h) =
      .ok () (s.handing fun o => if info.part.Covers o then some (u o) else h o) := by
  have hpoke : pokeRegisters s.pid info.part regs.data (s.handing h) =
      .ok () ((s.handing h).setUser s.pid u) := by
    apply pokeRegisters_taken
    rw [← hu, handing, setUser_user_self]
    rfl
  rw [setUser_handing hu] at hpoke
  exact bind_ok ((deliver_handing regs hplaced h).trans hpoke)

theorem handOver_refused (regs : Registers) {info : RegisterInfo} (hplaced : info.Placed)
    {h : Handed} (hu : s.kernel.write info.part regs.data (s.held h) = none) :
    regs.handOver info false (s.handing h) = .error (requestError info.part) (s.handing h) := by
  have hpoke : pokeRegisters s.pid info.part regs.data (s.handing h) =
      .error (requestError info.part) (s.handing h) := by
    apply pokeRegisters_refused
    rw [← hu, handing, setUser_user_self]
    rfl
  exact bind_error ((deliver_handing regs hplaced h).trans hpoke)

theorem inferior_agrees (s : Process) :
    inferior.Agree (fun s' h => s' = s.handing h) (noting s) where
  -- side by side, and from the same file: what is handed over is noted
  getRegisters otid := by
    rintro _ h rfl
    obtain ⟨hout, hafter⟩ := getRegisters_handing (s := s) h otid
    change outcome (getRegisters otid) (s.handing h) = _ ∧ after (getRegisters otid) (s.handing h) = _
    rw [hout, hafter]
    change _ = outcome (ofExcept (outcome (getRegisters otid) s)) h ∧
      _ = s.handing (after (ofExcept (outcome (getRegisters otid) s)) h)
    cases outcome (getRegisters otid) s <;> exact ⟨rfl, rfl⟩
  readMemory address amount := by
    rintro _ h rfl
    obtain ⟨hout, hafter⟩ := readMemory_handing (s := s) h address amount
    change outcome (readMemory address amount) (s.handing h) = _ ∧
      after (readMemory address amount) (s.handing h) = _
    rw [hout, hafter]
    change _ = outcome (ofExcept (outcome (readMemory address amount) s)) h ∧
      _ = s.handing (after (ofExcept (outcome (readMemory address amount) s)) h)
    cases outcome (readMemory address amount) s <;> exact ⟨rfl, rfl⟩
  write regs info v hplaced := by
    rintro _ h rfl
    change outcome (ofExcept (regs.store s.casts info v) >>= _) (s.handing h) =
        outcome (noteWrite s regs info v) h ∧
      after (ofExcept (regs.store s.casts info v) >>= _) (s.handing h) =
        s.handing (after (noteWrite s regs info v) h)
    unfold noteWrite
    cases hstore : regs.store s.casts info v with
    | error e => exact ⟨rfl, rfl⟩
    | ok regs' =>
      unfold outcome after
      rw [bind_ok (ofExcept_ok _ _), bind_ok (ofExcept_ok _ _), bind_ok (get_eq _)]
      cases hu : s.kernel.write info.part regs'.data (s.held h) with
      | none =>
        rw [bind_error (handOver_refused regs' hplaced hu)]
        exact ⟨rfl, rfl⟩
      | some u =>
        rw [bind_ok (handOver_taken regs' hplaced hu)]
        exact ⟨rfl, rfl⟩

theorem leavesInferior_iff {α : Type} {p : M α} {q : EStateM Failure Handed α}
    (h : Matches (fun s' h => s' = s.handing h) p q) : s.LeavesInferior p ↔ s.Holds q := by
  have hstart : s = s.handing fun _ => none := (setUser_self _).symm
  obtain ⟨-, hafter⟩ := h s (fun _ => none) hstart
  unfold LeavesInferior Holds
  rw [hafter]
  generalize after q (fun _ => none) = notes
  constructor
  · rintro ⟨-, huser⟩ o b hb
    have hbyte := congrFun (congrFun huser s.pid) o
    simpa [handing, held, hb] using hbyte.symm
  · intro hnotes
    refine ⟨rfl, ?_⟩
    have hheld : s.held notes = s.user s.pid := by
      funext o
      unfold held
      cases hb : notes o with
      | none => rfl
      | some b => exact (hnotes o b hb).symm
    rw [handing, hheld, setUser_self]

theorem holds_noteWrite (regs : Registers) (info : RegisterInfo) (v : Value) :
    s.Holds (noteWrite s regs info v) ↔ (v.size ≤ info.size → ∀ u,
      s.kernel.write info.part (regs.put info v.size (widen s.casts info v)).data
        (s.user s.pid) = some u → u = s.user s.pid) := by
  unfold Holds noteWrite
  by_cases hsize : v.size ≤ info.size
  · rw [Registers.store_of_le hsize, after_bind_ok (ofExcept_ok _ _), after_bind_ok (get_eq _)]
    have hheld : s.held (fun _ => none) = s.user s.pid := rfl
    rw [hheld]
    cases hu : s.kernel.write info.part (regs.put info v.size (widen s.casts info v)).data
        (s.user s.pid) with
    | none =>
      change (∀ o b, none = some b → _) ↔ _
      simp
    | some u =>
      change (∀ o b, (if info.part.Covers o then some (u o) else none) = some b → _) ↔ _
      constructor
      · intro h _ u' hu'
        obtain rfl : u = u' := Option.some.inj hu'
        funext o
        by_cases ho : info.part.Covers o
        · exact (h o _ (if_pos ho)).symm
        · exact RegisterKernel.write_elsewhere hu ho
      · intro h o b hb
        rw [h hsize u rfl] at hb
        split_ifs at hb
        exact Option.some.inj hb
  · have hstore : regs.store s.casts info v = .error .aborted := if_neg hsize
    rw [hstore]
    change (∀ o b, none = some b → _) ↔ _
    simp [hsize]

/-- Writing without committing, following a row, unwinding a frame and unwinding a stack:
each leaves the process alone exactly when the leader holds already what is handed over. -/
theorem unwinding_iff (s : Process) :
    (∀ (regs : Registers), ∀ info ∈ gRegisterInfos, ∀ v : Value,
      s.LeavesInferior (regs.write info v false) ↔ (v.size ≤ info.size → ∀ u,
        s.kernel.write info.part (regs.put info v.size (widen s.casts info v)).data
          (s.user s.pid) = some u → u = s.user s.pid)) ∧
    (∀ (ctx : UnwindContext) (oldRegs : Registers),
      s.LeavesInferior (executeUnwindRules inferior ctx oldRegs) ↔
        s.Holds (executeUnwindRules (noting s) ctx oldRegs)) ∧
    (∀ (I : FrameInfo) (pc : FileAddr) (regs : Registers),
      s.LeavesInferior (cfiUnwind inferior I pc regs) ↔
        s.Holds (cfiUnwind (noting s) I pc regs)) ∧
    ∀ (I : FrameInfo) (n : ℕ) (tid : Tid),
      s.LeavesInferior (stackUnwind inferior I n tid) ↔
        s.Holds (stackUnwind (noting s) I n tid) := by
  have hagree := inferior_agrees s
  refine ⟨fun regs info hinfo v => ?_, fun ctx oldRegs => ?_, fun I pc regs => ?_,
    fun I n tid => ?_⟩
  · rw [← holds_noteWrite]
    exact leavesInferior_iff (hagree.write regs v (RegisterInfo.placed hinfo))
  · exact leavesInferior_iff (hagree.executeUnwindRules ctx oldRegs)
  · exact leavesInferior_iff (hagree.cfiUnwind I pc regs)
  · exact leavesInferior_iff (hagree.stackUnwind I n tid)

def sixteenBytes : UnwindContext := { cfaRule := ⟨7#32, 16#64⟩ }

/-- The stack pointer of the leader becomes the CFA. -/
theorem unwinding_not_for_all : ¬ ∀ (s : Process) (ctx : UnwindContext) (oldRegs : Registers),
    s.LeavesInferior (executeUnwindRules inferior ctx oldRegs) := by
  intro h
  let regs : Registers := { data := fun _ => 0#8, tid := 1 }
  have hleaves := h twoThreads sixteenBytes regs
  rw [leavesInferior_iff ((inferior_agrees twoThreads).executeUnwindRules sixteenBytes regs)]
    at hleaves
  have hbyte := hleaves 152 16#8 (by decide +kernel)
  exact absurd hbyte (by decide)

end KDebugger.Process
