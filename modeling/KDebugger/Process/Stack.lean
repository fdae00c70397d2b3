import KDebugger.Process.Unwind

namespace KDebugger.Process

open Exec Dwarf

/-- `stack`, without the thread it belongs to. -/
structure Stack where
  inlineHeight : BitVec 32 := 0#32
  frames : List StackFrame := []
  currentFrame : BitVec 64 := 0#64

/-- A `source_location` that is not set. -/
def SourceLocation.unset : SourceLocation := ⟨none, 0#64⟩

namespace Stack

def simulateInlinedStepIn (st : Stack) : Stack :=
  { st with
    inlineHeight := st.inlineHeight - 1#32
    currentFrame := (st.inlineHeight - 1#32).setWidth 64 }

def up (st : Stack) : Stack := { st with currentFrame := st.currentFrame + 1#64 }

def down (st : Stack) : Stack := { st with currentFrame := st.currentFrame - 1#64 }

/-- `frames`, a span of the vector from the inline height on. -/
def framesShown (st : Stack) : Except Failure (List StackFrame) :=
  if st.inlineHeight.toNat ≤ st.frames.length then .ok (st.frames.drop st.inlineHeight.toNat)
  else .error .undefined

/-- `current_frame`. -/
def current (st : Stack) : Except Failure StackFrame :=
  match st.frames[st.currentFrame.toNat]? with
  | none => .error .undefined
  | some frame => .ok frame

def regs (st : Stack) : Except Failure Registers := do
  let frame ← st.current
  pure frame.regs

def currentFrameIndex (st : Stack) : BitVec 64 := st.currentFrame - st.inlineHeight.setWidth 64

end Stack

section Unwinding

variable {σ α : Type}

def onProcess (p : EStateM Failure σ α) : EStateM Failure (σ × Stack) α := fun s =>
  match p s.1 with
  | .ok a s' => .ok a (s', s.2)
  | .error e s' => .error e (s', s.2)

def onStack (f : Stack → Stack) : EStateM Failure (σ × Stack) Unit :=
  modify fun s => (s.1, f s.2)

namespace Stack

/-- `m_Frames.push_back`. -/
def push (frame : StackFrame) : EStateM Failure (σ × Stack) Unit :=
  onStack fun st => { st with frames := st.frames ++ [frame] }

variable (T : Traced σ) (I : FrameInfo)

/-- The loop of `reset_inline_height`. -/
def countHeight (pc : FileAddr) : List Die → EStateM Failure (σ × Stack) Unit
  | [] => pure ()
  | d :: ds => do
    let lowPc ← ofExcept (I.lowPc d)
    if lowPc = pc then do
      onStack fun st => { st with inlineHeight := st.inlineHeight + 1#32 }
      countHeight pc ds
    else pure ()

def resetInlineHeight (tid : Tid) : EStateM Failure (σ × Stack) Unit := do
  let stack ← onProcess (inlineStackAtPc T I tid)
  onStack fun st => { st with inlineHeight := 0#32 }
  let pc ← onProcess (getPcFileAddress T I none)
  countHeight I pc stack.reverse

def createBaseFrame (regs : Registers) (d : Die) (pc : FileAddr) (inlined : Bool) :
    EStateM Failure (σ × Stack) Unit := do
  let frame ← ofExcept (Process.createBaseFrame I regs d pc inlined)
  push frame

/-- `create_inline_stack_frames`: a frame whose location cannot be had is there already. -/
def createInlineStackFrames (regs : Registers) : List Die → EStateM Failure (σ × Stack) Unit
  | inner :: outer :: ds => do
    let lowPc ← ofExcept (I.lowPc inner)
    let inlinedPc ← ofExcept (I.elves.toVirtAddr lowPc)
    let location := (I.location inner).toOption.getD .unset
    push ⟨regs, inlinedPc, outer, !ds.isEmpty, location⟩
    let _ ← ofExcept (I.location inner)
    createInlineStackFrames regs (outer :: ds)
  | _ => pure ()

/-- The loop of `unwind`, with a bound on its turns. -/
def unwindLoop : ℕ → VirtAddr → FileAddr → Registers → EStateM Failure (σ × Stack) Unit
  | 0, _, _, _ => throw .exhausted
  | n + 1, virtPc, filePc, regs => do
    if virtPc = 0#64 ∨ filePc.elf ≠ some I.mainElf then pure ()
    else do
      let inlineStack ← ofExcept (I.inlineStackAtAddress filePc)
      match inlineStack.reverse with
      | [] => pure ()
      | d :: ds => do
        createBaseFrame I regs d filePc !ds.isEmpty
        createInlineStackFrames I regs (d :: ds)
        let (left, regs) ← onProcess (cfiUnwind T I filePc regs)
        onStack fun st => { st with frames := withLastRegs st.frames left }
        let rip ← ofExcept (regs.readByIdAsU64 (.gpr64 .rip))
        let virtPc := rip - 1#64
        unwindLoop n virtPc (I.elves.toFileAddr virtPc) regs

def unwind (n : ℕ) (tid : Tid) : EStateM Failure (σ × Stack) Unit := do
  -- statement by statement, so that an exception leaves the members as they are then
  resetInlineHeight T I tid
  onStack fun st => { st with currentFrame := st.inlineHeight.setWidth 64 }
  let virtPc ← onProcess (T.getPc (some tid))
  let filePc ← onProcess (getPcFileAddress T I (some tid))
  let regs ← onProcess (T.getRegisters (some tid))
  onStack fun st => { st with frames := [] }
  if filePc.elf = none then pure ()
  else unwindLoop T I n virtPc filePc regs

end Stack
end Unwinding

section Steps

variable {σ α β : Type} {s s' : σ} {st : Stack}

theorem onProcess_ok {p : EStateM Failure σ α} {a : α} (h : p s = .ok a s') :
    onProcess p (s, st) = .ok a (s', st) := by
  unfold onProcess
  rw [h]

theorem onProcess_error {p : EStateM Failure σ α} {e : Failure} (h : p s = .error e s') :
    onProcess p (s, st) = .error e (s', st) := by
  unfold onProcess
  rw [h]

theorem onProcess_eq_ok {p : EStateM Failure σ α} {a : α} {s' : σ × Stack} :
    onProcess p (s, st) = .ok a s' ↔ ∃ s₁, p s = .ok a s₁ ∧ s' = (s₁, st) := by
  unfold onProcess
  cases h : p s with
  | ok b s₁ => simp [eq_comm]
  | error e s₁ => simp

theorem onStack_eq (f : Stack → Stack) (s : σ × Stack) : onStack f s = .ok () (s.1, f s.2) := rfl

theorem push_eq (frame : StackFrame) (s : σ) (st : Stack) :
    Stack.push frame (s, st) = .ok () (s, { st with frames := st.frames ++ [frame] }) := rfl

end Steps

section Agreement

variable {σ : Type} {T : Traced σ} {I : FrameInfo} {s : σ}

theorem countHeight_ok {pc : FileAddr} {p : σ × Stack} : ∀ {ds : List Die} {st : Stack},
    Stack.countHeight I pc ds (s, st) = .ok () p ↔ ∃ n, countInlined I pc ds = .ok n ∧
      p = (s, { st with inlineHeight := st.inlineHeight + BitVec.ofNat 32 n }) := by
  intro ds
  induction ds with
  | nil =>
    intro st
    unfold Stack.countHeight countInlined
    simp [pure, EStateM.pure, eq_comm]
  | cons d ds ih =>
    intro st
    unfold Stack.countHeight countInlined
    cases hlow : I.lowPc d with
    | error e =>
      rw [bind_error (ofExcept_error _ _)]
      simp [bind, Except.bind]
    | ok lowPc =>
      rw [bind_ok (ofExcept_ok _ _)]
      by_cases hpc : lowPc = pc
      · rw [if_pos hpc, bind_ok (onStack_eq _ _), ih]
        cases hcount : countInlined I pc ds with
        | error e => simp [hpc, bind, Except.bind]
        | ok n =>
          have hsum : st.inlineHeight + 1#32 + BitVec.ofNat 32 n =
              st.inlineHeight + BitVec.ofNat 32 (n + 1) := by
            rw [BitVec.ofNat_add, BitVec.add_comm (BitVec.ofNat 32 n), ← BitVec.add_assoc]
          simp [hpc, hsum, bind, Except.bind, pure, Except.pure]
      · rw [if_neg hpc]
        simp [hpc, bind, Except.bind, pure, EStateM.pure, Except.pure, eq_comm]

theorem resetInlineHeight_ok {tid : Tid} {st : Stack} {p : σ × Stack} :
    Stack.resetInlineHeight T I tid (s, st) = .ok () p ↔
      ∃ n s', resetInlineHeight T I tid s = .ok n s' ∧
        p = (s', { st with inlineHeight := BitVec.ofNat 32 n }) := by
  unfold Stack.resetInlineHeight resetInlineHeight
  constructor
  · intro h
    obtain ⟨stack, _, h₁, h⟩ := bind_eq_ok.mp h
    obtain ⟨s₁, hstack, rfl⟩ := onProcess_eq_ok.mp h₁
    rw [bind_ok (onStack_eq _ _)] at h
    obtain ⟨pc, _, h₂, h⟩ := bind_eq_ok.mp h
    obtain ⟨s₂, hpc, rfl⟩ := onProcess_eq_ok.mp h₂
    obtain ⟨n, hn, rfl⟩ := countHeight_ok.mp h
    refine ⟨n, s₂, ?_, by simp⟩
    rw [bind_ok hstack, bind_ok hpc, hn]
    rfl
  · rintro ⟨n, s', h, rfl⟩
    obtain ⟨stack, s₁, hstack, h⟩ := bind_eq_ok.mp h
    obtain ⟨pc, s₂, hpc, h⟩ := bind_eq_ok.mp h
    obtain ⟨hn, rfl⟩ := ofExcept_eq_ok.mp h
    rw [bind_ok (onProcess_ok hstack), bind_ok (onStack_eq _ _), bind_ok (onProcess_ok hpc),
      countHeight_ok]
    exact ⟨n, hn, by simp⟩

theorem createBaseFrame_ok {regs : Registers} {d : Die} {pc : FileAddr} {inlined : Bool}
    {st : Stack} {p : σ × Stack} :
    Stack.createBaseFrame I regs d pc inlined (s, st) = .ok () p ↔
      ∃ frame, createBaseFrame I regs d pc inlined = .ok frame ∧
        p = (s, { st with frames := st.frames ++ [frame] }) := by
  unfold Stack.createBaseFrame
  cases createBaseFrame I regs d pc inlined with
  | error e =>
    rw [bind_error (ofExcept_error _ _)]
    simp
  | ok frame =>
    rw [bind_ok (ofExcept_ok _ _), push_eq]
    simp [eq_comm]

theorem createInlineStackFrames_ok {regs : Registers} {p : σ × Stack} :
    ∀ {ds : List Die} {st : Stack},
      Stack.createInlineStackFrames I regs ds (s, st) = .ok () p ↔
        ∃ frames, createInlineStackFrames I regs ds = .ok frames ∧
          p = (s, { st with frames := st.frames ++ frames }) := by
  intro ds
  induction ds with
  | nil =>
    intro st
    simp [Stack.createInlineStackFrames, createInlineStackFrames, pure, EStateM.pure, eq_comm]
  | cons inner ds ih =>
    intro st
    cases ds with
    | nil =>
      simp [Stack.createInlineStackFrames, createInlineStackFrames, pure, EStateM.pure, eq_comm]
    | cons outer ds =>
      unfold Stack.createInlineStackFrames createInlineStackFrames
      cases hlow : I.lowPc inner with
      | error e =>
        rw [bind_error (ofExcept_error _ _)]
        simp [bind, Except.bind]
      | ok lowPc =>
        rw [bind_ok (ofExcept_ok _ _)]
        cases hvirt : I.elves.toVirtAddr lowPc with
        | error e =>
          rw [bind_error (ofExcept_error _ _)]
          simp [hvirt, bind, Except.bind]
        | ok inlinedPc =>
          rw [bind_ok (ofExcept_ok _ _), bind_ok (push_eq _ _ _)]
          cases hloc : I.location inner with
          | error e =>
            rw [bind_error (ofExcept_error _ _)]
            simp [hvirt, bind, Except.bind]
          | ok location =>
            rw [bind_ok (ofExcept_ok _ _), ih]
            cases createInlineStackFrames I regs (outer :: ds) with
            | error e => simp [hvirt, bind, Except.bind]
            | ok frames =>
              simp [hvirt, bind, Except.bind, pure, Except.pure, Except.toOption]

theorem unwindLoop_ok {p : σ × Stack} : ∀ {n : ℕ} {virtPc : VirtAddr} {filePc : FileAddr}
    {regs : Registers} {s : σ} {st : Stack},
      Stack.unwindLoop T I n virtPc filePc regs (s, st) = .ok () p ↔
        ∃ frames s', unwindFrames T I n virtPc filePc regs st.frames s = .ok frames s' ∧
          p = (s', { st with frames }) := by
  -- by induction on the turns; what a turn adds stays there
  intro n
  induction n with
  | zero =>
    intro virtPc filePc regs s st
    simp [Stack.unwindLoop, unwindFrames, throw_eq]
  | succ n ih =>
    intro virtPc filePc regs s st
    unfold Stack.unwindLoop unwindFrames
    by_cases hend : virtPc = 0#64 ∨ filePc.elf ≠ some I.mainElf
    · rw [if_pos hend, if_pos hend]
      simp [pure, EStateM.pure, eq_comm]
    rw [if_neg hend, if_neg hend]
    cases hstack : I.inlineStackAtAddress filePc with
    | error e =>
      rw [bind_error (ofExcept_error _ _), bind_error (ofExcept_error _ _)]
      simp
    | ok inlineStack =>
      rw [bind_ok (ofExcept_ok _ _), bind_ok (ofExcept_ok _ _)]
      cases inlineStack.reverse with
      | nil => simp [pure, EStateM.pure, eq_comm]
      | cons d ds =>
        constructor
        · intro h
          obtain ⟨_, _, h₁, h⟩ := bind_eq_ok.mp h
          obtain ⟨base, hbase, rfl⟩ := createBaseFrame_ok.mp h₁
          obtain ⟨_, _, h₂, h⟩ := bind_eq_ok.mp h
          obtain ⟨inlined, hinlined, rfl⟩ := createInlineStackFrames_ok.mp h₂
          obtain ⟨⟨left, regs'⟩, _, h₃, h⟩ := bind_eq_ok.mp h
          obtain ⟨s₃, hcfi, rfl⟩ := onProcess_eq_ok.mp h₃
          change (onStack _ >>= _) _ = _ at h
          rw [bind_ok (onStack_eq _ _)] at h
          obtain ⟨rip, _, h₄, h⟩ := bind_eq_ok.mp h
          obtain ⟨hrip, rfl⟩ := ofExcept_eq_ok.mp h₄
          obtain ⟨frames, s', hrest, rfl⟩ := ih.mp h
          refine ⟨frames, s', ?_, rfl⟩
          change ((ofExcept (createBaseFrame I regs d filePc _) : EStateM Failure σ _) >>= _) s = _
          rw [hbase, bind_ok (ofExcept_ok _ _), hinlined, bind_ok (ofExcept_ok _ _), bind_ok hcfi]
          change ((ofExcept (regs'.readByIdAsU64 (.gpr64 .rip)) : EStateM Failure σ _) >>= _) s₃ = _
          rw [hrip, bind_ok (ofExcept_ok _ _)]
          simpa using hrest
        · rintro ⟨frames, s', h, rfl⟩
          change ((ofExcept (createBaseFrame I regs d filePc _) : EStateM Failure σ _) >>= _) s = _
            at h
          obtain ⟨base, _, h₁, h₂⟩ := bind_eq_ok.mp h
          obtain ⟨hbase, rfl⟩ := ofExcept_eq_ok.mp h₁
          obtain ⟨inlined, _, h₃, h₄⟩ := bind_eq_ok.mp h₂
          obtain ⟨hinlined, rfl⟩ := ofExcept_eq_ok.mp h₃
          obtain ⟨⟨left, regs'⟩, s₃, hcfi, h₅⟩ := bind_eq_ok.mp h₄
          obtain ⟨rip, _, h₆, h₇⟩ := bind_eq_ok.mp h₅
          obtain ⟨hrip, rfl⟩ := ofExcept_eq_ok.mp h₆
          change (Stack.createBaseFrame I regs d filePc _ >>= _) _ = _
          rw [bind_ok (createBaseFrame_ok.mpr ⟨base, hbase, rfl⟩),
            bind_ok (createInlineStackFrames_ok.mpr ⟨inlined, hinlined, rfl⟩),
            bind_ok (onProcess_ok hcfi)]
          change (onStack _ >>= _) _ = _
          rw [bind_ok (onStack_eq _ _), hrip, bind_ok (ofExcept_ok _ _), ih]
          refine ⟨frames, s', ?_, rfl⟩
          simpa using h₇

theorem unwind_ok {n : ℕ} {tid : Tid} {st : Stack} {p : σ × Stack} :
    Stack.unwind T I n tid (s, st) = .ok () p ↔
      ∃ height frames s', stackUnwind T I n tid s = .ok (height, frames) s' ∧
        p = (s', ⟨BitVec.ofNat 32 height, frames, (BitVec.ofNat 32 height).setWidth 64⟩) := by
  unfold Stack.unwind stackUnwind
  constructor
  · intro h
    obtain ⟨_, _, h₁, h⟩ := bind_eq_ok.mp h
    obtain ⟨height, s₁, hheight, rfl⟩ := resetInlineHeight_ok.mp h₁
    rw [bind_ok (onStack_eq _ _)] at h
    obtain ⟨virtPc, _, h₂, h⟩ := bind_eq_ok.mp h
    obtain ⟨s₂, hvirt, rfl⟩ := onProcess_eq_ok.mp h₂
    obtain ⟨filePc, _, h₃, h⟩ := bind_eq_ok.mp h
    obtain ⟨s₃, hfile, rfl⟩ := onProcess_eq_ok.mp h₃
    obtain ⟨regs, _, h₄, h⟩ := bind_eq_ok.mp h
    obtain ⟨s₄, hregs, rfl⟩ := onProcess_eq_ok.mp h₄
    rw [bind_ok (onStack_eq _ _)] at h
    rw [bind_ok hheight, bind_ok hvirt, bind_ok hfile, bind_ok hregs]
    by_cases helf : filePc.elf = none
    · rw [if_pos helf] at h ⊢
      cases h
      exact ⟨height, [], s₄, rfl, rfl⟩
    · rw [if_neg helf] at h ⊢
      obtain ⟨frames, s', hframes, rfl⟩ := unwindLoop_ok.mp h
      refine ⟨height, frames, s', ?_, rfl⟩
      rw [bind_ok hframes]
      rfl
  · rintro ⟨height, frames, s', h, rfl⟩
    obtain ⟨height', s₁, hheight, h⟩ := bind_eq_ok.mp h
    obtain ⟨virtPc, s₂, hvirt, h⟩ := bind_eq_ok.mp h
    obtain ⟨filePc, s₃, hfile, h⟩ := bind_eq_ok.mp h
    obtain ⟨regs, s₄, hregs, h⟩ := bind_eq_ok.mp h
    rw [bind_ok (resetInlineHeight_ok.mpr ⟨height', s₁, hheight, rfl⟩), bind_ok (onStack_eq _ _),
      bind_ok (onProcess_ok hvirt), bind_ok (onProcess_ok hfile), bind_ok (onProcess_ok hregs),
      bind_ok (onStack_eq _ _)]
    by_cases helf : filePc.elf = none
    · rw [if_pos helf] at h ⊢
      cases h
      rfl
    · rw [if_neg helf] at h ⊢
      obtain ⟨frames', s₅, hframes, h⟩ := bind_eq_ok.mp h
      cases h
      exact unwindLoop_ok.mpr ⟨frames, s', hframes, rfl⟩

end Agreement
end KDebugger.Process
