import KDebugger.Process.RegisterFrames
import KDebugger.Process.Stack

namespace KDebugger.Process

open Exec Dwarf

section Callers

variable (I : FrameInfo)

/-- How many frames `create_inline_stack_frames` makes, all of them or those before the
one that fails. -/
def inlineFramesMade : List Die → ℕ
  | inner :: outer :: ds =>
    match I.lowPc inner >>= I.elves.toVirtAddr with
    | .error _ => 0
    | .ok _ =>
      match I.location inner with
      | .error _ => 1
      | .ok _ => 1 + inlineFramesMade (outer :: ds)
  | _ => 0

/-- How many frames are made for the functions at `pc`. -/
def framesMade (regs : Registers) (pc : FileAddr) : List Die → ℕ
  | [] => 0
  | d :: ds =>
    match createBaseFrame I regs d pc !ds.isEmpty with
    | .error _ => 0
    | .ok _ => 1 + inlineFramesMade I (d :: ds)

/-- More than `j` frames are made at `pc`, which is in the main program. -/
def MoreFrames (regs : Registers) (pc : VirtAddr) (j : ℕ) : Prop :=
  pc ≠ 0#64 ∧ (I.elves.toFileAddr pc).elf = some I.mainElf ∧
    ∃ inlineStack, I.inlineStackAtAddress (I.elves.toFileAddr pc) = .ok inlineStack ∧
      j < framesMade I regs (I.elves.toFileAddr pc) inlineStack.reverse

variable {σ : Type} (T : Traced σ)

/-- All frames are made for the functions, and unwinding gives the registers and the
address of the caller. -/
def Unwound (s : σ) (regs : Registers) (pc : VirtAddr) (d : Die) (ds : List Die)
    (regs' : Registers) (pc' : VirtAddr) (s' : σ) : Prop :=
  ∃ base inlined left, createBaseFrame I regs d (I.elves.toFileAddr pc) (!ds.isEmpty) = .ok base ∧
    createInlineStackFrames I regs (d :: ds) = .ok inlined ∧
    cfiUnwind T I (I.elves.toFileAddr pc) regs s = .ok (left, regs') s' ∧
    regs'.readByIdAsU64 (.gpr64 .rip) = .ok (pc' + 1#64)

/-- The frame at `pc` has a caller. -/
def Caller (s : σ) (regs : Registers) (pc : VirtAddr) (regs' : Registers) (pc' : VirtAddr) : Prop :=
  pc ≠ 0#64 ∧ (I.elves.toFileAddr pc).elf = some I.mainElf ∧
    ∃ inlineStack d ds s', I.inlineStackAtAddress (I.elves.toFileAddr pc) = .ok inlineStack ∧
      inlineStack.reverse = d :: ds ∧ Unwound I T s regs pc d ds regs' pc' s'

def Stack.makeFrames (regs : Registers) (pc : VirtAddr) (d : Die) (ds : List Die) :
    EStateM Failure (σ × Stack) (VirtAddr × Registers) := do
  Stack.createBaseFrame I regs d (I.elves.toFileAddr pc) !ds.isEmpty
  Stack.createInlineStackFrames I regs (d :: ds)
  let (left, regs) ← onProcess (cfiUnwind T I (I.elves.toFileAddr pc) regs)
  onStack fun st => { st with frames := withLastRegs st.frames left }
  let rip ← ofExcept (regs.readByIdAsU64 (.gpr64 .rip))
  pure (rip - 1#64, regs)

/-- One turn of the loop of `unwind`. -/
def Stack.turn (regs : Registers) (pc : VirtAddr) :
    EStateM Failure (σ × Stack) (Option (VirtAddr × Registers)) := do
  if pc = 0#64 ∨ (I.elves.toFileAddr pc).elf ≠ some I.mainElf then pure none
  else do
    let inlineStack ← ofExcept (I.inlineStackAtAddress (I.elves.toFileAddr pc))
    match inlineStack.reverse with
    | [] => pure none
    | d :: ds => do
      let next ← Stack.makeFrames I T regs pc d ds
      pure (some next)

end Callers

/-- Frames are added, the selection stays. -/
structure Extended (st st' : Stack) (k : ℕ) : Prop where
  height_eq : st'.inlineHeight = st.inlineHeight
  current_eq : st'.currentFrame = st.currentFrame
  length_eq : st'.frames.length = st.frames.length + k

theorem Extended.refl (st : Stack) : Extended st st 0 := ⟨rfl, rfl, rfl⟩

theorem Extended.trans {st st' st'' : Stack} {k k' : ℕ} (h : Extended st st' k)
    (h' : Extended st' st'' k') : Extended st st'' (k + k') where
  height_eq := h'.height_eq.trans h.height_eq
  current_eq := h'.current_eq.trans h.current_eq
  length_eq := by rw [h'.length_eq, h.length_eq, Nat.add_assoc]

theorem extended_push (st : Stack) (frame : StackFrame) :
    Extended st { st with frames := st.frames ++ [frame] } 1 := ⟨rfl, rfl, by simp⟩

theorem length_withLastRegs (frames : List StackFrame) (regs : Registers) :
    (withLastRegs frames regs).length = frames.length := by
  unfold withLastRegs
  cases hlast : frames.getLast? with
  | none => rfl
  | some frame =>
    have hne : frames ≠ [] := by
      rintro rfl
      simp at hlast
    have hpos := List.length_pos_iff.mpr hne
    simp only [List.length_append, List.length_dropLast, List.length_singleton]
    omega

section Turns

variable {σ : Type} {T : Traced σ} {I : FrameInfo} {s : σ} {st : Stack}

theorem createBaseFrame_of_ok {regs : Registers} {d : Die} {pc : FileAddr} {inlined : Bool}
    {base : StackFrame} (h : createBaseFrame I regs d pc inlined = .ok base) :
    base.funcDie = d ∧ base.inlined = inlined ∧ base.regs = regs := by
  obtain ⟨backtracePc, -, h₁⟩ := except_bind_eq_ok.mp h
  obtain ⟨lineEntry, -, h₂⟩ := except_bind_eq_ok.mp h₁
  dsimp only at h₂
  split_ifs at h₂
  · cases h₂
    exact ⟨rfl, rfl, rfl⟩
  · obtain ⟨reported, -, h₃⟩ := except_bind_eq_ok.mp h₂
    cases h₃
    exact ⟨rfl, rfl, rfl⟩

theorem after_createInlineStackFrames (regs : Registers) : ∀ (ds : List Die) (st : Stack),
    ∃ st', after (Stack.createInlineStackFrames I regs ds) (s, st) = (s, st') ∧
      Extended st st' (inlineFramesMade I ds) := by
  intro ds
  induction ds with
  | nil => exact fun st => ⟨st, rfl, .refl st⟩
  | cons inner ds ih =>
    intro st
    cases ds with
    | nil => exact ⟨st, rfl, .refl st⟩
    | cons outer ds =>
      unfold Stack.createInlineStackFrames inlineFramesMade
      cases hlow : I.lowPc inner with
      | error e => exact ⟨st, after_bind_error (ofExcept_error _ _), .refl st⟩
      | ok lowPc =>
        rw [after_bind_ok (ofExcept_ok _ _)]
        change ∃ st', _ ∧ Extended st st' (match I.elves.toVirtAddr lowPc with
          | .error _ => 0
          | .ok _ => _)
        cases hvirt : I.elves.toVirtAddr lowPc with
        | error e => exact ⟨st, after_bind_error (ofExcept_error _ _), .refl st⟩
        | ok inlinedPc =>
          rw [after_bind_ok (ofExcept_ok _ _), after_bind_ok (push_eq _ _ _)]
          cases hloc : I.location inner with
          | error e =>
            exact ⟨_, after_bind_error (ofExcept_error _ _), extended_push st _⟩
          | ok location =>
            rw [after_bind_ok (ofExcept_ok _ _)]
            obtain ⟨st', hafter, hext⟩ := ih { st with frames := st.frames ++ [_] }
            exact ⟨st', hafter, (extended_push st _).trans hext⟩

theorem inlineFramesMade_of_ok {regs : Registers} : ∀ {ds : List Die} {frames : List StackFrame},
    createInlineStackFrames I regs ds = .ok frames → inlineFramesMade I ds = ds.length - 1 := by
  intro ds
  induction ds with
  | nil => exact fun _ => rfl
  | cons inner ds ih =>
    intro frames h
    cases ds with
    | nil => rfl
    | cons outer ds =>
      unfold createInlineStackFrames at h
      unfold inlineFramesMade
      cases hlow : I.lowPc inner with
      | error e => simp [hlow, bind, Except.bind] at h
      | ok lowPc =>
        cases hvirt : I.elves.toVirtAddr lowPc with
        | error e => simp [hlow, hvirt, bind, Except.bind] at h
        | ok inlinedPc =>
          cases hloc : I.location inner with
          | error e => simp [hlow, hvirt, hloc, bind, Except.bind] at h
          | ok location =>
            cases hrest : createInlineStackFrames I regs (outer :: ds) with
            | error e => simp [hlow, hvirt, hloc, hrest, bind, Except.bind] at h
            | ok rest =>
              have hmade := ih hrest
              simp only [bind, Except.bind, hvirt, hmade, List.length_cons]
              omega

theorem Unwound.unique {regs regs₁ regs₂ : Registers} {pc pc₁ pc₂ : VirtAddr} {d : Die}
    {ds : List Die} {s₁ s₂ : σ} (h₁ : Unwound I T s regs pc d ds regs₁ pc₁ s₁)
    (h₂ : Unwound I T s regs pc d ds regs₂ pc₂ s₂) : regs₁ = regs₂ ∧ pc₁ = pc₂ ∧ s₁ = s₂ := by
  obtain ⟨_, _, _, -, -, hcfi₁, hrip₁⟩ := h₁
  obtain ⟨_, _, _, -, -, hcfi₂, hrip₂⟩ := h₂
  rw [hcfi₁] at hcfi₂
  cases hcfi₂
  rw [hrip₁, Except.ok.injEq, BitVec.add_left_inj] at hrip₂
  exact ⟨rfl, hrip₂, rfl⟩

theorem caller_iff {regs regs' : Registers} {pc pc' : VirtAddr} {inlineStack ds : List Die} {d : Die}
    (hzero : pc ≠ 0#64) (helf : (I.elves.toFileAddr pc).elf = some I.mainElf)
    (hstack : I.inlineStackAtAddress (I.elves.toFileAddr pc) = .ok inlineStack)
    (hrev : inlineStack.reverse = d :: ds) :
    Caller I T s regs pc regs' pc' ↔ ∃ s', Unwound I T s regs pc d ds regs' pc' s' := by
  constructor
  · rintro ⟨-, -, stack', d', ds', s', hstack', hrev', h⟩
    obtain rfl : inlineStack = stack' := Except.ok.inj (hstack.symm.trans hstack')
    obtain ⟨rfl, rfl⟩ : d = d' ∧ ds = ds' := by simpa [hrev] using hrev'
    exact ⟨s', h⟩
  · rintro ⟨s', h⟩
    exact ⟨hzero, helf, inlineStack, d, ds, s', hstack, hrev, h⟩

theorem Caller.unique {regs regs₁ regs₂ : Registers} {pc pc₁ pc₂ : VirtAddr}
    (h₁ : Caller I T s regs pc regs₁ pc₁) (h₂ : Caller I T s regs pc regs₂ pc₂) :
    regs₁ = regs₂ ∧ pc₁ = pc₂ := by
  obtain ⟨hzero, helf, inlineStack, d, ds, s₁, hstack, hrev, h₁⟩ := h₁
  obtain ⟨s₂, h₂⟩ := (caller_iff hzero helf hstack hrev).mp h₂
  obtain ⟨hregs, hpc, -⟩ := h₁.unique h₂
  exact ⟨hregs, hpc⟩

theorem makeFrames_cases (regs : Registers) (pc : VirtAddr) (d : Die) (ds : List Die) (s : σ)
    (st : Stack) :
    (∃ regs' pc' s' st', Unwound I T s regs pc d ds regs' pc' s' ∧
      Stack.makeFrames I T regs pc d ds (s, st) = .ok (pc', regs') (s', st') ∧
      Extended st st' (ds.length + 1) ∧
      framesMade I regs (I.elves.toFileAddr pc) (d :: ds) = ds.length + 1) ∨
    ((∀ regs' pc' s', ¬ Unwound I T s regs pc d ds regs' pc' s') ∧
      ∃ e p, Stack.makeFrames I T regs pc d ds (s, st) = .error e p ∧
        Extended st p.2 (framesMade I regs (I.elves.toFileAddr pc) (d :: ds))) := by
  unfold Stack.makeFrames
  cases hbase : createBaseFrame I regs d (I.elves.toFileAddr pc) (!ds.isEmpty) with
  | error e =>
    have hraise : Stack.createBaseFrame I regs d (I.elves.toFileAddr pc) (!ds.isEmpty) (s, st) =
        .error e (s, st) := by
      unfold Stack.createBaseFrame
      rw [hbase]
      exact bind_error (ofExcept_error _ _)
    refine .inr ⟨?_, e, (s, st), bind_error hraise, by simpa [framesMade, hbase] using .refl st⟩
    rintro regs' pc' s' ⟨base, _, _, h, -⟩
    rw [hbase] at h
    cases h
  | ok base =>
    have hmade : framesMade I regs (I.elves.toFileAddr pc) (d :: ds) =
        1 + inlineFramesMade I (d :: ds) := by simp [framesMade, hbase]
    rw [hmade, bind_ok (createBaseFrame_ok.mpr ⟨base, hbase, rfl⟩)]
    obtain ⟨st₁, hafter, hext⟩ := after_createInlineStackFrames (s := s) (I := I) regs (d :: ds)
      { st with frames := st.frames ++ [base] }
    replace hext := (extended_push st base).trans hext
    cases hinl : Stack.createInlineStackFrames I regs (d :: ds)
        (s, { st with frames := st.frames ++ [base] }) with
    | error e p =>
      rw [after, hinl] at hafter
      obtain rfl : p = (s, st₁) := hafter
      refine .inr ⟨?_, e, _, bind_error hinl, hext⟩
      rintro regs' pc' s' ⟨_, inlined, _, -, h, -⟩
      rw [createInlineStackFrames_ok.mpr ⟨inlined, h, rfl⟩] at hinl
      cases hinl
    | ok u p =>
      rw [after, hinl] at hafter
      obtain rfl : p = (s, st₁) := hafter
      rw [bind_ok hinl]
      obtain ⟨inlined, hinlined, -⟩ := createInlineStackFrames_ok.mp hinl
      cases hcfi : cfiUnwind T I (I.elves.toFileAddr pc) regs s with
      | error e s' =>
        refine .inr ⟨?_, e, _, bind_error (onProcess_error hcfi), hext⟩
        rintro regs' pc' s'' ⟨_, _, _, -, -, h, -⟩
        rw [hcfi] at h
        cases h
      | ok r s' =>
        obtain ⟨left, regs'⟩ := r
        rw [bind_ok (onProcess_ok hcfi)]
        change (∃ regs' pc' s' st', _ ∧ (onStack _ >>= _) _ = _ ∧ _) ∨
          (_ ∧ ∃ e p, (onStack _ >>= _) _ = _ ∧ _)
        rw [bind_ok (onStack_eq _ _)]
        have hleft : Extended st { st₁ with frames := withLastRegs st₁.frames left }
            (1 + inlineFramesMade I (d :: ds)) :=
          ⟨hext.height_eq, hext.current_eq, by rw [length_withLastRegs]; exact hext.length_eq⟩
        cases hrip : regs'.readByIdAsU64 (.gpr64 .rip) with
        | error e =>
          refine .inr ⟨?_, e, _, bind_error (ofExcept_error _ _), hleft⟩
          rintro regs'' pc' s'' ⟨_, _, _, -, -, h, hread⟩
          rw [hcfi] at h
          cases h
          rw [hrip] at hread
          cases hread
        | ok rip =>
          have hlength : 1 + inlineFramesMade I (d :: ds) = ds.length + 1 := by
            rw [inlineFramesMade_of_ok hinlined, List.length_cons]
            omega
          rw [hlength] at hleft ⊢
          refine .inl ⟨regs', rip - 1#64, s', _, ⟨base, inlined, left, hbase, hinlined, hcfi, ?_⟩,
            bind_ok (ofExcept_ok _ _), hleft, rfl⟩
          rw [hrip, BitVec.sub_add_cancel]

theorem turn_cases (regs : Registers) (pc : VirtAddr) (s : σ) (st : Stack) :
    (∃ regs' pc' s' st' k, Caller I T s regs pc regs' pc' ∧
      Stack.turn I T regs pc (s, st) = .ok (some (pc', regs')) (s', st') ∧
      (∃ left, cfiUnwind T I (I.elves.toFileAddr pc) regs s = .ok (left, regs') s') ∧
      Extended st st' k ∧ 0 < k ∧ (∀ j, MoreFrames I regs pc j ↔ j < k) ∧
      ∀ inlineStack, I.inlineStackAtAddress (I.elves.toFileAddr pc) = .ok inlineStack →
        k = inlineStack.length) ∨
    ((∀ regs' pc', ¬ Caller I T s regs pc regs' pc') ∧
      (∀ next p, Stack.turn I T regs pc (s, st) ≠ .ok (some next) p) ∧
      ∃ k, Extended st (after (Stack.turn I T regs pc) (s, st)).2 k ∧
        ∀ j, MoreFrames I regs pc j ↔ j < k) := by
  -- the frames of one program counter, and the caller or none
  unfold Stack.turn
  by_cases hend : pc = 0#64 ∨ (I.elves.toFileAddr pc).elf ≠ some I.mainElf
  · rw [if_pos hend]
    refine .inr ⟨?_, ?_, 0, .refl st, ?_⟩
    · rintro regs' pc' ⟨hzero, helf, -⟩
      exact hend.elim hzero fun h => h helf
    · intro next p h
      cases h
    · intro j
      simp only [not_lt_zero, iff_false]
      rintro ⟨hzero, helf, -⟩
      exact hend.elim hzero fun h => h helf
  rw [if_neg hend]
  obtain ⟨hzero, helf⟩ := not_or.mp hend
  replace helf := not_not.mp helf
  cases hstack : I.inlineStackAtAddress (I.elves.toFileAddr pc) with
  | error e =>
    rw [bind_error (ofExcept_error _ _), after_bind_error (ofExcept_error _ _)]
    refine .inr ⟨?_, ?_, 0, .refl st, ?_⟩
    · rintro regs' pc' ⟨-, -, _, _, _, _, h, -⟩
      rw [hstack] at h
      cases h
    · intro next p h
      cases h
    · intro j
      simp only [not_lt_zero, iff_false]
      rintro ⟨-, -, _, h, -⟩
      rw [hstack] at h
      cases h
  | ok inlineStack =>
    rw [bind_ok (ofExcept_ok _ _), after_bind_ok (ofExcept_ok _ _)]
    have hmore : ∀ j, MoreFrames I regs pc j ↔
        j < framesMade I regs (I.elves.toFileAddr pc) inlineStack.reverse := by
      intro j
      simp [MoreFrames, hzero, helf, hstack]
    simp only [hmore]
    cases hrev : inlineStack.reverse with
    | nil =>
      refine .inr ⟨?_, ?_, 0, .refl st, fun j => by simp [framesMade]⟩
      · rintro regs' pc' ⟨-, -, stack', d, ds, _, hstack', hrev', -⟩
        obtain rfl : inlineStack = stack' := Except.ok.inj (hstack.symm.trans hstack')
        rw [hrev] at hrev'
        cases hrev'
      · intro next p h
        cases h
    | cons d ds =>
      have hlength : inlineStack.length = ds.length + 1 := by
        rw [← List.length_reverse, hrev, List.length_cons]
      obtain ⟨regs', pc', s', st', hunwound, hmake, hext, hmade⟩ | ⟨hnone, e, p, hmake, hext⟩ :=
        makeFrames_cases (T := T) (I := I) regs pc d ds s st
      · have hcaller := (caller_iff hzero helf hstack hrev).mpr ⟨s', hunwound⟩
        obtain ⟨_, _, left, -, -, hcfi, -⟩ := hunwound
        refine .inl ⟨regs', pc', s', st', ds.length + 1, hcaller, bind_ok hmake, ⟨left, hcfi⟩, hext,
          Nat.succ_pos _, fun j => by rw [hmade], fun stack' hstack' => ?_⟩
        obtain rfl : inlineStack = stack' := Except.ok.inj hstack'
        exact hlength.symm
      · refine .inr ⟨fun regs' pc' h => ?_, fun next q h => ?_, _, ?_, fun _ => .rfl⟩
        · obtain ⟨s', h⟩ := (caller_iff hzero helf hstack hrev).mp h
          exact hnone regs' pc' s' h
        · change (Stack.makeFrames I T regs pc d ds >>= _) _ = _ at h
          rw [bind_error hmake] at h
          cases h
        · change Extended st (after (Stack.makeFrames I T regs pc d ds >>= _) _).2 _
          rwa [after_bind_error hmake]

theorem unwindLoop_succ (n : ℕ) (regs : Registers) (pc : VirtAddr) :
    Stack.unwindLoop T I (n + 1) pc (I.elves.toFileAddr pc) regs =
      Stack.turn I T regs pc >>= fun
        | none => pure ()
        | some next => Stack.unwindLoop T I n next.1 (I.elves.toFileAddr next.1) next.2 := by
  rw [Stack.unwindLoop]
  unfold Stack.turn
  split_ifs with hend
  · rfl
  rw [bind_assoc]
  congr 1
  funext inlineStack
  cases inlineStack.reverse with
  | nil => rfl
  | cons d ds => simp [Stack.makeFrames, bind_assoc]

theorem unwindLoop_cases (regs : Registers) (pc : VirtAddr) (s : σ) (st : Stack) :
    (∃ regs' pc' s' st' k, Caller I T s regs pc regs' pc' ∧
      (∀ n, Stack.unwindLoop T I (n + 1) pc (I.elves.toFileAddr pc) regs (s, st) =
        Stack.unwindLoop T I n pc' (I.elves.toFileAddr pc') regs' (s', st')) ∧
      (∃ left, cfiUnwind T I (I.elves.toFileAddr pc) regs s = .ok (left, regs') s') ∧
      Extended st st' k ∧ 0 < k ∧ (∀ j, MoreFrames I regs pc j ↔ j < k) ∧
      ∀ inlineStack, I.inlineStackAtAddress (I.elves.toFileAddr pc) = .ok inlineStack →
        k = inlineStack.length) ∨
    ((∀ regs' pc', ¬ Caller I T s regs pc regs' pc') ∧ ∃ r,
      (∀ n, Stack.unwindLoop T I (n + 1) pc (I.elves.toFileAddr pc) regs (s, st) = r) ∧
      ∃ k, Extended st
          (after (Stack.unwindLoop T I 1 pc (I.elves.toFileAddr pc) regs) (s, st)).2 k ∧
        ∀ j, MoreFrames I regs pc j ↔ j < k) := by
  simp only [unwindLoop_succ]
  obtain ⟨regs', pc', s', st', k, hcaller, hturn, hrest⟩ | ⟨hnone, hlast, k, hext, hmore⟩ :=
    turn_cases (T := T) (I := I) regs pc s st
  · exact .inl ⟨regs', pc', s', st', k, hcaller, fun n => bind_ok hturn, hrest⟩
  · cases hturn : Stack.turn I T regs pc (s, st) with
    | error e p =>
      rw [after, hturn] at hext
      refine .inr ⟨hnone, _, fun n => bind_error hturn, k, ?_, hmore⟩
      rwa [after_bind_error hturn]
    | ok next p =>
      cases next with
      | some next => exact absurd hturn (hlast next p)
      | none =>
        rw [after, hturn] at hext
        refine .inr ⟨hnone, _, fun n => bind_ok hturn, k, ?_, hmore⟩
        rwa [after_bind_ok hturn]

theorem unwindLoop_extends : ∀ (n : ℕ) (pc : VirtAddr) (regs : Registers) (s : σ) (st : Stack),
    ∃ k, Extended st
      (after (Stack.unwindLoop T I n pc (I.elves.toFileAddr pc) regs) (s, st)).2 k := by
  intro n
  induction n with
  | zero => exact fun _ _ _ st => ⟨0, .refl st⟩
  | succ n ih =>
    intro pc regs s st
    obtain ⟨regs', pc', s', st', k, -, heq, -, hext, -⟩ | ⟨-, r, heq, k, hext, -⟩ :=
      unwindLoop_cases (T := T) (I := I) regs pc s st
    · obtain ⟨k', hext'⟩ := ih pc' regs' s' st'
      refine ⟨k + k', hext.trans ?_⟩
      unfold after at hext' ⊢
      rwa [heq]
    · refine ⟨k, ?_⟩
      unfold after at hext ⊢
      rwa [heq n, ← heq 0]

end Turns

section Reads

variable {s : Process} {I : FrameInfo} {tid : Tid}

theorem getPcFileAddress_ok {otid : Option Tid} {pc : FileAddr} {s' : Process}
    (h : getPcFileAddress inferior I otid s = .ok pc s') : s' = s ∧ ∃ regs rip,
      getRegisters otid s = .ok regs s ∧ regs.readByIdAsU64 (.gpr64 .rip) = .ok rip ∧
        pc = I.elves.toFileAddr rip := by
  obtain ⟨rip, s₁, h₁, h₂⟩ := bind_eq_ok.mp h
  obtain ⟨regs, s₂, hregs, h₃⟩ := bind_eq_ok.mp h₁
  obtain rfl : s₂ = s := (within_getRegisters unchanged _).ok hregs
  obtain ⟨hrip, rfl⟩ := ofExcept_eq_ok.mp h₃
  cases h₂
  exact ⟨rfl, regs, rip, hregs, hrip, rfl⟩

theorem inlineStackAtPc_ok {inlineStack : List Die} {s' : Process}
    (h : inlineStackAtPc inferior I tid s = .ok inlineStack s') : s' = s ∧ ∃ regs rip,
      getRegisters (some tid) s = .ok regs s ∧ regs.readByIdAsU64 (.gpr64 .rip) = .ok rip ∧
        if (I.elves.toFileAddr rip).elf = none then inlineStack = []
        else I.inlineStackAtAddress (I.elves.toFileAddr rip) = .ok inlineStack := by
  obtain ⟨pc, s₁, hpc, h₁⟩ := bind_eq_ok.mp h
  obtain ⟨rfl, regs, rip, hregs, hrip, rfl⟩ := getPcFileAddress_ok hpc
  split_ifs at h₁ with helf
  · cases h₁
    exact ⟨rfl, regs, rip, hregs, hrip, by rw [if_pos helf]⟩
  · obtain ⟨hstack, rfl⟩ := ofExcept_eq_ok.mp h₁
    exact ⟨rfl, regs, rip, hregs, hrip, by rw [if_neg helf, hstack]⟩

end Reads
end KDebugger.Process
