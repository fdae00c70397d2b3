import KDebugger.Process.FrameTurns
import KDebugger.Process.ThreadWrites

namespace KDebugger.Process

open Exec Dwarf

namespace Stack

/-- The frames above the selected one are among the frames. -/
structure Inside (st : Stack) : Prop where
  height_le : st.inlineHeight.toNat ≤ st.frames.length
  current_mem : st.frames ≠ [] →
    st.inlineHeight.toNat ≤ st.currentFrame.toNat ∧ st.currentFrame.toNat < st.frames.length

structure Accessible (st : Stack) : Prop where
  frames : ∃ frames, st.framesShown = .ok frames
  current : st.frames ≠ [] → ∃ frame, st.current = .ok frame ∧ st.regs = .ok frame.regs
  index : st.frames ≠ [] →
    st.currentFrameIndex.toNat + st.inlineHeight.toNat = st.currentFrame.toNat

theorem Inside.accessible {st : Stack} (h : st.Inside) : st.Accessible where
  frames := ⟨_, if_pos h.height_le⟩
  current hframes := by
    obtain ⟨-, hlt⟩ := h.current_mem hframes
    have hcurrent : st.current = .ok st.frames[st.currentFrame.toNat] := by
      unfold current
      rw [List.getElem?_eq_getElem hlt]
    refine ⟨_, hcurrent, ?_⟩
    unfold regs
    rw [hcurrent]
    rfl
  index hframes := by
    obtain ⟨hle, -⟩ := h.current_mem hframes
    unfold currentFrameIndex
    have hheight := st.inlineHeight.isLt
    have hwide : (st.inlineHeight.setWidth 64).toNat = st.inlineHeight.toNat := by
      rw [BitVec.toNat_setWidth]
      omega
    rw [BitVec.toNat_sub_of_le (by rw [BitVec.le_def, hwide]; exact hle), hwide]
    omega

end Stack

section Selection

variable (I : FrameInfo)

/-- How many functions, from the innermost on, begin at `pc`, as 32 bits count them. -/
def startingAt (pc : FileAddr) (inner : List Die) : ℕ :=
  (inner.takeWhile fun d => I.lowPc d = .ok pc).length % 2 ^ 32

/-- Each function looked at has a `low_pc`. -/
def Counted (pc : FileAddr) (inner : List Die) : Prop := ∃ n, countInlined I pc inner = .ok n

end Selection

section Turns

variable {σ : Type} {T : Traced σ} {I : FrameInfo} {s : σ} {st : Stack}

/-- A frame is left for the selection when one is made at the pc beyond the functions
that begin there, or one for the caller. -/
def Framed (I : FrameInfo) (T : Traced σ) (s : σ) (regs : Registers) (pc : VirtAddr) (j : ℕ) :
    Prop :=
  MoreFrames I regs pc j ∨
    ∃ regs' pc', Caller I T s regs pc regs' pc' ∧ MoreFrames I regs' pc' 0

theorem unwindLoop_framed (n : ℕ) {pc : VirtAddr} {regs : Registers} {j : ℕ}
    (hj : ∀ inlineStack, I.inlineStackAtAddress (I.elves.toFileAddr pc) = .ok inlineStack →
      j ≤ inlineStack.length) :
    ∃ k, Extended st
        (after (Stack.unwindLoop T I (n + 2) pc (I.elves.toFileAddr pc) regs) (s, st)).2 k ∧
      (j < k ↔ Framed I T s regs pc j) := by
  obtain ⟨regs', pc', s', st', k, hcaller, heq, -, hext, hpos, hmore, hlength⟩ |
    ⟨hnone, r, heq, k, hext, hmore⟩ := unwindLoop_cases (T := T) (I := I) regs pc s st
  · have hjk : j ≤ k := by
      obtain ⟨-, -, inlineStack, _, _, _, hstack, -⟩ := hcaller
      rw [hlength inlineStack hstack]
      exact hj inlineStack hstack
    have hframed : Framed I T s regs pc j ↔ j < k ∨ MoreFrames I regs' pc' 0 := by
      unfold Framed
      rw [hmore j]
      refine or_congr_right ⟨?_, fun h => ⟨regs', pc', hcaller, h⟩⟩
      rintro ⟨regs'', pc'', hcaller', h⟩
      obtain ⟨rfl, rfl⟩ := hcaller.unique hcaller'
      exact h
    have hafter : after (Stack.unwindLoop T I (n + 2) pc (I.elves.toFileAddr pc) regs) (s, st) =
        after (Stack.unwindLoop T I (n + 1) pc' (I.elves.toFileAddr pc') regs') (s', st') := by
      unfold after
      rw [heq]
    rw [hafter, hframed]
    obtain ⟨regs'', pc'', s'', st'', k', -, heq', -, hext', hpos', hmore', -⟩ |
      ⟨-, r, heq', k', hext', hmore'⟩ := unwindLoop_cases (T := T) (I := I) regs' pc' s' st'
    · obtain ⟨k'', hext''⟩ := unwindLoop_extends (T := T) (I := I) n pc'' regs'' s'' st''
      refine ⟨k + (k' + k''), hext.trans (hext'.trans ?_), ?_⟩
      · unfold after at hext'' ⊢
        rwa [heq']
      · rw [hmore' 0]
        omega
    · refine ⟨k + k', hext.trans ?_, ?_⟩
      · unfold after at hext' ⊢
        rwa [heq' n, ← heq' 0]
      · rw [hmore' 0]
        omega
  · refine ⟨k, ?_, ?_⟩
    · unfold after at hext ⊢
      rwa [heq (n + 1), ← heq 0]
    unfold Framed
    rw [hmore j]
    refine ⟨.inl, ?_⟩
    rintro (h | ⟨regs', pc', h, -⟩)
    · exact h
    · exact absurd h (hnone regs' pc')

end Turns

section Stops

variable {s : Process} {st : Stack} {I : FrameInfo} {tid : Tid}

/-- Selecting the frame of a stop goes well: no function begins at the program counter,
or all are counted and a frame is left beyond them, or one cannot be counted and the
frames there are reach as far. -/
def StopFits (I : FrameInfo) (tid : Tid) (s : Process) (st : Stack) : Prop :=
  ∀ inlineStack pc, inlineStackAtPc inferior I tid s = .ok inlineStack s →
    getPcFileAddress inferior I none s = .ok pc s →
      startingAt I pc inlineStack.reverse = 0 ∨
      (Counted I pc inlineStack.reverse ∧ ∃ regs rip, getRegisters (some tid) s = .ok regs s ∧
        regs.readByIdAsU64 (.gpr64 .rip) = .ok rip ∧
        Framed I inferior s regs rip (startingAt I pc inlineStack.reverse)) ∨
      (¬ Counted I pc inlineStack.reverse ∧ st.frames ≠ [] ∧
        startingAt I pc inlineStack.reverse ≤ st.currentFrame.toNat)

theorem after_countHeight (pc : FileAddr) : ∀ (ds : List Die) (st : Stack),
    after (Stack.countHeight I pc ds) (s, st) = (s, { st with
      inlineHeight := st.inlineHeight +
        BitVec.ofNat 32 (ds.takeWhile fun d => I.lowPc d = .ok pc).length }) := by
  intro ds
  induction ds with
  | nil => exact fun st => by simp [Stack.countHeight, after, pure, EStateM.pure]
  | cons d ds ih =>
    intro st
    unfold Stack.countHeight
    cases hlow : I.lowPc d with
    | error e =>
      rw [after_bind_error (ofExcept_error _ _)]
      simp [hlow]
    | ok lowPc =>
      rw [after_bind_ok (ofExcept_ok _ _)]
      by_cases hpc : lowPc = pc
      · subst hpc
        rw [if_pos rfl, after_bind_ok (onStack_eq _ _), ih]
        have hsum (n : ℕ) : st.inlineHeight + 1#32 + BitVec.ofNat 32 n =
            st.inlineHeight + BitVec.ofNat 32 (n + 1) := by
          rw [BitVec.ofNat_add, BitVec.add_comm (BitVec.ofNat 32 n), ← BitVec.add_assoc]
        simp [hlow, hsum]
      · rw [if_neg hpc]
        simp [hlow, hpc, after, pure, EStateM.pure]

theorem inside_iff_of_extended {st' : Stack} {j k : ℕ}
    (h : Extended ⟨BitVec.ofNat 32 j, [], (BitVec.ofNat 32 j).setWidth 64⟩ st' k) :
    st'.Inside ↔ j % 2 ^ 32 = 0 ∨ j % 2 ^ 32 < k := by
  have hlength : st'.frames.length = k := by simpa using h.length_eq
  have hheight : st'.inlineHeight.toNat = j % 2 ^ 32 := by rw [h.height_eq, BitVec.toNat_ofNat]
  have hcurrent : st'.currentFrame.toNat = j % 2 ^ 32 := by
    rw [h.current_eq, BitVec.toNat_setWidth, BitVec.toNat_ofNat]
    omega
  have hne : st'.frames ≠ [] ↔ 0 < k := by rw [← hlength, List.length_pos_iff]
  constructor
  · rintro ⟨hle, hmem⟩
    rw [hne, hcurrent, hlength] at hmem
    rw [hheight, hlength] at hle
    by_cases hk : 0 < k
    · exact .inr (hmem hk).2
    · omega
  · intro hor
    refine ⟨by omega, fun hframes => ?_⟩
    have := hne.mp hframes
    omega

/-- Once the height is counted, `unwind` leaves a selection inside the frames when there
is a frame beyond it. -/
theorem inside_unwind_of_counted {n j : ℕ} {inlineStack : List Die} {regs : Registers}
    {rip : VirtAddr}
    (hreset : Stack.resetInlineHeight inferior I tid (s, st) =
      .ok () (s, { st with inlineHeight := BitVec.ofNat 32 j }))
    (hregs : inferior.getRegisters (some tid) s = .ok regs s)
    (hrip : regs.readByIdAsU64 (.gpr64 .rip) = .ok rip)
    (hinline : if (I.elves.toFileAddr rip).elf = none then inlineStack = []
      else I.inlineStackAtAddress (I.elves.toFileAddr rip) = .ok inlineStack)
    (hj : j ≤ inlineStack.length) :
    (after (Stack.unwind inferior I (n + 2) tid) (s, st)).2.Inside ↔
      j % 2 ^ 32 = 0 ∨ Framed I inferior s regs rip (j % 2 ^ 32) := by
  have hpc : inferior.getPc (some tid) s = .ok rip s := by
    unfold Traced.getPc
    rw [bind_ok hregs, hrip]
    rfl
  have hfile : getPcFileAddress inferior I (some tid) s = .ok (I.elves.toFileAddr rip) s :=
    bind_ok hpc
  unfold Stack.unwind
  rw [after_bind_ok hreset, after_bind_ok (onStack_eq _ _), after_bind_ok (onProcess_ok hpc),
    after_bind_ok (onProcess_ok hfile), after_bind_ok (onProcess_ok hregs),
    after_bind_ok (onStack_eq _ _)]
  by_cases helf : (I.elves.toFileAddr rip).elf = none
  · rw [if_pos helf] at hinline ⊢
    subst hinline
    obtain rfl : j = 0 := by simpa using hj
    exact iff_of_true ((inside_iff_of_extended (.refl _)).mpr (.inl rfl)) (.inl rfl)
  · rw [if_neg helf] at hinline ⊢
    have hdepth : ∀ inlineStack', I.inlineStackAtAddress (I.elves.toFileAddr rip) = .ok inlineStack' →
        j % 2 ^ 32 ≤ inlineStack'.length := by
      intro inlineStack' hstack'
      obtain rfl : inlineStack = inlineStack' := Except.ok.inj (hinline.symm.trans hstack')
      exact (Nat.mod_le _ _).trans hj
    obtain ⟨k, hext, hframed⟩ := unwindLoop_framed n hdepth
    rw [← hframed]
    exact inside_iff_of_extended hext

theorem inside_unwind_iff (h : st.Inside) (n : ℕ) :
    (after (Stack.unwind inferior I (n + 2) tid) (s, st)).2.Inside ↔ StopFits I tid s st := by
  -- first the height, which may raise on its way, then the frames
  cases hstack : inlineStackAtPc inferior I tid s with
  | error e s' =>
    have hraise : Stack.resetInlineHeight inferior I tid (s, st) = .error e (s', st) :=
      bind_error (onProcess_error hstack)
    unfold Stack.unwind
    rw [after_bind_error hraise]
    refine iff_of_true h fun inlineStack pc hstack' => ?_
    rw [hstack] at hstack'
    cases hstack'
  | ok inlineStack s' =>
    obtain ⟨rfl, regs, rip, hregs, hrip, hinline⟩ := inlineStackAtPc_ok hstack
    have hreset : Stack.resetInlineHeight inferior I tid (s', st) =
        (onProcess (getPcFileAddress inferior I none) >>= fun pc =>
          Stack.countHeight I pc inlineStack.reverse) (s', { st with inlineHeight := 0#32 }) := by
      unfold Stack.resetInlineHeight
      rw [bind_ok (onProcess_ok hstack), bind_ok (onStack_eq _ _)]
    cases hpc : getPcFileAddress inferior I none s' with
    | error e s'' =>
      rw [bind_error (onProcess_error hpc)] at hreset
      unfold Stack.unwind
      rw [after_bind_error hreset]
      refine iff_of_true ⟨by simp, fun hframes => ?_⟩ fun inlineStack pc _ hpc' => ?_
      · exact ⟨by simp, (h.current_mem hframes).2⟩
      · rw [hpc] at hpc'
        cases hpc'
    | ok pc s'' =>
      obtain ⟨rfl, -⟩ := getPcFileAddress_ok hpc
      rw [bind_ok (onProcess_ok hpc)] at hreset
      have hfits : StopFits I tid s'' st ↔ startingAt I pc inlineStack.reverse = 0 ∨
          (Counted I pc inlineStack.reverse ∧
            Framed I inferior s'' regs rip (startingAt I pc inlineStack.reverse)) ∨
          (¬ Counted I pc inlineStack.reverse ∧ st.frames ≠ [] ∧
            startingAt I pc inlineStack.reverse ≤ st.currentFrame.toNat) := by
        unfold StopFits
        simp [hstack, hpc, hregs, hrip]
      have hafter := after_countHeight (I := I) (s := s'') pc inlineStack.reverse
        { st with inlineHeight := 0#32 }
      rw [BitVec.zero_add] at hafter
      have hlength := (List.takeWhile_sublist (l := inlineStack.reverse)
        fun d => decide (I.lowPc d = .ok pc)).length_le
      rw [List.length_reverse] at hlength
      rw [hfits]
      unfold startingAt
      generalize (inlineStack.reverse.takeWhile fun d => I.lowPc d = .ok pc).length = m at *
      cases hcount : Stack.countHeight I pc inlineStack.reverse
          (s'', { st with inlineHeight := 0#32 }) with
      | error e p =>
        rw [after, hcount] at hafter
        obtain rfl : p = _ := hafter
        have hnot : ¬ Counted I pc inlineStack.reverse := by
          rintro ⟨k, hk⟩
          rw [countHeight_ok.mpr ⟨k, hk, rfl⟩] at hcount
          cases hcount
        unfold Stack.unwind
        rw [after_bind_error (hreset.trans hcount)]
        simp only [hnot, false_and, not_false_eq_true, true_and, false_or]
        constructor
        · rintro ⟨hle, hmem⟩
          simp only [BitVec.toNat_ofNat] at hle hmem
          by_cases hframes : st.frames = []
          · simp only [hframes, List.length_nil, nonpos_iff_eq_zero] at hle
            exact .inl hle
          · exact .inr ⟨hframes, (hmem hframes).1⟩
        · intro hor
          have hle : st.frames ≠ [] → m % 2 ^ 32 ≤ st.currentFrame.toNat := fun hframes =>
            hor.elim (fun hm => by omega) And.right
          refine ⟨?_, fun hframes => ⟨?_, (h.current_mem hframes).2⟩⟩
          · simp only [BitVec.toNat_ofNat]
            by_cases hframes : st.frames = []
            · have hm := hor.resolve_right fun hr => hr.1 hframes
              omega
            · exact (hle hframes).trans (h.current_mem hframes).2.le
          · simp only [BitVec.toNat_ofNat]
            exact hle hframes
      | ok u p =>
        rw [after, hcount] at hafter
        obtain rfl : p = _ := hafter
        have hcounted : Counted I pc inlineStack.reverse := by
          obtain ⟨k, hk, -⟩ := countHeight_ok.mp hcount
          exact ⟨k, hk⟩
        rw [inside_unwind_of_counted (hreset.trans hcount) hregs hrip hinline hlength]
        simp [hcounted]

end Stops

/-- What the commands and `step_in` ask of the stack of a thread. -/
inductive StackCall where
  /-- `unwind` at a stop of the process; the loop may take two turns and more -/
  | unwind (s : Process) (I : FrameInfo) (turns : ℕ)
  | up
  | down
  /-- the first lines of `target::step_in` -/
  | stepIn

def stackOnly (s : Process) (p : EStateM Failure (Process × Stack) Unit) :
    EStateM Failure Stack Unit := fun st =>
  match p (s, st) with
  | .ok _ q => .ok () q.2
  | .error e q => .error e q.2

theorem after_stackOnly (s : Process) (p : EStateM Failure (Process × Stack) Unit) (st : Stack) :
    after (stackOnly s p) st = (after p (s, st)).2 := by
  unfold after stackOnly
  cases p (s, st) <;> rfl

namespace StackCall

def exec (tid : Tid) : StackCall → EStateM Failure Stack Unit
  | .unwind s I turns => stackOnly s (Stack.unwind inferior I (turns + 2) tid)
  | .up => modify Stack.up
  | .down => modify Stack.down
  | .stepIn => modify fun st => if 0 < st.inlineHeight.toNat then st.simulateInlinedStepIn else st

def Fits (tid : Tid) (st : Stack) : StackCall → Prop
  | .unwind s I _ => StopFits I tid s st
  | .up => st.frames = [] ∨ st.currentFrame.toNat + 1 < min st.frames.length (2 ^ 64)
  | .down => st.frames = [] ∨ st.inlineHeight.toNat < st.currentFrame.toNat
  | .stepIn => True

variable {tid : Tid} {st : Stack}

theorem inside_up (h : st.Inside)
    (hfits : st.frames = [] ∨ st.currentFrame.toNat + 1 < min st.frames.length (2 ^ 64)) :
    st.up.Inside := by
  refine ⟨h.height_le, fun hframes => ?_⟩
  obtain ⟨hle, -⟩ := h.current_mem hframes
  have hnext := hfits.resolve_left hframes
  have hadd : (st.currentFrame + 1#64).toNat = st.currentFrame.toNat + 1 := by bv_omega
  change st.inlineHeight.toNat ≤ (st.currentFrame + 1#64).toNat ∧
    (st.currentFrame + 1#64).toNat < st.frames.length
  omega

theorem inside_down (h : st.Inside)
    (hfits : st.frames = [] ∨ st.inlineHeight.toNat < st.currentFrame.toNat) :
    st.down.Inside := by
  refine ⟨h.height_le, fun hframes => ?_⟩
  obtain ⟨-, hlt⟩ := h.current_mem hframes
  have hbelow := hfits.resolve_left hframes
  have hsub : (st.currentFrame - 1#64).toNat = st.currentFrame.toNat - 1 := by bv_omega
  change st.inlineHeight.toNat ≤ (st.currentFrame - 1#64).toNat ∧
    (st.currentFrame - 1#64).toNat < st.frames.length
  omega

theorem inside_simulateInlinedStepIn (h : st.Inside) (hheight : 0 < st.inlineHeight.toNat) :
    st.simulateInlinedStepIn.Inside := by
  have hle := h.height_le
  have hsub : (st.inlineHeight - 1#32).toNat = st.inlineHeight.toNat - 1 := by bv_omega
  have hwide : ((st.inlineHeight - 1#32).setWidth 64).toNat = st.inlineHeight.toNat - 1 := by
    rw [BitVec.toNat_setWidth, hsub]
    have := st.inlineHeight.isLt
    omega
  refine ⟨?_, fun _ => ?_⟩
  · change (st.inlineHeight - 1#32).toNat ≤ st.frames.length
    omega
  · change (st.inlineHeight - 1#32).toNat ≤ ((st.inlineHeight - 1#32).setWidth 64).toNat ∧
      ((st.inlineHeight - 1#32).setWidth 64).toNat < st.frames.length
    omega

theorem inside_exec (h : st.Inside) (c : StackCall) (hfits : c.Fits tid st) :
    (after (c.exec tid) st).Inside := by
  cases c with
  | unwind s I turns =>
    change (after (stackOnly s _) st).Inside
    rw [after_stackOnly]
    exact (inside_unwind_iff h turns).mpr hfits
  | up => exact inside_up h hfits
  | down => exact inside_down h hfits
  | stepIn =>
    change (if 0 < st.inlineHeight.toNat then st.simulateInlinedStepIn else st).Inside
    split_ifs with hheight
    · exact inside_simulateInlinedStepIn h hheight
    · exact h

end StackCall

/-- As long as every call fits, the selection is inside the frames, and the members that
read them stay in the vector. -/
theorem selection_inside (tid : Tid) (calls : List StackCall)
    (h : AllSteps (StackCall.exec tid) (fun st c => c.Fits tid st) {} calls) :
    (runAll (StackCall.exec tid) {} calls).Inside ∧
      (runAll (StackCall.exec tid) {} calls).Accessible := by
  have hstart : ({} : Stack).Inside := ⟨by simp, fun h => absurd rfl h⟩
  have hinside : (runAll (StackCall.exec tid) {} calls).Inside :=
    runAll_invariant (I := Stack.Inside) (fun _ c hst hfits => StackCall.inside_exec hst c hfits)
      calls {} hstart h
  exact ⟨hinside, hinside.accessible⟩

def atSixteen : Process :=
  { twoThreads with
    threads := {
      entries := [{ tid := 1, regs := { data := fun o => if o = 128 then 16#8 else 0#8, tid := 1 } }]
      nodup := by decide } }

def functionsAround (inlineStack : List Die) : FrameInfo where
  elves := [{ loadBias := 0#64, sectionHeaders := [⟨0#64, 256#64, 2#64⟩] }]
  mainElf := 0
  frameElf := { elf := 0, image := .ofList [], textSectionStart := 0#64, gotPltStart := none }
  fdeAt _ := .error (.raised "Address not found in eh_hdr")
  inlineStackAtAddress _ := .ok inlineStack
  lineEntryAtAddress _ := .ok none
  lowPc d := .ok { elf := some 0, addr := BitVec.ofNat 64 (8 + 4 * d.next) }
  location _ := .ok .unset

def oneFunction : FrameInfo := functionsAround [{ next := 0 }]

def threeFunctions : FrameInfo := functionsAround [{ next := 0 }, { next := 1 }, { next := 2 }]

theorem moreFrames_threeFunctions :
    MoreFrames threeFunctions { data := fun o => if o = 128 then 16#8 else 0#8, tid := 1 } 16#64 1 :=
  ⟨by decide, rfl, _, rfl, by decide⟩

theorem stopFits_threeFunctions (st : Stack) : StopFits threeFunctions 1 atSixteen st := by
  intro inlineStack pc hstack hpc
  have hstack' : inlineStackAtPc inferior threeFunctions 1 atSixteen =
      .ok [{ next := 0 }, { next := 1 }, { next := 2 }] atSixteen := rfl
  have hpc' : getPcFileAddress inferior threeFunctions none atSixteen =
      .ok { elf := some 0, addr := 16#64 } atSixteen := rfl
  rw [hstack'] at hstack
  rw [hpc'] at hpc
  cases hstack
  cases hpc
  exact .inr (.inl ⟨⟨1, rfl⟩, _, 16#64, rfl, rfl, .inl moreFrames_threeFunctions⟩)

def upAndDown : List StackCall :=
  [.unwind atSixteen threeFunctions 0, .up, .down, .stepIn, .unwind atSixteen threeFunctions 0]

theorem selection_inside_upAndDown : (runAll (StackCall.exec 1) {} upAndDown).Inside ∧
    (runAll (StackCall.exec 1) {} upAndDown).Accessible :=
  selection_inside 1 upAndDown
    ⟨stopFits_threeFunctions {}, .inr (by decide +kernel), .inr (by decide +kernel), trivial,
      stopFits_threeFunctions _, trivial⟩

/-- `down` where the innermost frame is selected. -/
theorem selection_not_for_all : ¬ ∀ (tid : Tid) (calls : List StackCall),
    (runAll (StackCall.exec tid) {} calls).Inside := by
  intro h
  let st := runAll (StackCall.exec 1) {} [.unwind atSixteen oneFunction 0, .down]
  have hinside : st.Inside := h 1 _
  have hlength : st.frames.length = 1 := rfl
  have hcurrent : st.currentFrame = BitVec.allOnes 64 := rfl
  have hmem := (hinside.current_mem (List.length_pos_iff.mp (by omega))).2
  rw [hlength, hcurrent] at hmem
  exact absurd hmem (by decide)

end KDebugger.Process
