import KDebugger.Process.RegisterReads
import KDebugger.Process.FrameTurns
import KDebugger.Target.LinkedRuns
import Mathlib.Logic.Relation

namespace KDebugger

open Exec Relation

def StopReason.isStep (reason : StopReason) : Bool :=
  reason.reason = .stopped && reason.info = sigtrap && reason.trapReason = some .singleStep

namespace Target

open Process (Stack FrameInfo Reading Surroundings)

abbrev Stepping := Target × Stack

abbrev SteppingM := EStateM Failure Stepping

def onTheTarget {α : Type} (p : TargetM α) : SteppingM α := Process.onProcess p

def shownFrames : SteppingM (List Process.StackFrame) := do
  let x ← get
  ofExcept x.2.framesShown

def returnAddress (st : Stack) : Except Failure VirtAddr := do
  let frames ← st.framesShown
  match frames[(st.currentFrameIndex + 1#64).toNat]? with
  | none => .error .undefined
  | some frame => frame.regs.readByIdAsU64 (.gpr64 .rip)

structure Steps where
  around : Around
  reading : Reading
  files : FrameInfo
  /-- `high_pc` of a function -/
  highPc : Dwarf.Die → Except Failure FileAddr
  /-- what `notify_stop` has made of the stack when a wait returns -/
  notified : StopReason → SteppingM Unit

section Functions

variable (S : Steps)

def arrivedAt (reason : StopReason) (otid : Option Tid) (address : VirtAddr) : TargetM Bool :=
  if reason.isBreakpoint then do
    let pc ← onProcess (Process.getPc otid)
    pure (pc == address)
  else pure false

def removeTemporary : Option ℕ → TargetM Unit
  | none => pure ()
  | some object => removeSite object

/-- `run_until_address`, with the reason that it returns. -/
def runUntil (address : VirtAddr) (otid : Option Tid) : SteppingM StopReason := do
  let x ← get
  let tid := x.1.process.valueOr otid
  let breakpointToRemove ← onTheTarget (temporarySite address)
  onTheTarget (onProcess (Process.resume S.around.outside (some tid)))
  let reason ← onTheTarget
    ((surroundings S.around).waitOnSignal S.around.outside S.reading (some tid))
  S.notified reason
  let arrived ← onTheTarget (arrivedAt reason (some tid) address)
  let reason := if arrived then { reason with trapReason := some .singleStep } else reason
  onTheTarget (removeTemporary breakpointToRemove)
  onTheTarget (onProcess (Process.setReason tid reason))
  pure reason

def stepOutLoop (frames : ℕ) (address : VirtAddr) (tid : Tid) :
    ℕ → StopReason → SteppingM StopReason
  | 0, _ => throw .exhausted
  | turns + 1, reason => do
    let shown ← shownFrames
    if frames ≤ shown.length then do
      let reason ← runUntil S address (some tid)
      let goesOn ← onTheTarget (arrivedAt reason none address)
      if goesOn then stepOutLoop frames address tid turns reason else pure reason
    else pure reason

/-- Whether `step_out` takes the function for an inlined one. -/
def atInlineFrame (inlineStack : List Dwarf.Die) (st : Stack) : Bool :=
  1 < inlineStack.length && st.inlineHeight.toNat < inlineStack.length - 1

/-- `step_out`.  The first check of the loop holds, so its reason is not read before it is set. -/
def stepOut (turns : ℕ) (otid : Option Tid) : SteppingM StopReason := do
  let x ← get
  let tid := x.1.process.valueOr otid
  let inlineStack ← onTheTarget (onProcess (Process.inlineStackAtPc Process.inferior S.files tid))
  if atInlineFrame inlineStack x.2 then do
    match inlineStack[inlineStack.length - x.2.inlineHeight.toNat - 1]? with
    | none => throw .undefined
    | some currentFrame => do
      let high ← ofExcept (S.highPc currentFrame)
      let address ← ofExcept (S.files.elves.toVirtAddr high)
      runUntil S address (some tid)
  else do
    let address ← ofExcept (returnAddress x.2)
    let frames ← shownFrames
    -- the loop goes on only after a breakpoint, which an arrival is not
    stepOutLoop S frames.length address tid turns { tid }

end Functions

variable {S : Steps} {x x' : Stepping} {address : VirtAddr} {tid : Tid} {reason : StopReason}

theorem onTheTarget_bind {α β : Type} (p : TargetM α) (f : α → TargetM β) :
    onTheTarget (p >>= f) = onTheTarget p >>= fun a => onTheTarget (f a) := by
  funext x
  unfold onTheTarget Process.onProcess
  cases h : p x.1 with
  | ok a t => simp [bind, EStateM.bind, h]
  | error e t => simp [bind, EStateM.bind, h]

theorem onTheTarget_ok_iff {α : Type} {p : TargetM α} {a : α} :
    onTheTarget p x = .ok a x' ↔ ∃ t, p x.1 = .ok a t ∧ x' = (t, x.2) :=
  Process.onProcess_eq_ok

/-- `run_until_address`, its steps one after the other. -/
theorem runUntilAddress_eq {A : Around} {reading : Reading} {otid : Option Tid} {t : Target} :
    runUntilAddress A reading address otid t = (do
      let remove ← temporarySite address
      onProcess (Process.resume A.outside (some (t.process.valueOr otid)))
      let reason ← (surroundings A).waitOnSignal A.outside reading (some (t.process.valueOr otid))
      let arrived ← arrivedAt reason (some (t.process.valueOr otid)) address
      removeTemporary remove
      onProcess (Process.setReason (t.process.valueOr otid)
        (if arrived then { reason with trapReason := some .singleStep } else reason))) t := by
  unfold runUntilAddress
  rw [bind_ok (get_eq t)]
  refine congrFun (bind_congr fun remove => bind_congr fun _ => bind_congr fun reason => ?_) t
  unfold arrivedAt
  cases reason.isBreakpoint with
  | true =>
    simp only [if_true, bind_assoc, pure_bind]
    cases remove <;> simp only [removeTemporary, pure_bind]
  | false =>
    rw [if_neg Bool.false_ne_true, if_neg Bool.false_ne_true]
    simp only [pure_bind]
    cases remove <;> simp only [removeTemporary, pure_bind]

theorem runUntil_quiet (hquiet : S.notified = fun _ => pure ()) (otid : Option Tid) :
    (runUntil S address otid >>= fun _ => pure ()) x =
      onTheTarget (runUntilAddress S.around S.reading address otid) x := by
  have hcommand : onTheTarget (runUntilAddress S.around S.reading address otid) x =
      onTheTarget (do
        let remove ← temporarySite address
        onProcess (Process.resume S.around.outside (some (x.1.process.valueOr otid)))
        let reason ← (surroundings S.around).waitOnSignal S.around.outside S.reading
          (some (x.1.process.valueOr otid))
        let arrived ← arrivedAt reason (some (x.1.process.valueOr otid)) address
        removeTemporary remove
        onProcess (Process.setReason (x.1.process.valueOr otid)
          (if arrived then { reason with trapReason := some .singleStep } else reason))) x := by
    unfold onTheTarget Process.onProcess
    rw [runUntilAddress_eq]
  rw [hcommand]
  unfold runUntil
  rw [bind_assoc, bind_ok (get_eq x)]
  simp only [onTheTarget_bind, bind_assoc, hquiet, pure_bind, bind_pure_unit]

theorem onProcess_ok_iff {α : Type} {p : Process.M α} {t t' : Target} {a : α} :
    onProcess p t = .ok a t' ↔ ∃ s, p t.process = .ok a s ∧ t' = { t with process := s } := by
  unfold onProcess
  cases p t.process with
  | ok b s => simp [eq_comm]
  | error e s => simp

theorem getPc_ok_iff {t t' : Target} {otid : Option Tid} {pc : VirtAddr} :
    onProcess (Process.getPc otid) t = .ok pc t' ↔
      t.process.filePc (t.process.valueOr otid) = some (.ok pc) ∧ t' = t := by
  have hread : Process.getPc otid t.process =
      Process.getPc (some (t.process.valueOr otid)) t.process := rfl
  rw [onProcess_ok_iff, hread]
  constructor
  · rintro ⟨s, hs, rfl⟩
    obtain ⟨rfl, hpc⟩ := Process.getPc_ok hs
    exact ⟨hpc, rfl⟩
  · rintro ⟨hpc, rfl⟩
    obtain ⟨s, hs⟩ := outcome_eq_ok_iff.mp (Process.getPc_eq_ok.mpr hpc)
    obtain ⟨rfl, -⟩ := Process.getPc_ok hs
    exact ⟨_, hs, rfl⟩

theorem arrivedAt_ok {otid : Option Tid} {b : Bool}
    (h : onTheTarget (arrivedAt reason otid address) x = .ok b x') : x' = x ∧ (b = true ↔
      reason.isBreakpoint = true ∧
        x.1.process.filePc (x.1.process.valueOr otid) = some (.ok address)) := by
  obtain ⟨t, hcheck, rfl⟩ := onTheTarget_ok_iff.mp h
  unfold arrivedAt at hcheck
  split_ifs at hcheck with hstop
  · obtain ⟨pc, t₁, hpc, hb⟩ := bind_eq_ok.mp hcheck
    obtain ⟨hread, rfl⟩ := getPc_ok_iff.mp hpc
    cases hb
    refine ⟨rfl, ?_⟩
    simp [hstop, hread]
  · cases hcheck
    simp [hstop]

theorem arrivedAt_of_pc {otid : Option Tid} (hstop : reason.isBreakpoint = true)
    (hpc : x.1.process.filePc (x.1.process.valueOr otid) = some (.ok address)) :
    onTheTarget (arrivedAt reason otid address) x = .ok true x := by
  refine onTheTarget_ok_iff.mpr ⟨x.1, ?_, rfl⟩
  unfold arrivedAt
  rw [if_pos hstop, bind_ok (getPc_ok_iff.mpr ⟨hpc, rfl⟩), beq_self_eq_true]
  rfl

/-- The program counters of the threads stay. -/
def SamePcs (t t' : Target) : Prop := ∀ tid, t'.process.filePc tid = t.process.filePc tid

theorem samePcs : Frame SamePcs where
  refl _ _ := rfl
  trans h h' tid := (h' tid).trans (h tid)

theorem samePcs_onProcess {α : Type} {p : Process.M α}
    (hp : Within (fun s s' => ∀ tid, s'.filePc tid = s.filePc tid) p) :
    Within SamePcs (onProcess p) := by
  intro t
  rw [after_onProcess]
  exact hp t.process

theorem samePcs_removeSite (object : ℕ) : Within SamePcs (removeSite object) := by
  have hframe : Frame fun s s' : Process => ∀ tid, s'.filePc tid = s.filePc tid :=
    ⟨fun _ _ => rfl, fun h h' tid => (h' tid).trans (h tid)⟩
  have hsite (i : ℕ) : Within SamePcs (onProcess (Process.siteAt i)) :=
    samePcs_onProcess (Process.within_siteAt hframe i)
  refine samePcs.bind (samePcs.bind (fun t => ?_) hsite) fun site => ?_
  · unfold siteIndex
    rw [after_bind_ok (get_eq t)]
    cases t.siteObjects.idxOf? object <;> exact fun _ => rfl
  · refine samePcs.bind samePcs.get fun t => samePcs.bind (samePcs_onProcess fun s => ?_) fun _ => ?_
    · unfold Process.removeSiteByAddress
      rw [after_bind_ok (get_eq s)]
      cases StoppointCollection.findByAddress s.breakpointSites site.address <;> exact fun _ => rfl
    · cases StoppointCollection.findByAddress t.process.breakpointSites site.address with
      | none => exact samePcs.throw _
      | some i => exact fun _ _ => rfl

theorem samePcs_removeTemporary (remove : Option ℕ) : Within SamePcs (removeTemporary remove) := by
  cases remove with
  | none => exact samePcs.pure _
  | some object => exact samePcs_removeSite object

theorem samePcs_setReason (tid : Tid) (reason : StopReason) :
    Within SamePcs (onProcess (Process.setReason tid reason)) := by
  have hframe : Frame fun s s' : Process => ∀ tid, s'.filePc tid = s.filePc tid :=
    ⟨fun _ _ => rfl, fun h h' tid => (h' tid).trans (h tid)⟩
  refine samePcs_onProcess (hframe.bind (Process.within_threadAt hframe tid) fun _ s u => ?_)
  change Option.map _ (Threads.find (s.threads.modify tid _) u) = Option.map _ (s.threads.find u)
  rw [Threads.find_modify, Option.map_map]
  refine congrFun (congrArg Option.map (funext fun th => ?_)) _
  by_cases hu : u = tid <;> simp [hu]

theorem runUntil_ok (h : runUntil S address (some tid) x = .ok reason x')
    (hstop : reason.isBreakpoint = true) : x'.1.process.filePc tid ≠ some (.ok address) := by
  unfold runUntil at h
  rw [bind_ok (get_eq x)] at h
  obtain ⟨remove, x₁, -, hmade⟩ := bind_eq_ok.mp h
  obtain ⟨_, x₂, -, hresumed⟩ := bind_eq_ok.mp hmade
  obtain ⟨waited, x₃, -, hwaited⟩ := bind_eq_ok.mp hresumed
  obtain ⟨_, x₄, -, hnotified⟩ := bind_eq_ok.mp hwaited
  obtain ⟨arrived, x₅, harrived, hchecked⟩ := bind_eq_ok.mp hnotified
  obtain ⟨rfl, hthere⟩ := arrivedAt_ok harrived
  obtain ⟨_, x₆, hremove, hremoved⟩ := bind_eq_ok.mp hchecked
  obtain ⟨t₆, hgone, rfl⟩ := onTheTarget_ok_iff.mp hremove
  obtain ⟨_, x₇, hset, hend⟩ := bind_eq_ok.mp hremoved
  obtain ⟨t₇, hreason, rfl⟩ := onTheTarget_ok_iff.mp hset
  cases hend
  have hpcs : t₇.process.filePc tid = x₅.1.process.filePc tid :=
    ((samePcs_setReason _ _).ok hreason tid).trans ((samePcs_removeTemporary _).ok hgone tid)
  rintro hpc
  replace hpc := hpcs.symm.trans hpc
  cases harrives : arrived with
  | true => simp [harrives, StopReason.isBreakpoint] at hstop
  | false =>
    rw [harrives] at hstop hthere
    exact absurd (hthere.mpr ⟨hstop, hpc⟩) (by decide)

/-- The thread is at the address after a breakpoint, or what `run_until_address` makes of one. -/
structure Arrived (address : VirtAddr) (tid : Tid) (reason : StopReason) (x : Stepping) : Prop where
  stop : reason.isBreakpoint = true ∨ reason.isStep = true
  pc : x.1.process.filePc tid = some (.ok address)

/-- The stack shows fewer frames than `frames`. -/
def Fewer (frames : ℕ) (x : Stepping) : Prop :=
  ∃ shown, x.2.framesShown = .ok shown ∧ shown.length < frames

def Turns (frames : ℕ) (x : Stepping) : Prop :=
  ∃ shown, x.2.framesShown = .ok shown ∧ frames ≤ shown.length

/-- A turn of the loop after which it goes on. -/
def GoesOn (S : Steps) (frames : ℕ) (address : VirtAddr) (tid : Tid) (x x' : Stepping) : Prop :=
  Turns frames x ∧ ∃ reason, runUntil S address (some tid) x = .ok reason x' ∧
    reason.isBreakpoint = true ∧
    x'.1.process.filePc x'.1.process.currentThread = some (.ok address)

/-- Whenever a turn of the loop ends with the thread at the address, the stack has become
smaller. -/
def ArrivesHigher (S : Steps) (frames : ℕ) (address : VirtAddr) (tid : Tid) (x : Stepping) : Prop :=
  ∀ x₁, ReflTransGen (GoesOn S frames address tid) x x₁ → Turns frames x₁ → ∀ reason x₂,
    runUntil S address (some tid) x₁ = .ok reason x₂ → Arrived address tid reason x₂ →
      Fewer frames x₂

section Loop

variable {frames turns : ℕ} {start : StopReason}

theorem shownFrames_ok {shown : List Process.StackFrame} :
    shownFrames x = .ok shown x' ↔ x.2.framesShown = .ok shown ∧ x' = x := ofExcept_eq_ok

theorem Arrived.ends (h : Arrived address tid reason x')
    (hrun : runUntil S address (some tid) x = .ok reason x') : reason.isBreakpoint = false := by
  cases hstop : reason.isBreakpoint with
  | false => rfl
  | true => exact absurd h.pc (runUntil_ok hrun hstop)

theorem stepOutLoop_ok (h : stepOutLoop S frames address tid (turns + 1) start x = .ok reason x') :
    (Fewer frames x ∧ x' = x) ∨ (Turns frames x ∧ ∃ next x₁,
      runUntil S address (some tid) x = .ok next x₁ ∧ ((reason = next ∧ x' = x₁) ∨
        (GoesOn S frames address tid x x₁ ∧
          stepOutLoop S frames address tid turns next x₁ = .ok reason x'))) := by
  obtain ⟨shown, x₀, hshown, hrest⟩ := bind_eq_ok.mp h
  obtain ⟨hshown, rfl⟩ := shownFrames_ok.mp hshown
  split_ifs at hrest with hframes
  · right
    obtain ⟨next, x₁, hrun, hchecked⟩ := bind_eq_ok.mp hrest
    obtain ⟨goesOn, x₂, harrived, hend⟩ := bind_eq_ok.mp hchecked
    obtain ⟨rfl, hiff⟩ := arrivedAt_ok harrived
    refine ⟨⟨shown, hshown, hframes⟩, next, x₂, hrun, ?_⟩
    cases goesOn with
    | true =>
      obtain ⟨hstop, hpc⟩ := hiff.mp rfl
      exact .inr ⟨⟨⟨shown, hshown, hframes⟩, next, hrun, hstop, hpc⟩, hend⟩
    | false =>
      cases hend
      exact .inl ⟨rfl, rfl⟩
  · cases hrest
    exact .inl ⟨⟨shown, hshown, by omega⟩, rfl⟩

theorem stepOutLoop_fewer : ∀ {turns : ℕ} {x : Stepping} {start : StopReason},
    ArrivesHigher S frames address tid x →
    stepOutLoop S frames address tid turns start x = .ok reason x' →
    Arrived address tid reason x' → Fewer frames x' := by
  intro turns
  induction turns with
  | zero =>
    intro x start _ h
    cases h
  | succ turns ih =>
    intro x start hhigher h harrived
    obtain ⟨hfewer, rfl⟩ | ⟨hturns, next, x₁, hrun, hends⟩ := stepOutLoop_ok h
    · exact hfewer
    obtain ⟨rfl, rfl⟩ | ⟨hgoes, hrest⟩ := hends
    · exact hhigher x .refl hturns _ _ hrun harrived
    · exact ih (fun y hy => hhigher y (hy.head hgoes)) hrest harrived

theorem stepOutLoop_arrives {x₁ x₂ : Stepping}
    (hreach : ReflTransGen (GoesOn S frames address tid) x x₁) (hturns : Turns frames x₁)
    (hrun : runUntil S address (some tid) x₁ = .ok reason x₂)
    (harrived : Arrived address tid reason x₂) (start : StopReason) :
    ∃ turns, stepOutLoop S frames address tid turns start x = .ok reason x₂ := by
  -- by induction on the turns
  have hturn {x x' : Stepping} {next : StopReason} (hturns : Turns frames x)
      (hrun : runUntil S address (some tid) x = .ok next x') (turns : ℕ) (start : StopReason) :
      stepOutLoop S frames address tid (turns + 1) start x = (do
        let goesOn ← onTheTarget (arrivedAt next none address)
        if goesOn then stepOutLoop S frames address tid turns next else pure next) x' := by
    obtain ⟨shown, hshown, hframes⟩ := hturns
    rw [stepOutLoop, bind_ok (shownFrames_ok.mpr ⟨hshown, rfl⟩), if_pos hframes, bind_ok hrun]
  induction hreach using ReflTransGen.head_induction_on generalizing start with
  | refl =>
    refine ⟨1, (hturn hturns hrun 0 start).trans ?_⟩
    unfold arrivedAt
    rw [harrived.ends hrun]
    rfl
  | head hgoes _ ih =>
    obtain ⟨hturns', next, hrun', hstop, hpc⟩ := hgoes
    obtain ⟨turns, hrest⟩ := ih next
    refine ⟨turns + 1, (hturn hturns' hrun' turns start).trans ?_⟩
    rw [bind_ok (arrivedAt_of_pc hstop hpc)]
    exact hrest

end Loop

/-- Where `step_out` returns at the return address, the stack has fewer frames than before. -/
def StepsOut (S : Steps) (otid : Option Tid) (x : Stepping) : Prop :=
  ∀ address shown, returnAddress x.2 = .ok address → x.2.framesShown = .ok shown →
    ∀ turns reason x', stepOut S turns otid x = .ok reason x' →
      Arrived address (x.1.process.valueOr otid) reason x' → Fewer shown.length x'

/-- For a frame that is not inlined, that is so exactly where no deeper activation comes by
the return address first. -/
theorem stepsOut_iff {otid : Option Tid} {inlineStack : List Dwarf.Die}
    (hstack : outcome (Process.inlineStackAtPc Process.inferior S.files (x.1.process.valueOr otid))
      x.1.process = .ok inlineStack) (hconcrete : atInlineFrame inlineStack x.2 = false) :
    StepsOut S otid x ↔ ∀ address shown, returnAddress x.2 = .ok address →
      x.2.framesShown = .ok shown →
        ArrivesHigher S shown.length address (x.1.process.valueOr otid) x := by
  obtain ⟨s, hstack⟩ := outcome_eq_ok_iff.mp hstack
  obtain ⟨rfl, -⟩ := Process.inlineStackAtPc_ok hstack
  have hlook : onTheTarget (onProcess (Process.inlineStackAtPc Process.inferior S.files
      (x.1.process.valueOr otid))) x = .ok inlineStack x :=
    onTheTarget_ok_iff.mpr ⟨x.1, onProcess_ok_iff.mpr ⟨_, hstack, rfl⟩, rfl⟩
  have heq {address : VirtAddr} {shown : List Process.StackFrame}
      (haddress : returnAddress x.2 = .ok address) (hshown : x.2.framesShown = .ok shown)
      (turns : ℕ) : stepOut S turns otid x = stepOutLoop S shown.length address
        (x.1.process.valueOr otid) turns { tid := x.1.process.valueOr otid } x := by
    unfold stepOut
    rw [bind_ok (get_eq x), bind_ok hlook, if_neg (by simp [hconcrete]), haddress,
      bind_ok (ofExcept_ok _ _), bind_ok (shownFrames_ok.mpr ⟨hshown, rfl⟩)]
  constructor
  · intro hsteps address shown haddress hshown x₁ hreach hturns reason x₂ hrun harrived
    obtain ⟨turns, hloop⟩ := stepOutLoop_arrives hreach hturns hrun harrived _
    exact hsteps address shown haddress hshown turns reason x₂
      ((heq haddress hshown turns).trans hloop) harrived
  · intro hhigher address shown haddress hshown turns reason x' hstep harrived
    rw [heq haddress hshown] at hstep
    exact stepOutLoop_fewer (hhigher address shown haddress hshown) hstep harrived

theorem arrivesHigher_iff_first {frames : ℕ} (hturns : Turns frames x)
    (hcurrent : ∀ reason x', runUntil S address (some tid) x = .ok reason x' →
      x'.1.process.currentThread = tid) :
    ArrivesHigher S frames address tid x ↔ ∀ reason x', runUntil S address (some tid) x =
      .ok reason x' → Arrived address tid reason x' → Fewer frames x' := by
  constructor
  · exact fun hhigher => hhigher x .refl hturns
  · intro hfirst x₁ hreach _ reason x₂ hrun
    obtain rfl | ⟨y, ⟨-, next, hrun', hstop, hpc⟩, -⟩ := hreach.cases_head
    · exact hfirst reason x₂ hrun
    · rw [hcurrent _ _ hrun'] at hpc
      exact absurd hpc (runUntil_ok hrun' hstop)

/-- `f` at 8; its CFA is `rsp + 8`, and the return address is below it. -/
def recursiveFunction : FrameInfo where
  elves := [{ loadBias := 0#64, sectionHeaders := [⟨8#64, 56#64, 2#64⟩] }]
  mainElf := 0
  frameElf := {
    elf := 0, image := .ofList [0x0c#8, 7#8, 8#8, 0x90#8, 1#8], textSectionStart := 0#64
    gotPltStart := none }
  fdeAt _ := .ok {
    cie := ⟨1#64, -8#64, 0#8, ⟨0, 5⟩⟩, initialLocation := { elf := some 0, addr := 8#64 }
    addressRange := 56#64, instructions := ⟨0, 0⟩ }
  inlineStackAtAddress _ := .ok [{ next := 0 }]
  lineEntryAtAddress _ := .ok none
  lowPc _ := .ok { elf := some 0, addr := 8#64 }
  location _ := .ok .unset

/-- `rip`, and a stack pointer of 200. -/
def recursiveFile (rip : Byte) : UserArea :=
  fun o => if o = 128 then rip else if o = 152 then 200#8 else 0#8

/-- A recursive call has returned to 24, and `f` is to return to 24 itself; it calls itself
again before. -/
def inRecursion : Process :=
  { Process.untouched with
    threads := ⟨[{ tid := 1, regs := { data := recursiveFile 24#8, tid := 1 } }], by decide⟩
    memory := ⟨fun a => if a = 200#64 then 24#8 else 0#8, fun _ => true⟩
    user _ := recursiveFile 24#8
    events := [{ tid := 1, status := 0x57f#32, siCode := 2, regs := recursiveFile 28#8 },
      { tid := 1, status := 0x57f#32, siCode := 0x80, regs := recursiveFile 25#8 }] }

def unwindAgain (reason : StopReason) : SteppingM Unit := fun x =>
  match Stack.unwind Process.inferior recursiveFunction 4 reason.tid (x.1.process, x.2) with
  | .ok _ s => .ok () ({ x.1 with process := s.1 }, s.2)
  | .error e s => .error e ({ x.1 with process := s.1 }, s.2)

def recursiveSteps : Steps where
  around := quietAround
  reading := .asMeant
  files := recursiveFunction
  highPc _ := .error .undefined
  notified := unwindAgain

def recursiveCall : Stepping :=
  ({ stoppedTarget twoRows with process := inRecursion },
    (after (Stack.unwind Process.inferior recursiveFunction 4 1) (inRecursion, {})).2)

theorem stepsOut_iff_recursiveCall : StepsOut recursiveSteps none recursiveCall ↔
    ∀ address shown, returnAddress recursiveCall.2 = .ok address →
      recursiveCall.2.framesShown = .ok shown →
        ArrivesHigher recursiveSteps shown.length address 1 recursiveCall :=
  have hstack : outcome (Process.inlineStackAtPc Process.inferior recursiveSteps.files 1)
      recursiveCall.1.process = .ok [{ next := 0 }] := rfl
  stepsOut_iff hstack rfl

theorem map_ok {α β : Type} {p : Except Failure α} {f : α → β} {b : β} (h : p.map f = .ok b) :
    ∃ a, p = .ok a ∧ f a = b := by
  cases p with
  | ok a => exact ⟨a, rfl, Except.ok.inj h⟩
  | error e => cases h

theorem stepsOut_not_for_all : ¬ ∀ (S : Steps) (otid : Option Tid) (x : Stepping)
    (inlineStack : List Dwarf.Die),
    outcome (Process.inlineStackAtPc Process.inferior S.files (x.1.process.valueOr otid))
      x.1.process = .ok inlineStack → atInlineFrame inlineStack x.2 = false → StepsOut S otid x := by
  intro h
  have hsteps := h recursiveSteps none recursiveCall [{ next := 0 }] rfl rfl
  have hreturn : returnAddress recursiveCall.2 = .ok 24#64 := by decide +kernel
  have hbefore : recursiveCall.2.framesShown.map List.length = .ok 2 := by decide +kernel
  let stepped : StopReason := { tid := 1, info := sigtrap, trapReason := some .singleStep }
  obtain ⟨x', hrun⟩ : ∃ x', stepOut recursiveSteps 1 none recursiveCall = .ok stepped x' :=
    outcome_eq_ok_iff.mp (by decide +kernel)
  have hafter : after (stepOut recursiveSteps 1 none) recursiveCall = x' := by rw [after, hrun]
  have hpc : (after (stepOut recursiveSteps 1 none) recursiveCall).1.process.filePc 1 =
      some (.ok 24#64) := by decide +kernel
  have hframes : (after (stepOut recursiveSteps 1 none) recursiveCall).2.framesShown.map
      List.length = .ok 2 := by decide +kernel
  rw [hafter] at hpc hframes
  obtain ⟨shown, hshown, hlength⟩ := map_ok hbefore
  obtain ⟨shown', hshown', hfewer⟩ :=
    hsteps 24#64 shown hreturn hshown 1 stepped x' hrun ⟨.inr (by decide), hpc⟩
  rw [hshown'] at hframes
  have hsame : shown'.length = 2 := Except.ok.inj hframes
  omega

end Target
end KDebugger
