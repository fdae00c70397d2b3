import KDebugger.Process.Signals

namespace KDebugger.Process

/-- What runs the member functions of a process, and the handlers of its breakpoints. -/
structure Surroundings (m : Type → Type) where
  run : {α : Type} → M α → m α
  notifyHit : ℕ → m Bool

namespace Surroundings

variable {m : Type → Type} [Monad m] (D : Surroundings m) (O : Outside)

def hitBreakpoint (i : ℕ) (address : VirtAddr) (otid : Option Tid) : m Bool := do
  D.run (setPc address otid)
  let site ← D.run (siteAt i)
  match site.parent with
  | none => pure false
  | some parent => D.notifyHit parent

def handleTrap (reason : StopReason) (isMainStop : Bool) : m Bool := do
  let pc ← D.run (getPc (some reason.tid))
  let instrBegin := pc - 1#64
  let s ← D.run get
  if reason.trapReason = some .softwareBreak ∧ s.enabledSiteAt instrBegin = true then do
    let i ← D.run (siteByAddress instrBegin)
    let shouldRestart ← D.hitBreakpoint i instrBegin (some reason.tid)
    pure (shouldRestart && isMainStop)
  else if reason.trapReason = some .hardwareBreak then do
    match ← D.run (getCurrentHardwareStoppoint (some reason.tid)) with
    | .inl _ => pure false
    | .inr id => do
      D.run (updateWatchpoint id)
      pure false
  else
    pure (reason.trapReason == some .syscall && isMainStop &&
      maybeResumeFromSyscall s.syscallCatchPolicy reason)

def inspectStop (reason : StopReason) (isMainStop : Bool) : m (Option StopReason) := do
  D.run (readAllRegisters reason.tid)
  let reason ← D.run (augmentStopReason reason)
  let goOn ← if reason.info = sigtrap then D.handleTrap reason isMainStop else pure false
  if goOn then pure none
  else do
    D.run (notifyTarget O reason)
    pure (some reason)

def handleSignal (reason : StopReason) (isMainStop : Bool) : m (Option StopReason) := do
  let s ← D.run get
  if reason.trapReason = some .clone ∧ isMainStop = true then pure none
  else if s.attached = true ∧ reason.reason = .stopped then do
    let new := (s.threads.find reason.tid).isNone
    if new then D.run (welcome O reason) else pure ()
    if new && isMainStop then pure none
    else do
      let th ← D.run (threadAt reason.tid)
      if th.pendingSigstop = true ∧ reason.info = sigstop then pure none
      else D.inspectStop O reason isMainStop
  else pure (some reason)

def reportStopped (reason : StopReason) : m (Option StopReason) := do
  let s ← D.run get
  D.run (readAllRegisters s.currentThread)
  let reason ← D.run (augmentStopReason reason)
  let pc ← D.run (getPc none)
  let instrBegin := pc - 1#64
  let goOn ←
    if reason.info = sigtrap then do
      if reason.trapReason = some .softwareBreak ∧ s.enabledSiteAt instrBegin = true then do
        let i ← D.run (siteByAddress instrBegin)
        D.hitBreakpoint i instrBegin none
      else if reason.trapReason = some .hardwareBreak then do
        match ← D.run (getCurrentHardwareStoppoint none) with
        | .inl _ => pure false
        | .inr id => do
          D.run (updateWatchpoint id)
          pure false
      else pure false
    else pure false
  if goOn then do
    D.run (resume O none)
    pure none
  else do
    D.run (notifyTarget O reason)
    pure (some reason)

def waitOnce (reading : Reading) (toAwait : Option Tid) : m (StopReason ⊕ Option Tid) := do
  let e ← D.run (waitpid toAwait)
  let tid := reading.tid e.tid
  match ← D.handleSignal O (stopReason tid e.status) true with
  | none => do
    D.run (resume O (some tid))
    pure (.inr toAwait)
  | some reason => do
    D.run (recordReason tid reason)
    let s ← D.run get
    if reason.reason = .exited ∨ reason.reason = .terminated then do
      D.run (reportLifecycle O reason)
      if tid = s.pid then do
        D.run (modify fun s => { s with state := reason.reason })
        pure (.inl reason)
      else pure (.inr none)
    else if s.attached = true ∧ s.state = .stopped then do
      match ← D.reportStopped O reason with
      | none => pure (.inr none)
      | some reason => pure (.inl reason)
    else pure (.inl reason)

def waitLoop (reading : Reading) : ℕ → Option Tid → m StopReason
  | 0, _ => D.run (throw .exhausted)
  | fuel + 1, toAwait => do
    match ← D.waitOnce O reading toAwait with
    | .inl reason => pure reason
    | .inr next => waitLoop reading fuel next

def waitOnSignal (reading : Reading) (toAwait : Option Tid) : m StopReason := do
  let s ← D.run get
  D.waitLoop O reading (s.events.length + 1) toAwait

end Surroundings

/-- Where a handler changes only the process. -/
def alone (O : Outside) : Surroundings M := ⟨id, O.notifyHit⟩

theorem handleSignal_alone (O : Outside) :
    (alone O).handleSignal O = handleSignal O := rfl

theorem reportStopped_alone (O : Outside) :
    (alone O).reportStopped O = reportStopped O := rfl

theorem waitOnce_alone (O : Outside) : (alone O).waitOnce O = waitOnce O := by
  funext reading toAwait
  unfold Surroundings.waitOnce waitOnce
  rw [handleSignal_alone, reportStopped_alone]
  rfl

theorem waitLoop_alone (O : Outside) (reading : Reading) (fuel : ℕ) :
    (alone O).waitLoop O reading fuel = waitLoop O reading fuel := by
  induction fuel with
  | zero => rfl
  | succ fuel ih =>
    funext toAwait
    unfold Surroundings.waitLoop waitLoop
    rewrite [waitOnce_alone, ih]
    rfl

theorem waitOnSignal_alone (O : Outside) : (alone O).waitOnSignal O = waitOnSignal O := by
  funext reading toAwait
  unfold Surroundings.waitOnSignal waitOnSignal
  simp only [waitLoop_alone]
  rfl

end KDebugger.Process
