import KDebugger.Process.Waits

namespace KDebugger.Process

open Exec StoppointCollection

def sendContinue (O : Outside) (tid : Tid) : M Unit := do
  let s ← get
  O.cont (s.syscallCatchPolicy != .none) tid
  record (.resumed tid)
  let _ ← threadAt tid
  modifyThread tid fun th => { th with state := .running }
  modify fun s => { s with state := .running }

def setPending (tid : Tid) (b : Bool) : M Unit :=
  modifyThread tid fun th => { th with pendingSigstop := b }

/-- `swallow_pending_sigstop`: what the wait returns is not looked at. -/
def swallowPendingSigstop (O : Outside) (tid : Tid) : M Unit := do
  let th ← threadAt tid
  if th.pendingSigstop then do
    ignoringErrors (O.cont false tid)
    record (.cont tid)
    let _ ← waitpid (some tid)
    setPending tid false
  else pure ()

def singleStep (O : Outside) (tid : Tid) : M Unit := do
  O.singleStep tid
  record (.singleStep tid)

/-- `step_over_breakpoint`: what the wait returns is not looked at. -/
def stepOverBreakpoint (O : Outside) (tid : Tid) : M Unit := do
  let pc ← getPc (some tid)
  let s ← get
  if s.enabledSiteAt pc then do
    let i ← siteByAddress pc
    disableSite i
    swallowPendingSigstop O tid
    singleStep O tid
    let _ ← waitpid (some tid)
    enableSite i
  else pure ()

def resume (O : Outside) (otid : Option Tid) : M Unit := do
  let s ← get
  let tid := s.valueOr otid
  stepOverBreakpoint O tid
  sendContinue O tid

def resumeAllThreads (O : Outside) : M Unit := do
  let s ← get
  s.threads.tids.forM (stepOverBreakpoint O)
  s.threads.tids.forM (sendContinue O)

def reportLifecycle (O : Outside) (reason : StopReason) : M Unit := do
  record (.reported reason)
  O.lifecycle reason

def notifyTarget (O : Outside) (reason : StopReason) : M Unit := do
  let s ← get
  if s.hasTarget then do
    record (.reported reason)
    O.notifyStop reason
  else pure ()

def welcome (O : Outside) (reason : StopReason) : M Unit := do
  let th : ThreadState :=
    { tid := reason.tid, regs := { data := O.uninitialised, tid := reason.tid } }
  modify fun s => { s with threads := s.threads.emplace th }
  reportLifecycle O reason

def hitBreakpoint (O : Outside) (i : ℕ) (address : VirtAddr) (otid : Option Tid) : M Bool := do
  setPc address otid
  let site ← siteAt i
  match site.parent with
  | none => pure false
  | some parent => O.notifyHit parent

/-- The part of `handle_signal` about SIGTRAP: whether the thread is to go on unseen. -/
def handleTrap (O : Outside) (reason : StopReason) (isMainStop : Bool) : M Bool := do
  let pc ← getPc (some reason.tid)
  let instrBegin := pc - 1#64
  let s ← get
  if reason.trapReason = some .softwareBreak ∧ s.enabledSiteAt instrBegin = true then do
    let i ← siteByAddress instrBegin
    let shouldRestart ← hitBreakpoint O i instrBegin (some reason.tid)
    pure (shouldRestart && isMainStop)
  else if reason.trapReason = some .hardwareBreak then do
    match ← getCurrentHardwareStoppoint (some reason.tid) with
    | .inl _ => pure false
    | .inr id => do
      updateWatchpoint id
      pure false
  else
    pure (reason.trapReason == some .syscall && isMainStop &&
      maybeResumeFromSyscall s.syscallCatchPolicy reason)

def inspectStop (O : Outside) (reason : StopReason) (isMainStop : Bool) :
    M (Option StopReason) := do
  readAllRegisters reason.tid
  let reason ← augmentStopReason reason
  let goOn ← if reason.info = sigtrap then handleTrap O reason isMainStop else pure false
  if goOn then pure none
  else do
    notifyTarget O reason
    pure (some reason)

/-- `handle_signal`.  For a pending SIGSTOP the flag is named and stays as it is. -/
def handleSignal (O : Outside) (reason : StopReason) (isMainStop : Bool) :
    M (Option StopReason) := do
  let s ← get
  if reason.trapReason = some .clone ∧ isMainStop = true then pure none
  else if s.attached = true ∧ reason.reason = .stopped then do
    let new := (s.threads.find reason.tid).isNone
    if new then welcome O reason else pure ()
    if new && isMainStop then pure none
    else do
      let th ← threadAt reason.tid
      -- the source names the flag here without clearing it
      if th.pendingSigstop = true ∧ reason.info = sigstop then pure none
      else inspectStop O reason isMainStop
  else pure (some reason)

def recordReason (tid : Tid) (reason : StopReason) : M Unit := do
  let _ ← threadAt tid
  modifyThread tid fun th => { th with reason, state := reason.reason }

def stopThread (O : Outside) (tid : Tid) : M Unit := do
  let th ← threadAt tid
  if th.state = .running then do
    if th.pendingSigstop then pure () else record (.sigstop tid)
    let e ← waitpid (some tid)
    let reason := stopReason tid e.status
    if reason.reason = .stopped then setPending tid (reason.info != sigstop) else pure ()
    let handled ← handleSignal O reason false
    recordReason tid (handled.getD reason)
  else pure ()

def stopRunningThreads (O : Outside) : M Unit := do
  let s ← get
  s.threads.tids.forM (stopThread O)

/-- How `tid = waitpid(..) < 0` is read. -/
inductive Reading where
  /-- the comparison first -/
  | asWritten
  /-- the assignment first -/
  | asMeant
deriving DecidableEq, Repr

def Reading.tid : Reading → Tid → Tid
  | .asWritten, _ => 0
  | .asMeant, t => t

/-- The part of `wait_on_signal` for a process that counts as stopped: the reason that is
returned, or none when the thread went on. -/
def reportStopped (O : Outside) (reason : StopReason) : M (Option StopReason) := do
  let s ← get
  readAllRegisters s.currentThread
  let reason ← augmentStopReason reason
  let pc ← getPc none
  let instrBegin := pc - 1#64
  let goOn ←
    if reason.info = sigtrap then do
      if reason.trapReason = some .softwareBreak ∧ s.enabledSiteAt instrBegin = true then do
        let i ← siteByAddress instrBegin
        hitBreakpoint O i instrBegin none
      else if reason.trapReason = some .hardwareBreak then do
        match ← getCurrentHardwareStoppoint none with
        | .inl _ => pure false
        | .inr id => do
          updateWatchpoint id
          pure false
      else pure false
    else pure false
  if goOn then do
    resume O none
    pure none
  else do
    notifyTarget O reason
    pure (some reason)

def waitOnce (O : Outside) (reading : Reading) (toAwait : Option Tid) :
    M (StopReason ⊕ Option Tid) := do
  let e ← waitpid toAwait
  -- as the source has it, the result of the comparison and not that of `waitpid`
  let tid := reading.tid e.tid
  match ← handleSignal O (stopReason tid e.status) true with
  | none => do
    resume O (some tid)
    pure (.inr toAwait)
  | some reason => do
    recordReason tid reason
    let s ← get
    if reason.reason = .exited ∨ reason.reason = .terminated then do
      reportLifecycle O reason
      if tid = s.pid then do
        modify fun s => { s with state := reason.reason }
        pure (.inl reason)
      else pure (.inr none)
    else if s.attached = true ∧ s.state = .stopped then do
      match ← reportStopped O reason with
      | none => pure (.inr none)
      | some reason => pure (.inl reason)
    else pure (.inl reason)

def waitLoop (O : Outside) (reading : Reading) : ℕ → Option Tid → M StopReason
  | 0, _ => throw .exhausted
  | fuel + 1, toAwait => do
    match ← waitOnce O reading toAwait with
    | .inl reason => pure reason
    | .inr next => waitLoop O reading fuel next

/-- `wait_on_signal`; a turn takes an event, which bounds them. -/
def waitOnSignal (O : Outside) (reading : Reading) (toAwait : Option Tid) : M StopReason := do
  let s ← get
  waitLoop O reading (s.events.length + 1) toAwait

def stepInstruction (O : Outside) (reading : Reading) (otid : Option Tid) : M StopReason := do
  let s ← get
  let tid := s.valueOr otid
  let pc ← getPc (some tid)
  if s.enabledSiteAt pc then do
    let i ← siteByAddress pc
    disableSite i
    swallowPendingSigstop O tid
    singleStep O tid
    let reason ← waitOnSignal O reading (some tid)
    enableSite i
    pure reason
  else do
    swallowPendingSigstop O tid
    singleStep O tid
    waitOnSignal O reading (some tid)

end KDebugger.Process
