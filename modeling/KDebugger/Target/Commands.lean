import KDebugger.Process.Surroundings
import KDebugger.Target.Breakpoints

namespace KDebugger

open Exec StoppointCollection

def StopReason.isBreakpoint (reason : StopReason) : Bool :=
  reason.reason = .stopped && reason.info = sigtrap &&
    (reason.trapReason = some .softwareBreak || reason.trapReason = some .hardwareBreak)

namespace Process

def siteById (id : BitVec 32) : M ℕ := do
  let s ← get
  match findById s.breakpointSites id with
  | none => throw (.raised "Invalid stoppoint id")
  | some i => pure i

def enableSiteById (id : BitVec 32) : M Unit := do
  let i ← siteById id
  enableSite i

def disableSiteById (id : BitVec 32) : M Unit := do
  let i ← siteById id
  disableSite i

def setReason (tid : Tid) (reason : StopReason) : M Unit := do
  let _ ← threadAt tid
  modifyThread tid fun th => { th with reason }

end Process

namespace Target

def createEnabled (kind : BreakpointKind) (hardware internal : Bool) : TargetM Unit := do
  createBreakpoint kind hardware internal
  let t ← get
  enableBreakpoint (t.breakpoints.length - 1)

/-- `handle_breakpoint_set_command`: a function breakpoint is not a hardware one. -/
def setBreakpoint (kind : BreakpointKind) (hardware : Bool) : TargetM Unit :=
  match kind with
  | .function _ => createEnabled kind false false
  | _ => createEnabled kind hardware false

def toggle (act : ℕ → TargetM Unit) (id : BitVec 32) : TargetM Unit := do
  let i ← breakpointById id
  act i

/-- `breakpoint enable` and `breakpoint disable` of one site of a breakpoint. -/
def toggleSite (act : ℕ → TargetM Unit) (id siteId : BitVec 32) : TargetM Unit := do
  let i ← breakpointById id
  let b ← breakpointAt i
  let object ← siteById siteId b.sites
  act object

def setSite (address : VirtAddr) (hardware : Bool) : TargetM Unit := do
  let object ← createBreakpointSite none address hardware false
  enableSite object

/-- What the hit handler of a breakpoint does: `reload_dynamic_libraries` with the files
that are loaded then, each time followed, in `resolve_dynamic_linker_rendezvous`, by a
breakpoint at `r_brk`.  A breakpoint without a handler does nothing and is not passed. -/
structure HitHandler where
  steps : List (Files × Option VirtAddr) := []
  result : Except Failure Bool := .ok false

/-- The kernel and the traced program, and the handlers in their present states. -/
structure Around where
  outside : Process.Outside
  onHit : ℕ → Target → HitHandler

def handlerStep (x : Files × Option VirtAddr) : TargetM Unit := do
  reloadDynamicLibraries x.1
  match x.2 with
  | none => pure ()
  | some debugState => createEnabled (.address debugState) false true

/-- `notify_hit` of the breakpoint a parent pointer points to. -/
def notifyHit (A : Around) (parent : ℕ) : TargetM Bool := do
  let t ← get
  if t.breakpoints.any (·.object == parent) then do
    let handler := A.onHit parent t
    handler.steps.forM handlerStep
    ofExcept handler.result
  else throw .undefined

def surroundings (A : Around) : Process.Surroundings TargetM := ⟨onProcess, notifyHit A⟩

def temporarySite (address : VirtAddr) : TargetM (Option ℕ) := do
  let t ← get
  if StoppointCollection.containsAddress t.process.breakpointSites address then pure none
  else do
    let object ← createBreakpointSite none address false true
    enableSite object
    pure (some object)

def runUntilAddress (A : Around) (reading : Process.Reading) (address : VirtAddr)
    (otid : Option Tid) : TargetM Unit := do
  let t ← get
  let tid := t.process.valueOr otid
  let breakpointToRemove ← temporarySite address
  onProcess (Process.resume A.outside (some tid))
  let reason ← (surroundings A).waitOnSignal A.outside reading (some tid)
  let arrived ←
    if reason.isBreakpoint then do
      let pc ← onProcess (Process.getPc (some tid))
      pure (pc == address)
    else pure false
  let reason := if arrived then { reason with trapReason := some .singleStep } else reason
  -- erased without being disabled
  match breakpointToRemove with
  | none => pure ()
  | some object => removeSite object
  onProcess (Process.setReason tid reason)

inductive Command where
  | setBreakpoint (kind : BreakpointKind) (hardware : Bool)
  /-- the breakpoint of `launch` -/
  | setInternal (address : VirtAddr)
  | enable (id : BitVec 32)
  | disable (id : BitVec 32)
  | enableSiteOf (id siteId : BitVec 32)
  | disableSiteOf (id siteId : BitVec 32)
  | delete (id : BitVec 32)
  | setSite (address : VirtAddr) (hardware : Bool)
  | enableSite (id : BitVec 32)
  | disableSite (id : BitVec 32)
  | deleteSite (id : BitVec 32)
  | reload (files : Files)
  | runUntilAddress (A : Around) (reading : Process.Reading) (address : VirtAddr)
    (otid : Option Tid)

def execCommand : Command → TargetM Unit
  | .setBreakpoint kind hardware => setBreakpoint kind hardware
  | .setInternal address => createEnabled (.address address) false true
  | .enable id => toggle enableBreakpoint id
  | .disable id => toggle disableBreakpoint id
  | .enableSiteOf id siteId => toggleSite Target.enableSite id siteId
  | .disableSiteOf id siteId => toggleSite Target.disableSite id siteId
  | .delete id => deleteBreakpoint id
  | .setSite address hardware => setSite address hardware
  | .enableSite id => onProcess (Process.enableSiteById id)
  | .disableSite id => onProcess (Process.disableSiteById id)
  | .deleteSite id => removeSiteById id
  | .reload files => reloadDynamicLibraries files
  | .runUntilAddress A reading address otid => runUntilAddress A reading address otid

end Target
end KDebugger
