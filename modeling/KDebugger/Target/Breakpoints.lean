import KDebugger.Process.Signals
import KDebugger.Target.Files

namespace KDebugger

open Dwarf Exec StoppointCollection

inductive BreakpointKind where
  | address (address : VirtAddr)
  | function (functionName : List Byte)
  | line (file : List Byte) (line : ℕ)
deriving DecidableEq, Repr

structure Breakpoint where
  /-- what `this` points to -/
  object : ℕ
  id : BitVec 32
  isEnabled : Bool := false
  isHardware : Bool
  isInternal : Bool
  nextSiteId : BitVec 32 := 1#32
  /-- `m_BreakPointSites` -/
  sites : List ℕ := []
  kind : BreakpointKind
deriving DecidableEq, Repr

structure Target where
  process : Process
  /-- the objects that the sites of the process are, in the same order -/
  siteObjects : List ℕ := []
  /-- the objects made so far -/
  objects : ℕ := 0
  /-- what a new object holds where the constructor of a site does not set its id -/
  uninitialisedId : ℕ → BitVec 32
  breakpoints : List Breakpoint := []
  lastBreakpointId : BitVec 32 := 0#32
  files : Files
  /-- a site was used after it was destroyed -/
  usedDestroyed : Bool := false

namespace Target

abbrev TargetM := EStateM Failure Target

def onProcess {α : Type} (p : Process.M α) : TargetM α := fun t =>
  match p t.process with
  | .ok a s => .ok a { t with process := s }
  | .error e s => .error e { t with process := s }

def siteIndex (object : ℕ) : TargetM ℕ := do
  let t ← get
  match t.siteObjects.idxOf? object with
  | some i => pure i
  | none => do
    set { t with usedDestroyed := true }
    throw .undefined

def siteOf (object : ℕ) : TargetM BreakpointSite := do
  let i ← siteIndex object
  onProcess (Process.siteAt i)

def enableSite (object : ℕ) : TargetM Unit := do
  let i ← siteIndex object
  onProcess (Process.enableSite i)

def disableSite (object : ℕ) : TargetM Unit := do
  let i ← siteIndex object
  onProcess (Process.disableSite i)

def createBreakpointSite (parent : Option ℕ) (address : VirtAddr) (hardware internal : Bool) :
    TargetM ℕ := do
  let t ← get
  onProcess
    (Process.createBreakpointSite parent (t.uninitialisedId t.objects) address hardware internal)
  modify fun t =>
    { t with siteObjects := t.siteObjects ++ [t.objects], objects := t.objects + 1 }
  pure t.objects

def removeSiteByAddress (address : VirtAddr) : TargetM Unit := do
  let t ← get
  onProcess (Process.removeSiteByAddress address)
  match findByAddress t.process.breakpointSites address with
  | none => throw .undefined
  | some i => modify fun t => { t with siteObjects := t.siteObjects.eraseIdx i }

def removeSiteById (id : BitVec 32) : TargetM Unit := do
  -- the breakpoint keeps its pointer
  let t ← get
  onProcess (Process.removeSiteById id)
  match findById t.process.breakpointSites id with
  | none => throw .undefined
  | some i => modify fun t => { t with siteObjects := t.siteObjects.eraseIdx i }

/-- `contains_address` of the sites of a breakpoint. -/
def containsAddress (address : VirtAddr) : List ℕ → TargetM Bool
  | [] => pure false
  | object :: objects => do
    let site ← siteOf object
    if site.address = address then pure true else containsAddress address objects

/-- `get_by_id` of the sites of a breakpoint. -/
def siteById (id : BitVec 32) : List ℕ → TargetM ℕ
  | [] => throw (.raised "Invalid stoppoint id")
  | object :: objects => do
    let site ← siteOf object
    if site.id = id then pure object else siteById id objects

/-- The target, and the breakpoint whose member function runs. -/
structure Resolving where
  target : Target
  this : Breakpoint

abbrev ResolvingM := EStateM Failure Resolving

def onTarget {α : Type} (p : TargetM α) : ResolvingM α := fun r =>
  match p r.target with
  | .ok a t => .ok a { r with target := t }
  | .error e t => .error e { r with target := t }

def addSite (address : VirtAddr) : ResolvingM Unit := do
  let r ← get
  let b := r.this
  let object ← onTarget (createBreakpointSite (some b.object) address b.isHardware b.isInternal)
  modify fun r => { r with this := { r.this with sites := r.this.sites ++ [object] } }
  if b.isEnabled then onTarget (enableSite object) else pure ()

def takeSiteId : ResolvingM Unit :=
  modify fun r => { r with this := { r.this with nextSiteId := r.this.nextSiteId + 1#32 } }

/-- `address_breakpoint::resolve`. -/
def resolveAddress (address : VirtAddr) : ResolvingM Unit := do
  let r ← get
  if r.this.sites.isEmpty then addSite address else pure ()

def resolveAt (loadAddress : VirtAddr) : ResolvingM Unit := do
  let r ← get
  if ← onTarget (containsAddress loadAddress r.this.sites) then pure ()
  else do
    takeSiteId
    addSite loadAddress

def resolveSymbol (f : Files) (sym : Option ElfId × BitVec 64) : ResolvingM Unit := do
  let loadAddress ← ofExcept (f.symbolAddress sym)
  resolveAt loadAddress

def resolveDie (f : Files) (elfFunctions : List (Option ElfId × BitVec 64)) (x : ElfId × Die) :
    ResolvingM Unit := do
  let code ← ofExcept (Files.hasCode x.2)
  if code then do
    let loadAddress ← ofExcept (f.functionAddress x)
    resolveAt loadAddress
  else pure ()
  elfFunctions.forM (resolveSymbol f)

/-- `function_breakpoint::resolve`. -/
def resolveFunction (functionName : List Byte) : ResolvingM Unit := do
  let r ← get
  let f := r.target.files
  let found ← ofExcept (f.findFunctions functionName)
  found.dwarfFunctions.forM (resolveDie f found.elfFunctions)

def resolveEntry (f : Files) (x : TableEntry) : ResolvingM Unit := do
  let loadAddress ← ofExcept (f.entryAddress x)
  resolveAt loadAddress

/-- `line_breakpoint::resolve`. -/
def resolveLine (file : List Byte) (line : ℕ) : ResolvingM Unit := do
  let r ← get
  let f := r.target.files
  let entries ← ofExcept (f.lineEntries file line)
  entries.forM (resolveEntry f)

def resolve : ResolvingM Unit := do
  let r ← get
  match r.this.kind with
  | .address address => resolveAddress address
  | .function functionName => resolveFunction functionName
  | .line file line => resolveLine file line

/-- `create_address_breakpoint` and its siblings: `resolve` runs in the constructor, and
what it raises leaves no breakpoint behind. -/
def createBreakpoint (kind : BreakpointKind) (hardware internal : Bool) : TargetM Unit := do
  let t ← get
  let id := if internal then -1#32 else t.lastBreakpointId + 1#32
  modify fun t =>
    { t with
      objects := t.objects + 1
      lastBreakpointId := if internal then t.lastBreakpointId else id }
  let this : Breakpoint := { object := t.objects, id, isHardware := hardware, isInternal := internal, kind }
  fun t =>
    match resolve ⟨t, this⟩ with
    | .ok _ r => .ok () { r.target with breakpoints := r.target.breakpoints ++ [r.this] }
    | .error e r => .error e r.target

def breakpointAt (i : ℕ) : TargetM Breakpoint := do
  let t ← get
  match t.breakpoints[i]? with
  | none => throw .undefined
  | some b => pure b

def modifyBreakpoint (i : ℕ) (f : Breakpoint → Breakpoint) : TargetM Unit :=
  modify fun t => { t with breakpoints := t.breakpoints.modify i f }

/-- `enable`. -/
def enableBreakpoint (i : ℕ) : TargetM Unit := do
  modifyBreakpoint i fun b => { b with isEnabled := true }
  let b ← breakpointAt i
  b.sites.forM enableSite

/-- `disable`. -/
def disableBreakpoint (i : ℕ) : TargetM Unit := do
  modifyBreakpoint i fun b => { b with isEnabled := false }
  let b ← breakpointAt i
  b.sites.forM disableSite

def findBreakpoint (t : Target) (id : BitVec 32) : Option ℕ :=
  t.breakpoints.findIdx? fun b => b.id == id

def breakpointById (id : BitVec 32) : TargetM ℕ := do
  let t ← get
  match t.findBreakpoint id with
  | none => throw (.raised "Invalid stoppoint id")
  | some i => pure i

def removeBreakpointById (id : BitVec 32) : TargetM Unit := do
  let t ← get
  match t.findBreakpoint id with
  | none => throw .undefined
  | some i => do
    disableBreakpoint i
    modify fun t => { t with breakpoints := t.breakpoints.eraseIdx i }

def removeSite (object : ℕ) : TargetM Unit := do
  let site ← siteOf object
  removeSiteByAddress site.address

/-- `delete` in `handle_breakpoint_toggle`: the sites go before the breakpoint is
disabled. -/
def deleteBreakpoint (id : BitVec 32) : TargetM Unit := do
  let i ← breakpointById id
  let b ← breakpointAt i
  b.sites.forM removeSite
  removeBreakpointById id

def resolveAgain (i : ℕ) : TargetM Unit := fun t =>
  match t.breakpoints[i]? with
  | none => .error .undefined t
  | some b =>
    match resolve ⟨t, b⟩ with
    | .ok _ r => .ok () { r.target with breakpoints := r.target.breakpoints.set i r.this }
    | .error e r => .error e { r.target with breakpoints := r.target.breakpoints.set i r.this }

/-- `reload_dynamic_libraries`, given the files that are loaded now. -/
def reloadDynamicLibraries (files : Files) : TargetM Unit := do
  modify fun t => { t with files }
  let t ← get
  (List.range t.breakpoints.length).forM resolveAgain

end Target
end KDebugger
