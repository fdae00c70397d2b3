import KDebugger.Process.HardwareStoppoints
import KDebugger.Process.MemoryReads

namespace KDebugger

open ByteStream Words Exec

/-- What `stoppoint_collection` asks of its members. -/
class Stoppoint (T : Type) where
  id : T → BitVec 32
  address : T → VirtAddr
  isEnabled : T → Bool

instance : Stoppoint BreakpointSite := ⟨(·.id), (·.address), (·.isEnabled)⟩

instance : Stoppoint Watchpoint := ⟨(·.id), (·.address), (·.isEnabled)⟩

namespace StoppointCollection

variable {T : Type} [Stoppoint T]

def findById (points : List T) (id : BitVec 32) : Option ℕ :=
  points.findIdx? fun point => Stoppoint.id point == id

def findByAddress (points : List T) (address : VirtAddr) : Option ℕ :=
  points.findIdx? fun point => Stoppoint.address point == address

def containsAddress (points : List T) (address : VirtAddr) : Bool :=
  (findByAddress points address).isSome

def inRange (low high : VirtAddr) (point : T) : Bool :=
  low ≤ Stoppoint.address point && Stoppoint.address point < high

def getInRegion (points : List T) (low high : VirtAddr) : List T := points.filter (inRange low high)

end StoppointCollection

open StoppointCollection

namespace Process

def siteAt (i : ℕ) : M BreakpointSite := do
  let s ← get
  match s.breakpointSites[i]? with
  | none => throw .undefined
  | some site => pure site

theorem siteAt_ok {s : Process} {i : ℕ} {site : BreakpointSite}
    (h : s.breakpointSites[i]? = some site) : siteAt i s = .ok site s := by
  unfold siteAt
  rw [bind_ok (get_eq s), h]
  rfl

theorem siteAt_error {s : Process} {i : ℕ} (h : s.breakpointSites[i]? = none) :
    siteAt i s = .error .undefined s := by
  unfold siteAt
  rw [bind_ok (get_eq s), h]
  rfl

def modifySite (i : ℕ) (f : BreakpointSite → BreakpointSite) : M Unit :=
  modify fun s => { s with breakpointSites := s.breakpointSites.modify i f }

/-- `breakpoint_site::enable`. -/
def enableSite (i : ℕ) : M Unit := do
  let site ← siteAt i
  if site.isEnabled then pure ()
  else if site.isHardware then do
    let index ← setHardwareBreakpoint site.id site.address
    modifySite i fun site => { site with hardwareRegisterIndex := index }
    modifySite i fun site => { site with isEnabled := true }
  else do
    let data ← peekData "Enabling breakpoint site failed!\n" site.address
    modifySite i fun site => { site with savedData := byteOf data 0 }
    pokeData "Enabling breakpoint site failed\n" site.address (withLowByte data 0xcc#8)
    modifySite i fun site => { site with isEnabled := true }

/-- `breakpoint_site::disable`. -/
def disableSite (i : ℕ) : M Unit := do
  let site ← siteAt i
  if site.isEnabled = false then pure ()
  else if site.isHardware then do
    clearHardwareStoppoint site.hardwareRegisterIndex
    modifySite i fun site => { site with hardwareRegisterIndex := -1 }
    modifySite i fun site => { site with isEnabled := false }
  else do
    let data ← peekData "Disabling breakpoint site failed\n" site.address
    pokeData "Disabling breakpoint site failed\n" site.address (withLowByte data site.savedData)
    modifySite i fun site => { site with isEnabled := false }

/-- The message of `create_breakpoint_site`, without and with a parent. -/
def siteExists : Option ℕ → String
  | none => "Breakpoint at address has already been created"
  | some _ => "Breakpoint site already created at address "

/-- `create_breakpoint_site`.  The constructor does not set the id, which is whatever the
new object holds there. -/
def createBreakpointSite (parent : Option ℕ) (id : BitVec 32) (address : VirtAddr)
    (hardware internal : Bool) : M Unit := do
  let s ← get
  if containsAddress s.breakpointSites address then
    throw (.raised (siteExists parent ++ toString address.toNat))
  else
    let site : BreakpointSite :=
      { id, address, isHardware := hardware, isInternal := internal, parent }
    set { s with breakpointSites := s.breakpointSites ++ [site] }

/-- `**it` of the end of a vector is undefined. -/
def found (i : Option ℕ) : M ℕ :=
  match i with
  | none => throw .undefined
  | some i => pure i

def eraseSite (i : ℕ) : M Unit :=
  modify fun s => { s with breakpointSites := s.breakpointSites.eraseIdx i }

def removeSiteById (id : BitVec 32) : M Unit := do
  let s ← get
  let i ← found (findById s.breakpointSites id)
  disableSite i
  eraseSite i

def removeSiteByAddress (address : VirtAddr) : M Unit := do
  let s ← get
  let i ← found (findByAddress s.breakpointSites address)
  eraseSite i

/-- `get_by_address`, which raises where `remove_by_address` is undefined. -/
def siteByAddress (address : VirtAddr) : M ℕ := do
  let s ← get
  match findByAddress s.breakpointSites address with
  | none => throw (.raised "Stoppoint with a given address not found")
  | some i => pure i

theorem siteByAddress_find {s : Process} {i : ℕ} {pc : VirtAddr}
    (h : findByAddress s.breakpointSites pc = some i) : siteByAddress pc s = .ok i s := by
  unfold siteByAddress
  rw [bind_ok (get_eq s), h]
  rfl

def watchpointAt (i : ℕ) : M Watchpoint := do
  let s ← get
  match s.watchpoints[i]? with
  | none => throw .undefined
  | some point => pure point

def modifyWatchpoint (i : ℕ) (f : Watchpoint → Watchpoint) : M Unit :=
  modify fun s => { s with watchpoints := s.watchpoints.modify i f }

def enableWatchpoint (i : ℕ) : M Unit := do
  let point ← watchpointAt i
  if point.isEnabled then pure ()
  else do
    let index ← setWatchpoint point.id point.address point.mode point.size
    modifyWatchpoint i fun point => { point with hardwareRegisterIndex := index }
    modifyWatchpoint i fun point => { point with isEnabled := true }

/-- `watchpoint::disable`, with the guard of `enable`. -/
def disableWatchpoint (i : ℕ) : M Unit := do
  -- the guard of `enable`
  let point ← watchpointAt i
  if point.isEnabled then pure ()
  else do
    clearHardwareStoppoint point.hardwareRegisterIndex
    modifyWatchpoint i fun point => { point with isEnabled := false }

/-- The value `update_data` reads; more than eight bytes do not fit its variable. -/
def watchedData (address : VirtAddr) (size : ℕ) : M (BitVec 64) := do
  let bytes ← readMemory address size
  if size ≤ 8 then pure (fromBytes 8 bytes) else throw .undefined

def newWatchpoint (address : VirtAddr) (mode : StoppointMode) (size : ℕ) : M Watchpoint := do
  if address &&& (BitVec.ofNat 64 size - 1#64) ≠ 0#64 then
    throw (.raised "Watchpoint must be aligned to size")
  else
    let s ← get
    let id := s.lastWatchpointId + 1#32
    set { s with lastWatchpointId := id }
    let data ← watchedData address size
    pure { id, address, mode, size, data }

def createWatchpoint (address : VirtAddr) (mode : StoppointMode) (size : ℕ) : M Unit := do
  let s ← get
  if containsAddress s.watchpoints address then
    throw (.raised ("Watchpoint already created at address " ++ toString address.toNat))
  else
    let point ← newWatchpoint address mode size
    modify fun s => { s with watchpoints := s.watchpoints ++ [point] }

def eraseWatchpoint (i : ℕ) : M Unit :=
  modify fun s => { s with watchpoints := s.watchpoints.eraseIdx i }

def removeWatchpointById (id : BitVec 32) : M Unit := do
  let s ← get
  let i ← found (findById s.watchpoints id)
  disableWatchpoint i
  eraseWatchpoint i

def removeWatchpointByAddress (address : VirtAddr) : M Unit := do
  let s ← get
  let i ← found (findByAddress s.watchpoints address)
  eraseWatchpoint i

def watchpointByAddress (address : VirtAddr) : M ℕ := do
  let s ← get
  match findByAddress s.watchpoints address with
  | none => throw (.raised "Stoppoint with a given address not found")
  | some i => pure i

def withoutTrap (address : VirtAddr) (memory : List Byte) (site : BreakpointSite) : List Byte :=
  if site.isEnabled = false ∨ site.isHardware = true then memory
  else memory.set (site.address - address).toNat site.savedData

def readMemoryWithoutTraps (address : VirtAddr) (amount : ℕ) : M (List Byte) := do
  let memory ← readMemory address amount
  let s ← get
  let sites := getInRegion s.breakpointSites address (address + BitVec.ofNat 64 amount)
  pure (sites.foldl (withoutTrap address) memory)

/-- What the commands of a debugger do to stoppoints.  A site or a watchpoint is named
by its address, which is its own in its collection. -/
inductive StoppointOp where
  | createSite (parent : Option ℕ) (id : BitVec 32) (address : VirtAddr) (hardware internal : Bool)
  | enableSite (address : VirtAddr)
  | disableSite (address : VirtAddr)
  | removeSiteById (id : BitVec 32)
  | removeSiteByAddress (address : VirtAddr)
  | createWatchpoint (address : VirtAddr) (mode : StoppointMode) (size : ℕ)
  | enableWatchpoint (address : VirtAddr)
  | disableWatchpoint (address : VirtAddr)
  | removeWatchpointById (id : BitVec 32)
  | removeWatchpointByAddress (address : VirtAddr)
deriving DecidableEq, Repr

def execStoppointOp : StoppointOp → M Unit
  | .createSite parent id address hardware internal =>
    createBreakpointSite parent id address hardware internal
  | .enableSite address => do
    let i ← siteByAddress address
    enableSite i
  | .disableSite address => do
    let i ← siteByAddress address
    disableSite i
  | .removeSiteById id => removeSiteById id
  | .removeSiteByAddress address => removeSiteByAddress address
  | .createWatchpoint address mode size => createWatchpoint address mode size
  | .enableWatchpoint address => do
    let i ← watchpointByAddress address
    enableWatchpoint i
  | .disableWatchpoint address => do
    let i ← watchpointByAddress address
    disableWatchpoint i
  | .removeWatchpointById id => removeWatchpointById id
  | .removeWatchpointByAddress address => removeWatchpointByAddress address

end Process
end KDebugger
