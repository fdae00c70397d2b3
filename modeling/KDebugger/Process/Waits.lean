import KDebugger.Process.Stoppoints
import KDebugger.Splits

namespace KDebugger

open Words Exec

def sigtrap : BitVec 8 := 5#8

def sigstop : BitVec 8 := 19#8

def wifexited (status : BitVec 32) : Bool := status &&& 0x7f#32 == 0#32

def wexitstatus (status : BitVec 32) : BitVec 8 := status.extractLsb' 8 8

def wtermsig (status : BitVec 32) : BitVec 8 := (status &&& 0x7f#32).setWidth 8

/-- `WIFSIGNALED`: neither an exit nor the mark of a stop. -/
def wifsignaled (status : BitVec 32) : Bool :=
  status &&& 0x7f#32 != 0#32 && status &&& 0x7f#32 != 0x7f#32

def wifstopped (status : BitVec 32) : Bool := status &&& 0xff#32 == 0x7f#32

def wstopsig (status : BitVec 32) : BitVec 8 := status.extractLsb' 8 8

/-- `SIGTRAP | (PTRACE_EVENT_CLONE << 8)`. -/
def cloneStatus : BitVec 32 := 0x305#32

def stopReason (tid : Tid) (status : BitVec 32) : StopReason :=
  let trapReason := if status.sshiftRight 8 = cloneStatus then some TrapType.clone else none
  if wifexited status then { tid, reason := .exited, info := wexitstatus status, trapReason }
  else if wifsignaled status then
    { tid, reason := .terminated, info := wtermsig status, trapReason }
  else if wifstopped status then { tid, reason := .stopped, info := wstopsig status, trapReason }
  else { tid, trapReason }

namespace Process

/-- The requests whose effect is that of the traced program, the callbacks, and what an
object that is not initialised holds. -/
structure Outside where
  /-- `PTRACE_SYSCALL` or `PTRACE_CONT` -/
  cont : Bool → Tid → M Unit
  singleStep : Tid → M Unit
  notifyStop : StopReason → M Unit
  /-- `notify_hit` of a parent breakpoint -/
  notifyHit : ℕ → M Bool
  /-- `report_thread_lifecycle_event` -/
  lifecycle : StopReason → M Unit
  uninitialised : UserArea

def record (call : Call) : M Unit := modify fun s => { s with log := ⟨call, s.memory⟩ :: s.log }

def outstanding (t : Tid) : List Moment → ℕ
  | [] => 0
  | ⟨.sigstop u, _⟩ :: log => if u = t then outstanding t log + 1 else outstanding t log
  | ⟨.waited e, _⟩ :: log => if e.own ∧ e.tid = t then outstanding t log - 1 else outstanding t log
  | _ :: log => outstanding t log

/-- An event `waitpid` can take: the stop of a SIGSTOP of the debugger only when one is on
its way. -/
def deliverable (s : Process) (toAwait : Option Tid) (e : WaitEvent) : Bool :=
  (match toAwait with
    | none => true
    | some t => e.tid == t) && (!e.own || decide (0 < outstanding e.tid s.log))

def isDebugAddress (o : ℕ) : Bool :=
  (debugregOffset ≤ o && o < debugregOffset + 32) ||
    (debugregOffset + 56 ≤ o && o < debugregOffset + 64)

def taken (s : Process) (i : ℕ) (e : WaitEvent) : Process :=
  let regs : UserArea := fun o => if isDebugAddress o then s.user e.tid o else e.regs o
  { s with
    events := s.events.eraseIdx i
    siCode := Function.update s.siCode e.tid e.siCode
    user := Function.update s.user e.tid regs
    log := ⟨.waited e, s.memory⟩ :: s.log }

/-- `waitpid`, of a thread or of any. -/
def waitpid (toAwait : Option Tid) : M WaitEvent := do
  let s ← get
  match s.events.findIdx? (s.deliverable toAwait) with
  | none => throw .blocked
  | some i =>
    match s.events[i]? with
    | none => throw .blocked
    | some e =>
      set (s.taken i e)
      pure e

def ignoringErrors (p : M Unit) : M Unit := fun s => .ok () (after p s)

def getPc (otid : Option Tid) : M VirtAddr := do
  let regs ← getRegisters otid
  ofExcept (regs.readByIdAsU64 (.gpr64 .rip))

end Process

namespace Registers

/-- `PTRACE_GETREGS` into the place of the floating-point registers. -/
def loadGprs (regs : Registers) (kernel : UserArea) : Registers :=
  { regs with data := fun o =>
      if i387Offset ≤ o ∧ o < i387Offset + regsSize then kernel (o - i387Offset)
      else regs.data o }

/-- `PTRACE_GETFPREGS`. -/
def loadFprs (regs : Registers) (kernel : UserArea) : Registers :=
  { regs with data := fun o =>
      if i387Offset ≤ o ∧ o < i387Offset + i387Size then kernel o else regs.data o }

def loadDrs (regs : Registers) (kernel : UserArea) : Registers :=
  { regs with data := fun o =>
      if debugregOffset ≤ o ∧ o < userSize then kernel o else regs.data o }

end Registers

namespace Process

def modifyRegisters (tid : Tid) (f : Registers → Registers) : M Unit :=
  modifyThread tid fun th => { th with regs := f th.regs }

/-- `read_all_registers`.  The general-purpose registers are read into the place of the
floating-point ones, which are read over them. -/
def readAllRegisters (tid : Tid) : M Unit := do
  let s ← get
  let _ ← getRegisters (some tid)
  modifyRegisters tid fun regs => regs.loadGprs (s.user tid)
  modifyRegisters tid fun regs => regs.loadFprs (s.user tid)
  modifyRegisters tid fun regs => regs.loadDrs (s.user tid)

def argsRegs : List Gpr := [.rdi, .rsi, .rdx, .r10, .r8, .r9]

def setExpectingSyscallExit (b : Bool) : M Unit := modify fun s => { s with expectingSyscallExit := b }

/-- What `augment_stop_reason` reads at a system call, taken for the exit from it. -/
def syscallExit (regs : Registers) : Except Failure SyscallInformation := do
  let id ← regs.readByIdAsU64 (.gpr64 .origRax)
  let ret ← regs.readByIdAsU64 (.gpr64 .rax)
  pure (.exit (id.setWidth 16) ret)

/-- What `augment_stop_reason` reads at a system call, taken for the entry to it. -/
def syscallEntry (regs : Registers) : Except Failure SyscallInformation := do
  let id ← regs.readByIdAsU64 (.gpr64 .origRax)
  let args ← argsRegs.mapM fun r => regs.readByIdAsU64 (.gpr64 r)
  pure (.entry (id.setWidth 16) args)

def trapOfSiCode (siCode : ℤ) : TrapType :=
  if siCode = 2 then .singleStep
  else if siCode = 0x80 then .softwareBreak
  else if siCode = 4 then .hardwareBreak
  else .unknown

def augmentStopReason (reason : StopReason) : M StopReason := do
  let s ← get
  if reason.info = sigtrap ||| 0x80#8 then do
    let regs ← getRegisters (some reason.tid)
    let info ← ofExcept (if s.expectingSyscallExit then syscallExit regs else syscallEntry regs)
    setExpectingSyscallExit !s.expectingSyscallExit
    pure { reason with info := sigtrap, trapReason := some .syscall, syscallInfo := some info }
  else do
    setExpectingSyscallExit false
    let trap := if reason.info = sigtrap then trapOfSiCode (s.siCode reason.tid) else .unknown
    pure { reason with trapReason := some trap }

def SyscallInformation.number : SyscallInformation → ℤ
  | .entry id _ => id.toNat
  | .exit id _ => id.toNat

def maybeResumeFromSyscall (policy : SyscallCatchPolicy) (reason : StopReason) : Bool :=
  match policy, reason.syscallInfo with
  | .some toCatch, some info => !toCatch.contains (SyscallInformation.number info)
  | _, _ => false

def enabledSiteAt (s : Process) (address : VirtAddr) : Bool :=
  match StoppointCollection.findByAddress s.breakpointSites address with
  | none => false
  | some i => (s.breakpointSites[i]?).any (·.isEnabled)

theorem enabledSiteAt_eq {s : Process} {pc : VirtAddr} (h : s.enabledSiteAt pc = true) :
    ∃ i site, StoppointCollection.findByAddress s.breakpointSites pc = some i ∧
      s.breakpointSites[i]? = some site ∧ site.address = pc ∧ site.isEnabled = true := by
  unfold enabledSiteAt at h
  cases hfind : StoppointCollection.findByAddress s.breakpointSites pc with
  | none => simp [hfind] at h
  | some i =>
    obtain ⟨site, hi, haddr⟩ := Splits.getElem?_of_findIdx? hfind
    rw [hfind] at h
    refine ⟨i, site, rfl, hi, ?_, ?_⟩
    · simpa [Stoppoint.address] using haddr
    · simpa [hi] using h

def getCurrentHardwareStoppoint (otid : Option Tid) : M (BitVec 32 ⊕ BitVec 32) := do
  let regs ← getRegisters otid
  let status ← ofExcept (regs.readByIdAsU64 (.dr 6))
  if status = 0#64 then throw .undefined
  else
    let id ← ofExcept (debugRegister status.ctz.toNat)
    let address ← ofExcept (regs.readByIdAsU64 id)
    let s ← get
    match StoppointCollection.findByAddress s.breakpointSites address with
    | some i =>
      let site ← siteAt i
      pure (.inl site.id)
    | none =>
      let j ← watchpointByAddress address
      let point ← watchpointAt j
      pure (.inr point.id)

def updateWatchpoint (id : BitVec 32) : M Unit := do
  let s ← get
  match StoppointCollection.findById s.watchpoints id with
  | none => throw (.raised "Invalid stoppoint id")
  | some i =>
    let point ← watchpointAt i
    let newData ← watchedData point.address point.size
    modifyWatchpoint i fun point => { point with data := newData, previousData := point.data }

end Process
end KDebugger
