import KDebugger.Memory
import KDebugger.Process.RegisterKernel

namespace KDebugger

open ByteStream Words

inductive ProcessState where
  | stopped | running | exited | terminated
deriving DecidableEq, Repr

inductive StoppointMode where
  | write | readWrite | execute
deriving DecidableEq, Repr

inductive TrapType where
  | singleStep | softwareBreak | hardwareBreak | syscall | clone | unknown
deriving DecidableEq, Repr

/-- `syscall_information`; the arguments of an entry share their place with the return
value of an exit. -/
inductive SyscallInformation where
  | entry (id : BitVec 16) (args : List (BitVec 64))
  | exit (id : BitVec 16) (ret : BitVec 64)
deriving DecidableEq, Repr

structure StopReason where
  tid : Tid
  reason : ProcessState := .stopped
  info : BitVec 8 := 0#8
  trapReason : Option TrapType := none
  syscallInfo : Option SyscallInformation := none
deriving DecidableEq, Repr

structure ThreadState where
  tid : Tid
  regs : Registers
  reason : StopReason := { tid := tid }
  state : ProcessState := .stopped
  pendingSigstop : Bool := false

/-- `m_Threads`: one entry a thread id. -/
structure Threads where
  entries : List ThreadState
  nodup : (entries.map ThreadState.tid).Nodup

namespace Threads

def find (ts : Threads) (t : Tid) : Option ThreadState := ts.entries.find? fun th => th.tid == t

def tids (ts : Threads) : List Tid := ts.entries.map ThreadState.tid

/-- The entry of `t` changed, its key kept. -/
def modify (ts : Threads) (t : Tid) (f : ThreadState → ThreadState) : Threads where
  entries := ts.entries.map fun th => if th.tid = t then { f th with tid := th.tid } else th
  nodup := by
    have htid : (ThreadState.tid ∘ fun th : ThreadState =>
        if th.tid = t then { f th with tid := th.tid } else th) = ThreadState.tid := by
      funext th
      simp only [Function.comp_apply]
      split_ifs <;> rfl
    rw [List.map_map, htid]
    exact ts.nodup

theorem find_eq_none {ts : Threads} {t : Tid} : ts.find t = none ↔ t ∉ ts.tids := by
  simp [find, tids, List.find?_eq_none]

theorem mem_tids {ts : Threads} {t : Tid} : t ∈ ts.tids ↔ ∃ th, ts.find t = some th := by
  rw [← not_iff_not, ← find_eq_none, Option.eq_none_iff_forall_ne_some, not_exists]

theorem find_tid {ts : Threads} {t : Tid} {th : ThreadState} (h : ts.find t = some th) :
    th.tid = t := by
  have := List.find?_some h
  simpa using this

/-- `emplace`: an entry that is there stays. -/
def emplace (ts : Threads) (th : ThreadState) : Threads :=
  if h : th.tid ∈ ts.tids then ts
  else
    { entries := ts.entries ++ [th]
      nodup := by
        rw [List.map_append, List.nodup_append]
        refine ⟨ts.nodup, by simp, ?_⟩
        rintro a ha b hb rfl
        simp only [List.map_cons, List.map_nil, List.mem_singleton] at hb
        exact h (hb ▸ ha) }

theorem find_emplace {ts : Threads} {th : ThreadState} (h : ts.find th.tid = none) (t : Tid) :
    (ts.emplace th).find t = if t = th.tid then some th else ts.find t := by
  have hmem : th.tid ∉ ts.tids := find_eq_none.mp h
  unfold emplace
  rw [dif_neg hmem]
  simp only [find, List.find?_append, List.find?_singleton]
  by_cases ht : t = th.tid
  · subst ht
    have hnone : ts.entries.find? (fun th' => th'.tid == th.tid) = none := h
    simp [hnone]
  · have hne : (th.tid == t) = false := by simpa using Ne.symm ht
    simp [ht, hne]

theorem mem_tids_emplace {ts : Threads} {th : ThreadState} {u : Tid} :
    u ∈ (ts.emplace th).tids ↔ u ∈ ts.tids ∨ u = th.tid := by
  unfold emplace
  split_ifs with h
  · constructor
    · exact .inl
    · rintro (hu | rfl)
      · exact hu
      · exact h
  · simp [tids]

@[simp] theorem tids_modify (ts : Threads) (t : Tid) (f : ThreadState → ThreadState) :
    (ts.modify t f).tids = ts.tids := by
  simp only [tids, modify, List.map_map]
  apply List.map_congr_left
  intro th _
  simp only [Function.comp_apply]
  split_ifs <;> rfl

theorem find_modify (ts : Threads) (t t' : Tid) (f : ThreadState → ThreadState) :
    (ts.modify t f).find t' =
      (ts.find t').map fun th => if t' = t then { f th with tid := th.tid } else th := by
  obtain ⟨entries, hnodup⟩ := ts
  simp only [find, modify]
  clear hnodup
  induction entries with
  | nil => rfl
  | cons th ths ih =>
    have htid : (if th.tid = t then { f th with tid := th.tid } else th).tid = th.tid := by
      split_ifs <;> rfl
    rw [List.map_cons, List.find?_cons, List.find?_cons, htid]
    by_cases h : th.tid = t'
    · subst h
      simp
    · have hb : (th.tid == t') = false := by simpa using h
      rw [hb]
      exact ih

theorem find_modify_self {ts : Threads} {t : Tid} {th : ThreadState} (h : ts.find t = some th)
    (f : ThreadState → ThreadState) :
    (ts.modify t f).find t = some { f th with tid := th.tid } := by
  simp [find_modify, h]

theorem find_modify_of_ne {ts : Threads} {t t' : Tid} (h : t' ≠ t)
    (f : ThreadState → ThreadState) : (ts.modify t f).find t' = ts.find t' := by
  simp [find_modify, h]

end Threads

/-- `breakpoint_site`; a parent breakpoint is named by its number. -/
structure BreakpointSite where
  id : BitVec 32
  address : VirtAddr
  isHardware : Bool
  isInternal : Bool
  parent : Option ℕ := none
  isEnabled : Bool := false
  savedData : Byte := 0#8
  hardwareRegisterIndex : ℤ := -1
deriving DecidableEq, Repr

structure Watchpoint where
  id : BitVec 32
  address : VirtAddr
  mode : StoppointMode
  size : ℕ
  isEnabled : Bool := false
  hardwareRegisterIndex : ℤ := -1
  data : BitVec 64 := 0#64
  previousData : BitVec 64 := 0#64
deriving DecidableEq, Repr

inductive SyscallCatchPolicy where
  | none
  | some (toCatch : List ℤ)
  | all
deriving DecidableEq, Repr

/-- A stop, an exit or a termination the kernel reports: what `waitpid` returns, the
`si_code` of the stop, the registers of the thread, and whether it is the stop of a
SIGSTOP of the debugger. -/
structure WaitEvent where
  tid : Tid
  status : BitVec 32
  siCode : ℤ := 0
  regs : UserArea := fun _ => 0#8
  own : Bool := false

/-- What the debugger asks of the kernel while threads run, and what it tells of them. -/
inductive Call where
  /-- `send_continue` -/
  | resumed (tid : Tid)
  /-- the `PTRACE_CONT` of `swallow_pending_sigstop` -/
  | cont (tid : Tid)
  | singleStep (tid : Tid)
  /-- `tgkill` with SIGSTOP -/
  | sigstop (tid : Tid)
  | waited (event : WaitEvent)
  /-- `notify_stop` or the lifecycle callback -/
  | reported (reason : StopReason)

/-- A call, and memory as it is then. -/
structure Moment where
  call : Call
  memory : Memory

/-- `thread` of the target, without its frames: `state` is the key of the entry of the
process it points to, or none when that entry is erased. -/
structure TargetThread where
  tid : Tid
  state : Option Tid
deriving DecidableEq, Repr

structure Process where
  pid : Tid
  attached : Bool := true
  state : ProcessState := .stopped
  currentThread : Tid
  threads : Threads
  expectingSyscallExit : Bool := false
  syscallCatchPolicy : SyscallCatchPolicy := .none
  breakpointSites : List BreakpointSite := []
  watchpoints : List Watchpoint := []
  /-- the last id `get_next_id` of `watchpoint.cpp` gave out -/
  lastWatchpointId : BitVec 32 := 0#32
  casts : FloatCasts
  memory : Memory
  /-- the registers of each thread as the kernel has them, the floating-point ones in
  the place of `i387` -/
  user : Tid → UserArea
  /-- how the kernel answers a request that writes registers -/
  kernel : RegisterKernel := .x86
  /-- what is still to happen to the threads, in this order -/
  events : List WaitEvent := []
  siCode : Tid → ℤ := fun _ => 0
  /-- `m_Target` is not null -/
  hasTarget : Bool := false
  /-- `m_Threads` of the target, which the process calls back -/
  targetThreads : List TargetThread := []
  /-- the calls so far, the last one first -/
  log : List Moment := []

namespace Process

abbrev M := EStateM Failure Process

def valueOr (s : Process) (otid : Option Tid) : Tid := otid.getD s.currentThread

def threadAt (tid : Tid) : M ThreadState := do
  let s ← get
  match s.threads.find tid with
  | none => throw .outOfRange
  | some th => pure th

theorem threadAt_ok {s : Process} {t : Tid} {th : ThreadState} (h : s.threads.find t = some th) :
    threadAt t s = .ok th s := by
  unfold threadAt
  rw [Exec.bind_ok (Exec.get_eq s), h]
  rfl

theorem threadAt_error {s : Process} {t : Tid} (h : s.threads.find t = none) :
    threadAt t s = .error .outOfRange s := by
  unfold threadAt
  rw [Exec.bind_ok (Exec.get_eq s), h]
  rfl

def modifyThread (tid : Tid) (f : ThreadState → ThreadState) : M Unit :=
  modify fun s => { s with threads := s.threads.modify tid f }

def getRegisters (otid : Option Tid := none) : M Registers := do
  let s ← get
  let th ← threadAt (s.valueOr otid)
  pure th.regs

/-- A write through the reference that `get_registers` returned. -/
def setRegisters (tid : Tid) (regs : Registers) : M Unit :=
  modifyThread tid fun th => { th with regs }

def setUser (s : Process) (tid : Tid) (registers : UserArea) : Process :=
  { s with user := Function.update s.user tid registers }

end Process
end KDebugger
