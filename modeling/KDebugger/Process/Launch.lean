import KDebugger.Paths
import KDebugger.Schedules

namespace KDebugger.Launch

inductive End where
  | read | write
deriving DecidableEq, Repr

/-- `m_Fds` of one process: the end that each of the two descriptors is open for. -/
structure Fds where
  first : Option End
  second : Option End
deriving DecidableEq, Repr

def readFd : Fin 2 := 0

def writeFd : Fin 2 := 0

def Fds.get (fds : Fds) : Fin 2 → Option End
  | 0 => fds.first
  | 1 => fds.second

def Fds.close (fds : Fds) : Fin 2 → Fds
  | 0 => { fds with first := none }
  | 1 => { fds with second := none }

def Fds.closeRead (fds : Fds) : Fds := fds.close readFd

def Fds.closeWrite (fds : Fds) : Fds := fds.close writeFd

def Fds.has (fds : Fds) (side : End) : Bool := fds.first == some side || fds.second == some side

/-- The arguments of `launch` that decide which calls the child makes. -/
structure Options where
  debug : Bool
  replacesStdout : Bool
deriving DecidableEq, Repr

/-- The calls of the child that may fail. -/
inductive Call where
  | setpgid | dup2 | traceme | execlp
deriving DecidableEq, Repr

/-- What a call says: `none` when it succeeds, the text of its error when it fails. -/
abbrev Answers := Call → Option (List Byte)

def Call.complaint : Call → List Byte
  | setpgid => text "Could not set pgid"
  | dup2 => text "stdout replacement failed"
  | traceme => text "Tracing failed"
  | execlp => text "exec failed"

def Call.message (c : Call) (why : List Byte) : List Byte := c.complaint ++ text ": " ++ why

/-- What the child does before `execlp`. -/
inductive Setup where
  | call (c : Call)
  | closeRead
deriving DecidableEq, Repr

def setups (opts : Options) : List Setup :=
  [.call .setpgid, .closeRead] ++ (if opts.replacesStdout then [.call .dup2] else []) ++
    (if opts.debug then [.call .traceme] else [])

/-- Where the child is: `setup []` is about to call `execlp`, and `raised` has left `launch`. -/
inductive Child where
  | setup (rest : List Setup)
  | report (message : List Byte)
  | raised (what : List Byte)
  | exit
  | exited
  | broken
  | running
deriving DecidableEq, Repr

/-- Where the parent is; `closeRead` and what follows with the data it read. -/
inductive Parent where
  | closeWrite
  | read
  | closeRead (data : List Byte)
  | waitpid (data : List Byte)
  | raised (what : List Byte)
  | constructs
deriving DecidableEq, Repr

structure State where
  buffer : List Byte
  parentFds : Fds
  childFds : Fds
  parent : Parent
  child : Child
deriving DecidableEq, Repr

def start (opts : Options) : State where
  buffer := []
  parentFds := ⟨some .read, some .write⟩
  childFds := ⟨some .read, some .write⟩
  parent := .closeWrite
  child := .setup (setups opts)

def capacity : ℕ := 65536

def readSize : ℕ := 1024

inductive Party where
  | parent | child
deriving DecidableEq, Repr

def badDescriptor (complaint : String) : List Byte := text complaint ++ text ": Bad file descriptor"

def cannotRead : List Byte := badDescriptor "Could not read from pipe"

def cannotWrite : List Byte := badDescriptor "Could not write to pipe"

/-- One step of the child.  A write without any reader ends it; one for which there is no
room waits. -/
def childStep (answers : Answers) (s : State) : Option State :=
  match s.child with
  | .setup (.call c :: rest) =>
    match answers c with
    | none => some { s with child := .setup rest }
    | some why => some { s with child := .report (c.message why) }
  | .setup (.closeRead :: rest) =>
    some { s with childFds := s.childFds.closeRead, child := .setup rest }
  | .setup [] =>
    match answers .execlp with
    | none => some { s with childFds := ⟨none, none⟩, child := .running }
    | some why => some { s with child := .report (Call.execlp.message why) }
  | .report message =>
    if s.childFds.get writeFd ≠ some .write then some { s with child := .raised cannotWrite }
    else if !s.parentFds.has .read && !s.childFds.has .read then some { s with child := .broken }
    else if s.buffer.length + message.length ≤ capacity then
      some { s with buffer := s.buffer ++ message, child := .exit }
    else none
  | .exit => some { s with childFds := ⟨none, none⟩, child := .exited }
  | .raised _ | .exited | .broken | .running => none

def parentStep (s : State) : Option State :=
  match s.parent with
  | .closeWrite => some { s with parentFds := s.parentFds.closeWrite, parent := .read }
  | .read =>
    if s.parentFds.get readFd ≠ some .read then some { s with parent := .raised cannotRead }
    else if s.buffer ≠ [] then
      some { s with
        buffer := s.buffer.drop readSize, parent := .closeRead (s.buffer.take readSize) }
    else if s.parentFds.has .write || s.childFds.has .write then none
    else some { s with parent := .closeRead [] }
  | .closeRead data =>
    some { s with
      parentFds := s.parentFds.closeRead
      parent := if data.length > 0 then .waitpid data else .constructs }
  | .waitpid data =>
    match s.child with
    | .exited | .broken => some { s with parent := .raised data }
    | _ => none
  | .raised _ | .constructs => none

def step (answers : Answers) : Party → State → Option State
  | .parent => parentStep
  | .child => childStep answers

def firstFailure (answers : Answers) : List Setup → Option (List Byte)
  | [] => (answers .execlp).map Call.execlp.message
  | .closeRead :: rest => firstFailure answers rest
  | .call c :: rest =>
    match answers c with
    | none => firstFailure answers rest
    | some why => some (c.message why)

/-- What becomes of the child: `none` when it runs the program. -/
def failure (opts : Options) (answers : Answers) : Option (List Byte) :=
  firstFailure answers (setups opts)

def Parent.Finished : Parent → Prop
  | raised _ | constructs => True
  | _ => False

instance (p : Parent) : Decidable p.Finished := by
  cases p <;> unfold Parent.Finished <;> infer_instance

end KDebugger.Launch
