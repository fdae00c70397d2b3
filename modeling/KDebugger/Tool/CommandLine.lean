import KDebugger.Paths
import KDebugger.Process.RegisterText
import KDebugger.Syscalls
import KDebugger.Target.Breakpoints
import KDebugger.TypedVectors

namespace KDebugger.Tool

open Numerals

abbrev Text := List Byte

def space : Byte := 0x20#8

def comma : Byte := 0x2c#8

def colon : Byte := 0x3a#8

/-- The calls of `std::getline` behind the characters of an item. -/
def splitFrom (del : Byte) : Text → Text → List Text
  | item, [] => if item = [] then [] else [item]
  | item, c :: str => if c = del then item :: splitFrom del [] str else splitFrom del (item ++ [c]) str

/-- `split`: nothing follows a delimiter at the end. -/
def split (str : Text) (del : Byte) : List Text := splitFrom del [] str

example : split (text "memory read  0x10 ") space =
    [text "memory", text "read", [], text "0x10"] := by decide

section Splits

variable {del : Byte}

theorem splitFrom_delimiter {a : Text} (ha : del ∉ a) (item b : Text) :
    splitFrom del item (a ++ del :: b) = (item ++ a) :: split b del := by
  induction a generalizing item with
  | nil => simp [splitFrom, split]
  | cons c a ih =>
    rw [List.mem_cons, not_or] at ha
    rw [List.cons_append, splitFrom, if_neg (Ne.symm ha.1), ih ha.2]
    simp

theorem splitFrom_free {a : Text} (ha : del ∉ a) {item : Text} (hne : item ++ a ≠ []) :
    splitFrom del item a = [item ++ a] := by
  induction a generalizing item with
  | nil =>
    rw [List.append_nil] at hne
    rw [splitFrom, if_neg hne, List.append_nil]
  | cons c a ih =>
    rw [List.mem_cons, not_or] at ha
    rw [splitFrom, if_neg (Ne.symm ha.1), ih ha.2 (by simp)]
    simp

theorem split_delimiter {a : Text} (ha : del ∉ a) (b : Text) :
    split (a ++ del :: b) del = a :: split b del := splitFrom_delimiter ha [] b

theorem split_free {a : Text} (ha : del ∉ a) (hne : a ≠ []) : split a del = [a] :=
  splitFrom_free ha hne

theorem split_eq_nil_iff {str : Text} : split str del = [] ↔ str = [] := by
  constructor
  · intro h
    by_contra hne
    by_cases hdel : del ∈ str
    · obtain ⟨a, b, rfl, ha⟩ := List.eq_append_cons_of_mem hdel
      rw [split_delimiter ha] at h
      exact List.cons_ne_nil _ _ h
    · rw [split_free hdel hne] at h
      exact List.cons_ne_nil _ _ h
  · intro h
    rw [h]
    rfl

theorem not_mem_splitFrom {item : Text} (hitem : del ∉ item) {str w : Text}
    (hw : w ∈ splitFrom del item str) : del ∉ w := by
  induction str generalizing item with
  | nil =>
    rw [splitFrom] at hw
    split_ifs at hw
    · cases hw
    · rwa [List.mem_singleton.mp hw]
  | cons c str ih =>
    rw [splitFrom] at hw
    split_ifs at hw with hc
    · obtain rfl | hw := List.mem_cons.mp hw
      · exact hitem
      · exact ih List.not_mem_nil hw
    · refine ih ?_ hw
      rw [List.mem_append, List.mem_singleton, not_or]
      exact ⟨hitem, Ne.symm hc⟩

theorem not_mem_split {str w : Text} (hw : w ∈ split str del) : del ∉ w :=
  not_mem_splitFrom List.not_mem_nil hw

theorem split_flatMap {items : List Text} (h : ∀ w ∈ items, del ∉ w) :
    split (items.flatMap (· ++ [del])) del = items := by
  induction items with
  | nil => rfl
  | cons w items ih =>
    rw [List.flatMap_cons, List.append_assoc, List.singleton_append,
      split_delimiter (h w List.mem_cons_self), ih fun w hw => h w (List.mem_cons_of_mem _ hw)]

end Splits

def isPrefix (str strOf : Text) : Bool :=
  if strOf.length < str.length then false else strOf.take str.length == str

def argument (args : List Text) (i : ℕ) : Except Failure Text :=
  match args[i]? with
  | none => .error .undefined
  | some arg => .ok arg

/-- What `print_help` prints. -/
inductive Topic where
  | overview | register | breakpoint | memory | disassemble | watchpoint | catchpoint | thread
  | unavailable
deriving DecidableEq, Repr

inductive Request where
  | help (topic : Topic)
  /-- a line on `std::cerr` -/
  | complain (message : String)
  | listSites
  | setSite (address : VirtAddr) (hardware : Bool)
  | enableSite (id : BitVec 32)
  | disableSite (id : BitVec 32)
  | deleteSite (id : BitVec 32)
  | listBreakpoints
  | setBreakpoint (kind : BreakpointKind) (hardware : Bool)
  /-- `continue` -/
  | resume
  | listThreads
  | selectThread (tid : BitVec 32)
  | stepInstruction
  | readMemory (address : VirtAddr) (amount : ℕ)
  | writeMemory (address : VirtAddr) (data : List Byte)
  | readRegisters (all : Bool)
  | readRegister (info : RegisterInfo)
  | writeRegister (info : RegisterInfo) (value : Value)
  /-- the words behind `disassemble`, which are looked at once the pc is known -/
  | disassemble (args : List Text)
  | listWatchpoints
  | setWatchpoint (address : VirtAddr) (mode : StoppointMode) (size : ℕ)
  | enableWatchpoint (id : BitVec 32)
  | disableWatchpoint (id : BitVec 32)
  | deleteWatchpoint (id : BitVec 32)
  | catchSyscalls (policy : SyscallCatchPolicy)
  | stepOver
  | stepOut
  | stepIn
  | up
  | down
  | backtrace
deriving DecidableEq

def printHelp (args : List Text) : Except Failure (List Request) :=
  if args.length = 1 then .ok [.help .overview]
  else do
    let topic ← argument args 1
    if isPrefix topic (text "register") then .ok [.help .register]
    else if isPrefix topic (text "breakpoint") then .ok [.help .breakpoint]
    else if isPrefix topic (text "memory") then .ok [.help .memory]
    else if isPrefix topic (text "disassemble") then .ok [.help .disassemble]
    else if isPrefix topic (text "watchpoint") then .ok [.help .watchpoint]
    else if isPrefix topic (text "catchpoint") then .ok [.help .catchpoint]
    else if isPrefix topic (text "thread") then .ok [.help .thread]
    else .ok [.help .unavailable]

def registerNames : List String :=
  ["rax", "rdx", "rcx", "rbx", "rsi", "rdi", "rbp", "rsp", "r8", "r9", "r10", "r11", "r12", "r13",
    "r14", "r15", "rip", "eflags", "cs", "fs", "gs", "ss", "ds", "es", "orig_rax",
    "eax", "edx", "ecx", "ebx", "esi", "edi", "r8d", "r9d", "r10d", "r11d", "r12d", "r13d", "r14d",
    "r15d", "ax", "dx", "cx", "bx", "si", "di", "bp", "sp", "r8w", "r9w", "r10w", "r11w", "r12w",
    "r13w", "r14w", "r15w", "ah", "dh", "ch", "bh", "al", "dl", "cl", "bl", "sil", "dil", "bpl",
    "spl", "r8b", "r9b", "r10b", "r11b", "r12b", "r13b", "r14b", "r15b",
    "fcw", "fsw", "ftw", "fop", "frip", "frdp", "mxcsr", "mxcsrmask",
    "st0", "st1", "st2", "st3", "st4", "st5", "st6", "st7",
    "mm0", "mm1", "mm2", "mm3", "mm4", "mm5", "mm6", "mm7",
    "xmm0", "xmm1", "xmm2", "xmm3", "xmm4", "xmm5", "xmm6", "xmm7", "xmm8", "xmm9", "xmm10",
    "xmm11", "xmm12", "xmm13", "xmm14", "xmm15",
    "dr0", "dr1", "dr2", "dr3", "dr4", "dr5", "dr6", "dr7"]

def registerInfoByName (name : Text) : Except Failure RegisterInfo :=
  match (registerNames.zip gRegisterInfos).find? fun entry => text entry.1 == name with
  | none => .error (.raised "Cannot find register info")
  | some entry => .ok entry.2

/-- What the handlers take from outside: the texts of floating-point numbers, and what
variables hold before they are written. -/
structure Shell where
  floats : FloatTexts
  uninitialised : ∀ t : IntegerType, BitVec t.width

section Handlers

variable (sh : Shell)

def Shell.integral (t : IntegerType) (arg : Text) (base : ℕ := 10) : Option (BitVec t.width) :=
  toIntegral t (sh.uninitialised t) arg base

def u64 : IntegerType := ⟨64, false⟩

def u32 : IntegerType := ⟨32, false⟩

def i32 : IntegerType := ⟨32, true⟩

def handleThreadCommand (args : List Text) : Except Failure (List Request) :=
  if args.length < 2 then printHelp [text "help", text "thread"]
  else do
    let command ← argument args 1
    if isPrefix command (text "list") then .ok [.listThreads]
    else if isPrefix command (text "select") then
      if args.length ≠ 3 then printHelp [text "help", text "thread"]
      else do
        let arg ← argument args 2
        match sh.integral i32 arg with
        | none => .ok [.complain "Invalid thread id\n"]
        | some tid => .ok [.selectThread tid]
    else .ok []

def hardwareOf (args : List Text) : Except Failure Bool :=
  if args.length = 4 then do
    let arg ← argument args 3
    if arg = text "-h" then .ok true else .error (.raised "Invalid breakpoint command argument")
  else .ok false

/-- `handle_breakpoint_set_command`, which takes its argument to be there. -/
def handleBreakpointSetCommand (args : List Text) : Except Failure (List Request) := do
  let hardware ← hardwareOf args
  let arg ← argument args 2
  if (text "0x").isPrefixOf arg then
    match sh.integral u64 arg 16 with
    | none => .ok [.complain "Breakpoint command expects a hexidecimal address: 0x\n"]
    | some address => .ok [.setBreakpoint (.address address) hardware]
  else if arg.contains colon then do
    let data := split arg colon
    let path ← argument data 0
    let line ← argument data 1
    match sh.integral u64 line with
    | none => .ok [.complain "Line number should be an int\n"]
    | some line => .ok [.setBreakpoint (.line path line.toNat) hardware]
  else .ok [.setBreakpoint (.function arg) false]

def handleBreakpointCommand (args : List Text) : Except Failure (List Request) :=
  if args.length < 2 then printHelp [text "help", text "breakpoint"]
  else do
    let command ← argument args 1
    if isPrefix command (text "list") then .ok [.listSites]
    else if args.length < 3 then printHelp [text "help", text "breakpoint"]
    else do
      let arg ← argument args 2
      if isPrefix command (text "set") then
        match sh.integral u64 arg 16 with
        | none =>
          .ok [.complain "Breakpoint command expects address in hex format, prefixed with 0x\n"]
        | some address => do
          let hardware ← hardwareOf args
          .ok [.setSite address hardware]
      else
        match sh.integral u32 arg with
        | none => .ok [.complain "Command expects a breakpoint id\n"]
        | some id =>
          if isPrefix command (text "enable") then .ok [.enableSite id]
          else if isPrefix command (text "disable") then .ok [.disableSite id]
          else if isPrefix command (text "delete") then .ok [.deleteSite id]
          else .ok []

def syscallOf (item : Text) : Except Failure ℤ :=
  if item.head?.any (isDigit 10) then do
    let id ← valueOf (sh.integral i32 item)
    .ok id.toInt
  else syscallNameToId item

def handleSyscallCatchpointCommand (args : List Text) : Except Failure (List Request) :=
  if args.length = 3 ∧ args[2]? = some (text "none") then .ok [.catchSyscalls .none]
  else if 3 ≤ args.length then do
    let arg ← argument args 2
    let toCatch ← (split arg comma).mapM (syscallOf sh)
    .ok [.catchSyscalls (.some toCatch)]
  else .ok [.catchSyscalls .all]

def handleCatchpointCommand (args : List Text) : Except Failure (List Request) :=
  if args.length < 2 then printHelp [text "help", text "catchpoint"]
  else do
    let command ← argument args 1
    if isPrefix command (text "syscall") then handleSyscallCatchpointCommand sh args else .ok []

def modeOf (modeText : Text) : Option StoppointMode :=
  if modeText = text "write" then some .write
  else if modeText = text "rw" then some .readWrite
  else if modeText = text "execute" then some .execute
  else none

/-- `handle_watchpoint_set`, which gives `print_help` one word for two. -/
def handleWatchpointSet (args : List Text) : Except Failure (List Request) :=
  if args.length ≠ 5 then printHelp [text "help, watchpoint"]
  else do
    let addressText ← argument args 2
    let modeText ← argument args 3
    let sizeText ← argument args 4
    match sh.integral u64 addressText 16, sh.integral u64 sizeText, modeOf modeText with
    | some address, some size, some mode => .ok [.setWatchpoint address mode size.toNat]
    | _, _, _ => printHelp [text "help", text "watchpoint"]

/-- `handle_watchpoint_command`, which goes on behind `set`. -/
def handleWatchpointCommand (args : List Text) : Except Failure (List Request) :=
  if args.length < 2 then printHelp [text "help", text "watchpoint"]
  else do
    let command ← argument args 1
    if isPrefix command (text "list") then .ok [.listWatchpoints]
    else do
      let made ← (if isPrefix command (text "set") then handleWatchpointSet sh args else .ok [])
      if args.length < 3 then do
        let help ← printHelp [text "help", text "watchpoint"]
        .ok (made ++ help)
      else do
        let arg ← argument args 2
        match sh.integral u32 arg with
        | none => .ok (made ++ [.complain "Command expects watchpoint id"])
        | some id =>
          if isPrefix command (text "enable") then .ok (made ++ [.enableWatchpoint id])
          else if isPrefix command (text "disable") then .ok (made ++ [.disableWatchpoint id])
          else if isPrefix command (text "delete") then .ok (made ++ [.deleteWatchpoint id])
          else .ok made

def handleMemoryWriteCommand (args : List Text) : Except Failure (List Request) :=
  if args.length ≠ 4 then printHelp [text "help", text "memory"]
  else do
    let addressText ← argument args 2
    match sh.integral u64 addressText 16 with
    | none => .error (.raised "Invalid Address format")
    | some address => do
      let dataText ← argument args 3
      let data ← parseVector (sh.uninitialised ⟨8, false⟩) [0#8] dataText
      .ok [.writeMemory address data]

/-- What is left of a `std::size_t` that is stored in an `int` and read back. -/
def throughInt (n : BitVec 64) : ℕ := ((n.setWidth 32).signExtend 64).toNat

/-- `handle_memory_read_command`, whose `n_bytes` is an `int`. -/
def handleMemoryReadCommand (args : List Text) : Except Failure (List Request) := do
  let addressText ← argument args 2
  match sh.integral u64 addressText 16 with
  | none => .error (.raised "Invalid address format")
  | some address =>
    if args.length = 4 then do
      let bytesText ← argument args 3
      match sh.integral u64 bytesText with
      | none => .error (.raised "Invalid number of bytes")
      | some n => .ok [.readMemory address (throughInt n)]
    else .ok [.readMemory address 32]

def handleMemoryCommand (args : List Text) : Except Failure (List Request) :=
  if args.length < 3 then printHelp [text "help", text "memory"]
  else do
    let command ← argument args 1
    if isPrefix command (text "read") then handleMemoryReadCommand sh args
    else if isPrefix command (text "write") then handleMemoryWriteCommand sh args
    else printHelp [text "help", text "memory"]

def handleRegisterRead (args : List Text) : Except Failure (List Request) :=
  if args.length = 2 ∨ (args.length = 3 ∧ args[2]? = some (text "all")) then
    .ok [.readRegisters (args.length = 3)]
  else if args.length = 3 then do
    let name ← argument args 2
    match registerInfoByName name with
    | .ok info => .ok [.readRegister info]
    | .error _ => .ok [.complain "Invalid register name!\n"]
  else printHelp [text "help", text "registers"]

/-- `handle_register_write`: an error is printed. -/
def handleRegisterWrite (args : List Text) : Except Failure (List Request) :=
  if args.length ≠ 4 then printHelp [text "help", text "register"]
  else do
    let name ← argument args 2
    let valueText ← argument args 3
    let parsed := do
      let info ← registerInfoByName name
      let value ← parseRegisterValue sh.floats (sh.uninitialised ⟨8, false⟩) [0#8] info valueText
      .ok (info, value)
    match parsed with
    | .ok (info, value) => .ok [.writeRegister info value]
    | .error (.raised what) => .ok [.complain what]
    | .error e => .error e

/-- `handle_register_command`: the help comes behind a `read` as well. -/
def handleRegisterCommand (args : List Text) : Except Failure (List Request) :=
  if args.length < 2 then printHelp [text "help", text "register"]
  else do
    let command ← argument args 1
    let read ← (if isPrefix command (text "read") then handleRegisterRead args else .ok [])
    let rest ←
      (if isPrefix command (text "write") then handleRegisterWrite sh args
      else printHelp [text "help", text "register"])
    .ok (read ++ rest)

/-- `handle_command`; `print_help` is given the words of the line.  The second `step` is the
one of `step_in`. -/
def handleCommand (currentLine : Text) : Except Failure (List Request) := do
  -- the names in the order of the source
  let args := split currentLine space
  let command ← argument args 0
  if isPrefix command (text "help") then printHelp args
  else if isPrefix command (text "breakpoint") then handleBreakpointCommand sh args
  else if isPrefix command (text "list") then .ok [.listBreakpoints]
  else if isPrefix command (text "set") then handleBreakpointSetCommand sh args
  else if isPrefix command (text "continue") then .ok [.resume]
  else if isPrefix command (text "thread") then handleThreadCommand sh args
  else if isPrefix command (text "step") then .ok [.stepInstruction]
  else if isPrefix command (text "memory") then handleMemoryCommand sh args
  else if isPrefix command (text "register") then handleRegisterCommand sh args
  else if isPrefix command (text "disassemble") then .ok [.disassemble args.tail]
  else if isPrefix command (text "watchpoint") then handleWatchpointCommand sh args
  else if isPrefix command (text "catchpoint") then handleCatchpointCommand sh args
  else if isPrefix command (text "next") then .ok [.stepOver]
  else if isPrefix command (text "finish") then .ok [.stepOut]
  else if isPrefix command (text "step") then .ok [.stepIn]
  else if isPrefix command (text "stepi") then .ok [.stepInstruction]
  else if isPrefix command (text "up") then .ok [.up]
  else if isPrefix command (text "down") then .ok [.down]
  else if isPrefix command (text "backtrace") then .ok [.backtrace]
  else .ok [.complain "> Unknown Command entered.\n"]

end Handlers

end KDebugger.Tool
