import KDebugger.Abbreviations
import KDebugger.Tool.CommandLine

namespace KDebugger.Tool

open Abbreviations

theorem isPrefix_eq (str strOf : Text) : isPrefix str strOf = str.isPrefixOf strOf := by
  rw [Bool.eq_iff_iff, List.isPrefixOf_iff_prefix, List.prefix_iff_eq_take, isPrefix]
  split_ifs with hlong
  · refine ⟨fun h => h.elim, fun h => ?_⟩
    have hlength := congrArg List.length h
    rw [List.length_take] at hlength
    omega
  · rw [beq_iff_eq]
    exact eq_comm

section Table

variable {R : Type}

def runFirst (otherwise : R) (command : Text) : List (Text × R) → R
  | [] => otherwise
  | (name, result) :: rest =>
    if isPrefix command name then result else runFirst otherwise command rest

theorem runFirst_eq (otherwise : R) (command : Text) (table : List (Text × R)) :
    runFirst otherwise command table =
      match select (table.map Prod.fst) command with
      | none => otherwise
      | some i => (table[i]?.map Prod.snd).getD otherwise := by
  -- by induction on the names above it
  induction table with
  | nil => rfl
  | cons entry table ih =>
    rw [runFirst, isPrefix_eq, select, List.map_cons, List.findIdx?_cons]
    cases hhead : command.isPrefixOf entry.1 with
    | true => rfl
    | false =>
      rw [if_neg Bool.false_ne_true, if_neg Bool.false_ne_true, ih, select]
      cases (table.map Prod.fst).findIdx? fun name => command.isPrefixOf name <;> rfl

end Table

/-- The names in `handle_command`, from the top. -/
def commandNames : List Text :=
  [text "help", text "breakpoint", text "list", text "set", text "continue", text "thread",
    text "step", text "memory", text "register", text "disassemble", text "watchpoint",
    text "catchpoint", text "next", text "finish", text "step", text "stepi", text "up",
    text "down", text "backtrace"]

def commandLetters : List ℕ := [0, 1, 1, 1, 1, 1, 2, 1, 1, 1, 1, 2, 1, 1, 5, 5, 1, 2, 2]

variable (sh : Shell)

def commandHandlers (args : List Text) : List (Except Failure (List Request)) :=
  [printHelp args, handleBreakpointCommand sh args, .ok [.listBreakpoints],
    handleBreakpointSetCommand sh args, .ok [.resume], handleThreadCommand sh args,
    .ok [.stepInstruction], handleMemoryCommand sh args, handleRegisterCommand sh args,
    .ok [.disassemble args.tail], handleWatchpointCommand sh args, handleCatchpointCommand sh args,
    .ok [.stepOver], .ok [.stepOut], .ok [.stepIn], .ok [.stepInstruction], .ok [.up], .ok [.down],
    .ok [.backtrace]]

def unknownCommand : Except Failure (List Request) := .ok [.complain "> Unknown Command entered.\n"]

/-- `handle_command`, behind `split`. -/
def handleWords (args : List Text) : Except Failure (List Request) :=
  (argument args 0).bind fun command =>
    runFirst unknownCommand command (commandNames.zip (commandHandlers sh args))

theorem handleCommand_eq (currentLine : Text) :
    handleCommand sh currentLine = handleWords sh (split currentLine space) := rfl

theorem commandLetters_eq (i : ℕ) (name : Text) (h : commandNames[i]? = some name) :
    commandLetters[i]? = some (letters (commandNames.take i) name) := by
  have hall : ∀ i : Fin 19, ∀ name, commandNames[i.val]? = some name →
      commandLetters[i.val]? = some (letters (commandNames.take i.val) name) := by
    intro i name hname
    obtain ⟨hi, rfl⟩ := List.getElem?_eq_some_iff.mp hname
    revert i
    decide
  have hi : i < 19 := (List.getElem?_eq_some_iff.mp h).1
  exact hall ⟨i, hi⟩ name h

variable {sh} {currentLine command : Text}

theorem handleWords_selected {args : List Text} (hcommand : args.head? = some command) :
    handleWords sh args =
      match select commandNames command with
      | none => unknownCommand
      | some i => ((commandHandlers sh args)[i]?).getD unknownCommand := by
  have hfirst : argument args 0 = .ok command := by
    rw [List.head?_eq_getElem?] at hcommand
    rw [argument, hcommand]
  have hnames : (commandNames.zip (commandHandlers sh args)).map Prod.fst = commandNames := rfl
  have hhandlers : (commandNames.zip (commandHandlers sh args)).map Prod.snd =
      commandHandlers sh args := rfl
  rw [handleWords, hfirst]
  change runFirst _ _ _ = _
  rw [runFirst_eq, hnames]
  cases select commandNames command with
  | none => rfl
  | some i =>
    change ((commandNames.zip (commandHandlers sh args))[i]?.map Prod.snd).getD unknownCommand = _
    rw [← List.getElem?_map, hhandlers]

/-- A command is run by the prefixes of its name that have the letters it takes, and by no
other words. -/
theorem handleCommand_letters {args : List Text} (hargs : split currentLine space = args)
    (hcommand : args.head? = some command) :
    (∀ (i : ℕ) name n handler, commandNames[i]? = some name → commandLetters[i]? = some n →
      (commandHandlers sh args)[i]? = some handler → command <+: name → n ≤ command.length →
        handleCommand sh currentLine = handler) ∧
    ((∀ (i : ℕ) name n, commandNames[i]? = some name → commandLetters[i]? = some n →
      command <+: name → command.length < n) →
        handleCommand sh currentLine = unknownCommand) := by
  rw [handleCommand_eq, hargs, handleWords_selected hcommand]
  constructor
  · intro i name n handler hname hn hhandler hprefix hletters
    obtain rfl := Option.some.inj ((commandLetters_eq i name hname).symm.trans hn)
    rw [select_eq_some_iff.mpr ⟨name, hname, hprefix, hletters⟩]
    show (commandHandlers sh args)[i]?.getD unknownCommand = handler
    rw [hhandler, Option.getD_some]
  · intro hno
    cases hselect : select commandNames command with
    | none => rfl
    | some i =>
      obtain ⟨name, hname, hprefix, hletters⟩ := select_eq_some_iff.mp hselect
      have hlt := hno i name _ hname (commandLetters_eq i name hname) hprefix
      omega

def plainShell : Shell := ⟨⟨fun _ => [], fun _ => [], fun _ => [], fun _ => none, fun _ => none⟩, fun _ => 0⟩

/-- `st` is a `step`; one letter is a `set`. -/
theorem handleCommand_letters_step : handleCommand plainShell (text "st") = .ok [.stepInstruction] :=
  (handleCommand_letters rfl rfl).1 6 (text "step") 2 _ rfl rfl rfl (by decide) (by decide)

end KDebugger.Tool
