import KDebugger.Tool.Dispatch
import Mathlib.Tactic.IntervalCases

namespace KDebugger.Tool

open Numerals ParseVector Abbreviations

/-- A value with the property, or an exception with a message. -/
def Stops {α : Type} (Q : α → Prop) : Except Failure α → Prop
  | .ok a => Q a
  | .error (.raised _) => True
  | .error _ => False

section Stops

variable {α β : Type} {Q : α → Prop} {Q' : β → Prop} {x y : Except Failure α}

theorem Stops.bind_of_eq {f : α → Except Failure β} (h : Stops Q x)
    (hf : ∀ a, x = .ok a → Q a → Stops Q' (f a)) : Stops Q' (x >>= f) := by
  cases x with
  | ok a => exact hf a rfl h
  | error e => cases e <;> exact h

theorem Stops.bind {f : α → Except Failure β} (h : Stops Q x) (hf : ∀ a, Q a → Stops Q' (f a)) :
    Stops Q' (x >>= f) := h.bind_of_eq fun a _ => hf a

theorem Stops.map {f : α → β} (h : Stops Q x) (hf : ∀ a, Q a → Q' (f a)) : Stops Q' (x.map f) := by
  cases x with
  | ok a => exact hf a h
  | error e => cases e <;> exact h

theorem stops_raised (what : String) : Stops Q (.error (.raised what)) := trivial

theorem stops_ite {c : Prop} [Decidable c] (hx : c → Stops Q x) (hy : ¬ c → Stops Q y) :
    Stops Q (if c then x else y) := by
  split_ifs with h
  · exact hx h
  · exact hy h

theorem Stops.ne_undefined (h : Stops Q x) : x ≠ .error .undefined := by
  rintro rfl
  exact h

end Stops

section Scanners

variable {u : Byte} {ch rest : List Byte}

/-- The characters up to a terminator. -/
def Ended (ch : List Byte) : Prop := ch.getLast? = some 0#8

theorem Ended.ne_nil (h : Ended ch) : ch ≠ [] := by
  rintro rfl
  cases h

theorem Ended.of_append {p : List Byte} (h : Ended (p ++ rest)) (hne : rest ≠ []) : Ended rest := by
  unfold Ended at h
  rwa [List.getLast?_append_of_ne_nil _ hne] at h

/-- What is behind a character other than the terminator. -/
theorem Ended.tail {c : Byte} (h : Ended (c :: rest)) (hc : c ≠ 0#8) : Ended rest := by
  have hne : rest ≠ [] := by
    rintro rfl
    exact hc (Option.some.inj h)
  exact Ended.of_append (p := [c]) h hne

theorem ended_concat (text : Text) : Ended (text ++ [0#8]) := by simp [Ended]

theorem not_digits_ended (h : Ended ch) : ¬ Digits ch := by
  intro hdigits
  have hlast : (0#8 : Byte) ∈ ch := List.mem_of_getLast? h
  have hmem : (0#8 : Byte) ∈ skipPrefix 16 ch := by
    unfold skipPrefix
    split
    · next c d rest =>
      split_ifs with hprefix
      · obtain ⟨-, rfl, rfl⟩ := hprefix
        simpa [zeroChar, xChar] using hlast
      · exact hlast
    · exact hlast
  exact absurd (hdigits _ hmem) (by decide)

theorem nextByte_ended (h : Ended ch) : Stops (fun r => Ended r.2) (nextByte u ch) := by
  obtain ⟨p, rest, hp, rfl⟩ | ⟨-, hdigits⟩ | ⟨what, hraised⟩ := nextByte_cases u ch
  · rw [nextByte_piece u hp rest]
    refine h.of_append fun hnil => ?_
    rw [hnil, List.append_nil] at h
    exact not_digits_ended h hp.digits
  · exact absurd hdigits (not_digits_ended h)
  · rw [hraised]
    trivial

theorem expect_ended {c : Byte} (hc : c ≠ 0#8) (h : Ended ch) : Stops Ended (expect c ch) := by
  cases ch with
  | nil => exact absurd rfl h.ne_nil
  | cons d rest =>
    refine stops_ite (fun hd => ?_) fun _ => stops_raised _
    exact h.tail (hd ▸ hc)

theorem skipComma_ended (h : Ended ch) : Stops Ended (skipComma ch) := by
  cases ch with
  | nil => exact absurd rfl h.ne_nil
  | cons c rest =>
    refine stops_ite (fun hc => ?_) fun _ => stops_ite (fun _ => h) fun _ => stops_raised _
    exact h.tail (by rw [hc]; decide)

/-- The loop of `parse_vector`, by the characters that are left. -/
theorem untilClose_ended (n : ℕ) : ∀ {ch : List Byte}, ch.length ≤ n → Ended ch →
    Stops (fun r => Ended r.2) (untilClose u ch) := by
  induction n with
  | zero =>
    intro ch hlength h
    exact absurd (List.length_eq_zero_iff.mp (by omega)) h.ne_nil
  | succ n ih =>
    intro ch hlength h
    cases ch with
    | nil => exact absurd rfl h.ne_nil
    | cons c ch =>
      by_cases hc : c = closeChar
      · rw [hc, untilClose_closeChar]
        exact hc ▸ h
      · rw [untilClose_cons u hc]
        refine (nextByte_ended h).bind_of_eq fun (b, behind) hread hbehind =>
          (skipComma_ended hbehind).bind_of_eq fun next hskip hnext => ?_
        have hshorter := length_of_nextByte hread
        have hle : next.length ≤ behind.length := length_of_skipComma hskip
        rw [List.length_cons] at hlength hshorter
        exact (ih (by omega) hnext).map fun r hr => hr

/-- `parse_vector` of a string does not leave it. -/
theorem parseVector_ended (u : Byte) (text : Text) :
    Stops (fun _ => True) (parseVector u [0#8] text) := by
  have hended := ended_concat text
  unfold parseVector
  cases hch : text ++ [0#8] with
  | nil => exact absurd hch (by simp)
  | cons c ch =>
    rw [hch] at hended
    refine stops_ite (fun _ => stops_raised _) fun hopen => ?_
    have hc : c ≠ 0#8 := by
      rintro rfl
      exact hopen (by decide)
    exact (untilClose_ended _ le_rfl (hended.tail hc)).bind fun r _ =>
      stops_ite (fun _ => stops_raised _) fun _ => trivial

theorem separated_ended (n : ℕ) : ∀ {ch : List Byte}, Ended ch →
    Stops (fun r => Ended r.2) (separated u n ch) := by
  induction n with
  | zero => exact fun h => h
  | succ n ih =>
    intro ch h
    rw [separated]
    exact (nextByte_ended h).bind fun read hread =>
      (expect_ended (by decide) hread).bind fun next hnext => (ih hnext).bind fun r hr => hr

/-- Nor does `parse_vector<N>`. -/
theorem parseVectorOf_ended (n : ℕ) (u : Byte) (text : Text) :
    Stops (fun _ => True) (parseVectorOf n u [0#8] text) := by
  unfold parseVectorOf
  exact (expect_ended (by decide) (ended_concat text)).bind fun ch hch =>
    (separated_ended _ hch).bind fun r hr => (nextByte_ended hr).bind fun last hlast =>
      (expect_ended (by decide) hlast).bind fun left _ =>
        stops_ite (fun _ => stops_raised _) fun _ => trivial

theorem stops_valueOf {α : Type} (o : Option α) : Stops (fun _ => True) (valueOf o) := by
  cases o <;> trivial

theorem stops_parseRegisterValue (floats : FloatTexts) (u : Byte) (info : RegisterInfo)
    (text : Text) : Stops (fun _ => True) (parseRegisterValue floats u [0#8] info text) := by
  have hinteger : Stops (fun _ => True) (do
      return some (Value.u8 (← valueOf (toIntegral ⟨8, false⟩ u text 16)))) :=
    (stops_valueOf _).bind fun _ _ => trivial
  have hparsed : Stops (fun _ => True) (parsedValue floats u [0#8] info text) := by
    unfold parsedValue
    cases info.format with
    | uint =>
      iterate 4 refine stops_ite (fun _ => hinteger) fun _ => ?_
      trivial
    | doubleFloat => exact (stops_valueOf _).bind fun _ _ => trivial
    | longDouble => exact (stops_valueOf _).bind fun _ _ => trivial
    | vector =>
      refine stops_ite (fun _ => (parseVectorOf_ended 8 u text).bind fun _ _ => trivial) fun _ => ?_
      refine stops_ite (fun _ => (parseVectorOf_ended 16 u text).bind fun _ _ => trivial) fun _ => ?_
      trivial
  unfold parseRegisterValue
  split
  · trivial
  · next heq => exact absurd heq hparsed.ne_undefined
  · trivial

end Scanners

section Handlers

variable (sh : Shell) {args : List Text}

/-- What is asked for, or an exception with a message. -/
abbrev Answers (x : Except Failure (List Request)) : Prop := Stops (fun _ => True) x

theorem stops_argument {i : ℕ} (h : i < args.length) :
    Stops (fun arg => args[i]? = some arg) (argument args i) := by
  unfold argument
  rw [List.getElem?_eq_getElem h]
  rfl

theorem answers_printHelp (h : args ≠ []) : Answers (printHelp args) := by
  unfold printHelp
  refine stops_ite (fun _ => trivial) fun hmany => ?_
  have hpos := List.length_pos_iff.mpr h
  refine (stops_argument (by omega)).bind fun topic _ => ?_
  iterate 7 refine stops_ite (fun _ => trivial) fun _ => ?_
  trivial

theorem answers_thread : Answers (handleThreadCommand sh args) := by
  refine stops_ite (fun _ => answers_printHelp (by simp)) fun hmany => ?_
  refine (stops_argument (by omega)).bind fun command _ => ?_
  refine stops_ite (fun _ => trivial) fun _ => stops_ite (fun _ => ?_) fun _ => trivial
  refine stops_ite (fun _ => answers_printHelp (by simp)) fun hthree => ?_
  refine (stops_argument (by omega)).bind fun arg _ => ?_
  cases sh.integral i32 arg <;> trivial

theorem stops_hardwareOf : Stops (fun _ => args.length = 4 → args[3]? = some (text "-h"))
    (hardwareOf args) := by
  refine stops_ite (fun hfour => ?_) fun hfour h => absurd h hfour
  refine (stops_argument (by omega)).bind fun arg harg => ?_
  refine stops_ite (fun h => ?_) fun _ => stops_raised _
  exact fun _ => h ▸ harg

theorem answers_breakpoint : Answers (handleBreakpointCommand sh args) := by
  refine stops_ite (fun _ => answers_printHelp (by simp)) fun hmany => ?_
  refine (stops_argument (by omega)).bind fun command _ => ?_
  refine stops_ite (fun _ => trivial) fun _ => ?_
  refine stops_ite (fun _ => answers_printHelp (by simp)) fun hmore => ?_
  refine (stops_argument (by omega)).bind fun arg _ => stops_ite (fun _ => ?_) fun _ => ?_
  · cases sh.integral u64 arg 16 with
    | none => trivial
    | some address => exact stops_hardwareOf.bind fun hardware _ => trivial
  · cases sh.integral u32 arg with
    | none => trivial
    | some id =>
      iterate 3 refine stops_ite (fun _ => trivial) fun _ => ?_
      trivial

theorem answers_memory : Answers (handleMemoryCommand sh args) := by
  refine stops_ite (fun _ => answers_printHelp (by simp)) fun hmany => ?_
  refine (stops_argument (by omega)).bind fun command _ => stops_ite (fun _ => ?_) fun _ =>
    stops_ite (fun _ => ?_) fun _ => answers_printHelp (by simp)
  · refine (stops_argument (by omega)).bind fun addressText _ => ?_
    cases sh.integral u64 addressText 16 with
    | none => exact stops_raised _
    | some address =>
      refine stops_ite (fun hfour => ?_) fun _ => trivial
      refine (stops_argument (by omega)).bind fun bytesText _ => ?_
      cases sh.integral u64 bytesText with
      | none => exact stops_raised _
      | some n => trivial
  · refine stops_ite (fun _ => answers_printHelp (by simp)) fun hfour => ?_
    refine (stops_argument (by omega)).bind fun addressText _ => ?_
    cases sh.integral u64 addressText 16 with
    | none => exact stops_raised _
    | some address =>
      refine (stops_argument (by omega)).bind fun dataText _ => ?_
      exact (parseVector_ended _ dataText).bind fun data _ => trivial

theorem answers_register : Answers (handleRegisterCommand sh args) := by
  refine stops_ite (fun _ => answers_printHelp (by simp)) fun hmany => ?_
  refine (stops_argument (by omega)).bind fun command _ => ?_
  have hread : Answers (handleRegisterRead args) := by
    refine stops_ite (fun _ => trivial) fun _ => stops_ite (fun hthree => ?_) fun _ =>
      answers_printHelp (by simp)
    refine (stops_argument (by omega)).bind fun name _ => ?_
    cases registerInfoByName name <;> trivial
  have hwrite : Answers (handleRegisterWrite sh args) := by
    refine stops_ite (fun _ => answers_printHelp (by simp)) fun hfour => ?_
    refine (stops_argument (by omega)).bind fun name _ => ?_
    refine (stops_argument (by omega)).bind fun valueText _ => ?_
    have hparsed : Stops (fun _ => True) (do
        let info ← registerInfoByName name
        let value ← parseRegisterValue sh.floats (sh.uninitialised ⟨8, false⟩) [0#8] info valueText
        .ok (info, value)) := by
      have hinfo : Stops (fun _ => True) (registerInfoByName name) := by
        unfold registerInfoByName
        split <;> trivial
      exact hinfo.bind fun info _ =>
        (stops_parseRegisterValue sh.floats _ info valueText).bind fun value _ => trivial
    dsimp only
    split
    · trivial
    · trivial
    · next e hno heq =>
      rw [heq] at hparsed
      cases e with
      | raised what => trivial
      | _ => exact hparsed
  have hfirst : Answers (if isPrefix command (text "read") then handleRegisterRead args
      else .ok []) := stops_ite (fun _ => hread) fun _ => trivial
  have hsecond : Answers (if isPrefix command (text "write") then handleRegisterWrite sh args
      else printHelp [text "help", text "register"]) :=
    stops_ite (fun _ => hwrite) fun _ => answers_printHelp (by simp)
  exact hfirst.bind fun read _ => hsecond.bind fun rest _ => trivial

theorem answers_watchpoint : Answers (handleWatchpointCommand sh args) := by
  refine stops_ite (fun _ => answers_printHelp (by simp)) fun hmany => ?_
  refine (stops_argument (by omega)).bind fun command _ => stops_ite (fun _ => trivial) fun _ => ?_
  have hset : Answers (handleWatchpointSet sh args) := by
    refine stops_ite (fun _ => answers_printHelp (by simp)) fun hfive => ?_
    refine (stops_argument (by omega)).bind fun addressText _ => ?_
    refine (stops_argument (by omega)).bind fun modeText _ => ?_
    refine (stops_argument (by omega)).bind fun sizeText _ => ?_
    split
    · trivial
    · exact answers_printHelp (by simp)
  have hmade : Answers (if isPrefix command (text "set") then handleWatchpointSet sh args
      else .ok []) := stops_ite (fun _ => hset) fun _ => trivial
  refine hmade.bind fun made _ => stops_ite (fun _ => ?_) fun hmore => ?_
  · exact (answers_printHelp (by simp)).bind fun help _ => trivial
  · refine (stops_argument (by omega)).bind fun arg _ => ?_
    cases sh.integral u32 arg with
    | none => trivial
    | some id =>
      iterate 3 refine stops_ite (fun _ => trivial) fun _ => ?_
      trivial

theorem stops_syscallOf (item : Text) : Stops (fun _ => True) (syscallOf sh item) := by
  refine stops_ite (fun _ => (stops_valueOf _).bind fun _ _ => trivial) fun _ => ?_
  unfold syscallNameToId
  split <;> trivial

theorem stops_mapM {α β : Type} {f : α → Except Failure β} (h : ∀ a, Stops (fun _ => True) (f a))
    (as : List α) : Stops (fun _ => True) (as.mapM f) := by
  induction as with
  | nil => trivial
  | cons a as ih =>
    rw [List.mapM_cons]
    exact (h a).bind fun b _ => ih.bind fun bs _ => trivial

theorem answers_catchpoint : Answers (handleCatchpointCommand sh args) := by
  refine stops_ite (fun _ => answers_printHelp (by simp)) fun hmany => ?_
  refine (stops_argument (by omega)).bind fun command _ => stops_ite (fun _ => ?_) fun _ => trivial
  refine stops_ite (fun _ => trivial) fun _ => stops_ite (fun hthree => ?_) fun _ => trivial
  refine (stops_argument (by omega)).bind fun arg _ => ?_
  exact (stops_mapM (stops_syscallOf sh) _).bind fun toCatch _ => trivial

end Handlers

/-- What is behind the first delimiter is missing if it ends the text. -/
theorem argument_split_one {del : Byte} {arg : Text} (h : del ∈ arg) :
    argument (split arg del) 1 = .error .undefined ↔ ∃ path, del ∉ path ∧ arg = path ++ [del] := by
  obtain ⟨path, rest, rfl, hpath⟩ := List.eq_append_cons_of_mem h
  rw [split_delimiter hpath]
  cases hrest : split rest del with
  | nil =>
    rw [split_eq_nil_iff.mp hrest]
    exact ⟨fun _ => ⟨path, hpath, rfl⟩, fun _ => rfl⟩
  | cons item items =>
    refine ⟨nofun, fun ⟨other, hother, heq⟩ => ?_⟩
    -- a delimiter that is last and in front of others is in the middle of `other`
    have hne : rest ≠ [] := by
      intro hnil
      rw [split_eq_nil_iff.mpr hnil] at hrest
      exact List.cons_ne_nil _ _ hrest.symm
    have hlast : path ++ del :: rest.dropLast = other := by
      have hdrop := congrArg List.dropLast heq
      rwa [List.dropLast_concat, List.dropLast_append_of_ne_nil (by simp),
        List.dropLast_cons_of_ne_nil hne] at hdrop
    exact absurd (hlast ▸ List.mem_append_right path List.mem_cons_self) hother

/-- The words of a `set` without an argument, or with a file whose line is missing. -/
def SetOverruns (args : List Text) : Prop :=
  args.length < 3 ∨ ∃ path, args[2]? = some (path ++ [colon]) ∧ colon ∉ path ∧
    ¬ text "0x" <+: path ++ [colon] ∧ (args.length = 4 → args[3]? = some (text "-h"))

/-- The hardware flag is read where it is, or an exception says that it is another word. -/
theorem hardwareOf_cases (args : List Text) :
    (∃ hardware, hardwareOf args = .ok hardware ∧
      (args.length = 4 → args[3]? = some (text "-h"))) ∨
    (∃ what, hardwareOf args = .error (.raised what)) ∧ args.length = 4 ∧
      args[3]? ≠ some (text "-h") := by
  unfold hardwareOf
  split_ifs with hfour
  · have hthree : 3 < args.length := by omega
    have harg : argument args 3 = .ok args[3] := by
      rw [argument, List.getElem?_eq_getElem hthree]
    rw [harg, List.getElem?_eq_getElem hthree]
    show (∃ hardware, (if args[3] = text "-h" then _ else _) = _ ∧ _) ∨ _
    by_cases hword : args[3] = text "-h"
    · exact .inl ⟨true, if_pos hword, fun _ => congrArg some hword⟩
    · refine .inr ⟨⟨_, if_neg hword⟩, hfour, fun h => hword (Option.some.inj h)⟩
  · exact .inl ⟨false, rfl, fun h => absurd h hfour⟩

theorem handleBreakpointSetCommand_undefined (sh : Shell) (args : List Text) :
    handleBreakpointSetCommand sh args = .error .undefined ↔ SetOverruns args := by
  -- the third word is used uncounted, and so is what stands behind its colon
  unfold handleBreakpointSetCommand
  rw [SetOverruns]
  obtain ⟨hardware, hok, hword⟩ | ⟨⟨what, hraised⟩, hfour, hword⟩ := hardwareOf_cases args
  · rw [hok]
    show (argument args 2 >>= _) = _ ↔ _
    rw [argument]
    cases harg : args[2]? with
    | none =>
      have hfew := List.getElem?_eq_none_iff.mp harg
      exact iff_of_true rfl (.inl (by omega))
    | some arg =>
      have hmany : ¬ args.length < 3 := by
        have := (List.getElem?_eq_some_iff.mp harg).1
        omega
      show (if (text "0x").isPrefixOf arg then _ else _) = _ ↔ _
      simp only [hmany, false_or, Option.some.injEq, List.isPrefixOf_iff_prefix]
      split_ifs with hhex hcolon
      · -- an address, whether it can be read or not
        refine iff_of_false (fun h => ?_) fun h => ?_
        · cases haddr : sh.integral u64 arg 16 with
          | none => rw [haddr] at h; cases h
          | some address => rw [haddr] at h; cases h
        · obtain ⟨path, heq, _, hno, _⟩ := h
          exact hno (heq ▸ hhex)
      · -- the file is there; the line need not be
        have hcolon : colon ∈ arg := List.contains_iff_mem.mp hcolon
        have hfile : ∃ path, argument (split arg colon) 0 = .ok path := by
          cases hsplit : split arg colon with
          | nil =>
            rw [split_eq_nil_iff.mp hsplit] at hcolon
            exact absurd hcolon List.not_mem_nil
          | cons path _ => exact ⟨path, rfl⟩
        obtain ⟨path, hpath⟩ := hfile
        rw [hpath]
        show (argument (split arg colon) 1 >>= _) = _ ↔ _
        have hline := argument_split_one hcolon
        cases hone : argument (split arg colon) 1 with
        | error e =>
          have hundefined : e = .undefined := by
            rw [argument] at hone
            split at hone
            · exact (Except.error.inj hone).symm
            · cases hone
          rw [hone, hundefined] at hline
          obtain ⟨other, hother, heq⟩ := hline.mp rfl
          rw [hundefined]
          exact iff_of_true rfl ⟨other, heq, hother, heq ▸ hhex, hword⟩
        | ok line =>
          rw [hone] at hline
          refine iff_of_false (fun h => ?_) fun h => ?_
          · dsimp only [bind, Except.bind] at h
            cases hnumber : sh.integral u64 line with
            | none => rw [hnumber] at h; cases h
            | some number => rw [hnumber] at h; cases h
          · obtain ⟨other, heq, hother, _⟩ := h
            cases hline.mpr ⟨other, hother, heq⟩
      · refine iff_of_false (fun h => ?_) fun h => ?_
        · cases h
        · obtain ⟨path, heq, _⟩ := h
          exact hcolon (List.contains_iff_mem.mpr (by simp [heq]))
  · -- the fourth word is looked at before the place
    rw [hraised]
    refine iff_of_false (fun h => ?_) fun h => ?_
    · cases h
    obtain hfew | ⟨path, _, _, _, h⟩ := h
    · omega
    · exact hword (h hfour)

/-- A line reads outside its words if there are none, and if it sets a breakpoint and does not
say where: by `s`, `se` or `set` only. -/
theorem handleCommand_undefined_iff (sh : Shell) (currentLine : Text) :
    handleCommand sh currentLine = .error .undefined ↔
      currentLine = [] ∨ ∃ command rest, split currentLine space = command :: rest ∧
        command ≠ [] ∧ command <+: text "set" ∧ SetOverruns (command :: rest) := by
  cases hargs : split currentLine space with
  | nil =>
    rw [handleCommand_eq, hargs, split_eq_nil_iff.mp hargs]
    exact iff_of_true rfl (.inl rfl)
  | cons command rest =>
    have hline : currentLine ≠ [] := by
      intro hnil
      rw [split_eq_nil_iff.mpr hnil] at hargs
      exact List.cons_ne_nil _ _ hargs.symm
    have hset : select commandNames command = some 3 ↔ command ≠ [] ∧ command <+: text "set" := by
      rw [select_eq_some_iff]
      show (∃ name, some (text "set") = some name ∧ command <+: name ∧
        letters (commandNames.take 3) name ≤ command.length) ↔ _
      have hone : letters (commandNames.take 3) (text "set") = 1 := by decide
      simp only [Option.some.injEq, exists_eq_left', hone, ← List.length_pos_iff]
      exact and_comm
    have hothers : ∀ i, i ≠ 3 → ((commandHandlers sh (command :: rest))[i]?).getD unknownCommand ≠
        .error .undefined := by
      intro i hi hno
      by_cases hlt : i < 19
      · interval_cases i
        · exact (answers_printHelp (by simp)).ne_undefined hno
        · exact (answers_breakpoint sh).ne_undefined hno
        · cases hno
        · exact absurd rfl hi
        · cases hno
        · exact (answers_thread sh).ne_undefined hno
        · cases hno
        · exact (answers_memory sh).ne_undefined hno
        · exact (answers_register sh).ne_undefined hno
        · cases hno
        · exact (answers_watchpoint sh).ne_undefined hno
        · exact (answers_catchpoint sh).ne_undefined hno
        all_goals cases hno
      · rw [List.getElem?_eq_none (by simpa [commandHandlers] using hlt)] at hno
        cases hno
    have hsame : (currentLine = [] ∨ ∃ command' rest', command :: rest = command' :: rest' ∧
        command' ≠ [] ∧ command' <+: text "set" ∧ SetOverruns (command' :: rest')) ↔
        select commandNames command = some 3 ∧ SetOverruns (command :: rest) := by
      rw [hset, and_assoc]
      refine ⟨fun h => ?_, fun h => .inr ⟨command, rest, rfl, h⟩⟩
      obtain h | ⟨_, _, heq, h⟩ := h
      · exact absurd h hline
      · obtain ⟨rfl, rfl⟩ := List.cons.inj heq
        exact h
    rw [hsame, handleCommand_eq, hargs, handleWords_selected rfl]
    cases hselect : select commandNames command with
    | none =>
      refine iff_of_false (fun h => ?_) fun h => ?_
      · cases h
      · cases h.1
    | some i =>
      by_cases hi : i = 3
      · rw [hi]
        show handleBreakpointSetCommand sh (command :: rest) = _ ↔ _
        rw [handleBreakpointSetCommand_undefined]
        exact ⟨fun h => ⟨rfl, h⟩, fun h => h.2⟩
      · exact iff_of_false (hothers i hi) fun h => hi (Option.some.inj h.1)

end KDebugger.Tool
