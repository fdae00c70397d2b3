import KDebugger.Tool.Dispatch
import KDebugger.TypedIntegers
import Mathlib.Tactic.IntervalCases

namespace KDebugger.Tool

open Abbreviations Exec Numerals ParseVector Words

/-- The lines on `std::cerr`. -/
def complaints : List String :=
  ["Invalid thread id\n", "Breakpoint command expects a hexidecimal address: 0x\n",
    "Line number should be an int\n",
    "Breakpoint command expects address in hex format, prefixed with 0x\n",
    "Command expects a breakpoint id\n", "Command expects watchpoint id",
    "Invalid register name!\n", "Cannot find register info", "Invalid format!\n",
    "> Unknown Command entered.\n"]

/-- The values that `register write` can be given for a register. -/
def Writable (floats : FloatTexts) (info : RegisterInfo) (value : Value) : Prop :=
  match info.format with
  | .uint => ∃ b, value = .u8 b
  | .doubleFloat => ∃ word v, space ∉ word ∧ floats.toDouble word = some v ∧ value = .double v
  | .longDouble =>
    ∃ word v, space ∉ word ∧ floats.toLongDouble word = some v ∧ value = .longDouble v
  | .vector =>
    (info.size = 8 ∧ ∃ b, value = .byte64 b) ∨ (info.size = 16 ∧ ∃ b, value = .byte128 b)

/-- The requests that a line can give.  The number of a system call that does not fit is what
the variable held before. -/
def Typable (sh : Shell) : Request → Prop
  | .complain message => message ∈ complaints
  | .setBreakpoint (.function name) hardware =>
    hardware = false ∧ space ∉ name ∧ colon ∉ name ∧ ¬ text "0x" <+: name
  | .setBreakpoint (.line path line) _ =>
    space ∉ path ∧ colon ∉ path ∧ ¬ text "0x" <+: path ∧ line < 2 ^ 64
  | .readMemory _ amount => amount < 2 ^ 31 ∨ (2 ^ 64 - 2 ^ 31 ≤ amount ∧ amount < 2 ^ 64)
  | .readRegister info => info ∈ gRegisterInfos
  | .writeRegister info value => info ∈ gRegisterInfos ∧ Writable sh.floats info value
  | .disassemble args => ∀ arg ∈ args, space ∉ arg
  | .setWatchpoint _ _ size => size < 2 ^ 64
  | .catchSyscalls (.some ids) =>
    ∀ id ∈ ids, (0 ≤ id ∧ id < 2 ^ 31) ∨ id = (sh.uninitialised i32).toInt
  | .stepIn => False
  | _ => True

/-- Every request that is given can be typed. -/
def Gives (sh : Shell) (x : Except Failure (List Request)) : Prop :=
  ∀ requests, x = .ok requests → ∀ r ∈ requests, Typable sh r

section Gives

variable {sh : Shell} {x y : Except Failure (List Request)} {args : List Text}

theorem gives_error (e : Failure) : Gives sh (.error e) := nofun

theorem gives_ok {requests : List Request} (h : ∀ r ∈ requests, Typable sh r) :
    Gives sh (.ok requests) := by
  intro requests' heq
  rwa [← Except.ok.inj heq]

theorem gives_one {r : Request} (h : Typable sh r) : Gives sh (.ok [r]) := gives_ok (by simpa using h)

theorem gives_none : Gives sh (.ok []) := gives_ok (by simp)

theorem gives_ite {c : Prop} [Decidable c] (hx : c → Gives sh x) (hy : ¬ c → Gives sh y) :
    Gives sh (if c then x else y) := by
  split_ifs with hc
  · exact hx hc
  · exact hy hc

theorem gives_bind {α : Type} {x : Except Failure α} {f : α → Except Failure (List Request)}
    (h : ∀ a, x = .ok a → Gives sh (f a)) : Gives sh (x >>= f) := by
  cases hx : x with
  | error e => exact gives_error e
  | ok a => exact h a hx

/-- What is typed besides comes behind what there is. -/
theorem gives_append {made : List Request} (hmade : ∀ r ∈ made, Typable sh r) {r : Request}
    (hr : Typable sh r) : Gives sh (.ok (made ++ [r])) := by
  refine gives_ok fun r' hr' => ?_
  obtain hr' | hr' := List.mem_append.mp hr'
  · exact hmade r' hr'
  · rwa [List.mem_singleton.mp hr']

theorem argument_mem {i : ℕ} {w : Text} (h : argument args i = .ok w) : w ∈ args := by
  unfold argument at h
  split at h
  · cases h
  · next hi =>
    rw [← Except.ok.inj h]
    exact List.mem_of_getElem? hi

theorem gives_printHelp (args : List Text) : Gives sh (printHelp args) := by
  unfold printHelp
  refine gives_ite (fun _ => gives_one trivial) fun _ => gives_bind fun topic _ => ?_
  iterate 7 refine gives_ite (fun _ => gives_one trivial) fun _ => ?_
  exact gives_one trivial

theorem gives_thread (args : List Text) : Gives sh (handleThreadCommand sh args) := by
  unfold handleThreadCommand
  refine gives_ite (fun _ => gives_printHelp _) fun _ => gives_bind fun command _ =>
    gives_ite (fun _ => gives_one trivial) fun _ => gives_ite (fun _ => ?_) fun _ => gives_none
  refine gives_ite (fun _ => gives_printHelp _) fun _ => gives_bind fun arg _ => ?_
  cases sh.integral i32 arg with
  | none => exact gives_one (by simp [Typable, complaints])
  | some tid => exact gives_one trivial

theorem gives_breakpointSet (hargs : ∀ w ∈ args, space ∉ w) :
    Gives sh (handleBreakpointSetCommand sh args) := by
  unfold handleBreakpointSetCommand
  refine gives_bind fun hardware _ => gives_bind fun arg harg => ?_
  have hspace := hargs arg (argument_mem harg)
  refine gives_ite (fun _ => ?_) fun hhex => ?_
  · cases sh.integral u64 arg 16 with
    | none => exact gives_one (by simp [Typable, complaints])
    | some address => exact gives_one trivial
  · rw [List.isPrefixOf_iff_prefix] at hhex
    refine gives_ite (fun hcolon => ?_) fun hcolon =>
      gives_one ⟨rfl, hspace, fun hmem => hcolon (List.contains_iff_mem.mpr hmem), hhex⟩
    obtain ⟨path, rest, rfl, hpath⟩ := List.eq_append_cons_of_mem (List.contains_iff_mem.mp hcolon)
    rw [split_delimiter hpath]
    refine gives_bind fun path' hfirst => gives_bind fun line _ => ?_
    obtain rfl : path = path' := Except.ok.inj hfirst
    cases sh.integral u64 line with
    | none => exact gives_one (by simp [Typable, complaints])
    | some line =>
      refine gives_one ⟨fun hno => hspace (List.mem_append_left _ hno), hpath, fun hno => ?_,
        line.isLt⟩
      exact hhex (hno.trans (List.prefix_append _ _))

theorem gives_breakpoint (args : List Text) : Gives sh (handleBreakpointCommand sh args) := by
  unfold handleBreakpointCommand
  refine gives_ite (fun _ => gives_printHelp _) fun _ => gives_bind fun command _ =>
    gives_ite (fun _ => gives_one trivial) fun _ => gives_ite (fun _ => gives_printHelp _) fun _ =>
      gives_bind fun arg _ => gives_ite (fun _ => ?_) fun _ => ?_
  · cases sh.integral u64 arg 16 with
    | none => exact gives_one (by simp [Typable, complaints])
    | some address => exact gives_bind fun hardware _ => gives_one trivial
  · cases sh.integral u32 arg with
    | none => exact gives_one (by simp [Typable, complaints])
    | some id =>
      exact gives_ite (fun _ => gives_one trivial) fun _ => gives_ite (fun _ => gives_one trivial)
        fun _ => gives_ite (fun _ => gives_one trivial) fun _ => gives_none

theorem throughInt_eq (n : BitVec 64) : throughInt n =
    n.toNat % 2 ^ 32 + if 2 ^ 31 ≤ n.toNat % 2 ^ 32 then 2 ^ 64 - 2 ^ 32 else 0 := by
  have hlow : (n.setWidth 32).toNat = n.toNat % 2 ^ 32 := BitVec.toNat_setWidth ..
  have hwide : ((n.setWidth 32).setWidth 64).toNat = n.toNat % 2 ^ 32 := by
    rw [BitVec.toNat_setWidth, hlow]
    omega
  unfold throughInt
  rw [BitVec.toNat_signExtend, hwide, BitVec.msb_eq_decide, hlow]
  simp only [decide_eq_true_eq]

theorem throughInt_range (n : BitVec 64) :
    throughInt n < 2 ^ 31 ∨ (2 ^ 64 - 2 ^ 31 ≤ throughInt n ∧ throughInt n < 2 ^ 64) := by
  rw [throughInt_eq]
  split_ifs <;> omega

theorem gives_memory (args : List Text) : Gives sh (handleMemoryCommand sh args) := by
  unfold handleMemoryCommand
  refine gives_ite (fun _ => gives_printHelp _) fun _ => gives_bind fun command _ =>
    gives_ite (fun _ => ?_) fun _ => gives_ite (fun _ => ?_) fun _ => gives_printHelp _
  · unfold handleMemoryReadCommand
    refine gives_bind fun addressText _ => ?_
    cases sh.integral u64 addressText 16 with
    | none => exact gives_error _
    | some address =>
      refine gives_ite (fun _ => gives_bind fun bytesText _ => ?_)
        fun _ => gives_one (.inl (by decide))
      cases sh.integral u64 bytesText with
      | none => exact gives_error _
      | some n => exact gives_one (throughInt_range n)
  · unfold handleMemoryWriteCommand
    refine gives_ite (fun _ => gives_printHelp _) fun _ => gives_bind fun addressText _ => ?_
    cases sh.integral u64 addressText 16 with
    | none => exact gives_error _
    | some address =>
      exact gives_bind fun dataText _ => gives_bind fun data _ => gives_one trivial

theorem registerInfoByName_mem {name : Text} {info : RegisterInfo}
    (h : registerInfoByName name = .ok info) : info ∈ gRegisterInfos := by
  unfold registerInfoByName at h
  split at h
  · cases h
  · next entry hfind =>
    rw [← Except.ok.inj h]
    exact (List.of_mem_zip (List.mem_of_find?_eq_some hfind)).2

theorem valueOf_eq_ok {α : Type} {o : Option α} {a : α} : valueOf o = .ok a ↔ o = some a := by
  cases o <;> simp [valueOf]

theorem parseRegisterValue_writable {floats : FloatTexts} {u : Byte} {behind word : Text}
    {info : RegisterInfo} {value : Value} (hword : space ∉ word)
    (h : parseRegisterValue floats u behind info word = .ok value) : Writable floats info value := by
  unfold parseRegisterValue at h
  split at h
  · next v hparsed =>
    obtain rfl := Except.ok.inj h
    unfold parsedValue at hparsed
    unfold Writable
    cases hformat : info.format with
    | uint =>
      simp only [hformat] at hparsed
      split_ifs at hparsed
      iterate 4
        obtain ⟨b, -, hb⟩ := except_bind_eq_ok.mp hparsed
        exact ⟨b, (Option.some.inj (Except.ok.inj hb)).symm⟩
      cases hparsed
    | doubleFloat =>
      simp only [hformat] at hparsed
      obtain ⟨b, hdouble, hb⟩ := except_bind_eq_ok.mp hparsed
      exact ⟨word, b, hword, valueOf_eq_ok.mp hdouble, (Option.some.inj (Except.ok.inj hb)).symm⟩
    | longDouble =>
      simp only [hformat] at hparsed
      obtain ⟨b, hdouble, hb⟩ := except_bind_eq_ok.mp hparsed
      exact ⟨word, b, hword, valueOf_eq_ok.mp hdouble, (Option.some.inj (Except.ok.inj hb)).symm⟩
    | vector =>
      simp only [hformat] at hparsed
      split_ifs at hparsed with h8 h16
      · obtain ⟨bytes, -, hb⟩ := except_bind_eq_ok.mp hparsed
        exact .inl ⟨h8, _, (Option.some.inj (Except.ok.inj hb)).symm⟩
      · obtain ⟨bytes, -, hb⟩ := except_bind_eq_ok.mp hparsed
        exact .inr ⟨h16, _, (Option.some.inj (Except.ok.inj hb)).symm⟩
      · cases hparsed
  · cases h
  · cases h

/-- What is wrong with `register write`. -/
theorem registerWrite_raised {floats : FloatTexts} {u : Byte} {behind name word : Text}
    {what : String} (h : (do
      let info ← registerInfoByName name
      let value ← parseRegisterValue floats u behind info word
      .ok (info, value) : Except Failure (RegisterInfo × Value)) = .error (.raised what)) :
    what ∈ complaints := by
  have hname : ∀ e, registerInfoByName name = .error e → e = .raised "Cannot find register info" := by
    intro e he
    unfold registerInfoByName at he
    split at he
    · exact (Except.error.inj he).symm
    · cases he
  have hvalue : ∀ info, parseRegisterValue floats u behind info word = .error (.raised what) →
      what = "Invalid format!\n" := by
    intro info he
    unfold parseRegisterValue at he
    split at he
    · cases he
    · cases he
    · cases he
      rfl
  cases hinfo : registerInfoByName name with
  | error e =>
    rw [hinfo, hname e hinfo] at h
    cases h
    decide
  | ok info =>
    cases hparsed : parseRegisterValue floats u behind info word with
    | error e =>
      rw [hinfo] at h
      change (parseRegisterValue floats u behind info word >>= _) = _ at h
      rw [hparsed] at h
      obtain rfl := Except.error.inj h
      rw [hvalue info hparsed]
      decide
    | ok value =>
      rw [hinfo] at h
      change (parseRegisterValue floats u behind info word >>= _) = _ at h
      rw [hparsed] at h
      cases h

theorem gives_register (hargs : ∀ w ∈ args, space ∉ w) :
    Gives sh (handleRegisterCommand sh args) := by
  have hread : Gives sh (handleRegisterRead args) := by
    unfold handleRegisterRead
    refine gives_ite (fun _ => gives_one trivial) fun _ =>
      gives_ite (fun _ => gives_bind fun name _ => ?_) fun _ => gives_printHelp _
    cases hinfo : registerInfoByName name with
    | error e => exact gives_one (by simp [Typable, complaints])
    | ok info => exact gives_one (registerInfoByName_mem hinfo)
  have hwrite : Gives sh (handleRegisterWrite sh args) := by
    unfold handleRegisterWrite
    refine gives_ite (fun _ => gives_printHelp _) fun _ => gives_bind fun name _ =>
      gives_bind fun valueText hvalue => ?_
    have hspace := hargs valueText (argument_mem hvalue)
    dsimp only
    split
    · next info value hparsed =>
      obtain ⟨found, hinfo, hparsed⟩ := except_bind_eq_ok.mp hparsed
      obtain ⟨v, hv, hsame⟩ := except_bind_eq_ok.mp hparsed
      cases hsame
      exact gives_one ⟨registerInfoByName_mem hinfo, parseRegisterValue_writable hspace hv⟩
    · next what hparsed => exact gives_one (registerWrite_raised hparsed)
    · exact gives_error _
  unfold handleRegisterCommand
  refine gives_ite (fun _ => gives_printHelp _) fun _ => gives_bind fun command _ =>
    gives_bind fun read hreads => gives_bind fun rest hrests => gives_ok fun r hr => ?_
  obtain hr | hr := List.mem_append.mp hr
  · exact gives_ite (fun _ => hread) (fun _ => gives_none) read hreads r hr
  · exact gives_ite (fun _ => hwrite) (fun _ => gives_printHelp _) rest hrests r hr

theorem gives_watchpoint (args : List Text) : Gives sh (handleWatchpointCommand sh args) := by
  have hset : Gives sh (handleWatchpointSet sh args) := by
    unfold handleWatchpointSet
    refine gives_ite (fun _ => gives_printHelp _) fun _ => gives_bind fun addressText _ =>
      gives_bind fun modeText _ => gives_bind fun sizeText _ => ?_
    split
    · next address size mode _ _ _ => exact gives_one size.isLt
    · exact gives_printHelp _
  unfold handleWatchpointCommand
  refine gives_ite (fun _ => gives_printHelp _) fun _ => gives_bind fun command _ =>
    gives_ite (fun _ => gives_one trivial) fun _ => gives_bind fun made hmade => ?_
  have hmade : ∀ r ∈ made, Typable sh r := gives_ite (fun _ => hset) (fun _ => gives_none) made hmade
  refine gives_ite (fun _ => gives_bind fun help hhelp => gives_ok fun r hr => ?_) fun _ =>
    gives_bind fun arg _ => ?_
  · obtain hr | hr := List.mem_append.mp hr
    · exact hmade r hr
    · exact gives_printHelp _ help hhelp r hr
  · cases sh.integral u32 arg with
    | none => exact gives_append hmade (by simp [Typable, complaints])
    | some id =>
      exact gives_ite (fun _ => gives_append hmade trivial) fun _ =>
        gives_ite (fun _ => gives_append hmade trivial) fun _ =>
          gives_ite (fun _ => gives_append hmade trivial) fun _ => gives_ok hmade

theorem toInt_ofInt {t : IntegerType} {v : ℤ} (hwidth : 0 < t.width) (hsigned : t.signed = true)
    (hfits : t.Fits v) : (BitVec.ofInt t.width v).toInt = v := by
  unfold IntegerType.Fits at hfits
  rw [if_pos hsigned] at hfits
  exact BitVec.toInt_ofInt_eq_self hwidth hfits.1 hfits.2

/-- A number that starts with a digit is not negative, if it fits. -/
theorem syscallOf_range {item : Text} {id : ℤ} (h : syscallOf sh item = .ok id) :
    (0 ≤ id ∧ id < 2 ^ 31) ∨ id = (sh.uninitialised i32).toInt := by
  unfold syscallOf at h
  split_ifs at h with hdigit
  · obtain ⟨r, hr, hid⟩ := except_bind_eq_ok.mp h
    obtain rfl := Except.ok.inj hid
    have hr : toIntegral i32 (sh.uninitialised i32) item 10 = some r := valueOf_eq_ok.mp hr
    by_cases htelling : Telling i32 item 10
    · obtain ⟨v, hv, hfits, rfl⟩ := (returnsNumeral_of_telling _ htelling r).mp hr
      have hskip : skipPrefix 10 item = item := by
        unfold skipPrefix
        split <;> simp
      rw [hskip] at hv
      refine .inl ?_
      rw [toInt_ofInt (by decide) rfl hfits]
      cases hv with
      | plain _ _ => exact ⟨Int.natCast_nonneg _, hfits.2⟩
      | negative _ _ _ =>
        -- a minus sign is no digit
        rw [List.head?_cons, Option.any_some, isDigit_minusChar] at hdigit
        cases hdigit
    · obtain ⟨hresult, -⟩ := toIntegral_uninitialised (sh.uninitialised i32) htelling
      obtain rfl := Option.some.inj (hresult.symm.trans hr)
      exact .inr rfl
  · have hall : (gSyscalls.all fun entry => decide (entry.2 < 1000)) = true := by decide +kernel
    unfold syscallNameToId at h
    split at h
    · cases h
    · next entry hfind =>
      have hlt := of_decide_eq_true (List.all_eq_true.mp hall entry (List.mem_of_find?_eq_some hfind))
      rw [← Except.ok.inj h]
      exact .inl ⟨Int.natCast_nonneg _, by omega⟩

theorem mapM_range {items : List Text} {ids : List ℤ} (h : items.mapM (syscallOf sh) = .ok ids) :
    ∀ id ∈ ids, (0 ≤ id ∧ id < 2 ^ 31) ∨ id = (sh.uninitialised i32).toInt := by
  induction items generalizing ids with
  | nil =>
    obtain rfl := Except.ok.inj h
    simp
  | cons item items ih =>
    rw [List.mapM_cons] at h
    obtain ⟨id, hid, h⟩ := except_bind_eq_ok.mp h
    obtain ⟨rest, hrest, h⟩ := except_bind_eq_ok.mp h
    obtain rfl := Except.ok.inj h
    exact List.forall_mem_cons.mpr ⟨syscallOf_range hid, ih hrest⟩

theorem gives_catchpoint (args : List Text) : Gives sh (handleCatchpointCommand sh args) := by
  unfold handleCatchpointCommand handleSyscallCatchpointCommand
  refine gives_ite (fun _ => gives_printHelp _) fun _ => gives_bind fun command _ =>
    gives_ite (fun _ => ?_) fun _ => gives_none
  refine gives_ite (fun _ => gives_one trivial) fun _ =>
    gives_ite (fun _ => gives_bind fun arg _ => gives_bind fun toCatch hcatch => ?_)
      fun _ => gives_one trivial
  exact gives_one (mapM_range hcatch)

theorem gives_handleCommand (currentLine : Text) : Gives sh (handleCommand sh currentLine) := by
  have hargs : ∀ w ∈ split currentLine space, space ∉ w := fun w hw => not_mem_split hw
  rw [handleCommand_eq]
  cases hhead : (split currentLine space).head? with
  | none =>
    rw [List.head?_eq_none_iff.mp hhead]
    exact gives_error _
  | some command =>
    rw [handleWords_selected hhead]
    cases hselect : select commandNames command with
    | none => exact gives_one (by simp [Typable, complaints])
    | some i =>
      have hne : i ≠ 14 := by
        intro hi
        rw [hi] at hselect
        exact ne_select_of_lt (show commandNames[14]? = some (text "step") from rfl) (by decide) hselect
      have hi : i < 19 := by
        obtain ⟨name, hname, -⟩ := select_eq_some_iff.mp hselect
        exact (List.getElem?_eq_some_iff.mp hname).1
      interval_cases i
      · exact gives_printHelp _
      · exact gives_breakpoint _
      · exact gives_one trivial
      · exact gives_breakpointSet hargs
      · exact gives_one trivial
      · exact gives_thread _
      · exact gives_one trivial
      · exact gives_memory _
      · exact gives_register hargs
      · exact gives_one fun w hw => hargs w (List.mem_of_mem_tail hw)
      · exact gives_watchpoint _
      · exact gives_catchpoint _
      · exact gives_one trivial
      · exact gives_one trivial
      · exact absurd rfl hne
      all_goals exact gives_one trivial

end Gives

/-- An integer, in base 10. -/
def decimal (v : ℤ) : Text := (if v < 0 then [minusChar] else []) ++ shortest 10 v.natAbs

def hex (a : VirtAddr) : Text := formatHex 0 a.toNat

/-- Bytes in brackets, with a comma behind each. -/
def formatData (data : List Byte) : Text :=
  openChar :: (terminated (data.map formatByte) ++ [closeChar])

section Texts

variable {sh : Shell}

theorem skipPrefix_ten (sv : Text) : skipPrefix 10 sv = sv := by
  unfold skipPrefix
  split <;> simp

theorem denotes_decimal {signed : Bool} {v : ℤ} (hsign : v < 0 → signed = true) :
    Denotes signed 10 (decimal v) v := by
  have hdigits : ∀ c ∈ shortest 10 v.natAbs, isDigit 10 c :=
    isDigit_shortest (by decide) (by decide)
  have hvalue : numeral 10 (shortest 10 v.natAbs) = v.natAbs :=
    numeral_shortest (by decide) (by decide)
  unfold decimal
  split_ifs with hneg
  · have hminus := Denotes.negative (hsign hneg) (shortest_ne_nil 10 v.natAbs) hdigits
    have habs : -(v.natAbs : ℤ) = v := by omega
    rwa [hvalue, habs] at hminus
  · have hplain : Denotes signed 10 (shortest 10 v.natAbs) (numeral 10 (shortest 10 v.natAbs)) :=
      .plain (shortest_ne_nil 10 v.natAbs) hdigits
    have habs : (v.natAbs : ℤ) = v := by omega
    rwa [hvalue, habs] at hplain

/-- A number that the type does not hold leaves the variable as it was. -/
theorem integral_decimal {t : IntegerType} {v : ℤ} (hsign : v < 0 → t.signed = true) :
    sh.integral t (decimal v) =
      some (if t.Fits v then BitVec.ofInt t.width v else sh.uninitialised t) := by
  unfold Shell.integral
  rw [toIntegral_eq, skipPrefix_ten, fromChars_of_denotes (denotes_decimal hsign)]
  split_ifs <;> simp_all

theorem integral_unsigned {w : ℕ} (n : BitVec w) :
    sh.integral ⟨w, false⟩ (decimal n.toNat) = some n := by
  have hfits : IntegerType.Fits ⟨w, false⟩ n.toNat := by
    refine ⟨Int.natCast_nonneg _, ?_⟩
    exact_mod_cast n.isLt
  have hsign : (n.toNat : ℤ) < 0 → false = true := fun h => absurd h (by omega)
  rw [integral_decimal hsign, if_pos hfits, BitVec.ofInt_natCast, BitVec.ofNat_toNat,
    BitVec.setWidth_eq]

theorem integral_id (id : BitVec 32) : sh.integral u32 (decimal id.toNat) = some id :=
  integral_unsigned id

theorem integral_natural {n : ℕ} (hn : n < 2 ^ 64) :
    sh.integral u64 (decimal n) = some (BitVec.ofNat 64 n) := by
  have hsame : (BitVec.ofNat 64 n).toNat = n := by rw [BitVec.toNat_ofNat, Nat.mod_eq_of_lt hn]
  have hback : sh.integral u64 (decimal (BitVec.ofNat 64 n).toNat) = some (BitVec.ofNat 64 n) :=
    integral_unsigned (BitVec.ofNat 64 n)
  rwa [hsame] at hback

theorem integral_signed (n : BitVec 32) : sh.integral i32 (decimal n.toInt) = some n := by
  have hfits : i32.Fits n.toInt := ⟨BitVec.le_toInt n, BitVec.toInt_lt⟩
  rw [integral_decimal fun _ => rfl, if_pos hfits]
  exact congrArg some BitVec.ofInt_toInt

theorem integral_hex (a : VirtAddr) : sh.integral u64 (hex a) 16 = some a := by
  have hfits : u64.Fits a.toNat := by
    refine ⟨Int.natCast_nonneg _, ?_⟩
    exact_mod_cast a.isLt
  unfold Shell.integral hex
  rw [toIntegral_formatHex, if_pos hfits, BitVec.ofInt_natCast]
  exact congrArg some (BitVec.ofNat_toNat ..)

theorem not_mem_digits {base : ℕ} {c : Byte} (hc : isDigit base c = false) {chars : Text}
    (hall : ∀ d ∈ chars, isDigit base d) : c ∉ chars := by
  intro hmem
  rw [hall c hmem] at hc
  cases hc

theorem not_mem_decimal {c : Byte} (hc : isDigit 10 c = false) (hminus : c ≠ minusChar) (v : ℤ) :
    c ∉ decimal v := by
  have hdigits : c ∉ shortest 10 v.natAbs :=
    not_mem_digits hc (isDigit_shortest (by decide) (by decide))
  unfold decimal
  rw [List.mem_append, not_or]
  refine ⟨?_, hdigits⟩
  split_ifs
  · rwa [List.mem_singleton]
  · exact List.not_mem_nil

theorem space_not_mem_decimal (v : ℤ) : space ∉ decimal v :=
  not_mem_decimal (by decide) (by decide) v

theorem decimal_ne_nil (v : ℤ) : decimal v ≠ [] :=
  List.append_ne_nil_of_right_ne_nil _ (shortest_ne_nil 10 v.natAbs)

theorem decimal_head {v : ℤ} (h : 0 ≤ v) : (decimal v).head?.any (isDigit 10) = true := by
  unfold decimal
  rw [if_neg (by omega), List.nil_append]
  have hdigits : ∀ c ∈ shortest 10 v.natAbs, isDigit 10 c :=
    isDigit_shortest (by decide) (by decide)
  cases hchars : shortest 10 v.natAbs with
  | nil => exact absurd hchars (shortest_ne_nil 10 v.natAbs)
  | cons c chars => exact hdigits c (hchars ▸ List.mem_cons_self)

theorem mem_formatHex {c : Byte} {width n : ℕ} (hc : isDigit 16 c = false) (hzero : c ≠ zeroChar)
    (hx : c ≠ xChar) : c ∉ formatHex width n := by
  obtain ⟨chars, hformat, -, hdigits, -⟩ := formatHex_natCast width n
  rw [hformat, List.mem_cons, List.mem_cons, not_or, not_or]
  exact ⟨hzero, hx, not_mem_digits hc hdigits⟩

theorem isPrefixOf_hex (a : VirtAddr) : (text "0x").isPrefixOf (hex a) = true := by
  obtain ⟨chars, hformat, -⟩ := formatHex_natCast 0 a.toNat
  rw [hex, hformat]
  rfl

theorem piece_formatByte (b : Byte) : Piece (formatByte b) := by
  obtain ⟨chars, hformat, -, hdigits, -⟩ := formatHex_natCast 4 b.toNat
  refine ⟨length_formatByte b, ?_⟩
  unfold Digits formatByte
  rw [hformat]
  exact hdigits

theorem readAs_formatByte (u b : Byte) : readAs u (formatByte b) = b := by
  have hbyte := toByte_formatByte u b
  unfold toByte at hbyte
  rw [toIntegral_eq] at hbyte
  split_ifs at hbyte
  exact Option.some.inj hbyte

theorem parseVector_formatData (u : Byte) (behind : Text) (data : List Byte) :
    parseVector u behind (formatData data) = .ok data := by
  have hall : ∀ p ∈ data.map formatByte, Piece p := by
    intro p hp
    obtain ⟨b, -, rfl⟩ := List.mem_map.mp hp
    exact piece_formatByte b
  have hdata : (data.map formatByte).map (readAs u) = data := by
    rw [List.map_map]
    exact (List.map_congr_left fun b _ => readAs_formatByte u b).trans (List.map_id data)
  have hclosed := untilClose_closed u (.trailing hall behind)
  rw [hdata] at hclosed
  have htext : formatData data ++ behind =
      openChar :: (terminated (data.map formatByte) ++ closeChar :: behind) := by
    simp [formatData]
  rw [parseVector, htext]
  simp only [ne_eq, not_true_eq_false, if_false, hclosed, bind, Except.bind, List.drop_one,
    List.tail_cons]

theorem space_not_mem_formatData (data : List Byte) : space ∉ formatData data := by
  unfold formatData terminated
  simp only [List.mem_cons, List.mem_append, List.mem_flatMap, List.mem_map, not_or, not_exists]
  refine ⟨by decide, ?_, by decide, by simp⟩
  rintro p ⟨⟨b, -, rfl⟩, hp⟩
  obtain hp | hp := hp
  · exact mem_formatHex (by decide) (by decide) (by decide) hp
  · revert hp
    simp; decide

theorem space_not_mem_formatBytes (bytes : List Byte) : space ∉ formatBytes bytes := by
  have hitem (b : Byte) : space ∉ formatByte b :=
    mem_formatHex (by decide) (by decide) (by decide)
  have hjoined : space ∉ joinFormat formatByte [commaChar] bytes := by
    cases bytes with
    | nil => simp [joinFormat]
    | cons b bytes =>
      rw [joinFormat_cons, List.mem_append, List.mem_flatMap, not_or, not_exists]
      refine ⟨hitem b, fun b' hb' => ?_⟩
      obtain hcomma | hb' := List.mem_append.mp hb'.2
      · exact absurd hcomma (by decide)
      · exact hitem b' hb'
  unfold formatBytes
  rw [List.mem_append, List.mem_append, not_or, not_or]
  exact ⟨⟨by decide, hjoined⟩, by decide⟩

theorem exists_name {info : RegisterInfo} (hinfo : info ∈ gRegisterInfos) :
    ∃ name, space ∉ name ∧ name ≠ text "all" ∧ registerInfoByName name = .ok info := by
  have hfree : (registerNames.all fun name => (text name).all (· != space)) = true := by
    decide +kernel
  have hspace : ∀ name ∈ registerNames, space ∉ text name := by
    intro name hname hmem
    have hchars := List.all_eq_true.mp hfree name hname
    simpa using List.all_eq_true.mp hchars space hmem
  have hall : (("all" :: registerNames).map text).Nodup :=
    Tables.nodup_of_numbers nameNumber (by decide +kernel)
  obtain ⟨hall, hnodup⟩ := List.nodup_cons.mp hall
  let table := registerNames.zip gRegisterInfos
  have hlength : registerNames.length = gRegisterInfos.length := by decide +kernel
  have hnames : table.map Prod.fst = registerNames := List.map_fst_zip hlength.le
  have hinfos : table.map Prod.snd = gRegisterInfos := List.map_snd_zip hlength.ge
  have hkeys : (table.map fun entry => text entry.1).Nodup := by
    rwa [← hnames, List.map_map] at hnodup
  rw [← hinfos] at hinfo
  obtain ⟨entry, hentry, rfl⟩ := List.mem_map.mp hinfo
  have hname : entry.1 ∈ registerNames := (List.of_mem_zip hentry).1
  refine ⟨text entry.1, hspace entry.1 hname, fun hno => hall ?_, ?_⟩
  · rw [← hno]
    exact List.mem_map_of_mem hname
  have hfind := (Tables.find?_key_iff hkeys).mpr ⟨hentry, rfl⟩
  unfold registerInfoByName
  rw [hfind]

theorem exists_word {floats : FloatTexts} (u : Byte) (behind : Text) {info : RegisterInfo}
    {value : Value} (hinfo : info ∈ gRegisterInfos) (h : Writable floats info value) :
    ∃ word, space ∉ word ∧ parseRegisterValue floats u behind info word = .ok value := by
  unfold Writable at h
  cases hformat : info.format with
  | uint =>
    simp only [hformat] at h
    obtain ⟨b, rfl⟩ := h
    refine ⟨formatByte b, mem_formatHex (by decide) (by decide) (by decide), ?_⟩
    rw [formatByte, parseRegisterValue_integer (RegisterInfo.hasSize hinfo) hformat,
      if_pos b.isLt, BitVec.ofNat_toNat, BitVec.setWidth_eq]
  | doubleFloat =>
    simp only [hformat] at h
    obtain ⟨word, v, hword, hv, rfl⟩ := h
    refine ⟨word, hword, ?_⟩
    simp only [parseRegisterValue, parsedValue, hformat, hv]
    rfl
  | longDouble =>
    simp only [hformat] at h
    obtain ⟨word, v, hword, hv, rfl⟩ := h
    refine ⟨word, hword, ?_⟩
    simp only [parseRegisterValue, parsedValue, hformat, hv]
    rfl
  | vector =>
    simp only [hformat] at h
    obtain ⟨hsize, b, rfl⟩ | ⟨hsize, b, rfl⟩ := h
    · refine ⟨_, space_not_mem_formatBytes ((List.range 8).map (byteOf b)), ?_⟩
      have hback := parseVectorOf_bytes u behind (by decide : 8 ≠ 0) b
      simp [parseRegisterValue, parsedValue, hformat, hsize, hback, bind, Except.bind, pure,
        Except.pure, fromBytes_byteOf]
    · refine ⟨_, space_not_mem_formatBytes ((List.range 16).map (byteOf b)), ?_⟩
      have hback := parseVectorOf_bytes u behind (by decide : 16 ≠ 0) b
      simp [parseRegisterValue, parsedValue, hformat, hsize, hback, bind, Except.bind, pure,
        Except.pure, fromBytes_byteOf]

theorem throughInt_ofNat {amount : ℕ}
    (h : amount < 2 ^ 31 ∨ (2 ^ 64 - 2 ^ 31 ≤ amount ∧ amount < 2 ^ 64)) :
    throughInt (BitVec.ofNat 64 amount) = amount := by
  rw [throughInt_eq, BitVec.toNat_ofNat]
  split_ifs <;> omega

end Texts

/-- A line gives the request. -/
def Asked (sh : Shell) (r : Request) : Prop :=
  ∃ currentLine requests, handleCommand sh currentLine = .ok requests ∧ r ∈ requests

section Lines

variable {sh : Shell} {r : Request}

theorem asked (words : List Text) (hwords : ∀ w ∈ words, space ∉ w) {requests : List Request}
    (h : handleWords sh words = .ok requests) (hr : r ∈ requests) : Asked sh r :=
  ⟨words.flatMap (· ++ [space]), requests, by rw [handleCommand_eq, split_flatMap hwords, h], hr⟩

theorem asked_one (words : List Text) (hwords : ∀ w ∈ words, space ∉ w)
    (h : handleWords sh words = .ok [r]) : Asked sh r := asked words hwords h List.mem_cons_self

theorem asked_help (topic : Topic) : Asked sh (.help topic) := by
  cases topic with
  | overview => exact asked_one [text "help"] (by decide) rfl
  | register => exact asked_one [text "help", text "register"] (by decide) rfl
  | breakpoint => exact asked_one [text "help", text "breakpoint"] (by decide) rfl
  | memory => exact asked_one [text "help", text "memory"] (by decide) rfl
  | disassemble => exact asked_one [text "help", text "disassemble"] (by decide) rfl
  | watchpoint => exact asked_one [text "help", text "watchpoint"] (by decide) rfl
  | catchpoint => exact asked_one [text "help", text "catchpoint"] (by decide) rfl
  | thread => exact asked_one [text "help", text "thread"] (by decide) rfl
  | unavailable => exact asked_one [text "help", text "x"] (by decide) rfl

theorem asked_complain {message : String} (h : message ∈ complaints) :
    Asked sh (.complain message) := by
  simp only [complaints, List.mem_cons, List.not_mem_nil, or_false] at h
  obtain rfl | rfl | rfl | rfl | rfl | rfl | rfl | rfl | rfl | rfl := h
  · exact asked_one [text "thread", text "select", text "x"] (by decide) rfl
  · exact asked_one [text "set", text "x", text "0xz"] (by decide) rfl
  · exact asked_one [text "set", text "x", text "a:b"] (by decide) rfl
  · exact asked_one [text "breakpoint", text "set", text "z"] (by decide) rfl
  · exact asked_one [text "breakpoint", text "enable", text "z"] (by decide) rfl
  · exact asked_one [text "watchpoint", text "enable", text "z"] (by decide) rfl
  · exact asked [text "register", text "read", text "z"] (by decide) rfl List.mem_cons_self
  · exact asked_one [text "register", text "write", text "z", text "z"] (by decide) rfl
  · exact asked_one [text "register", text "write", text "xmm0", text "z"] (by decide) rfl
  · exact asked_one [text "z"] (by decide) rfl

theorem free_append {ws ws' : List Text} (h : ∀ w ∈ ws, space ∉ w) (h' : ∀ w ∈ ws', space ∉ w) :
    ∀ w ∈ ws ++ ws', space ∉ w := by
  intro w hw
  obtain hw | hw := List.mem_append.mp hw
  · exact h w hw
  · exact h' w hw

theorem free_one {w : Text} (h : space ∉ w) : ∀ x ∈ [w], space ∉ x := by
  simpa using h

theorem space_not_mem_hex (a : VirtAddr) : space ∉ hex a :=
  mem_formatHex (by decide) (by decide) (by decide)

/-- The words `first second w`, with `-h` behind them for a hardware site. -/
def withHardware (words : List Text) (hardware : Bool) : List Text :=
  words ++ if hardware then [text "-h"] else []

theorem free_withHardware {words : List Text} (h : ∀ w ∈ words, space ∉ w) (hardware : Bool) :
    ∀ w ∈ withHardware words hardware, space ∉ w := by
  refine free_append h ?_
  cases hardware <;> decide

theorem handleWords_breakpointSet (w : Text) (hardware : Bool) :
    handleWords sh (withHardware ([text "breakpoint", text "set"] ++ [w]) hardware) =
      match sh.integral u64 w 16 with
      | none => .ok [.complain
          "Breakpoint command expects address in hex format, prefixed with 0x\n"]
      | some address => .ok [.setSite address hardware] := by
  cases hardware <;> rfl

theorem asked_setSite (a : VirtAddr) (hardware : Bool) : Asked sh (.setSite a hardware) := by
  refine asked_one (withHardware ([text "breakpoint", text "set"] ++ [hex a]) hardware)
    (free_withHardware (free_append (by decide) (free_one (space_not_mem_hex a))) hardware) ?_
  rw [handleWords_breakpointSet, integral_hex]

theorem asked_id {first second : Text} (hfirst : space ∉ first) (hsecond : space ∉ second)
    (id : BitVec 32) {f : BitVec 32 → Request} {message : String}
    (h : ∀ w, handleWords sh [first, second, w] = match sh.integral u32 w with
      | none => .ok [.complain message]
      | some id => .ok [f id]) : Asked sh (f id) := by
  refine asked_one [first, second, decimal id.toNat] ?_ ?_
  · exact free_append (free_append (free_one hfirst) (free_one hsecond))
      (free_one (space_not_mem_decimal _))
  · rw [h, integral_id]

/-- `set` takes what is behind another word. -/
theorem handleWords_set (loc : Text) (hardware : Bool) :
    handleWords sh (withHardware ([text "set", text "x"] ++ [loc]) hardware) =
      if (text "0x").isPrefixOf loc then
        match sh.integral u64 loc 16 with
        | none => .ok [.complain "Breakpoint command expects a hexidecimal address: 0x\n"]
        | some address => .ok [.setBreakpoint (.address address) hardware]
      else if loc.contains colon then do
        let path ← argument (split loc colon) 0
        let line ← argument (split loc colon) 1
        match sh.integral u64 line with
        | none => .ok [.complain "Line number should be an int\n"]
        | some line => .ok [.setBreakpoint (.line path line.toNat) hardware]
      else .ok [.setBreakpoint (.function loc) false] := by
  cases hardware <;> rfl

theorem asked_setBreakpoint {kind : BreakpointKind} {hardware : Bool}
    (h : Typable sh (.setBreakpoint kind hardware)) : Asked sh (.setBreakpoint kind hardware) := by
  have hset (loc : Text) (hloc : space ∉ loc) := free_withHardware
    (free_append (by decide : ∀ w ∈ [text "set", text "x"], space ∉ w) (free_one hloc)) hardware
  cases kind with
  | address a =>
    refine asked_one _ (hset (hex a) (space_not_mem_hex a)) ?_
    rw [handleWords_set, if_pos (isPrefixOf_hex a), integral_hex]
  | function name =>
    obtain ⟨rfl, hspace, hcolon, hhex⟩ := h
    refine asked_one _ (hset name hspace) ?_
    rw [← List.isPrefixOf_iff_prefix] at hhex
    rw [handleWords_set, if_neg hhex, if_neg (by simpa using hcolon)]
  | line path line =>
    obtain ⟨hspace, hcolon, hhex, hline⟩ := h
    let loc : Text := path ++ colon :: decimal line
    have hloc : space ∉ loc := by
      rw [List.mem_append, List.mem_cons, not_or, not_or]
      exact ⟨hspace, by decide, space_not_mem_decimal _⟩
    have hitems : split loc colon = [path, decimal line] := by
      have hdigits : colon ∉ decimal line := not_mem_decimal (by decide) (by decide) _
      rw [split_delimiter hcolon, split_free hdigits (decimal_ne_nil _)]
    have hprefix : ¬ (text "0x").isPrefixOf loc = true := by
      rw [List.isPrefixOf_iff_prefix]
      have hchars : text "0x" = [zeroChar, xChar] := by decide
      rw [hchars] at hhex ⊢
      obtain _ | ⟨c, _ | ⟨d, rest⟩⟩ := path
      · simp [loc, List.cons_prefix_cons, colon, zeroChar]
      · simp [loc, List.cons_prefix_cons, colon, xChar]
      · simpa [loc, List.cons_prefix_cons] using hhex
    have hmem : loc.contains colon = true := by simp [loc]
    have hpath : argument [path, decimal line] 0 = .ok path := rfl
    have hnumber : argument [path, decimal line] 1 = .ok (decimal line) := rfl
    refine asked_one _ (hset loc hloc) ?_
    rw [handleWords_set, if_neg hprefix, if_pos hmem, hitems, hpath, hnumber]
    simp only [bind, Except.bind]
    rw [integral_natural hline]
    show Except.ok [Request.setBreakpoint (.line path (BitVec.ofNat 64 line).toNat) hardware] = _
    rw [BitVec.toNat_ofNat, Nat.mod_eq_of_lt hline]

theorem handleWords_select (w : Text) : handleWords sh [text "thread", text "select", w] =
    match sh.integral i32 w with
    | none => .ok [.complain "Invalid thread id\n"]
    | some tid => .ok [.selectThread tid] := rfl

theorem asked_selectThread (tid : BitVec 32) : Asked sh (.selectThread tid) := by
  refine asked_one ([text "thread", text "select"] ++ [decimal tid.toInt])
    (free_append (by decide) (free_one (space_not_mem_decimal _))) ?_
  exact (handleWords_select _).trans (by rw [integral_signed])

theorem handleWords_read (w n : Text) : handleWords sh [text "memory", text "read", w, n] =
    match sh.integral u64 w 16 with
    | none => .error (.raised "Invalid address format")
    | some address => match sh.integral u64 n with
      | none => .error (.raised "Invalid number of bytes")
      | some n => .ok [.readMemory address (throughInt n)] := rfl

theorem asked_readMemory {a : VirtAddr} {amount : ℕ} (h : Typable sh (.readMemory a amount)) :
    Asked sh (.readMemory a amount) := by
  have hlt : amount < 2 ^ 64 := by
    obtain h | h := h <;> omega
  refine asked_one ([text "memory", text "read"] ++ ([hex a] ++ [decimal amount]))
    (free_append (by decide) (free_append (free_one (space_not_mem_hex a))
      (free_one (space_not_mem_decimal _)))) ?_
  refine (handleWords_read _ _).trans ?_
  rw [integral_hex, integral_natural hlt]
  show Except.ok [Request.readMemory a (throughInt (BitVec.ofNat 64 amount))] = _
  rw [throughInt_ofNat h]

theorem handleWords_write (w v : Text) : handleWords sh [text "memory", text "write", w, v] =
    match sh.integral u64 w 16 with
    | none => .error (.raised "Invalid Address format")
    | some address => (parseVector (sh.uninitialised ⟨8, false⟩) [0#8] v).bind fun data =>
      .ok [.writeMemory address data] := rfl

theorem asked_writeMemory (a : VirtAddr) (data : List Byte) : Asked sh (.writeMemory a data) := by
  refine asked_one ([text "memory", text "write"] ++ ([hex a] ++ [formatData data]))
    (free_append (by decide) (free_append (free_one (space_not_mem_hex a))
      (free_one (space_not_mem_formatData data)))) ?_
  refine (handleWords_write _ _).trans ?_
  rw [integral_hex, parseVector_formatData]
  rfl

/-- The help comes behind what `register read` gives. -/
theorem asked_readRegister {info : RegisterInfo} (hinfo : info ∈ gRegisterInfos) :
    Asked sh (.readRegister info) := by
  obtain ⟨name, hspace, hall, hname⟩ := exists_name hinfo
  have hread : handleRegisterRead [text "register", text "read", name] = .ok [.readRegister info] := by
    unfold handleRegisterRead
    have hlength : [text "register", text "read", name].length = 3 := rfl
    have hargument : argument [text "register", text "read", name] 2 = .ok name := rfl
    rw [if_neg (by simpa using hall), if_pos hlength, hargument]
    dsimp only [bind, Except.bind]
    rw [hname]
  have hboth : handleWords sh [text "register", text "read", name] =
      .ok [.readRegister info, .help .register] := by
    change (handleRegisterRead [text "register", text "read", name] >>= fun read =>
      Except.ok (read ++ [Request.help .register])) = _
    rw [hread]
    rfl
  exact asked _ (free_append (by decide : ∀ w ∈ [text "register", text "read"], space ∉ w)
    (free_one hspace)) hboth List.mem_cons_self

theorem asked_writeRegister {info : RegisterInfo} {value : Value}
    (hinfo : info ∈ gRegisterInfos) (hvalue : Writable sh.floats info value) :
    Asked sh (.writeRegister info value) := by
  obtain ⟨name, hname, -, hfound⟩ := exists_name hinfo
  obtain ⟨word, hword, hparsed⟩ := exists_word (sh.uninitialised ⟨8, false⟩) [0#8] hinfo hvalue
  refine asked_one ([text "register", text "write"] ++ ([name] ++ [word]))
    (free_append (by decide) (free_append (free_one hname) (free_one hword))) ?_
  have hwrite : handleRegisterWrite sh [text "register", text "write", name, word] =
      .ok [.writeRegister info value] := by
    unfold handleRegisterWrite
    rw [if_neg (by simp)]
    simp only [argument, List.getElem?_cons_succ, List.getElem?_cons_zero, bind, Except.bind, hfound,
      hparsed]
  change (handleRegisterWrite sh [text "register", text "write", name, word] >>= fun rest =>
    Except.ok ([] ++ rest)) = _
  rw [hwrite]
  rfl

theorem handleWatchpointSet_words (w modeText sizeText : Text) :
    handleWatchpointSet sh [text "watchpoint", text "set", w, modeText, sizeText] =
      match sh.integral u64 w 16, sh.integral u64 sizeText, modeOf modeText with
      | some address, some size, some mode => .ok [.setWatchpoint address mode size.toNat]
      | _, _, _ => printHelp [text "help", text "watchpoint"] := rfl

/-- What is behind `watchpoint set` is taken for an id as well. -/
theorem handleWords_watchpointSet (w modeText sizeText : Text) :
    handleWords sh [text "watchpoint", text "set", w, modeText, sizeText] =
      handleWatchpointSet sh [text "watchpoint", text "set", w, modeText, sizeText] >>= fun made =>
        match sh.integral u32 w with
        | none => .ok (made ++ [.complain "Command expects watchpoint id"])
        | some _ => .ok made := rfl

theorem asked_setWatchpoint {a : VirtAddr} {mode : StoppointMode} {size : ℕ} (h : size < 2 ^ 64) :
    Asked sh (.setWatchpoint a mode size) := by
  obtain ⟨modeText, hfree, hmode⟩ : ∃ modeText, space ∉ modeText ∧ modeOf modeText = some mode := by
    cases mode with
    | write => exact ⟨text "write", by decide, by decide⟩
    | readWrite => exact ⟨text "rw", by decide, by decide⟩
    | execute => exact ⟨text "execute", by decide, by decide⟩
  have hset : handleWatchpointSet sh [text "watchpoint", text "set", hex a, modeText, decimal size] =
      .ok [.setWatchpoint a mode size] := by
    refine (handleWatchpointSet_words _ _ _).trans ?_
    rw [integral_hex, integral_natural h, hmode]
    show Except.ok [Request.setWatchpoint a mode (BitVec.ofNat 64 size).toNat] = _
    rw [BitVec.toNat_ofNat, Nat.mod_eq_of_lt h]
  have hwords := free_append (by decide : ∀ w ∈ [text "watchpoint", text "set"], space ∉ w)
    (free_append (free_one (space_not_mem_hex a)) (free_append (free_one hfree)
      (free_one (space_not_mem_decimal size))))
  have hall := @handleWords_watchpointSet sh (hex a) modeText (decimal size)
  rw [hset] at hall
  cases hid : sh.integral u32 (hex a) with
  | none =>
    rw [hid] at hall
    exact asked _ hwords hall List.mem_cons_self
  | some id =>
    rw [hid] at hall
    exact asked_one _ hwords hall

/-- The number of a system call; one that does not fit stands for what the variable holds. -/
def callText (id : ℤ) : Text := if 0 ≤ id ∧ id < 2 ^ 31 then decimal id else decimal (2 ^ 32)

theorem syscallOf_callText {id : ℤ} (h : (0 ≤ id ∧ id < 2 ^ 31) ∨ id = (sh.uninitialised i32).toInt) :
    syscallOf sh (callText id) = .ok id := by
  have hnumber {v : ℤ} (hv : 0 ≤ v) : syscallOf sh (decimal v) =
      .ok (if i32.Fits v then BitVec.ofInt i32.width v else sh.uninitialised i32).toInt := by
    unfold syscallOf
    rw [if_pos (decimal_head hv), integral_decimal fun _ => rfl]
    rfl
  unfold callText
  by_cases hsmall : 0 ≤ id ∧ id < 2 ^ 31
  · have hlow : (-2) ^ (i32.width - 1) ≤ (0 : ℤ) := by decide
    have hfits : i32.Fits id := ⟨hlow.trans hsmall.1, hsmall.2⟩
    have hback : (BitVec.ofInt i32.width id).toInt = id := toInt_ofInt (by decide) rfl hfits
    rw [if_pos hsmall, hnumber hsmall.1, if_pos hfits, hback]
  · have hunfit : ¬ i32.Fits (2 ^ 32) := fun hno => absurd hno.2 (by norm_num [i32])
    rw [if_neg hsmall, hnumber (by norm_num), if_neg hunfit, h.resolve_left hsmall]

theorem mapM_callText {ids : List ℤ}
    (h : ∀ id ∈ ids, (0 ≤ id ∧ id < 2 ^ 31) ∨ id = (sh.uninitialised i32).toInt) :
    (ids.map callText).mapM (syscallOf sh) = .ok ids := by
  induction ids with
  | nil => rfl
  | cons id ids ih =>
    have hrest := ih fun id hid => h id (List.mem_cons_of_mem _ hid)
    rw [List.map_cons, List.mapM_cons, syscallOf_callText (h id List.mem_cons_self), hrest]
    rfl

theorem not_mem_callText {c : Byte} (hc : isDigit 10 c = false) (hminus : c ≠ minusChar) (id : ℤ) :
    c ∉ callText id := by
  unfold callText
  split_ifs
  · exact not_mem_decimal hc hminus _
  · exact not_mem_decimal hc hminus _

theorem asked_catchSyscalls {policy : SyscallCatchPolicy} (h : Typable sh (.catchSyscalls policy)) :
    Asked sh (.catchSyscalls policy) := by
  cases policy with
  | none => exact asked_one [text "catchpoint", text "syscall", text "none"] (by decide) rfl
  | all => exact asked_one [text "catchpoint", text "syscall"] (by decide) rfl
  | some ids =>
    let arg : Text := (ids.map callText).flatMap (· ++ [comma])
    have hitems : split arg comma = ids.map callText := by
      refine split_flatMap fun w hw => ?_
      obtain ⟨id, -, rfl⟩ := List.mem_map.mp hw
      exact not_mem_callText (by decide) (by decide) id
    have hspace : space ∉ arg := by
      simp only [arg, List.mem_flatMap, List.mem_map, not_exists]
      rintro w ⟨⟨id, -, rfl⟩, hw⟩
      obtain hw | hw := List.mem_append.mp hw
      · exact not_mem_callText (by decide) (by decide) id hw
      · exact absurd hw (by decide)
    have hnone : arg ≠ text "none" := by
      intro heq
      rw [heq] at hitems
      -- no number is spelled so
      have hword : text "none" ∈ ids.map callText := hitems ▸ (by decide)
      obtain ⟨id, -, hid⟩ := List.mem_map.mp hword
      have hletter : 0x6e#8 ∈ callText id := hid ▸ (by decide)
      exact not_mem_callText (by decide) (by decide) id hletter
    refine asked_one ([text "catchpoint", text "syscall"] ++ [arg])
      (free_append (by decide) (free_one hspace)) ?_
    change handleSyscallCatchpointCommand sh [text "catchpoint", text "syscall", arg] = _
    unfold handleSyscallCatchpointCommand
    rw [if_neg (by simpa using hnone), if_pos (by simp)]
    change ((split arg comma).mapM (syscallOf sh) >>= fun toCatch =>
      Except.ok [Request.catchSyscalls (.some toCatch)]) = _
    rw [hitems, mapM_callText h]
    rfl

theorem asked_of_typable (h : Typable sh r) : Asked sh r := by
  -- one line for each request
  cases r with
  | help topic => exact asked_help topic
  | complain message => exact asked_complain h
  | listSites => exact asked_one [text "breakpoint", text "list"] (by decide) rfl
  | setSite a hardware => exact asked_setSite a hardware
  | enableSite id =>
    exact asked_id (by decide : space ∉ text "breakpoint") (by decide : space ∉ text "enable") id
      fun _ => rfl
  | disableSite id =>
    exact asked_id (by decide : space ∉ text "breakpoint") (by decide : space ∉ text "disable") id
      fun _ => rfl
  | deleteSite id =>
    exact asked_id (by decide : space ∉ text "breakpoint") (by decide : space ∉ text "delete") id
      fun _ => rfl
  | listBreakpoints => exact asked_one [text "list"] (by decide) rfl
  | setBreakpoint kind hardware => exact asked_setBreakpoint h
  | resume => exact asked_one [text "continue"] (by decide) rfl
  | listThreads => exact asked_one [text "thread", text "list"] (by decide) rfl
  | selectThread tid => exact asked_selectThread tid
  | stepInstruction => exact asked_one [text "step"] (by decide) rfl
  | readMemory a amount => exact asked_readMemory h
  | writeMemory a data => exact asked_writeMemory a data
  | readRegisters all =>
    cases all with
    | false => exact asked [text "register", text "read"] (by decide) rfl List.mem_cons_self
    | true =>
      exact asked [text "register", text "read", text "all"] (by decide) rfl List.mem_cons_self
  | readRegister info => exact asked_readRegister h
  | writeRegister info value => exact asked_writeRegister h.1 h.2
  | disassemble args =>
    exact asked_one ([text "disassemble"] ++ args) (free_append (by decide) h) rfl
  | listWatchpoints => exact asked_one [text "watchpoint", text "list"] (by decide) rfl
  | setWatchpoint a mode size => exact asked_setWatchpoint h
  | enableWatchpoint id =>
    exact asked_id (by decide : space ∉ text "watchpoint") (by decide : space ∉ text "enable") id
      fun _ => rfl
  | disableWatchpoint id =>
    exact asked_id (by decide : space ∉ text "watchpoint") (by decide : space ∉ text "disable") id
      fun _ => rfl
  | deleteWatchpoint id =>
    exact asked_id (by decide : space ∉ text "watchpoint") (by decide : space ∉ text "delete") id
      fun _ => rfl
  | catchSyscalls policy => exact asked_catchSyscalls h
  | stepOver => exact asked_one [text "next"] (by decide) rfl
  | stepOut => exact asked_one [text "finish"] (by decide) rfl
  | stepIn => exact h.elim
  | up => exact asked_one [text "up"] (by decide) rfl
  | down => exact asked_one [text "down"] (by decide) rfl
  | backtrace => exact asked_one [text "backtrace"] (by decide) rfl

end Lines

/-- Which requests can be typed. -/
theorem asked_iff (sh : Shell) (r : Request) : Asked sh r ↔ Typable sh r := by
  constructor
  · intro ⟨currentLine, requests, hgiven, hr⟩
    exact gives_handleCommand currentLine requests hgiven r hr
  · exact asked_of_typable

end KDebugger.Tool
