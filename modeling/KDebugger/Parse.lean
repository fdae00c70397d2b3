import KDebugger.Numerals

namespace KDebugger

open Numerals

/-- The characters from `begin` on, once a prefix `0x` is skipped in base 16. -/
def skipPrefix (base : ℕ) (sv : List Byte) : List Byte :=
  match sv with
  | c :: d :: rest => if base = 16 ∧ c = zeroChar ∧ d = xChar then rest else sv
  | _ => sv

/-- `to_integral`; `uninitialised` is what its variable `ret` holds before it is written. -/
def toIntegral (t : IntegerType) (uninitialised : BitVec t.width) (sv : List Byte)
    (base : ℕ := 10) : Option (BitVec t.width) :=
  match fromChars t base (skipPrefix base sv) uninitialised with
  | (result, ret) => if result.ptr ≠ [] then none else some ret

def toByte (uninitialised : Byte) (sv : List Byte) (base : ℕ) : Option Byte :=
  toIntegral ⟨8, false⟩ uninitialised sv base

namespace ParseVector

def openChar : Byte := 0x5b#8

def closeChar : Byte := 0x5d#8

def commaChar : Byte := 0x2c#8

/-- `to_integral<std::byte>({ch, 4}, 16).value()` and `ch += 4`, on the readable characters
from `ch` on.  Fewer than four of them are read up to the first that is not a digit; when
there is none, the next read is of a character that does not exist. -/
def nextByte (uninitialised : Byte) (ch : List Byte) : Except Failure (Byte × List Byte) :=
  if 4 ≤ ch.length then
    match toByte uninitialised (ch.take 4) 16 with
    | some b => .ok (b, ch.drop 4)
    | none => .error (.raised "bad_optional_access")
  else if (skipPrefix 16 ch).all (isDigit 16) then .error .undefined
  else .error (.raised "bad_optional_access")

def expect (c : Byte) : List Byte → Except Failure (List Byte)
  | [] => .error .undefined
  | ch :: rest => if ch = c then .ok rest else .error (.raised "Invalid format!\n")

/-- The loop of `parse_vector<N>`: bytes that a comma follows. -/
def separated (uninitialised : Byte) : ℕ → List Byte → Except Failure (List Byte × List Byte)
  | 0, ch => .ok ([], ch)
  | n + 1, ch => do
    let (b, ch) ← nextByte uninitialised ch
    let ch ← expect commaChar ch
    let (bytes, ch) ← separated uninitialised n ch
    .ok (b :: bytes, ch)

end ParseVector

open ParseVector

/-- `parse_vector<N>`, for a positive `N`. -/
def parseVectorOf (n : ℕ) (uninitialised : Byte) (behind text : List Byte) :
    Except Failure (List Byte) := do
  let ch ← expect openChar (text ++ behind)
  let (bytes, ch) ← separated uninitialised (n - 1) ch
  let (last, ch) ← nextByte uninitialised ch
  let ch ← expect closeChar ch
  if ch.length ≠ behind.length then .error (.raised "Invalid format!\n")
  else .ok (bytes ++ [last])

/-- `join_format`, with the items printed by `format_one`. -/
def joinFormat {α : Type} (formatOne : α → List Byte) (sep : List Byte) (range : List α) :
    List Byte :=
  (range.foldl (fun (out, first) item =>
    ((if first then out else out ++ sep) ++ formatOne item, false)) ([], true)).1

section Joining

variable {α : Type} (formatOne : α → List Byte) (sep : List Byte)

theorem joinFormat_foldl (range : List α) (out : List Byte) :
    range.foldl (fun (out, first) item =>
        ((if first then out else out ++ sep) ++ formatOne item, false)) (out, false) =
      (out ++ range.flatMap fun item => sep ++ formatOne item, false) := by
  induction range generalizing out with
  | nil => simp
  | cons item range ih =>
    rw [List.foldl_cons]
    simp only [Bool.false_eq_true, if_false]
    rw [ih]
    simp

theorem joinFormat_cons (item : α) (range : List α) :
    joinFormat formatOne sep (item :: range) =
      formatOne item ++ range.flatMap fun item => sep ++ formatOne item := by
  rw [joinFormat, List.foldl_cons]
  simp [joinFormat_foldl]

end Joining

theorem toIntegral_formatHex (t : IntegerType) (uninitialised : BitVec t.width) (width n : ℕ) :
    toIntegral t uninitialised (formatHex width n) 16 =
      some (if t.Fits n then BitVec.ofInt t.width n else uninitialised) := by
  obtain ⟨chars, hformat, hne, hall, hvalue⟩ := formatHex_natCast width n
  have hskip : skipPrefix 16 (formatHex width n) = chars := by simp [hformat, skipPrefix]
  rw [toIntegral, hskip, fromChars_of_digits hne hall, hvalue]
  split_ifs <;> simp_all

def formatByte (b : Byte) : List Byte := formatHex 4 b.toNat

theorem length_formatByte (b : Byte) : (formatByte b).length = 4 := by
  have hall : ∀ b : Byte, (formatByte b).length = 4 := by decide +kernel
  exact hall b

theorem toByte_formatByte (uninitialised b : Byte) :
    toByte uninitialised (formatByte b) 16 = some b := by
  have hfits : IntegerType.Fits ⟨8, false⟩ b.toNat := by
    have := b.isLt
    simp [IntegerType.Fits]
    omega
  rw [toByte, formatByte, toIntegral_formatHex, if_pos hfits]
  simp

namespace ParseVector

theorem nextByte_formatByte (uninitialised b : Byte) (rest : List Byte) :
    nextByte uninitialised (formatByte b ++ rest) = .ok (b, rest) := by
  have hlength := length_formatByte b
  have hlong : 4 ≤ (formatByte b ++ rest).length := by simp [hlength]
  have htake : (formatByte b ++ rest).take 4 = formatByte b := by
    rw [← hlength, List.take_left]
  have hdrop : (formatByte b ++ rest).drop 4 = rest := by
    rw [← hlength, List.drop_left]
  rw [nextByte, if_pos hlong, htake, hdrop, toByte_formatByte]

theorem expect_cons (c : Byte) (rest : List Byte) : expect c (c :: rest) = .ok rest := if_pos rfl

theorem separated_printed (uninitialised : Byte) (bytes : List Byte) (last : Byte)
    (rest : List Byte) :
    separated uninitialised bytes.length
        ((bytes.flatMap fun b => formatByte b ++ [commaChar]) ++ formatByte last ++ rest) =
      .ok (bytes, formatByte last ++ rest) := by
  induction bytes with
  | nil => rfl
  | cons b bytes ih =>
    have hhead : ((b :: bytes).flatMap fun b => formatByte b ++ [commaChar]) ++ formatByte last
        ++ rest = formatByte b ++ commaChar ::
          ((bytes.flatMap fun b => formatByte b ++ [commaChar]) ++ formatByte last ++ rest) := by
      simp
    rw [List.length_cons, hhead, separated, nextByte_formatByte]
    simp only [bind, Except.bind, expect_cons, ih]

end ParseVector

theorem flatMap_separators {α : Type} (formatOne : α → List Byte) (sep : List Byte) (item : α)
    (range : List α) (last : α) :
    (formatOne item ++ (range ++ [last]).flatMap fun item => sep ++ formatOne item) =
      ((item :: range).flatMap fun item => formatOne item ++ sep) ++ formatOne last := by
  induction range generalizing item with
  | nil => simp
  | cons next range ih =>
    have hnext := ih next
    simp only [List.cons_append, List.flatMap_cons, List.append_assoc] at hnext ⊢
    rw [hnext]

theorem joinFormat_concat {α : Type} (formatOne : α → List Byte) (sep : List Byte)
    (range : List α) (last : α) :
    joinFormat formatOne sep (range ++ [last]) =
      (range.flatMap fun item => formatOne item ++ sep) ++ formatOne last := by
  cases range with
  | nil => simp [joinFormat]
  | cons item range =>
    rw [List.cons_append, joinFormat_cons, flatMap_separators]

theorem parseVectorOf_printed (uninitialised : Byte) (behind : List Byte) {bytes : List Byte}
    (hne : bytes ≠ []) :
    parseVectorOf bytes.length uninitialised behind
        ([openChar] ++ joinFormat formatByte [commaChar] bytes ++ [closeChar]) = .ok bytes := by
  obtain ⟨init, last, rfl⟩ : ∃ init last, bytes = init ++ [last] :=
    ⟨bytes.dropLast, bytes.getLast hne, (List.dropLast_concat_getLast hne).symm⟩
  have htext : [openChar] ++ joinFormat formatByte [commaChar] (init ++ [last]) ++ [closeChar]
      ++ behind = openChar :: ((init.flatMap fun b => formatByte b ++ [commaChar]) ++
        formatByte last ++ closeChar :: behind) := by
    simp [joinFormat_concat]
  have hloop : (init ++ [last]).length - 1 = init.length := by simp
  rw [parseVectorOf, htext, hloop]
  simp only [bind, Except.bind, expect_cons, separated_printed, nextByte_formatByte]
  exact if_neg (by simp)

end KDebugger
