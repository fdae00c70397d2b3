import KDebugger.ByteStream
import Mathlib.Data.Nat.Digits.Defs
import Mathlib.Data.List.TakeWhile

namespace KDebugger.Numerals

def zeroChar : Byte := 0x30#8

def xChar : Byte := 0x78#8

def minusChar : Byte := 0x2d#8

/-- The digit a character stands for: the decimal digits, then the letters of either case. -/
def digitValue (c : Byte) : Option ℕ :=
  if 0x30 ≤ c.toNat ∧ c.toNat ≤ 0x39 then some (c.toNat - 0x30)
  else if 0x61 ≤ c.toNat ∧ c.toNat ≤ 0x7a then some (c.toNat - 0x61 + 10)
  else if 0x41 ≤ c.toNat ∧ c.toNat ≤ 0x5a then some (c.toNat - 0x41 + 10)
  else none

def isDigit (base : ℕ) (c : Byte) : Bool := (digitValue c).any fun d => decide (d < base)

/-- The number that digits denote, the most significant first. -/
def numeral (base : ℕ) (chars : List Byte) : ℕ :=
  Nat.ofDigits base (chars.map fun c => (digitValue c).getD 0).reverse

def digitChar (d : ℕ) : Byte := BitVec.ofNat 8 (if d < 10 then 0x30 + d else 0x61 + (d - 10))

def shortest (base n : ℕ) : List Byte :=
  if n = 0 then [zeroChar] else (Nat.digits base n).reverse.map digitChar

/-- An integer type of the machine. -/
structure IntegerType where
  width : ℕ
  signed : Bool
deriving DecidableEq, Repr

namespace IntegerType

/-- The values of the type. -/
def Fits (t : IntegerType) (v : ℤ) : Prop :=
  if t.signed then -2 ^ (t.width - 1) ≤ v ∧ v < 2 ^ (t.width - 1) else 0 ≤ v ∧ v < 2 ^ t.width

instance (t : IntegerType) (v : ℤ) : Decidable (t.Fits v) := by
  unfold Fits
  infer_instance

end IntegerType

inductive Errc where
  | none | invalidArgument | resultOutOfRange
deriving DecidableEq, Repr

/-- `std::from_chars_result`; for the pointer, the characters from it on. -/
structure FromCharsResult where
  ptr : List Byte
  ec : Errc
deriving DecidableEq, Repr

/-- `std::from_chars`: the result, and the value the variable has then.  Without digits
nothing is consumed; a numeral the type does not hold is consumed and leaves the variable
as it was. -/
def fromChars (t : IntegerType) (base : ℕ) (chars : List Byte) (value : BitVec t.width) :
    FromCharsResult × BitVec t.width :=
  let negative := t.signed && chars.head? == some minusChar
  let body := if negative then chars.tail else chars
  let digits := body.takeWhile (isDigit base)
  if digits = [] then (⟨chars, .invalidArgument⟩, value)
  else
    let v : ℤ := if negative then -(numeral base digits : ℤ) else numeral base digits
    let ptr := body.dropWhile (isDigit base)
    if t.Fits v then (⟨ptr, .none⟩, BitVec.ofInt t.width v)
    else (⟨ptr, .resultOutOfRange⟩, value)

/-- `std::format` of an integer under `#0x` and a width: the sign, the prefix, zeros up to
the width, the digits. -/
def formatHex (width : ℕ) (v : ℤ) : List Byte :=
  let sign := if v < 0 then [minusChar] else []
  let digits := shortest 16 v.natAbs
  sign ++ [zeroChar, xChar] ++
    List.replicate (width - (sign.length + 2 + digits.length)) zeroChar ++ digits

theorem digitValue_digitChar {d : ℕ} (hd : d < 36) : digitValue (digitChar d) = some d := by
  have hall : ∀ k : Fin 36, digitValue (digitChar k) = some (k : ℕ) := by decide
  exact hall ⟨d, hd⟩

theorem isDigit_digitChar {base d : ℕ} (hbase : base ≤ 36) (hd : d < base) :
    isDigit base (digitChar d) := by
  simp [isDigit, digitValue_digitChar (hd.trans_le hbase), hd]

theorem isDigit_zeroChar {base : ℕ} (hbase : 0 < base) : isDigit base zeroChar := by
  have hzero : digitValue zeroChar = some 0 := by decide
  simp [isDigit, hzero, hbase]

theorem isDigit_minusChar (base : ℕ) : isDigit base minusChar = false := by
  have hminus : digitValue minusChar = none := by decide
  simp [isDigit, hminus]

theorem isDigit_shortest {base n : ℕ} (hpos : 1 < base) (hbase : base ≤ 36) :
    ∀ c ∈ shortest base n, isDigit base c := by
  intro c hc
  unfold shortest at hc
  split_ifs at hc
  · rw [List.mem_singleton.mp hc]
    exact isDigit_zeroChar (by omega)
  · obtain ⟨d, hd, rfl⟩ := List.mem_map.mp hc
    exact isDigit_digitChar hbase (Nat.digits_lt_base hpos (List.mem_reverse.mp hd))

theorem shortest_ne_nil (base n : ℕ) : shortest base n ≠ [] := by
  unfold shortest
  split_ifs with h
  · simp
  · simpa [Nat.digits_ne_nil_iff_ne_zero] using h

theorem numeral_zeros_append (base k : ℕ) (chars : List Byte) :
    numeral base (List.replicate k zeroChar ++ chars) = numeral base chars := by
  have hzero : digitValue zeroChar = some 0 := by decide
  simp [numeral, hzero, Nat.ofDigits_append_replicate_zero]

theorem numeral_shortest {base n : ℕ} (hpos : 1 < base) (hbase : base ≤ 36) :
    numeral base (shortest base n) = n := by
  unfold shortest
  split_ifs with h
  · rw [h]
    have hzero : digitValue zeroChar = some 0 := by decide
    simp [numeral, hzero]
  · have hback : ((Nat.digits base n).reverse.map digitChar).map (fun c => (digitValue c).getD 0)
        = (Nat.digits base n).reverse := by
      rw [List.map_map]
      conv_rhs => rw [← List.map_id (Nat.digits base n).reverse]
      apply List.map_congr_left
      intro d hd
      have hlt : d < base := Nat.digits_lt_base hpos (List.mem_reverse.mp hd)
      simp [digitValue_digitChar (hlt.trans_le hbase)]
    rw [numeral, hback, List.reverse_reverse, Nat.ofDigits_digits]

theorem fromChars_of_digits {t : IntegerType} {base : ℕ} {chars : List Byte} (hne : chars ≠ [])
    (hall : ∀ c ∈ chars, isDigit base c) (value : BitVec t.width) :
    fromChars t base chars value =
      if t.Fits (numeral base chars) then (⟨[], .none⟩, BitVec.ofInt t.width (numeral base chars))
      else (⟨[], .resultOutOfRange⟩, value) := by
  have hhead : (chars.head? == some minusChar) = false := by
    cases chars with
    | nil => exact absurd rfl hne
    | cons c chars =>
      have hc := hall c List.mem_cons_self
      have : c ≠ minusChar := by
        rintro rfl
        rw [isDigit_minusChar] at hc
        exact absurd hc (by decide)
      simpa using this
  have htake : chars.takeWhile (isDigit base) = chars := List.takeWhile_eq_self_iff.mpr hall
  have hdrop : chars.dropWhile (isDigit base) = [] := List.dropWhile_eq_nil_iff.mpr hall
  simp [fromChars, hhead, htake, hdrop, hne]

theorem formatHex_natCast (width n : ℕ) :
    ∃ chars, formatHex width n = zeroChar :: xChar :: chars ∧ chars ≠ [] ∧
      (∀ c ∈ chars, isDigit 16 c) ∧ numeral 16 chars = n := by
  have hsign : ¬ ((n : ℤ) < 0) := by omega
  refine ⟨List.replicate (width - (2 + (shortest 16 n).length)) zeroChar ++ shortest 16 n,
    by simp [formatHex, hsign], by simp [shortest_ne_nil], ?_, ?_⟩
  · intro c hc
    rcases List.mem_append.mp hc with hzero | hdigit
    · rw [List.eq_of_mem_replicate hzero]
      exact isDigit_zeroChar (by decide)
    · exact isDigit_shortest (by decide) (by decide) c hdigit
  · rw [numeral_zeros_append, numeral_shortest (by decide) (by decide)]

end KDebugger.Numerals
