import KDebugger.Parse

namespace KDebugger

open Numerals

/-- The text is a numeral of the base, after a minus sign where there may be one. -/
inductive Denotes (signed : Bool) (base : ℕ) : List Byte → ℤ → Prop
  | plain {digits : List Byte} (nonempty : digits ≠ [])
      (digits_only : ∀ c ∈ digits, isDigit base c) :
      Denotes signed base digits (numeral base digits)
  | negative {digits : List Byte} (sign : signed = true) (nonempty : digits ≠ [])
      (digits_only : ∀ c ∈ digits, isDigit base c) :
      Denotes signed base (minusChar :: digits) (-numeral base digits)

variable {t : IntegerType} {base : ℕ} {chars : List Byte} {v w : ℤ}

theorem Denotes.ne_nil (h : Denotes t.signed base chars v) : chars ≠ [] := by
  cases h with
  | plain nonempty _ => exact nonempty
  | negative _ _ _ => exact List.cons_ne_nil _ _

theorem fromChars_of_denotes (h : Denotes t.signed base chars v) (value : BitVec t.width) :
    fromChars t base chars value =
      if t.Fits v then (⟨[], .none⟩, BitVec.ofInt t.width v) else (⟨[], .resultOutOfRange⟩, value) := by
  cases h with
  | plain nonempty digits_only => exact fromChars_of_digits nonempty digits_only value
  | @negative digits sign nonempty digits_only =>
    have htake : digits.takeWhile (isDigit base) = digits :=
      List.takeWhile_eq_self_iff.mpr digits_only
    have hdrop : digits.dropWhile (isDigit base) = [] := List.dropWhile_eq_nil_iff.mpr digits_only
    simp [fromChars, sign, htake, hdrop, nonempty]

theorem Denotes.unique (h : Denotes t.signed base chars v) (h' : Denotes t.signed base chars w) :
    v = w := by
  cases h with
  | plain nonempty digits_only =>
    cases h' with
    | plain _ _ => rfl
    | negative _ _ _ =>
      have hminus := digits_only minusChar List.mem_cons_self
      rw [isDigit_minusChar] at hminus
      cases hminus
  | negative sign nonempty digits_only =>
    cases h' with
    | plain _ digits_only' =>
      have hminus := digits_only' minusChar List.mem_cons_self
      rw [isDigit_minusChar] at hminus
      cases hminus
    | negative _ _ _ => rfl

theorem denotes_of_consumed (hne : chars ≠ []) {value : BitVec t.width}
    (h : (fromChars t base chars value).1.ptr = []) : ∃ v, Denotes t.signed base chars v := by
  -- a numeral that does not fit is consumed whole as well
  unfold fromChars at h
  dsimp only at h
  by_cases hsign : t.signed = true ∧ chars.head? = some minusChar
  · obtain ⟨hsigned, hhead⟩ := hsign
    obtain ⟨digits, rfl⟩ : ∃ digits, chars = minusChar :: digits := by
      cases chars with
      | nil => exact absurd rfl hne
      | cons c digits => exact ⟨digits, by simpa using hhead⟩
    simp only [hsigned, List.head?_cons, BEq.rfl, Bool.and_self, if_true, List.tail_cons] at h
    split_ifs at h with hempty
    all_goals
      have hall := List.dropWhile_eq_nil_iff.mp h
      refine ⟨_, .negative hsigned ?_ hall⟩
      rintro rfl
      exact hempty rfl
  · have hnegative : (t.signed && chars.head? == some minusChar) = false := by
      simpa using hsign
    simp only [hnegative, Bool.false_eq_true, if_false] at h
    split_ifs at h with hempty hfits
    · exact absurd h hne
    all_goals exact ⟨_, .plain hne (List.dropWhile_eq_nil_iff.mp h)⟩

def ReturnsNumeral (t : IntegerType) (uninitialised : BitVec t.width) (sv : List Byte)
    (base : ℕ) : Prop :=
  ∀ r, toIntegral t uninitialised sv base = some r ↔
    ∃ v, Denotes t.signed base (skipPrefix base sv) v ∧ t.Fits v ∧ r = BitVec.ofInt t.width v

/-- Something is left of the text after its prefix, and the type holds its value if it is a
numeral. -/
structure Telling (t : IntegerType) (sv : List Byte) (base : ℕ) : Prop where
  nonempty : skipPrefix base sv ≠ []
  fits : ∀ v, Denotes t.signed base (skipPrefix base sv) v → t.Fits v

theorem toIntegral_eq (uninitialised : BitVec t.width) (sv : List Byte) (base : ℕ) :
    toIntegral t uninitialised sv base =
      if (fromChars t base (skipPrefix base sv) uninitialised).1.ptr ≠ [] then none
      else some (fromChars t base (skipPrefix base sv) uninitialised).2 := rfl

theorem returnsNumeral_of_telling (uninitialised : BitVec t.width) {sv : List Byte}
    (h : Telling t sv base) : ReturnsNumeral t uninitialised sv base := by
  intro r
  rw [toIntegral_eq]
  constructor
  · intro hr
    split_ifs at hr with hptr
    have hconsumed := not_not.mp hptr
    obtain ⟨v, hv⟩ := denotes_of_consumed h.nonempty hconsumed
    refine ⟨v, hv, h.fits v hv, ?_⟩
    rw [fromChars_of_denotes hv, if_pos (h.fits v hv)] at hr
    exact (Option.some.inj hr).symm
  · rintro ⟨v, hv, hfits, rfl⟩
    rw [fromChars_of_denotes hv, if_pos hfits]
    rfl

theorem toIntegral_uninitialised (uninitialised : BitVec t.width) {sv : List Byte}
    (h : ¬ Telling t sv base) : toIntegral t uninitialised sv base = some uninitialised ∧
      ∀ v, Denotes t.signed base (skipPrefix base sv) v → ¬ t.Fits v := by
  rw [toIntegral_eq]
  by_cases hempty : skipPrefix base sv = []
  · refine ⟨?_, fun v hv => absurd hempty hv.ne_nil⟩
    rw [hempty]
    simp [fromChars]
  · obtain ⟨v, hv, hfits⟩ : ∃ v, Denotes t.signed base (skipPrefix base sv) v ∧ ¬ t.Fits v := by
      by_contra hno
      push Not at hno
      exact h ⟨hempty, hno⟩
    refine ⟨?_, fun w hw => hv.unique hw ▸ hfits⟩
    rw [fromChars_of_denotes hv, if_neg hfits]
    rfl

theorem returnsNumeral_iff (t : IntegerType) (uninitialised : BitVec t.width) (sv : List Byte)
    (base : ℕ) : ReturnsNumeral t uninitialised sv base ↔ Telling t sv base := by
  constructor
  · intro hreturns
    by_contra hno
    obtain ⟨hresult, hunfit⟩ := toIntegral_uninitialised uninitialised hno
    obtain ⟨v, hv, hfits, -⟩ := (hreturns uninitialised).mp hresult
    exact hunfit v hv hfits
  · exact returnsNumeral_of_telling uninitialised

/-- `memory read 0x10000000000000000`, an address of 65 bits. -/
theorem returnsNumeral_not_for_all : ¬ ∀ (t : IntegerType) (uninitialised : BitVec t.width)
    (sv : List Byte) (base : ℕ), ReturnsNumeral t uninitialised sv base := by
  intro h
  let text : List Byte := zeroChar :: xChar :: 0x31#8 :: List.replicate 16 zeroChar
  have hresult : toIntegral ⟨64, false⟩ 0xdead#64 text 16 = some 0xdead#64 := by decide
  obtain ⟨v, hv, hfits, hvalue⟩ := (h ⟨64, false⟩ 0xdead#64 text 16 0xdead#64).mp hresult
  have hdigits : Denotes false 16 (skipPrefix 16 text) (2 ^ 64 : ℤ) :=
    @Denotes.plain false 16 (0x31#8 :: List.replicate 16 zeroChar) (by decide) (by decide)
  obtain rfl := Denotes.unique (t := ⟨64, false⟩) hv hdigits
  exact absurd hfits (by decide)

end KDebugger
