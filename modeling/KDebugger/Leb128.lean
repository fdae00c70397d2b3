import KDebugger.ByteStream
import Mathlib.Tactic.Ring

namespace KDebugger.Leb128

open ByteStream

/-- The bytes are one LEB128 number: only the last has its high bit clear. -/
def Shaped : List Byte → Prop
  | [] => False
  | [b] => b.toNat < 128
  | b :: bs => 128 ≤ b.toNat ∧ Shaped bs

instance : DecidablePred Shaped := fun bs => by
  induction bs with
  | nil => exact inferInstanceAs (Decidable False)
  | cons b bs ih =>
    cases bs with
    | nil => exact inferInstanceAs (Decidable (b.toNat < 128))
    | cons b' bs => exact inferInstanceAs (Decidable (128 ≤ b.toNat ∧ Shaped (b' :: bs)))

def ulebValue : List Byte → ℕ
  | [] => 0
  | b :: bs => b.toNat % 128 + 128 * ulebValue bs

def lastByte (bs : List Byte) : Byte := bs.getLastD 0

def signBit (bs : List Byte) : Bool := 64 ≤ (lastByte bs).toNat % 128

/-- What the unsigned reading is too large by when the number is meant signed. -/
def signWeight (bs : List Byte) : ℕ := if signBit bs then 128 ^ bs.length else 0

def slebValue (bs : List Byte) : ℤ := (ulebValue bs : ℤ) - signWeight bs

theorem ulebValue_lt (bs : List Byte) : ulebValue bs < 128 ^ bs.length := by
  induction bs with
  | nil => simp [ulebValue]
  | cons b bs ih =>
    have hb : b.toNat % 128 < 128 := Nat.mod_lt _ (by decide)
    simp only [ulebValue, List.length_cons, Nat.pow_succ]
    omega

theorem Shaped.ne_nil {bs : List Byte} (h : Shaped bs) : bs ≠ [] := by
  rintro rfl
  exact h

/-- An operand of at most ten bytes. -/
structure Leb where
  bytes : List Byte
  shaped : Shaped bytes
  short : bytes.length ≤ 10

/-- An unsigned 64-bit operand, shortest or padded. -/
structure Uleb extends Leb where
  fits : ulebValue bytes < 2 ^ 64

/-- A signed 64-bit operand, shortest or padded. -/
structure Sleb extends Leb where
  low : -2 ^ 63 ≤ slebValue bytes
  high : slebValue bytes < 2 ^ 63

namespace Leb

def unsigned (l : Leb) : BitVec 64 := BitVec.ofNat 64 (ulebValue l.bytes)

def signed (l : Leb) : BitVec 64 := BitVec.ofInt 64 (slebValue l.bytes)

theorem unsigned_eq_signed_add (l : Leb) :
    l.unsigned = l.signed + BitVec.ofNat 64 (signWeight l.bytes) := by
  rw [unsigned, signed, slebValue, ← BitVec.ofInt_natCast, ← BitVec.ofInt_natCast,
    ← BitVec.ofInt_add]
  congr 1
  omega

end Leb

namespace Uleb

def value (u : Uleb) : ℕ := ulebValue u.bytes

/-- For the literals among the numbers of seven bits. -/
instance neZero_groups : NeZero 128 := ⟨by decide⟩

/-- The one-byte encoding of a number below 128. -/
def small (n : Fin 128) : Uleb where
  bytes := [BitVec.ofNat 8 n]
  shaped := by simp only [Shaped, BitVec.toNat_ofNat]; omega
  short := by simp
  fits := by simp only [ulebValue, BitVec.toNat_ofNat]; omega

theorem small_value (n : Fin 128) : (small n).value = n := by
  simp only [value, small, ulebValue, BitVec.toNat_ofNat]
  omega

theorem unsigned_toNat (u : Uleb) : u.unsigned.toNat = u.value := by
  rw [Leb.unsigned, BitVec.toNat_ofNat, Nat.mod_eq_of_lt u.fits, value]

end Uleb

namespace Sleb

def value (s : Sleb) : ℤ := slebValue s.bytes

theorem signed_toInt (s : Sleb) : s.signed.toInt = s.value := by
  have hlow := s.low
  have hhigh := s.high
  rw [Leb.signed, BitVec.toInt_ofInt, value]
  exact Int.bmod_eq_of_le (by omega) (by omega)

theorem signBit_eq_false_iff (s : Sleb) : signBit s.bytes = false ↔ 0 ≤ s.value := by
  have hlt := ulebValue_lt s.bytes
  by_cases hs : signBit s.bytes
  · have hnegative : s.value < 0 := by
      rw [value, slebValue, signWeight, if_pos hs]
      omega
    simp [hs, hnegative]
  · simp [hs, value, slebValue, signWeight]

end Sleb

/-- The bytes are an unsigned encoding of `n`, shortest or padded. -/
structure EncodesUnsigned (n : BitVec 64) (bs : List Byte) : Prop where
  shaped : Shaped bs
  short : bs.length ≤ 10
  value : ulebValue bs = n.toNat

/-- The number in `more + 1` groups; those it does not need are zero. -/
def spell : ℕ → ℕ → List Byte
  | 0, n => [BitVec.ofNat 8 n]
  | more + 1, n => BitVec.ofNat 8 (n % 128 + 128) :: spell more (n / 128)

@[simp] theorem length_spell (more n : ℕ) : (spell more n).length = more + 1 := by
  induction more generalizing n with
  | zero => rfl
  | succ more ih => rw [spell, List.length_cons, ih]

theorem shaped_cons {b : Byte} {bs : List Byte} (hb : 128 ≤ b.toNat) (h : Shaped bs) :
    Shaped (b :: bs) := by
  cases bs with
  | nil => exact h.elim
  | cons b' bs => exact ⟨hb, h⟩

theorem spell_spec {more n : ℕ} (h : n < 128 ^ (more + 1)) :
    Shaped (spell more n) ∧ ulebValue (spell more n) = n := by
  -- by induction on the padding groups
  induction more generalizing n with
  | zero =>
    simp only [spell, Shaped, ulebValue, BitVec.toNat_ofNat]
    omega
  | succ more ih =>
    have hdiv : n / 128 < 128 ^ (more + 1) := by
      apply Nat.div_lt_of_lt_mul
      rwa [Nat.pow_succ, Nat.mul_comm] at h
    obtain ⟨hshaped, hvalue⟩ := ih hdiv
    constructor
    · apply shaped_cons _ hshaped
      rw [BitVec.toNat_ofNat]
      omega
    · simp only [spell, ulebValue, BitVec.toNat_ofNat, hvalue]
      omega

theorem eq_spell {bs : List Byte} (h : Shaped bs) : bs = spell (bs.length - 1) (ulebValue bs) := by
  induction bs with
  | nil => exact h.elim
  | cons b bs ih =>
    have hlt := b.isLt
    cases bs with
    | nil =>
      have hb : b.toNat < 128 := h
      rw [ulebValue, ulebValue, Nat.mod_eq_of_lt hb]
      simp [spell]
    | cons b' bs =>
      obtain ⟨hb, hrest⟩ := h
      have hhead : BitVec.ofNat 8 (ulebValue (b :: b' :: bs) % 128 + 128) = b := by
        apply BitVec.eq_of_toNat_eq
        rw [ulebValue, BitVec.toNat_ofNat]
        omega
      have htail : ulebValue (b :: b' :: bs) / 128 = ulebValue (b' :: bs) := by
        rw [ulebValue]
        omega
      show b :: b' :: bs = spell ((b' :: bs).length - 1 + 1) (ulebValue (b :: b' :: bs))
      rw [spell, hhead, htail, ← ih hrest]

theorem encodesUnsigned_iff_spell {n : BitVec 64} {bs : List Byte} :
    EncodesUnsigned n bs ↔ ∃ more < 10, n.toNat < 128 ^ (more + 1) ∧ bs = spell more n.toNat := by
  constructor
  · rintro ⟨hshaped, hshort, hvalue⟩
    have hpos := List.length_pos_iff.mpr hshaped.ne_nil
    have hlt := ulebValue_lt bs
    refine ⟨bs.length - 1, by omega, ?_, ?_⟩
    · rwa [← hvalue, Nat.sub_add_cancel hpos]
    · rw [← hvalue]
      exact eq_spell hshaped
  · rintro ⟨more, hmore, hn, rfl⟩
    obtain ⟨hshaped, hvalue⟩ := spell_spec hn
    exact ⟨hshaped, by rw [length_spell]; omega, hvalue⟩

theorem or_shiftLeft {res : BitVec 64} {s : ℕ} (g : ℕ) (hres : res.toNat < 2 ^ s) (hs : s < 64) :
    res ||| (BitVec.ofNat 64 g <<< s) = BitVec.ofNat 64 (res.toNat + g * 2 ^ s) := by
  apply BitVec.eq_of_toNat_eq
  have hpow : 2 ^ 64 = 2 ^ s * 2 ^ (64 - s) := by rw [← Nat.pow_add]; congr 1; omega
  have hshift : (g % 2 ^ 64 * 2 ^ s) % 2 ^ 64 = 2 ^ s * (g % 2 ^ (64 - s)) := by
    rw [Nat.mod_mul_mod, hpow, Nat.mul_comm g, Nat.mul_mod_mul_left]
  have hsum : (res.toNat + g * 2 ^ s) % 2 ^ 64 = res.toNat + 2 ^ s * (g % 2 ^ (64 - s)) := by
    rw [hpow, Nat.mod_mul, Nat.add_mul_mod_self_right, Nat.mod_eq_of_lt hres,
      Nat.add_mul_div_right _ _ (Nat.two_pow_pos s), Nat.div_eq_of_lt hres, Nat.zero_add]
  rw [BitVec.toNat_or, BitVec.toNat_shiftLeft, BitVec.toNat_ofNat, Nat.shiftLeft_eq, hshift,
    BitVec.toNat_ofNat, hsum, Nat.or_comm, ← Nat.two_pow_add_eq_or_of_lt hres, Nat.add_comm]

theorem or_allOnes_shiftLeft {res : BitVec 64} {s : ℕ} (hres : res.toNat < 2 ^ s) (hs : s < 64) :
    res ||| (BitVec.allOnes 64 <<< s) = BitVec.ofInt 64 ((res.toNat : ℤ) - 2 ^ s) := by
  have hones : BitVec.allOnes 64 = BitVec.ofNat 64 18446744073709551615 := by decide
  have hsum : ((res.toNat + 18446744073709551615 * 2 ^ s : ℕ) : ℤ) =
      ((res.toNat : ℤ) - 2 ^ s) + 2 ^ s * ((2 ^ 64 : ℕ) : ℤ) := by
    push_cast
    ring
  rw [hones, or_shiftLeft _ hres hs]
  apply BitVec.eq_of_toInt_eq
  rw [← BitVec.ofInt_natCast, BitVec.toInt_ofInt, BitVec.toInt_ofInt, hsum,
    Int.add_mul_bmod_self_right]

end KDebugger.Leb128
