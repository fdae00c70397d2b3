import KDebugger.ByteStream

namespace KDebugger.Words

open ByteStream

/-- Byte `i` of a word. -/
def byteOf {n : ℕ} (w : BitVec n) (i : ℕ) : Byte := w.extractLsb' (8 * i) 8

/-- The word with the bytes `f 0` to `f 7`. -/
def wordOf (f : ℕ → Byte) : BitVec 64 := fromBytes 8 ((List.range 8).map f)

theorem byteOf_toNat {n : ℕ} (w : BitVec n) (i : ℕ) :
    (byteOf w i).toNat = w.toNat / 256 ^ i % 256 := by
  have hpow : 2 ^ (8 * i) = 256 ^ i := by rw [Nat.pow_mul]
  rw [byteOf, BitVec.extractLsb'_toNat, Nat.shiftRight_eq_div_pow, hpow]

theorem leValue_div (bs : List Byte) (i : ℕ) :
    leValue bs / 256 ^ i % 256 = (bs[i]?.getD 0#8).toNat := by
  induction i generalizing bs with
  | zero =>
    cases bs with
    | nil => rfl
    | cons b bs =>
      have := b.isLt
      simp only [leValue, Nat.pow_zero, Nat.div_one, List.getElem?_cons_zero, Option.getD_some]
      omega
  | succ i ih =>
    cases bs with
    | nil => simp [leValue]
    | cons b bs =>
      have hb := b.isLt
      have hdiv : (b.toNat + 256 * leValue bs) / 256 = leValue bs := by omega
      rw [leValue, Nat.pow_succ', ← Nat.div_div_eq_div_mul, hdiv, ih]
      simp

theorem byteOf_fromBytes {n i : ℕ} {bs : List Byte} (hi : i < n) :
    byteOf (fromBytes n bs) i = bs[i]?.getD 0#8 := by
  apply BitVec.eq_of_toNat_eq
  have hpow : 2 ^ (8 * n) = 256 ^ i * 256 ^ (n - i) := by
    rw [Nat.pow_mul, ← Nat.pow_add]
    congr 1
    omega
  have hsplit : 256 ^ (n - i) = 256 * 256 ^ (n - i - 1) := by
    rw [← Nat.pow_succ']
    congr 1
    omega
  rw [byteOf_toNat, fromBytes, BitVec.toNat_ofNat, hpow, Nat.mod_mul_right_div_self, hsplit,
    Nat.mod_mul_right_mod, leValue_div]

@[simp] theorem byteOf_wordOf (f : ℕ → Byte) {i : ℕ} (hi : i < 8) : byteOf (wordOf f) i = f i := by
  rw [wordOf, byteOf_fromBytes hi]
  simp [hi]

theorem word_ext {v w : BitVec 64} (h : ∀ i < 8, byteOf v i = byteOf w i) : v = w := by
  apply BitVec.eq_of_getLsbD_eq
  intro j hj
  have hbit := congrArg (fun b : Byte => b.getLsbD (j % 8)) (h (j / 8) (by omega))
  have hmod : j % 8 < 8 := Nat.mod_lt _ (by decide)
  have hjoin : 8 * (j / 8) + j % 8 = j := Nat.div_add_mod j 8
  simpa [byteOf, hmod, hjoin] using hbit

theorem toNat_widened {n m : ℕ} (h : n ≤ m) (w : BitVec n) : (w.setWidth m).toNat = w.toNat := by
  rw [BitVec.toNat_setWidth,
    Nat.mod_eq_of_lt (w.isLt.trans_le (Nat.pow_le_pow_right (by decide) h))]

theorem byteOf_widened {n m : ℕ} (h : n ≤ m) (w : BitVec n) (i : ℕ) :
    byteOf (w.setWidth m) i = byteOf w i := by
  apply BitVec.eq_of_toNat_eq
  rw [byteOf_toNat, byteOf_toNat, toNat_widened h]

theorem byteOf_narrowed {n m i : ℕ} (h : 8 * i + 8 ≤ m) (w : BitVec n) :
    byteOf (w.setWidth m) i = byteOf w i := by
  apply BitVec.eq_of_getLsbD_eq
  intro j hj
  have hlt : 8 * i + j < m := by omega
  simp [byteOf, hj, hlt]

theorem fromBytes_byteOf {n : ℕ} (w : BitVec (8 * n)) :
    fromBytes n ((List.range n).map (byteOf w)) = w := by
  apply BitVec.eq_of_getLsbD_eq
  intro j hj
  have hbyte : byteOf (fromBytes n ((List.range n).map (byteOf w))) (j / 8) = byteOf w (j / 8) := by
    have hi : j / 8 < n := by omega
    rw [byteOf_fromBytes hi]
    simp [hi]
  have hbit := congrArg (fun b : Byte => b.getLsbD (j % 8)) hbyte
  have hmod : j % 8 < 8 := Nat.mod_lt _ (by decide)
  have hjoin : 8 * (j / 8) + j % 8 = j := Nat.div_add_mod j 8
  simpa [byteOf, hmod, hjoin] using hbit

theorem wordOf_byteOf (w : BitVec 64) : wordOf (byteOf w) = w :=
  word_ext fun _ hi => byteOf_wordOf _ hi

theorem wordOf_congr {f g : ℕ → Byte} (h : ∀ i < 8, f i = g i) : wordOf f = wordOf g :=
  word_ext fun i hi => by rw [byteOf_wordOf f hi, byteOf_wordOf g hi, h i hi]

/-- The lowest byte of a word replaced. -/
def withLowByte (w : BitVec 64) (b : Byte) : BitVec 64 := (w &&& ~~~0xff#64) ||| b.setWidth 64

theorem lowByteMask_getLsbD (k : Fin 64) :
    (~~~0xff#64).getLsbD k = decide (8 ≤ (k : ℕ)) := by
  revert k
  decide

theorem byteOf_withLowByte (w : BitVec 64) (b : Byte) {i : ℕ} (hi : i < 8) :
    byteOf (withLowByte w b) i = if i = 0 then b else byteOf w i := by
  apply BitVec.eq_of_getLsbD_eq
  intro j hj
  have hlt : 8 * i + j < 64 := by omega
  have hmask := lowByteMask_getLsbD ⟨8 * i + j, hlt⟩
  simp only [withLowByte, byteOf, BitVec.getLsbD_extractLsb', BitVec.getLsbD_or,
    BitVec.getLsbD_and, BitVec.getLsbD_setWidth, hmask, hj, hlt, decide_true, Bool.true_and]
  by_cases h0 : i = 0
  · subst h0
    have hsmall : ¬ 8 ≤ j := by omega
    simp [hsmall]
  · have hlarge : 8 ≤ 8 * i + j := by omega
    rw [BitVec.getLsbD_of_ge b _ hlarge]
    simp [h0, hlarge, hj]

end KDebugger.Words
