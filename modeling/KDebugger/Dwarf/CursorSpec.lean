import KDebugger.Dwarf.Cursor
import Mathlib.Tactic.NormNum

namespace KDebugger.Dwarf

open ByteStream Leb128 Exec

namespace Cur

theorem reads_u8 (b : Byte) : Reads u8 [b] b := by
  have h : Reads u8 (leBytes 1 b.toNat) b := reads_fixedInt 1 b
  simpa [leBytes] using h

theorem reads_u16 (v : BitVec 16) : Reads u16 (leBytes 2 v.toNat) v := reads_fixedInt 2 v

theorem reads_u32 (v : BitVec 32) : Reads u32 (leBytes 4 v.toNat) v := reads_fixedInt 4 v

theorem reads_u64 (v : BitVec 64) : Reads u64 (leBytes 8 v.toNat) v := reads_fixedInt 8 v

theorem and_7f (b : Byte) : (b &&& 0x7f#8).setWidth 64 = BitVec.ofNat 64 (b.toNat % 128) := by
  apply BitVec.eq_of_toNat_eq
  have h : b.toNat &&& 127 = b.toNat % 2 ^ 7 := Nat.and_two_pow_sub_one_eq_mod b.toNat 7
  simp only [BitVec.toNat_setWidth, BitVec.toNat_and, BitVec.toNat_ofNat, Nat.reducePow,
    Nat.reduceMod]
  rw [h]
  rfl

theorem and_80_eq_zero (b : Byte) : b &&& 0x80#8 = 0#8 ↔ b.toNat < 128 := by
  revert b
  decide

theorem and_40_ne_zero (b : Byte) : b &&& 0x40#8 ≠ 0#8 ↔ 64 ≤ b.toNat % 128 := by
  revert b
  decide

theorem reads_lebGroups (bs : List Byte) :
    ∀ (more shift : ℕ) (res : BitVec 64), Shaped bs → bs.length ≤ more → shift + 7 * more = 70 →
      res.toNat < 2 ^ shift →
      Reads (lebGroups more shift res) bs
        (BitVec.ofNat 64 (res.toNat + ulebValue bs * 2 ^ shift), shift + 7 * bs.length,
          lastByte bs) := by
  -- by induction on the groups, with the bits below `shift` read already
  induction bs with
  | nil => intro _ _ _ h; exact absurd h (by simp [Shaped])
  | cons b bs ih =>
    intro more shift res hshape hlen hshift hres
    obtain ⟨more, rfl⟩ : ∃ m, more = m + 1 := ⟨more - 1, by simp at hlen; omega⟩
    have hs : shift < 64 := by omega
    have hor := or_shiftLeft (b.toNat % 128) hres hs
    change Reads _ ([b] ++ bs) _
    refine reads_bind (reads_u8 b) ?_
    simp only [and_7f, hor]
    cases bs with
    | nil =>
      have hb : b &&& 0x80#8 = 0#8 := (and_80_eq_zero b).mpr hshape
      simpa [hb, ulebValue, lastByte] using reads_pure
        (BitVec.ofNat 64 (res.toNat + b.toNat % 128 * 2 ^ shift), shift + 7, b)
    | cons b' bs =>
      have hb : b &&& 0x80#8 ≠ 0#8 := by
        rw [Ne, and_80_eq_zero]
        have := hshape.1
        omega
      have hmore : 0 < more := by simp at hlen; omega
      have hbound : res.toNat + b.toNat % 128 * 2 ^ shift < 2 ^ (shift + 7) := by
        have hg : b.toNat % 128 < 128 := Nat.mod_lt _ (by decide)
        have : b.toNat % 128 * 2 ^ shift ≤ 127 * 2 ^ shift := Nat.mul_le_mul_right _ (by omega)
        rw [Nat.pow_add]
        omega
      have hlt : res.toNat + b.toNat % 128 * 2 ^ shift < 2 ^ 64 :=
        hbound.trans_le (Nat.pow_le_pow_right (by decide) (by omega))
      have hih := ih more (shift + 7) (BitVec.ofNat 64 (res.toNat + b.toNat % 128 * 2 ^ shift))
        hshape.2 (by simpa using hlen) (by omega)
        (by rwa [BitVec.toNat_ofNat, Nat.mod_eq_of_lt hlt])
      rw [if_pos hb]
      rw [BitVec.toNat_ofNat, Nat.mod_eq_of_lt hlt] at hih
      have hval : res.toNat + ulebValue (b :: b' :: bs) * 2 ^ shift =
          res.toNat + b.toNat % 128 * 2 ^ shift + ulebValue (b' :: bs) * 2 ^ (shift + 7) := by
        rw [ulebValue, Nat.pow_add]
        ring
      have hlast : shift + 7 + 7 * (b' :: bs).length = shift + 7 * (b :: b' :: bs).length := by
        simp only [List.length_cons]
        omega
      simpa only [hval, hlast, lastByte, List.getLastD_cons] using hih

theorem reads_uleb128 (l : Leb) : Reads uleb128 l.bytes l.unsigned := by
  have h := reads_lebGroups l.bytes 10 0 0#64 l.shaped l.short (by decide) (by decide)
  have h' := reads_map (fun r : BitVec 64 × ℕ × BitVec 8 => r.1) h
  simpa [uleb128, Leb.unsigned] using h'

/-- What `sleb128` makes of a number: it extends the sign of one-byte numbers only. -/
def slebRead (l : Leb) : BitVec 64 := if l.bytes.length = 1 then l.signed else l.unsigned

theorem unsigned_eq_signed_iff (l : Leb) :
    l.unsigned = l.signed ↔ l.bytes.length = 10 ∨ signBit l.bytes = false := by
  have hshort := l.short
  have hweight : l.unsigned = l.signed ↔ 2 ^ 64 ∣ signWeight l.bytes := by
    rw [l.unsigned_eq_signed_add, BitVec.add_right_eq_self, ← BitVec.toNat_inj,
      BitVec.toNat_ofNat, BitVec.toNat_ofNat, Nat.dvd_iff_mod_eq_zero]
  rw [hweight, signWeight]
  by_cases hs : signBit l.bytes
  · have hpow : (128 : ℕ) ^ l.bytes.length = 2 ^ (7 * l.bytes.length) := by rw [Nat.pow_mul]
    rw [if_pos hs, hpow, Nat.pow_dvd_pow_iff_le_right (by decide)]
    simp only [hs, Bool.true_eq_false, or_false]
    omega
  · simp [hs]

/-- The signed reading comes out for one byte, for ten, and for any number whose sign
bit is clear. -/
theorem slebRead_eq_signed_iff (l : Leb) :
    slebRead l = l.signed ↔
      l.bytes.length = 1 ∨ l.bytes.length = 10 ∨ signBit l.bytes = false := by
  by_cases h1 : l.bytes.length = 1
  · simp [slebRead, h1]
  · rw [slebRead, if_neg h1, unsigned_eq_signed_iff, or_iff_right h1]

theorem sign_extension (l : Leb) :
    (if 7 * l.bytes.length < 8 ∧ lastByte l.bytes &&& 0x40#8 ≠ 0#8 then
        BitVec.ofNat 64 (ulebValue l.bytes) ||| (BitVec.allOnes 64 <<< (7 * l.bytes.length))
      else BitVec.ofNat 64 (ulebValue l.bytes)) = slebRead l := by
  have hpos : 0 < l.bytes.length := List.length_pos_iff.mpr l.shaped.ne_nil
  have hlt := ulebValue_lt l.bytes
  by_cases h1 : l.bytes.length = 1
  · rw [slebRead, if_pos h1, Leb.signed, slebValue, signWeight, signBit, h1]
    rw [h1] at hlt
    simp only [and_40_ne_zero]
    by_cases hsign : 64 ≤ (lastByte l.bytes).toNat % 128
    · have hto : (BitVec.ofNat 64 (ulebValue l.bytes)).toNat = ulebValue l.bytes := by
        rw [BitVec.toNat_ofNat, Nat.mod_eq_of_lt]
        omega
      rw [if_pos ⟨by decide, hsign⟩, or_allOnes_shiftLeft (by omega) (by decide), hto]
      simp [hsign]
    · simp [hsign]
  · rw [slebRead, if_neg h1, if_neg (by omega), Leb.unsigned]

theorem reads_sleb128 (l : Leb) : Reads sleb128 l.bytes (slebRead l) := by
  have h := reads_lebGroups l.bytes 10 0 0#64 l.shaped l.short (by decide) (by decide)
  simp only [BitVec.toNat_ofNat, Nat.zero_mod, Nat.zero_add, Nat.pow_zero, Nat.mul_one] at h
  rw [← sign_extension l]
  nth_rewrite 1 [← List.append_nil l.bytes]
  refine reads_bind h ?_
  by_cases hc : 7 * l.bytes.length < 8 ∧ lastByte l.bytes &&& 0x40#8 ≠ 0#8
  · simp only [if_pos hc]
    exact reads_pure _
  · simp only [if_neg hc]
    exact reads_pure _

/-- `sleb128` returns the number and stops right after it, wherever its bytes lie in the
area and whatever surrounds them. -/
def DecodesSigned (s : Sleb) : Prop :=
  ∀ c : Cursor, BytesAt c.image c.pos s.bytes → c.pos + s.bytes.length ≤ c.stop →
    ∃ v, sleb128 c = .ok v (c.advance s.bytes.length) ∧ v.toInt = s.value

theorem decodesSigned_iff_slebRead (s : Sleb) :
    DecodesSigned s ↔ slebRead s.toLeb = s.signed := by
  have hsigned : ∀ v : BitVec 64, v.toInt = s.value ↔ v = s.signed := by
    intro v
    rw [← s.signed_toInt, BitVec.toInt_inj]
  constructor
  · intro h
    have hat : BytesAt (Image.ofList s.bytes) 0 s.bytes := bytesAt_ofList fun i _ => by simp
    obtain ⟨v, hread, hv⟩ := h ⟨Image.ofList s.bytes, 0, s.bytes.length⟩ hat (by simp)
    rw [reads_sleb128 s.toLeb _ hat (by simp)] at hread
    cases hread
    exact (hsigned _).mp hv
  · intro h c hat hstop
    exact ⟨slebRead s.toLeb, reads_sleb128 s.toLeb c hat hstop, (hsigned _).mpr h⟩

theorem slebRead_toLeb_iff (s : Sleb) : slebRead s.toLeb = s.signed ↔
    0 ≤ s.value ∨ s.bytes.length = 1 ∨ s.bytes.length = 10 := by
  rw [slebRead_eq_signed_iff, s.signBit_eq_false_iff]
  exact or_assoc.symm.trans or_comm

/-- A number is read back from each of its encodings exactly when it is not negative or the
encoding has one byte or ten. -/
theorem decodesSigned_iff (s : Sleb) :
    DecodesSigned s ↔ 0 ≤ s.value ∨ s.bytes.length = 1 ∨ s.bytes.length = 10 := by
  rw [decodesSigned_iff_slebRead, slebRead_toLeb_iff]

/-- -129 in two bytes is read as 16255. -/
theorem decodesSigned_not_for_all : ¬ ∀ s : Sleb, DecodesSigned s := by
  intro h
  have hneg := (decodesSigned_iff_slebRead _).mp
    (h ⟨⟨[0xff#8, 0x7e#8], by decide, by decide⟩, by decide, by decide⟩)
  exact absurd hneg (by decide)

theorem cString_eq {img : Image} {s : List Byte} (hs : 0#8 ∉ s) :
    ∀ {fuel p : ℕ}, BytesAt img p (s ++ [0#8]) → s.length < fuel → cString img fuel p = some s := by
  induction s with
  | nil =>
    intro fuel p hat hlen
    obtain ⟨fuel, rfl⟩ : ∃ k, fuel = k + 1 := ⟨fuel - 1, by omega⟩
    simp [cString, hat.1]
  | cons b s ih =>
    intro fuel p hat hlen
    obtain ⟨fuel, rfl⟩ : ∃ k, fuel = k + 1 := ⟨fuel - 1, by omega⟩
    obtain ⟨hb, hs⟩ : ¬ 0#8 = b ∧ 0#8 ∉ s := by simpa [not_or] using hs
    have hrest := ih hs hat.2 (by simpa using hlen)
    simp [cString, hat.1, Ne.symm hb, hrest]

theorem reads_string {s : List Byte} (hs : 0#8 ∉ s) : Reads string (s ++ [0#8]) s := by
  intro c hat hstop
  have hsize := hat.end_le_size (by simp)
  simp only [List.length_append, List.length_singleton] at hstop hsize
  have hmin : min (c.pos + s.length) c.stop + 1 = c.pos + (s ++ [0#8]).length := by simp; omega
  have hview : cString c.image (c.image.size + 1) c.pos = some s := cString_eq hs hat (by omega)
  simp only [string, if_neg (by omega : ¬ c.stop < c.pos), hview, hmin]
  rfl

theorem skipString_eq {s : List Byte} (hs : 0#8 ∉ s) :
    ∀ {left : ℕ} {c : Cursor}, BytesAt c.image c.pos (s ++ [0#8]) → s.length < left →
      skipString left c = .ok () (c.advance (s.length + 1)) := by
  induction s with
  | nil =>
    intro left c hat hlen
    obtain ⟨left, rfl⟩ : ∃ k, left = k + 1 := ⟨left - 1, by omega⟩
    simp [skipString, hat.1]
    rfl
  | cons b s ih =>
    intro left c hat hlen
    obtain ⟨left, rfl⟩ : ∃ k, left = k + 1 := ⟨left - 1, by omega⟩
    obtain ⟨hb, hs⟩ : ¬ 0#8 = b ∧ 0#8 ∉ s := by simpa [not_or] using hs
    have hrest := ih hs (c := c.advance 1) hat.2 (by simpa using hlen)
    simp [skipString, hat.1, Ne.symm hb, hrest, Nat.add_comm]

/-- The forms `skip_form` gives a fixed width. -/
def skippedWidth : Form → Option ℕ
  | .data1 | .ref1 | .flag => some 1
  | .data2 | .ref2 => some 2
  | .data4 | .ref4 | .refAddr | .secOffset | .strp => some 4
  | _ => none

/-- The encodings `skip_form` has a case for, by the code of their form. -/
inductive Handled : BitVec 64 → List Byte → Prop where
  | fixed {f : Form} {bs : List Byte} (h : skippedWidth f = some bs.length) : Handled f.code bs
  | leb {f : Form} (h : f ∈ [Form.sdata, .udata, .refUdata]) (l : Leb) : Handled f.code l.bytes
  | block1 (n : BitVec 8) {bs : List Byte} (h : bs.length = n.toNat) :
      Handled Form.block1.code ([n] ++ bs)
  | block2 (n : BitVec 16) {bs : List Byte} (h : bs.length = n.toNat) :
      Handled Form.block2.code (leBytes 2 n.toNat ++ bs)
  | block4 (n : BitVec 32) {bs : List Byte} (h : bs.length = n.toNat) :
      Handled Form.block4.code (leBytes 4 n.toNat ++ bs)
  | block {f : Form} (hf : f ∈ [Form.block, .exprloc]) (l : Leb) {bs : List Byte}
      (h : bs.length = l.unsigned.toNat) : Handled f.code (l.bytes ++ bs)
  | string {s : List Byte} (h : 0#8 ∉ s) : Handled Form.string.code (s ++ [0#8])
  | indirect (l : Leb) {bs : List Byte} (h : Handled l.unsigned bs) :
      Handled Form.indirect.code (l.bytes ++ bs)

theorem reads_skip_of_length {n : ℕ} {bs : List Byte} (h : bs.length = n) :
    Reads (skip n) bs () := by
  subst h
  exact reads_skip bs

theorem reads_skipFormWithin {form : BitVec 64} {bs : List Byte} (h : Handled form bs) :
    ∀ {depth : ℕ}, bs.length < depth → Reads (skipFormWithin depth form) bs () := by
  -- one case a form; only `DW_FORM_indirect` calls itself, and takes a byte for that
  induction h with
  | @fixed f bs h =>
    intro depth hd
    obtain ⟨depth, rfl⟩ : ∃ k, depth = k + 1 := ⟨depth - 1, by omega⟩
    cases f <;> simp only [skippedWidth, Option.some.injEq, reduceCtorEq] at h <;>
      (simp only [skipFormWithin, Form.ofCode_code]; exact reads_skip_of_length h.symm)
  | @leb f hf l =>
    intro depth hd
    obtain ⟨depth, rfl⟩ : ∃ k, depth = k + 1 := ⟨depth - 1, by omega⟩
    simp only [List.mem_cons, List.not_mem_nil, or_false] at hf
    rcases hf with rfl | rfl | rfl <;> simp only [skipFormWithin, Form.ofCode_code]
    · exact reads_map (fun _ => ()) (reads_sleb128 l)
    · exact reads_map (fun _ => ()) (reads_uleb128 l)
    · exact reads_map (fun _ => ()) (reads_uleb128 l)
  | block1 n h =>
    intro depth hd
    obtain ⟨depth, rfl⟩ : ∃ k, depth = k + 1 := ⟨depth - 1, by omega⟩
    simp only [skipFormWithin, Form.ofCode_code]
    exact reads_bind (reads_u8 n) (reads_skip_of_length h)
  | block2 n h =>
    intro depth hd
    obtain ⟨depth, rfl⟩ : ∃ k, depth = k + 1 := ⟨depth - 1, by omega⟩
    simp only [skipFormWithin, Form.ofCode_code]
    exact reads_bind (reads_u16 n) (reads_skip_of_length h)
  | block4 n h =>
    intro depth hd
    obtain ⟨depth, rfl⟩ : ∃ k, depth = k + 1 := ⟨depth - 1, by omega⟩
    simp only [skipFormWithin, Form.ofCode_code]
    exact reads_bind (reads_u32 n) (reads_skip_of_length h)
  | block hf l h =>
    intro depth hd
    obtain ⟨depth, rfl⟩ : ∃ k, depth = k + 1 := ⟨depth - 1, by omega⟩
    simp only [List.mem_cons, List.not_mem_nil, or_false] at hf
    rcases hf with rfl | rfl <;> simp only [skipFormWithin, Form.ofCode_code]
    · exact reads_bind (reads_uleb128 l) (reads_skip_of_length h)
    · exact reads_bind (reads_uleb128 l) (reads_skip_of_length h)
  | @string s h =>
    intro depth hd
    obtain ⟨depth, rfl⟩ : ∃ k, depth = k + 1 := ⟨depth - 1, by omega⟩
    simp only [skipFormWithin, Form.ofCode_code]
    intro c hat hstop
    simp only [List.length_append, List.length_singleton] at hstop ⊢
    exact skipString_eq h hat (by omega)
  | indirect l _ ih =>
    intro depth hd
    obtain ⟨depth, rfl⟩ : ∃ k, depth = k + 1 := ⟨depth - 1, by omega⟩
    have hl : 0 < l.bytes.length := List.length_pos_iff.mpr l.shaped.ne_nil
    simp only [List.length_append] at hd
    simp only [skipFormWithin, Form.ofCode_code]
    exact reads_bind (reads_uleb128 l) (ih (by omega))

/-- `skip_form` raises nothing on an encoding it has a case for and moves past it. -/
theorem reads_skipForm {form : BitVec 64} {bs : List Byte} (h : Handled form bs) :
    Reads (skipForm form) bs () := by
  intro c hat hstop
  have hsize : bs.length < c.image.size + 1 := by
    cases bs with
    | nil => simp
    | cons b bs =>
      have := hat.end_le_size (by simp)
      omega
  exact reads_skipFormWithin h hsize c hat hstop

end Cur
end KDebugger.Dwarf
