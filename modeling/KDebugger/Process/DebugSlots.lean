import KDebugger.Process.HardwareStoppoints

namespace KDebugger.Process

def modeBits : StoppointMode → BitVec 2
  | .write => 0b01#2
  | .readWrite => 0b11#2
  | .execute => 0b00#2

def lengthBits : ℕ → BitVec 2
  | 2 => 0b01#2
  | 4 => 0b11#2
  | 8 => 0b10#2
  | _ => 0b00#2

theorem encodeMode_eq (mode : StoppointMode) :
    encodeHardwareStoppointMode mode = (modeBits mode).setWidth 64 := by
  cases mode <;> rfl

def ValidSize (size : ℕ) : Prop := size = 1 ∨ size = 2 ∨ size = 4 ∨ size = 8

theorem encodeSize_eq {size : ℕ} (h : ValidSize size) :
    encodeHardwareStoppointSize size = .ok ((lengthBits size).setWidth 64) := by
  rcases h with rfl | rfl | rfl | rfl <;> rfl

/-- The bits of slot `i` below bit 32. -/
def InSlot (i k : ℕ) : Prop := (2 * i ≤ k ∧ k < 2 * i + 2) ∨ (16 + 4 * i ≤ k ∧ k < 20 + 4 * i)

instance (i k : ℕ) : Decidable (InSlot i k) := inferInstanceAs (Decidable (_ ∨ _))

theorem clearMask_getLsbD (i : Fin 4) (k : Fin 32) :
    (intMask (~~~clearMask i)).getLsbD k = !decide (InSlot i k) := by
  revert i k
  decide +kernel

theorem enableBit_getLsbD (i : Fin 4) (k : Fin 32) :
    (intMask (1#32 <<< ((i : ℕ) * 2))).getLsbD k = decide ((k : ℕ) = 2 * i) := by
  revert i k
  decide +kernel

theorem freeMask_getLsbD (i : Fin 4) (k : Fin 64) :
    (intMask (0b11#32 <<< ((i : ℕ) * 2))).getLsbD k =
      decide (2 * (i : ℕ) ≤ k ∧ (k : ℕ) < 2 * i + 2) := by
  revert i k
  decide +kernel

theorem clearSlot_getLsbD (c : BitVec 64) {i k : ℕ} (hi : i < 4) (hk : k < 32) :
    (clearSlot c i).getLsbD k = (c.getLsbD k && !decide (InSlot i k)) := by
  rw [clearSlot, BitVec.getLsbD_and, clearMask_getLsbD ⟨i, hi⟩ ⟨k, hk⟩]

theorem setSlot_getLsbD (c : BitVec 64) (m z : BitVec 2) {i k : ℕ} (hi : i < 4) (hk : k < 32) :
    (setSlot c i (m.setWidth 64) (z.setWidth 64)).getLsbD k =
      ((c.getLsbD k && !decide (InSlot i k)) ||
        (decide (k = 2 * i) || (!decide (k < i * 4 + 16) && m.getLsbD (k - (i * 4 + 16))) ||
          (!decide (k < i * 4 + 18) && z.getLsbD (k - (i * 4 + 18))))) := by
  have h64 : k < 64 := by omega
  have hm : k - (i * 4 + 16) < 64 := by omega
  have hz : k - (i * 4 + 18) < 64 := by omega
  rw [setSlot, BitVec.getLsbD_or, clearSlot_getLsbD c hi hk, BitVec.getLsbD_or, BitVec.getLsbD_or,
    enableBit_getLsbD ⟨i, hi⟩ ⟨k, hk⟩]
  simp [h64]

variable {c : BitVec 64} {m z : BitVec 2} {i j : ℕ}

theorem slotEnabled_setSlot (hi : i < 4) (hj : j < 4) :
    slotEnabled (setSlot c i (m.setWidth 64) (z.setWidth 64)) j =
      (decide (j = i) || slotEnabled c j) := by
  have hbit (k : ℕ) (hk : k = 2 * j ∨ k = 2 * j + 1) :
      (setSlot c i (m.setWidth 64) (z.setWidth 64)).getLsbD k =
        ((c.getLsbD k && !decide (j = i)) || decide (k = 2 * i)) := by
    have hlt : k < 32 := by omega
    have hslot : InSlot i k ↔ j = i := by unfold InSlot; omega
    have hm : k < i * 4 + 16 := by omega
    have hz : k < i * 4 + 18 := by omega
    rw [setSlot_getLsbD c m z hi hlt]
    simp [hslot, hm, hz]
  rw [slotEnabled, hbit _ (.inl rfl), hbit _ (.inr rfl), slotEnabled]
  by_cases h : j = i
  · subst h
    simp
  · have h1 : ¬ 2 * j = 2 * i := by omega
    have h2 : ¬ 2 * j + 1 = 2 * i := by omega
    simp [h, h1, h2]

theorem slotEnabled_clearSlot (hi : i < 4) (hj : j < 4) :
    slotEnabled (clearSlot c i) j = (!decide (j = i) && slotEnabled c j) := by
  have hbit (k : ℕ) (hk : k = 2 * j ∨ k = 2 * j + 1) :
      (clearSlot c i).getLsbD k = (c.getLsbD k && !decide (j = i)) := by
    have hlt : k < 32 := by omega
    have hslot : InSlot i k ↔ j = i := by unfold InSlot; omega
    rw [clearSlot_getLsbD c hi hlt, decide_eq_decide.mpr hslot]
  rw [slotEnabled, hbit _ (.inl rfl), hbit _ (.inr rfl), slotEnabled, ← Bool.and_or_distrib_right,
    Bool.and_comm]

theorem field_ext {x : BitVec 64} {start : ℕ} {y : BitVec 2}
    (h : ∀ b < 2, x.getLsbD (start + b) = y.getLsbD b) : x.extractLsb' start 2 = y := by
  apply BitVec.eq_of_getLsbD_eq
  intro b hb
  rw [BitVec.getLsbD_extractLsb', h b hb]
  simp [hb]

theorem getLsbD_two {x : BitVec 2} {b : ℕ} (h : 2 ≤ b) : x.getLsbD b = false :=
  BitVec.getLsbD_of_ge x b h

/-- A field of slot `j` starts here. -/
def FieldOf (j start : ℕ) : Prop := start = 16 + 4 * j ∨ start = 18 + 4 * j

theorem field_setSlot {start : ℕ} (hi : i < 4) (hj : j < 4) (hs : FieldOf j start) (h : j ≠ i) :
    (setSlot c i (m.setWidth 64) (z.setWidth 64)).extractLsb' start 2 = c.extractLsb' start 2 := by
  apply field_ext
  intro b hb
  unfold FieldOf at hs
  have hlt : start + b < 32 := by omega
  have h2 : ¬ start + b = 2 * i := by omega
  have hslot : ¬ InSlot i (start + b) := by unfold InSlot; omega
  have hm : start + b < i * 4 + 16 ∨ m.getLsbD (start + b - (i * 4 + 16)) = false := by
    by_cases hji : j < i
    · left; omega
    · right; exact getLsbD_two (by omega)
  have hz : start + b < i * 4 + 18 ∨ z.getLsbD (start + b - (i * 4 + 18)) = false := by
    by_cases hji : j < i
    · left; omega
    · right; exact getLsbD_two (by omega)
  rw [setSlot_getLsbD c m z hi hlt, BitVec.getLsbD_extractLsb']
  rcases hm with hm | hm <;> rcases hz with hz | hz <;> simp [hslot, h2, hm, hz, hb]

theorem field_clearSlot {start : ℕ} (hi : i < 4) (hj : j < 4) (hs : FieldOf j start)
    (h : j ≠ i) : (clearSlot c i).extractLsb' start 2 = c.extractLsb' start 2 := by
  apply field_ext
  intro b hb
  unfold FieldOf at hs
  have hslot : ¬ InSlot i (start + b) := by unfold InSlot; omega
  rw [clearSlot_getLsbD c hi (by omega), BitVec.getLsbD_extractLsb']
  simp [hslot, hb]

theorem slotMode_setSlot_self (hi : i < 4) :
    slotMode (setSlot c i (m.setWidth 64) (z.setWidth 64)) i = m := by
  apply field_ext
  intro b hb
  have h2 : ¬ 16 + 4 * i + b = 2 * i := by omega
  have hslot : InSlot i (16 + 4 * i + b) := by unfold InSlot; omega
  have hm : ¬ 16 + 4 * i + b < i * 4 + 16 := by omega
  have hz : 16 + 4 * i + b < i * 4 + 18 := by omega
  have hb' : 16 + 4 * i + b - (i * 4 + 16) = b := by omega
  rw [setSlot_getLsbD c m z hi (by omega)]
  simp [hslot, h2, hm, hz, hb']

theorem slotLength_setSlot_self (hi : i < 4) :
    slotLength (setSlot c i (m.setWidth 64) (z.setWidth 64)) i = z := by
  apply field_ext
  intro b hb
  have h2 : ¬ 18 + 4 * i + b = 2 * i := by omega
  have hslot : InSlot i (18 + 4 * i + b) := by unfold InSlot; omega
  have hm : m.getLsbD (18 + 4 * i + b - (i * 4 + 16)) = false := getLsbD_two (by omega)
  have hz : ¬ 18 + 4 * i + b < i * 4 + 18 := by omega
  have hb' : 18 + 4 * i + b - (i * 4 + 18) = b := by omega
  rw [setSlot_getLsbD c m z hi (by omega)]
  simp [hslot, h2, hm, hz, hb']

theorem freeTest_eq (c : BitVec 64) (hi : i < 4) :
    (c &&& intMask (0b11#32 <<< (i * 2)) == 0#64) = !slotEnabled c i := by
  have hbits : c &&& intMask (0b11#32 <<< (i * 2)) = 0#64 ↔
      c.getLsbD (2 * i) = false ∧ c.getLsbD (2 * i + 1) = false := by
    have hmask (k : ℕ) (hk : k < 64) := freeMask_getLsbD ⟨i, hi⟩ ⟨k, hk⟩
    constructor
    · intro h
      have hbit (k : ℕ) (hk : k < 64) (hin : 2 * i ≤ k ∧ k < 2 * i + 2) : c.getLsbD k = false := by
        have hz := congrArg (fun x : BitVec 64 => x.getLsbD k) h
        simp only [BitVec.getLsbD_and, hmask k hk, decide_eq_true hin, Bool.and_true] at hz
        simpa using hz
      exact ⟨hbit _ (by omega) (by omega), hbit _ (by omega) (by omega)⟩
    · rintro ⟨h0, h1⟩
      apply BitVec.eq_of_getLsbD_eq
      intro k hk
      rw [BitVec.getLsbD_and, hmask k hk]
      by_cases hin : 2 * i ≤ k ∧ k < 2 * i + 2
      · obtain rfl | rfl : k = 2 * i ∨ k = 2 * i + 1 := by omega
        · simp [h0]
        · simp [h1]
      · simp [hin]
  rw [Bool.eq_iff_iff, beq_iff_eq, hbits, slotEnabled]
  simp

theorem findFree_ok {i : ℕ} (h : findFreeStoppointRegister c = .ok i) :
    i < 4 ∧ slotEnabled c i = false := by
  unfold findFreeStoppointRegister at h
  split at h
  · cases h
  · next j hj =>
    cases h
    have hmem := List.mem_of_find?_eq_some hj
    have htest := List.find?_some hj
    have hlt : i < 4 := by simpa using hmem
    rw [freeTest_eq c hlt] at htest
    exact ⟨hlt, by simpa using htest⟩

/-- All four slots of a control register are taken. -/
def NoSlotFree (control : BitVec 64) : Prop := ∀ i < 4, slotEnabled control i = true

instance (control : BitVec 64) : Decidable (NoSlotFree control) := by
  unfold NoSlotFree
  infer_instance

instance (size : ℕ) : Decidable (ValidSize size) := by
  unfold ValidSize
  infer_instance

/-- What `find_free_stoppoint_region` raises. -/
def noRegisters : Failure := .raised "No remaining hardware debug registers"

theorem findFree_none (h : NoSlotFree c) :
    findFreeStoppointRegister c = .error noRegisters := by
  have hnone : ((List.range 4).find? fun i =>
      c &&& intMask (0b11#32 <<< (i * 2)) == 0#64) = none := by
    rw [List.find?_eq_none]
    intro i hi
    have hlt : i < 4 := List.mem_range.mp hi
    rw [freeTest_eq c hlt, h i hlt]
    simp
  unfold findFreeStoppointRegister
  rw [hnone]
  rfl

theorem findFree_some (h : ¬ NoSlotFree c) :
    ∃ i < 4, findFreeStoppointRegister c = .ok i := by
  cases hfree : findFreeStoppointRegister c with
  | ok i => exact ⟨i, (findFree_ok hfree).1, rfl⟩
  | error e =>
    exfalso
    apply h
    intro i hi
    by_contra hoff
    unfold findFreeStoppointRegister at hfree
    split at hfree
    · next hnone =>
      have htest := List.find?_eq_none.mp hnone i (List.mem_range.mpr hi)
      rw [freeTest_eq c hi] at htest
      exact htest (by simpa using hoff)
    · cases hfree

/-- What `encode_hardware_stoppoint_size` raises. -/
def invalidSize : Failure := .raised "Invalid stoppoint size"

theorem encodeSize_error {size : ℕ} (h : ¬ ValidSize size) :
    encodeHardwareStoppointSize size = .error invalidSize := by
  unfold ValidSize at h
  unfold encodeHardwareStoppointSize
  split <;> first | omega | rfl

/-- Who a slot belongs to: the register index it remembers, and what it watches. -/
structure Owner where
  index : ℤ
  address : VirtAddr
  mode : StoppointMode
  size : ℕ

/-- Slot `i` of the debug registers `d` is as its owner wants it. -/
structure SlotOf (d : ℕ → BitVec 64) (o : Owner) (i : ℕ) : Prop where
  lt : i < 4
  index : o.index = i
  enabled : slotEnabled (d 7) i = true
  address : d i = o.address
  mode : slotMode (d 7) i = modeBits o.mode
  length : slotLength (d 7) i = lengthBits o.size

/-- The enabled slots and the owners are in bijection through the index. -/
structure SlotsOwned (d : ℕ → BitVec 64) (os : List Owner) : Prop where
  distinct : (os.map Owner.index).Nodup
  owned : ∀ o ∈ os, ∃ i, SlotOf d o i
  onto : ∀ i < 4, slotEnabled (d 7) i = true → ∃ o ∈ os, o.index = i

theorem SlotsOwned.perm {d : ℕ → BitVec 64} {os os' : List Owner} (h : SlotsOwned d os)
    (hp : os.Perm os') : SlotsOwned d os' where
  distinct := ((hp.map Owner.index).nodup_iff).mp h.distinct
  owned o ho := h.owned o (hp.mem_iff.mpr ho)
  onto i hi hon := by
    obtain ⟨o, ho, hidx⟩ := h.onto i hi hon
    exact ⟨o, hp.mem_iff.mp ho, hidx⟩

/-- A free slot is taken by a new owner. -/
theorem SlotsOwned.insert {d d' : ℕ → BitVec 64} {os : List Owner} (h : SlotsOwned d os)
    (hi : i < 4) (hfree : slotEnabled (d 7) i = false) (o : Owner) (hidx : o.index = i)
    (h7 : d' 7 = setSlot (d 7) i ((modeBits o.mode).setWidth 64) ((lengthBits o.size).setWidth 64))
    (haddr : d' i = o.address) (hother : ∀ j < 4, j ≠ i → d' j = d j) :
    SlotsOwned d' (o :: os) where
  -- the slot was free, so that its owner is the only new one
  distinct := by
    rw [List.map_cons, List.nodup_cons]
    refine ⟨?_, h.distinct⟩
    intro hmem
    obtain ⟨o', ho', hsame⟩ := List.mem_map.mp hmem
    obtain ⟨k, hk⟩ := h.owned o' ho'
    have hki : k = i := by
      have := hk.index
      omega
    have hen := hk.enabled
    rw [hki, hfree] at hen
    exact absurd hen (by decide)
  owned := by
    simp only [List.forall_mem_cons]
    constructor
    · refine ⟨i, hi, hidx, ?_, haddr, ?_, ?_⟩
      · rw [h7, slotEnabled_setSlot hi hi]
        simp
      · rw [h7, slotMode_setSlot_self hi]
      · rw [h7, slotLength_setSlot_self hi]
    · intro o' ho'
      obtain ⟨k, hk⟩ := h.owned o' ho'
      have hne : k ≠ i := by
        rintro rfl
        have hen := hk.enabled
        rw [hfree] at hen
        exact absurd hen (by decide)
      refine ⟨k, hk.lt, hk.index, ?_, ?_, ?_, ?_⟩
      · rw [h7, slotEnabled_setSlot hi hk.lt, hk.enabled, Bool.or_true]
      · rw [hother k hk.lt hne, hk.address]
      · rw [h7, slotMode, field_setSlot hi hk.lt (.inl rfl) hne]
        exact hk.mode
      · rw [h7, slotLength, field_setSlot hi hk.lt (.inr rfl) hne]
        exact hk.length
  onto k hk hon := by
    rw [h7, slotEnabled_setSlot hi hk] at hon
    by_cases hki : k = i
    · exact ⟨o, List.mem_cons_self .., by rw [hidx, hki]⟩
    · simp only [hki, decide_false, Bool.false_or] at hon
      obtain ⟨o', ho', hsame⟩ := h.onto k hk hon
      exact ⟨o', List.mem_cons_of_mem o ho', hsame⟩

/-- The slot of an owner is given back. -/
theorem SlotsOwned.remove {d d' : ℕ → BitVec 64} {o : Owner} {os : List Owner}
    (h : SlotsOwned d (o :: os)) (hi : i < 4) (hidx : o.index = i)
    (h7 : d' 7 = clearSlot (d 7) i) (hother : ∀ j < 4, j ≠ i → d' j = d j) :
    SlotsOwned d' os := by
  have hdistinct := h.distinct
  rw [List.map_cons, List.nodup_cons] at hdistinct
  have hne (o' : Owner) (ho' : o' ∈ os) (k : ℕ) (hk : o'.index = k) : k ≠ i := by
    rintro rfl
    exact hdistinct.1 (List.mem_map.mpr ⟨o', ho', hk.trans hidx.symm⟩)
  refine ⟨hdistinct.2, ?_, ?_⟩
  · intro o' ho'
    obtain ⟨k, hk⟩ := h.owned o' (List.mem_cons_of_mem o ho')
    have hki := hne o' ho' k hk.index
    refine ⟨k, hk.lt, hk.index, ?_, ?_, ?_, ?_⟩
    · rw [h7, slotEnabled_clearSlot hi hk.lt, hk.enabled]
      simp [hki]
    · rw [hother k hk.lt hki, hk.address]
    · rw [h7, slotMode, field_clearSlot hi hk.lt (.inl rfl) hki]
      exact hk.mode
    · rw [h7, slotLength, field_clearSlot hi hk.lt (.inr rfl) hki]
      exact hk.length
  · intro k hk hon
    rw [h7, slotEnabled_clearSlot hi hk, Bool.and_eq_true] at hon
    have hki : k ≠ i := by simpa using hon.1
    obtain ⟨o', ho', hsame⟩ := h.onto k hk hon.2
    rcases List.mem_cons.mp ho' with rfl | ho'
    · exact absurd (by omega) hki
    · exact ⟨o', ho', hsame⟩

end KDebugger.Process
