import KDebugger.Process.BreakpointRuns
import KDebugger.Process.SwitchPlans

namespace KDebugger.Process

open Exec Words

variable {s : Process} {c c' : BitVec 64} {m z : BitVec 2} {i : ℕ}

/-- Slot `i` is set as requested, and no other bit is changed. -/
structure SlotSet (c c' : BitVec 64) (i : ℕ) (mode : StoppointMode) (size : ℕ) : Prop where
  enabled : c'.getLsbD (2 * i) = true
  notGlobal : c'.getLsbD (2 * i + 1) = false
  mode : slotMode c' i = modeBits mode
  length : slotLength c' i = lengthBits size
  others : ∀ k, ¬ InSlot i k → c'.getLsbD k = c.getLsbD k

/-- The bits of slot `i` are cleared, and no other. -/
def SlotCleared (c c' : BitVec 64) (i : ℕ) : Prop :=
  ∀ k, c'.getLsbD k = (c.getLsbD k && !decide (InSlot i k))

/-- The upper half is zero. -/
def HighClear (c : BitVec 64) : Prop := ∀ k, 32 ≤ k → c.getLsbD k = false

theorem highClear_of_lt (h : c.toNat < 2 ^ 32) : HighClear c := by
  intro k hk
  apply Nat.testBit_lt_two_pow
  exact h.trans_le (Nat.pow_le_pow_right (by omega) hk)

theorem HighClear.and (h : HighClear c) (mask : BitVec 64) : HighClear (c &&& mask) := by
  intro k hk
  rw [BitVec.getLsbD_and, h k hk, Bool.false_and]

theorem HighClear.or (h : HighClear c) (h' : HighClear c') : HighClear (c ||| c') := by
  intro k hk
  rw [BitVec.getLsbD_or, h k hk, h' k hk, Bool.false_or]

theorem highClear_shiftLeft (m : BitVec 2) {n : ℕ} (hn : n ≤ 30) :
    HighClear (m.setWidth 64 <<< n) := by
  intro k hk
  rw [BitVec.getLsbD_shiftLeft, BitVec.getLsbD_setWidth, getLsbD_two (by omega : 2 ≤ k - n)]
  simp

theorem highClear_enableBit (hi : i < 4) : HighClear (intMask (1#32 <<< (i * 2))) := by
  have hlt : ∀ i : Fin 4, (intMask (1#32 <<< ((i : ℕ) * 2))).toNat < 2 ^ 32 := by decide
  exact highClear_of_lt (hlt ⟨i, hi⟩)

theorem HighClear.setSlot (h : HighClear c) (hi : i < 4) :
    HighClear (setSlot c i (m.setWidth 64) (z.setWidth 64)) := by
  unfold Process.setSlot clearSlot
  apply (h.and _).or
  apply HighClear.or
  · exact (highClear_enableBit hi).or (highClear_shiftLeft m (by omega))
  · exact highClear_shiftLeft z (by omega)

theorem slotCleared_clearSlot (h : HighClear c) (hi : i < 4) : SlotCleared c (clearSlot c i) i := by
  intro k
  by_cases hk : k < 32
  · exact clearSlot_getLsbD c hi hk
  · have hclear : HighClear (clearSlot c i) := h.and _
    rw [hclear k (by omega), h k (by omega), Bool.false_and]

theorem slotSet_setSlot (h : HighClear c) (hi : i < 4) (mode : StoppointMode) (size : ℕ) :
    SlotSet c (setSlot c i ((modeBits mode).setWidth 64) ((lengthBits size).setWidth 64)) i
      mode size where
  -- the bits of the slot are cleared before they are set, so stale ones do not matter
  enabled := by
    rw [setSlot_getLsbD _ _ _ hi (by omega)]
    simp
  notGlobal := by
    have hslot : InSlot i (2 * i + 1) := by unfold InSlot; omega
    have hm : 2 * i + 1 < i * 4 + 16 := by omega
    have hz : 2 * i + 1 < i * 4 + 18 := by omega
    rw [setSlot_getLsbD _ _ _ hi (by omega)]
    simp [hslot, hm, hz]
  mode := slotMode_setSlot_self hi
  length := slotLength_setSlot_self hi
  others k hslot := by
    by_cases hk : k < 32
    · have hout := hslot
      unfold InSlot at hout
      have hne : ¬ k = 2 * i := by omega
      -- the requested mode and length have two bits each, which end within the slot
      have hm : k < i * 4 + 16 ∨ (modeBits mode).getLsbD (k - (i * 4 + 16)) = false := by
        by_cases hlow : k < i * 4 + 16
        · exact .inl hlow
        · exact .inr (getLsbD_two (by omega))
      have hz : k < i * 4 + 18 ∨ (lengthBits size).getLsbD (k - (i * 4 + 18)) = false := by
        by_cases hlow : k < i * 4 + 18
        · exact .inl hlow
        · exact .inr (getLsbD_two (by omega))
      rw [setSlot_getLsbD _ _ _ hi hk]
      rcases hm with hm | hm <;> rcases hz with hz | hz <;> simp [hslot, hne, hm, hz]
    · rw [h.setSlot hi k (by omega), h k (by omega)]

theorem SlotSet.eq_of_unused {c'' : BitVec 64} {mode : StoppointMode} {size : ℕ}
    (hset : SlotSet c c' i mode size) (hclear : SlotCleared c' c'' i)
    (hzero : ∀ k, InSlot i k → c.getLsbD k = false) : c'' = c := by
  apply BitVec.eq_of_getLsbD_eq
  intro k _
  rw [hclear k]
  by_cases hslot : InSlot i k
  · simp [hslot, hzero k hslot]
  · simp [hslot, hset.others k hslot]

/-- A stoppoint is set in a free slot of DR7, and clearing it clears that slot; whatever the
other bits are, they stay. -/
def SetsAndClears (s : Process) (c : BitVec 64) (address : VirtAddr) (mode : StoppointMode)
    (size : ℕ) : Prop :=
  ∃ i s' c', setHardwareStoppoint address mode size s = .ok i s' ∧ i < 4 ∧
    slotEnabled c i = false ∧ s'.debugControl = some c' ∧ SlotSet c c' i mode size ∧
    ∃ s'' c'', clearHardwareStoppoint i s' = .ok () s'' ∧ s''.debugControl = some c'' ∧
      SlotCleared c' c'' i ∧ ((∀ k, InSlot i k → c.getLsbD k = false) → c'' = c)

def setAndClearPlan (s : Process) (c : BitVec 64) (address : VirtAddr) (mode : StoppointMode)
    (size : ℕ) : Option (List (UserPart × UserArea)) :=
  (findFreeStoppointRegister c).toOption.map fun i =>
    let masked := setSlot c i ((modeBits mode).setWidth 64) ((lengthBits size).setWidth 64)
    let zeroed := (s.slotWords i (.u64 address)).map (storeWord s.casts (.i32 0#32))
    s.setRequests c i address mode size ++ slotRequests i (clearSlot masked i) zeroed

theorem SlotWritten.slotWords_self {s' : Process} {w masked : BitVec 64}
    {l : List (UserPart × UserArea)} (h : SlotWritten s s' i (.u64 w) masked l) (hi : i < 4)
    (v : Value) :
    s'.slotWords i v = (s.slotWords i (.u64 w)).map (storeWord s.casts v) := by
  unfold Process.slotWords writtenThreads wordsOf
  rw [h.only.floatCasts, h.only.current, h.only.tids, h.files, List.map_filterMap]
  apply List.filterMap_congr
  intro t _
  rw [Option.map_map, Option.map_map]
  apply congrArg fun f => Option.map f (s.debugFiles t)
  funext file
  simp [DebugFile.slot, DebugFile.store, ne_seven hi]

theorem SlotWritten.clearPlan {s' : Process} {address : VirtAddr} {mode : StoppointMode}
    {size : ℕ} (hc : s.debugControl = some c) (hi : i < 4)
    (h : SlotWritten s s' i (.u64 address)
      (setSlot c i ((modeBits mode).setWidth 64) ((lengthBits size).setWidth 64))
      (s.setRequests c i address mode size)) (hfree : findFreeStoppointRegister c = .ok i) :
    s'.Takes (s'.clearPlan i) ↔ s.Takes (s.setAndClearPlan c address mode size) := by
  have hindex : ClearIndex i := ⟨by omega, by omega⟩
  unfold Process.clearPlan setAndClearPlan Takes
  rw [if_pos hindex, h.control hc, hfree, Option.map_some, Int.toNat_natCast]
  simp only [Except.toOption, Option.map_some, Option.bind_some]
  rw [clearRequests, h.slotWords_self hi, h.handed]

theorem takes_of_setAndClear (address : VirtAddr) (mode : StoppointMode) {size : ℕ}
    (hc : s.debugControl = some c) (h : s.Takes (s.setAndClearPlan c address mode size)) :
    s.Takes (s.setPlan address mode size) := by
  unfold setAndClearPlan at h
  unfold setPlan
  rw [hc, Option.bind_some]
  cases hfree : findFreeStoppointRegister c with
  | error e =>
    rw [hfree] at h
    exact absurd h not_takes_none
  | ok i =>
    rw [hfree] at h
    obtain ⟨u, hu⟩ := takes_some.mp h
    rw [handed_append_eq] at hu
    obtain ⟨u', hu', -⟩ := Option.bind_eq_some_iff.mp hu
    exact takes_some.mpr ⟨u', hu'⟩

theorem setHardwareStoppoint_bits (hc : s.debugControl = some c) (hhigh : c.toNat < 2 ^ 32)
    (address : VirtAddr) (mode : StoppointMode) {size : ℕ} (hsize : ValidSize size) :
    SetsAndClears s c address mode size ↔ s.Takes (s.setAndClearPlan c address mode size) := by
  have hclear : HighClear c := highClear_of_lt hhigh
  obtain ⟨-, c', i, s', hc', hslot, hset, hwritten⟩ | ⟨hno, e, s', hfail⟩ :=
    setHardwareStoppoint_ends (s := s) address mode hsize
  · obtain rfl : c = c' := Option.some.inj (hc.symm.trans hc')
    obtain ⟨hi, hoff⟩ := findFree_ok hslot
    rw [← hwritten.clearPlan hc hi hslot]
    constructor
    · rintro ⟨j, s₁, c₁, hset', -, -, -, -, s₂, c₂, hdone, -⟩
      cases hset.symm.trans hset'
      obtain ⟨htakes, -⟩ | ⟨-, e, s₃, hfail⟩ := clearHardwareStoppoint_ends (s := s') i
      · exact htakes
      · cases hdone.symm.trans hfail
    · intro htakes
      obtain ⟨-, c₁, j, s'', hc₁, hij, -, hdone, hcleared⟩ | ⟨hno, -⟩ :=
        clearHardwareStoppoint_ends (s := s') i
      · obtain rfl : i = j := by exact_mod_cast hij
        have hcontrol := hwritten.control hc
        obtain rfl := Option.some.inj (hcontrol.symm.trans hc₁)
        have hbits := slotSet_setSlot hclear hi mode size
        have hzero := slotCleared_clearSlot
          (hclear.setSlot hi (m := modeBits mode) (z := lengthBits size)) hi
        exact ⟨i, s', _, hset, hi, hoff, hcontrol, hbits, s'', _, hdone,
          hcleared.control hcontrol, hzero, hbits.eq_of_unused hzero⟩
      · exact absurd htakes hno
  · refine iff_of_false ?_ fun htakes => hno (takes_of_setAndClear address mode hc htakes)
    rintro ⟨j, s₁, c₁, hset, -⟩
    cases hset.symm.trans hfail

def withControl (c : BitVec 64) : Process :=
  let data (o : ℕ) : Byte := byteOf c (o - (defineDr 7).offset)
  { untouched with threads := ⟨[{ tid := 1, regs := { data, tid := 1 } }], by simp⟩ }

theorem debugControl_withControl (c : BitVec 64) : (withControl c).debugControl = some c := by
  refine debugControl_eq_some.mpr ⟨_, rfl, ?_⟩
  rw [readDr_file, if_neg (by simp [Registers.isUndefined])]
  apply congrArg Except.ok
  conv_rhs => rw [← wordOf_byteOf c]
  apply wordOf_congr
  intro j _
  show byteOf c (drOffset 7 + j - (defineDr 7).offset) = byteOf c j
  rw [show (defineDr 7).offset = drOffset 7 from rfl, Nat.add_sub_cancel_left]

/-- Slot 1 is taken, and slot 0 is free with its mode and length left over. -/
theorem setHardwareStoppoint_bits_leftOver :
    SetsAndClears (withControl 0x000f0004#64) 0x000f0004#64 0x1000#64 .write 8 :=
  (setHardwareStoppoint_bits (debugControl_withControl _) (by decide) _ _
    (.inr (.inr (.inr rfl)))).mpr (by decide +kernel)

/-- A point of execution with a size of four bytes is refused, with DR0 written. -/
theorem setHardwareStoppoint_bits_not_for_all : ¬ ∀ (s : Process) (c : BitVec 64)
    (address : VirtAddr) (mode : StoppointMode) (size : ℕ), s.debugControl = some c →
    c.toNat < 2 ^ 32 → (∃ j < 4, slotEnabled c j = false) → ValidSize size →
    SetsAndClears s c address mode size := by
  intro h
  have hsize : ValidSize 4 := .inr (.inr (.inl rfl))
  obtain ⟨i, s', c', hset, -⟩ := h untouched 0#64 0x1000#64 .execute 4
    (by decide +kernel) (by decide) ⟨0, by decide, by decide⟩ hsize
  obtain ⟨htakes, -⟩ | ⟨-, e, s₁, hfail⟩ :=
    setHardwareStoppoint_ends (s := untouched) 0x1000#64 .execute hsize
  · exact absurd htakes (by decide +kernel)
  · cases hset.symm.trans hfail

end KDebugger.Process
