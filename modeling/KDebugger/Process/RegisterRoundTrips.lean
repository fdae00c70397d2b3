import KDebugger.Process.BreakpointRuns
import KDebugger.Process.RegisterValues
import KDebugger.Process.RegisterWrites

namespace KDebugger

open ByteStream Words Exec

namespace Value

def Plain : Value → Prop
  | .float _ | .double _ | .longDouble _ => False
  | _ => True

instance : DecidablePred Plain := fun v => by
  cases v <;> unfold Plain <;> infer_instance

def signed {n : ℕ} (info : RegisterInfo) (w : BitVec n) : BitVec 128 :=
  if info.format = .uint then (w.signExtend (8 * info.size)).setWidth 128 else w.setWidth 128

/-- The value in the width of the register, its sign kept in an integer register. -/
def converted (info : RegisterInfo) : Value → BitVec 128
  | .i8 w => signed info w
  | .i16 w => signed info w
  | .i32 w => signed info w
  | .i64 w => signed info w
  | v => v.toByte128

end Value

theorem widenSigned_eq {info : RegisterInfo} (hinfo : info.Readable) {n : ℕ} (w : BitVec n)
    (hn : 8 ≤ n) (hle : n ≤ 8 * info.size) :
    (if info.format = .uint then widenSigned info.size w else w.setWidth 128) =
      Value.signed info w := by
  unfold Value.signed
  by_cases hformat : info.format = .uint
  · rw [if_pos hformat, if_pos hformat]
    unfold RegisterInfo.Readable at hinfo
    rw [hformat] at hinfo
    obtain hsize | hsize | hsize | hsize := hinfo
    · -- a byte is not extended, and nothing wider fits
      rw [hsize] at hle ⊢
      obtain rfl : n = 8 := by omega
      rw [BitVec.signExtend_eq]
      rfl
    all_goals
      rw [hsize]
      rfl
  · rw [if_neg hformat, if_neg hformat]

theorem widen_eq_converted {casts : FloatCasts} {info : RegisterInfo} {v : Value}
    (hinfo : info.Readable) (hv : v.Plain) (hle : v.size ≤ info.size) :
    widen casts info v = v.converted info := by
  cases v with
  | float | double | longDouble => exact hv.elim
  | i8 w => exact widenSigned_eq hinfo w (by decide) (Nat.mul_le_mul_left 8 hle)
  | i16 w => exact widenSigned_eq hinfo w (by decide) (Nat.mul_le_mul_left 8 hle)
  | i32 w => exact widenSigned_eq hinfo w (by decide) (Nat.mul_le_mul_left 8 hle)
  | i64 w => exact widenSigned_eq hinfo w (by decide) (Nat.mul_le_mul_left 8 hle)
  | _ => rfl

namespace Registers

/-- After the write the register reads as the value in its width, and the registers that
share no byte with it read as before. -/
def ReadsBack (s : Process) (regs : Registers) (info : RegisterInfo) (v : Value) (commit : Bool) :
    Prop :=
  ∃ regs' s', regs.write info v commit s = .ok regs' s' ∧
    regs'.read info = .ok (info.typed (v.converted info)) ∧
    ∀ r ∈ gRegisterInfos, (∀ o, ¬ (info.Covers o ∧ r.Covers o)) → regs'.read r = regs.read r

theorem write_eq (s : Process) (regs : Registers) {info : RegisterInfo} {v : Value}
    (hle : v.size ≤ info.size) (commit : Bool) :
    regs.write info v commit s = (do
      (regs.put info v.size (widen s.casts info v)).handOver info commit
      pure (regs.put info v.size (widen s.casts info v)) : Process.M Registers) s := by
  unfold write
  rw [bind_ok (get_eq s), store_of_le hle, bind_ok (ofExcept_ok _ _)]

/-- The kernel takes what is handed over for a register. -/
def TakenBy (regs : Registers) (s : Process) (info : RegisterInfo) (commit : Bool) : Prop :=
  (s.handed (regs.requests info commit)).isSome = true

instance (regs : Registers) (s : Process) (info : RegisterInfo) (commit : Bool) :
    Decidable (regs.TakenBy s info commit) := inferInstanceAs (Decidable (_ = true))

theorem write_ends (s : Process) (regs : Registers) {info : RegisterInfo} {v : Value}
    (hinfo : info.Placed) (hle : v.size ≤ info.size) (commit : Bool) :
    ((regs.put info v.size (widen s.casts info v)).TakenBy s info commit ∧
      ∃ s', regs.write info v commit s = .ok (regs.put info v.size (widen s.casts info v)) s') ∨
    ¬ (regs.put info v.size (widen s.casts info v)).TakenBy s info commit ∧
      ∃ e s', regs.write info v commit s = .error e s' := by
  have hhands := Process.hands_handOver (s := s) (regs.put info v.size (widen s.casts info v))
    hinfo commit
  rw [write_eq s regs hle commit]
  unfold TakenBy
  cases hu : s.handed ((regs.put info v.size (widen s.casts info v)).requests info commit) with
  | some u => exact .inl ⟨rfl, _, bind_ok (hhands.taken u hu)⟩
  | none =>
    obtain ⟨request, -, s', hfail⟩ := hhands.refused hu
    exact .inr ⟨Bool.false_ne_true, _, s', bind_error hfail⟩

theorem put_data (regs : Registers) (info : RegisterInfo) (size : ℕ) (w : BitVec 128) (i : ℕ) :
    (regs.put info size w).data (info.offset + i) =
      if i < size then byteOf w i else regs.data (info.offset + i) := by
  simp only [put, Nat.add_sub_cancel_left]
  exact if_congr (by omega) rfl rfl

theorem read_put_of_disjoint {regs : Registers} {info r : RegisterInfo} {size : ℕ}
    (w : BitVec 128) (hr : r.Readable) (hsize : size ≤ info.size)
    (hdisjoint : ∀ o, ¬ (info.Covers o ∧ r.Covers o)) :
    (regs.put info size w).read r = regs.read r := by
  by_cases hmarked : regs.isUndefined r = true
  · have hraises (regs : Registers) (h : regs.isUndefined r = true) :
        regs.read r = .error (.raised "Register is undefined") := if_pos h
    exact (hraises (regs.put info size w) hmarked).trans (hraises regs hmarked).symm
  have hfree := Bool.eq_false_iff.mpr hmarked
  have hfree' : (regs.put info size w).isUndefined r = false := hfree
  refine (read_eq_iff hr hfree' hfree).mpr fun o ho => ?_
  exact regs.put_data_of_not_covers w hsize fun hinfo => hdisjoint o ⟨hinfo, ho⟩

/-- A value is read back exactly when the kernel takes the register, it is not marked
undefined, and the bytes above the value already are those of its extension. -/
theorem readsBack_iff {s : Process} {regs : Registers} {info : RegisterInfo} {v : Value}
    (hinfo : info ∈ gRegisterInfos) (hv : v.Plain) (hle : v.size ≤ info.size) (commit : Bool) :
    ReadsBack s regs info v commit ↔
      (regs.put info v.size (v.converted info)).TakenBy s info commit ∧
      regs.isUndefined info = false ∧
      ∀ i, v.size ≤ i → i < info.size →
        regs.data (info.offset + i) = byteOf (v.converted info) i := by
  -- as many bytes as the value has are put, and all bytes of the register are read
  have hreadable := RegisterInfo.readable hinfo
  have hends := write_ends s regs (RegisterInfo.placed hinfo) hle commit
  rw [widen_eq_converted hreadable hv hle] at hends
  have hread := @read_eq_typed_iff (regs.put info v.size (v.converted info)) info hreadable
    (v.converted info)
  have hbytes : (∀ i < info.size, (regs.put info v.size (v.converted info)).data
        (info.offset + i) = byteOf (v.converted info) i) ↔
      ∀ i, v.size ≤ i → i < info.size →
        regs.data (info.offset + i) = byteOf (v.converted info) i := by
    simp only [put_data]
    constructor
    · intro h i hlow hi
      have hbyte := h i hi
      rwa [if_neg (Nat.not_lt.mpr hlow)] at hbyte
    · intro h i hi
      by_cases hlow : i < v.size
      · rw [if_pos hlow]
      · rw [if_neg hlow]
        exact h i (Nat.not_lt.mp hlow) hi
  rw [hbytes] at hread
  obtain ⟨htaken, s', hwrite⟩ | ⟨hrefused, e, s', hfail⟩ := hends
  · constructor
    · rintro ⟨regs', s'', hok, hback, -⟩
      rw [hwrite] at hok
      cases hok
      exact ⟨htaken, hread.mp hback⟩
    · exact fun h => ⟨_, s', hwrite, hread.mpr h.2, fun r hr => read_put_of_disjoint _
        (RegisterInfo.readable hr) hle⟩
  · refine iff_of_false (fun hback => ?_) fun h => hrefused h.1
    obtain ⟨regs', s'', hok, -⟩ := hback
    rw [hfail] at hok
    cases hok

def ones : Registers := ⟨fun _ => 0xff#8, [], 0#64, 0⟩

def onesBelow : Registers := { ones with data := fun o => if 81 ≤ o ∧ o < 88 then 0#8 else 0xff#8 }

theorem readsBack_byte :
    ReadsBack Process.untouched onesBelow (defineGpr64 .rax 0) (.u8 5#8) true := by
  refine (readsBack_iff (by decide +kernel) (by decide) (by decide) true).mpr
    ⟨by decide +kernel, by decide, ?_⟩
  have hupper : ∀ i < 8, 1 ≤ i → onesBelow.data (80 + i) = byteOf (5#128) i := by decide
  exact fun i hlow hi => hupper i hi hlow

/-- A byte in rax leaves the other seven as they were. -/
theorem readsBack_not_for_all : ¬ ∀ (s : Process) (regs : Registers) (info : RegisterInfo)
    (v : Value) (commit : Bool), info ∈ gRegisterInfos → v.Plain → v.size ≤ info.size →
      ReadsBack s regs info v commit := by
  intro h
  obtain ⟨regs', s', hwrite, hread, -⟩ :=
    h .untouched ones (defineGpr64 .rax 0) (.u8 5#8) true (by decide +kernel) (by decide) (by decide)
  obtain ⟨-, s'', hput⟩ | ⟨-, e, s'', hfail⟩ := write_ends Process.untouched ones
    (show (defineGpr64 .rax 0).Placed by decide) (show (Value.u8 5#8).size ≤ 8 by decide) true
  · rw [hput] at hwrite
    cases hwrite
    exact absurd hread (by decide)
  · rw [hfail] at hwrite
    cases hwrite

end Registers
end KDebugger
