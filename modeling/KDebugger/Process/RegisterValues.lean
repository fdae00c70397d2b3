import KDebugger.Process.Registers

namespace KDebugger

open ByteStream Words

namespace RegisterInfo

/-- The formats and sizes that `read` has a case for. -/
def Readable (info : RegisterInfo) : Prop :=
  match info.format with
  | .uint => info.size = 1 ∨ info.size = 2 ∨ info.size = 4 ∨ info.size = 8
  | .doubleFloat => info.size = 8
  | .longDouble => info.size = 16
  | .vector => info.size = 8 ∨ info.size = 16

instance (info : RegisterInfo) : Decidable info.Readable := by
  unfold Readable
  split <;> infer_instance

theorem readable {info : RegisterInfo} (h : info ∈ gRegisterInfos) : info.Readable := by
  have hall : ∀ i ∈ gRegisterInfos, i.Readable := by decide +kernel
  exact hall info h

def typed (info : RegisterInfo) (w : BitVec 128) : Value :=
  match info.format with
  | .uint =>
    match info.size with
    | 1 => .u8 (w.setWidth 8)
    | 2 => .u16 (w.setWidth 16)
    | 4 => .u32 (w.setWidth 32)
    | _ => .u64 (w.setWidth 64)
  | .doubleFloat => .double (w.setWidth 64)
  | .longDouble => .longDouble w
  | .vector => if info.size = 8 then .byte64 (w.setWidth 64) else .byte128 w

end RegisterInfo

namespace Registers

theorem byteOf_fromData (regs : Registers) {n offset i : ℕ} (hi : i < n) :
    byteOf (regs.fromData n offset) i = regs.data (offset + i) := by
  rw [fromData, byteOf_fromBytes hi]
  simp [hi]

theorem fromData_of_bytes {regs : Registers} {n offset : ℕ} (w : BitVec 128)
    (h : ∀ i < n, regs.data (offset + i) = byteOf w i) :
    regs.fromData n offset = w.setWidth (8 * n) := by
  rw [← fromBytes_byteOf (w.setWidth (8 * n)), fromData]
  congr 1
  apply List.map_congr_left
  intro i hi
  have hi : i < n := List.mem_range.mp hi
  rw [h i hi, byteOf_narrowed (by omega)]

theorem fromData_eq_iff {regs regs' : Registers} {n offset : ℕ} :
    regs.fromData n offset = regs'.fromData n offset ↔
      ∀ o, offset ≤ o ∧ o < offset + n → regs.data o = regs'.data o := by
  constructor
  · rintro h o ⟨hlo, hhi⟩
    have hi : o - offset < n := by omega
    have heq := @byteOf_fromData regs n offset _ hi
    rw [h, regs'.byteOf_fromData hi, Nat.add_sub_cancel' hlo] at heq
    exact heq.symm
  · intro h
    unfold fromData
    congr 1
    apply List.map_congr_left
    intro i hi
    have hi : i < n := List.mem_range.mp hi
    exact h _ ⟨by omega, by omega⟩

theorem read_eq_iff {regs regs' : Registers} {info : RegisterInfo} (hinfo : info.Readable)
    (h : regs.isUndefined info = false) (h' : regs'.isUndefined info = false) :
    regs.read info = regs'.read info ↔ ∀ o, info.Covers o → regs.data o = regs'.data o := by
  unfold RegisterInfo.Readable at hinfo
  unfold read
  rw [h, h']
  simp only [Bool.false_eq_true, if_false, RegisterInfo.Covers]
  cases hformat : info.format with
  | uint =>
    rw [hformat] at hinfo
    obtain hsize | hsize | hsize | hsize := hinfo
    · simpa [hsize] using fromData_eq_iff (n := 1)
    · simpa [hsize] using fromData_eq_iff (n := 2)
    · simpa [hsize] using fromData_eq_iff (n := 4)
    · simpa [hsize] using fromData_eq_iff (n := 8)
  | doubleFloat =>
    rw [hformat] at hinfo
    have hsize : info.size = 8 := hinfo
    simpa [hsize] using fromData_eq_iff (n := 8)
  | longDouble =>
    rw [hformat] at hinfo
    have hsize : info.size = 16 := hinfo
    simpa [hsize] using fromData_eq_iff (n := 16)
  | vector =>
    rw [hformat] at hinfo
    obtain hsize | hsize := hinfo
    · simpa [hsize] using fromData_eq_iff (n := 8)
    · simpa [hsize] using fromData_eq_iff (n := 16)

/-- The file that has the bytes of `w` at the place of the register, and no mark. -/
def holding (info : RegisterInfo) (w : BitVec 128) : Registers where
  data o := byteOf w (o - info.offset)
  tid := 0

theorem read_holding {info : RegisterInfo} (hinfo : info.Readable) (w : BitVec 128) :
    (holding info w).read info = .ok (info.typed w) := by
  have hbytes (n : ℕ) : (holding info w).fromData n info.offset = w.setWidth (8 * n) := by
    refine fromData_of_bytes w fun i _ => ?_
    change byteOf w (info.offset + i - info.offset) = _
    rw [Nat.add_sub_cancel_left]
  unfold RegisterInfo.Readable at hinfo
  unfold read RegisterInfo.typed
  rw [if_neg (show ¬ (holding info w).isUndefined info = true from nofun)]
  cases hformat : info.format with
  | uint =>
    rw [hformat] at hinfo
    obtain hsize | hsize | hsize | hsize := hinfo <;> simp [hsize, hbytes]
  | doubleFloat => simp [hbytes]
  | longDouble => simp [hbytes]
  | vector =>
    rw [hformat] at hinfo
    obtain hsize | hsize := hinfo <;> simp [hsize, hbytes]

/-- A read returns `w` as a value of the register exactly when the register is not marked
and has the bytes of `w`. -/
theorem read_eq_typed_iff {regs : Registers} {info : RegisterInfo} (hinfo : info.Readable)
    (w : BitVec 128) : regs.read info = .ok (info.typed w) ↔
      regs.isUndefined info = false ∧ ∀ i < info.size, regs.data (info.offset + i) = byteOf w i := by
  by_cases hmarked : regs.isUndefined info = true
  · have hraises : regs.read info = .error (.raised "Register is undefined") := if_pos hmarked
    rw [hraises, hmarked]
    exact iff_of_false nofun fun h => nomatch h.1
  have hfree := Bool.eq_false_iff.mpr hmarked
  rw [← read_holding hinfo w, read_eq_iff hinfo hfree rfl, and_iff_right hfree]
  constructor
  · intro h i hi
    have hbyte : regs.data (info.offset + i) = byteOf w (info.offset + i - info.offset) :=
      h (info.offset + i) ⟨Nat.le_add_right _ _, Nat.add_lt_add_left hi _⟩
    rwa [Nat.add_sub_cancel_left] at hbyte
  · rintro h o ⟨hlo, hhi⟩
    have hbyte := h (o - info.offset) (by omega)
    rwa [Nat.add_sub_cancel' hlo] at hbyte

end Registers
end KDebugger
