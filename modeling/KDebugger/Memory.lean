import KDebugger.Words
import Mathlib.Logic.Function.Basic

namespace KDebugger

open ByteStream Words

structure Memory where
  byte : BitVec 64 → Byte
  mapped : BitVec 64 → Bool

namespace Memory

/-- The address `i` bytes after `a`. -/
def plus (a : BitVec 64) (i : ℕ) : BitVec 64 := a + BitVec.ofNat 64 i

/-- All bytes of `[a, a + n)` are mapped. -/
def isMapped (m : Memory) (a : BitVec 64) (n : ℕ) : Bool :=
  (List.range n).all fun i => m.mapped (plus a i)

/-- The bytes of `[a, a + n)`. -/
def bytes (m : Memory) (a : BitVec 64) (n : ℕ) : List Byte :=
  (List.range n).map fun i => m.byte (plus a i)

def word (m : Memory) (a : BitVec 64) : BitVec 64 := wordOf fun i => m.byte (plus a i)

def store (m : Memory) (a w : BitVec 64) : Memory :=
  { m with byte := fun x => if (x - a).toNat < 8 then byteOf w (x - a).toNat else m.byte x }

def setByte (m : Memory) (a : BitVec 64) (b : Byte) : Memory :=
  { m with byte := Function.update m.byte a b }

/-- The bytes of `data` laid over memory from `a` on. -/
def overlay (m : Memory) (a : BitVec 64) (data : List Byte) : Memory :=
  { m with byte := fun x => (data[(x - a).toNat]?).getD (m.byte x) }

/-- `PTRACE_PEEKDATA`. -/
def peek (m : Memory) (a : BitVec 64) : Option (BitVec 64) :=
  if m.isMapped a 8 then some (m.word a) else none

/-- `PTRACE_POKEDATA`. -/
def poke (m : Memory) (a w : BitVec 64) : Option Memory :=
  if m.isMapped a 8 then some (m.store a w) else none

/-- The bytes `process_vm_readv` transfers. -/
def transferred (m : Memory) : List (BitVec 64 × ℕ) → List Byte
  | [] => []
  | (a, n) :: chunks => if m.isMapped a n then m.bytes a n ++ m.transferred chunks else []

/-- `process_vm_readv`, which fails when it cannot take the first chunk.  Its limit of `IOV_MAX`
chunks, which the callers do not check, is left out. -/
def readv (m : Memory) : List (BitVec 64 × ℕ) → Option (List Byte)
  | [] => some []
  | (a, n) :: chunks => if m.isMapped a n then some (m.transferred ((a, n) :: chunks)) else none

theorem plus_sub (x a : BitVec 64) : plus a (x - a).toNat = x := by
  rw [plus, BitVec.ofNat_toNat, BitVec.setWidth_eq, BitVec.add_comm, BitVec.sub_add_cancel]

theorem plus_plus (a : BitVec 64) (i j : ℕ) : plus (plus a i) j = plus a (i + j) := by
  rw [plus, plus, plus, BitVec.add_assoc, ← BitVec.ofNat_add]

theorem plus_sub_toNat (a : BitVec 64) {i : ℕ} (hi : i < 2 ^ 64) : (plus a i - a).toNat = i := by
  rw [plus, BitVec.add_comm, BitVec.add_sub_cancel, BitVec.toNat_ofNat, Nat.mod_eq_of_lt hi]

@[simp] theorem bytes_length (m : Memory) (a : BitVec 64) (n : ℕ) : (m.bytes a n).length = n := by
  simp [bytes]

theorem bytes_getElem? (m : Memory) (a : BitVec 64) {n i : ℕ} (hi : i < n) :
    (m.bytes a n)[i]? = some (m.byte (plus a i)) := by
  simp [bytes, hi]

theorem bytes_append (m : Memory) (a : BitVec 64) (n k : ℕ) :
    m.bytes a n ++ m.bytes (plus a n) k = m.bytes a (n + k) := by
  simp only [bytes, List.range_add, List.map_append, List.map_map]
  congr 1
  apply List.map_congr_left
  intro i _
  rw [Function.comp_apply, plus_plus]

theorem isMapped_of_all {m : Memory} (h : ∀ a, m.mapped a = true) (a : BitVec 64) (n : ℕ) :
    m.isMapped a n = true := by
  simp [isMapped, h]

theorem store_withLowByte (m : Memory) (a : BitVec 64) (b : Byte) :
    m.store a (withLowByte (m.word a) b) = m.setByte a b := by
  unfold store setByte
  congr 1
  funext x
  by_cases hx : x = a
  · subst hx
    rw [BitVec.sub_self, Function.update_self]
    simp [byteOf_withLowByte]
  · rw [Function.update_of_ne hx]
    by_cases hlt : (x - a).toNat < 8
    · have hne : (x - a).toNat ≠ 0 := by
        intro h
        apply hx
        rw [← plus_sub x a, h, plus, BitVec.add_zero]
      rw [if_pos hlt, byteOf_withLowByte _ _ hlt, if_neg hne, word, byteOf_wordOf _ hlt, plus_sub]
    · rw [if_neg hlt]

theorem isMapped_iff {m : Memory} {a : BitVec 64} {n : ℕ} :
    m.isMapped a n = true ↔ ∀ i < n, m.mapped (plus a i) = true := by
  simp [isMapped]

theorem isMapped_add (m : Memory) (a : BitVec 64) (n k : ℕ) :
    m.isMapped a (n + k) = (m.isMapped a n && m.isMapped (plus a n) k) := by
  simp only [isMapped, List.range_add, List.all_append, List.all_map, Function.comp_def, plus_plus]

@[simp] theorem overlay_mapped (m : Memory) (a : BitVec 64) (data : List Byte) :
    (m.overlay a data).mapped = m.mapped := rfl

theorem overlay_nil (m : Memory) (a : BitVec 64) : m.overlay a [] = m := by
  simp [overlay]

theorem overlay_byte_plus (m : Memory) (a : BitVec 64) {data : List Byte} {i : ℕ}
    (hi : i < data.length) (hlen : data.length ≤ 2 ^ 64) :
    (m.overlay a data).byte (plus a i) = data[i] := by
  have hk : (plus a i - a).toNat = i := plus_sub_toNat a (Nat.lt_of_lt_of_le hi hlen)
  simp only [overlay, hk, List.getElem?_eq_getElem hi, Option.getD_some]

theorem overlay_byte_of_le (m : Memory) {a x : BitVec 64} {data : List Byte}
    (h : data.length ≤ (x - a).toNat) : (m.overlay a data).byte x = m.byte x := by
  simp only [overlay, List.getElem?_eq_none h, Option.getD_none]

theorem bytes_overlay (m : Memory) (a : BitVec 64) {data : List Byte} (hlen : data.length ≤ 2 ^ 64) :
    (m.overlay a data).bytes a data.length = data := by
  apply List.ext_getElem (bytes_length ..)
  intro i hi hi'
  simpa [bytes] using overlay_byte_plus m a hi' hlen

theorem overlay_append (m : Memory) (a : BitVec 64) {xs ys : List Byte}
    (hlen : xs.length + ys.length ≤ 2 ^ 64) :
    (m.overlay a xs).overlay (plus a xs.length) ys = m.overlay a (xs ++ ys) := by
  simp only [overlay, mk.injEq, and_true]
  funext x
  have hdist : (x - plus a xs.length).toNat =
      ((x - a).toNat + (2 ^ 64 - xs.length)) % 2 ^ 64 := by
    simp only [plus, BitVec.toNat_sub, BitVec.toNat_add, BitVec.toNat_ofNat]
    omega
  have hk := (x - a).isLt
  by_cases h : (x - a).toNat < xs.length
  · have hout : ys[(x - plus a xs.length).toNat]? = none := by
      rw [List.getElem?_eq_none_iff, hdist]
      omega
    rw [hout, List.getElem?_append_left h]
    rfl
  · have hin : (x - plus a xs.length).toNat = (x - a).toNat - xs.length := by omega
    rw [hin, List.getElem?_append_right (by omega), List.getElem?_eq_none (by omega : xs.length ≤ _)]
    rfl

theorem store_fromBytes (m : Memory) (a : BitVec 64) {data : List Byte} (h : data.length = 8) :
    m.store a (fromBytes 8 data) = m.overlay a data := by
  simp only [store, overlay, mk.injEq, and_true]
  funext x
  split_ifs with hx
  · rw [byteOf_fromBytes hx, List.getElem?_eq_getElem (by omega)]
    rfl
  · rw [List.getElem?_eq_none (by omega)]
    rfl

theorem overlay_drop_bytes (m : Memory) (a : BitVec 64) (data : List Byte) (n : ℕ) :
    m.overlay a (data ++ (m.bytes a n).drop data.length) = m.overlay a data := by
  simp only [overlay, mk.injEq, and_true]
  funext x
  by_cases h : (x - a).toNat < data.length
  · rw [List.getElem?_append_left h]
  · rw [List.getElem?_append_right (by omega), List.getElem?_drop,
      Nat.add_sub_cancel' (by omega), List.getElem?_eq_none (by omega : data.length ≤ _)]
    by_cases hn : (x - a).toNat < n
    · rw [bytes_getElem? m a hn, plus_sub]
      rfl
    · rw [List.getElem?_eq_none (by simpa using hn)]

end Memory
end KDebugger
