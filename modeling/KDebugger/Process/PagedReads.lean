import KDebugger.Process.MemoryReads

namespace KDebugger

namespace Memory

/-- An address is mapped when the others of its page are. -/
def Paged (m : Memory) : Prop :=
  ∀ a b : BitVec 64, a.toNat / 0x1000 = b.toNat / 0x1000 → m.mapped a = m.mapped b

theorem Paged.isMapped {m : Memory} (h : m.Paged) {a : BitVec 64} (ha : m.mapped a = true) {n : ℕ}
    (hn : n ≤ 0x1000 - a.toNat % 0x1000) : m.isMapped a n = true := by
  rw [isMapped_iff]
  intro i hi
  rw [← h a (plus a i) ?_, ha]
  have hmod := Nat.mod_lt a.toNat (show 0 < 0x1000 by decide)
  have hlt := a.isLt
  unfold plus
  rw [BitVec.toNat_add, BitVec.toNat_ofNat]
  omega

theorem take_bytes (m : Memory) (a : BitVec 64) {n k : ℕ} (h : k ≤ n) :
    (m.bytes a n).take k = m.bytes a k := by
  rw [← Nat.add_sub_cancel' h, ← bytes_append, List.take_left' (bytes_length ..)]

theorem drop_bytes (m : Memory) (a : BitVec 64) (n k : ℕ) :
    (m.bytes a (n + k)).drop n = m.bytes (plus a n) k := by
  rw [← bytes_append, List.drop_left' (bytes_length ..)]

end Memory

namespace Process

open Exec Memory

theorem take_transferred {m : Memory} (hm : m.Paged) : ∀ (fuel : ℕ) (a : VirtAddr) (amount k : ℕ),
    amount ≤ fuel → k ≤ amount → m.isMapped a k = true →
    (m.transferred (remoteChunks fuel a amount)).take k = m.bytes a k := by
  intro fuel
  induction fuel with
  | zero =>
    intro a amount k hfuel hk _
    obtain rfl : k = 0 := by omega
    rfl
  | succ fuel ih =>
    intro a amount k hfuel hk hmapped
    rcases Nat.eq_zero_or_pos k with rfl | hpos
    · rfl
    unfold remoteChunks
    rw [if_neg (by omega), transferred]
    have hpage := Nat.mod_lt a.toNat (show 0 < 0x1000 by decide)
    have hfirst : m.mapped a = true := by
      have h0 := isMapped_iff.mp hmapped 0 hpos
      rwa [plus, BitVec.add_zero] at h0
    have hchunk := hm.isMapped hfirst (Nat.min_le_right amount (0x1000 - a.toNat % 0x1000))
    have hlt : 0 < min amount (0x1000 - a.toNat % 0x1000) := by omega
    have hle : min amount (0x1000 - a.toNat % 0x1000) ≤ amount := Nat.min_le_left _ _
    generalize min amount (0x1000 - a.toNat % 0x1000) = chunkSize at hchunk hlt hle ⊢
    rw [if_pos hchunk]
    rcases Nat.le_total k chunkSize with hshort | hlong
    · rw [List.take_append_of_le_length (by rw [bytes_length]; exact hshort), take_bytes m a hshort]
    · rw [← Nat.add_sub_cancel' hlong, isMapped_add, Bool.and_eq_true] at hmapped
      have hrest := ih (plus a chunkSize) (amount - chunkSize) (k - chunkSize) (by omega) (by omega)
        hmapped.2
      rw [List.take_append, bytes_length, List.take_of_length_le (by rw [bytes_length]; exact hlong)]
      refine (congrArg _ hrest).trans ?_
      rw [bytes_append, Nat.add_sub_cancel' hlong]

theorem readMemory_paged {s : Process} (hm : s.memory.Paged) {a : VirtAddr} {amount k : ℕ}
    (hpos : 0 < k) (hk : k ≤ amount) (hmapped : s.memory.isMapped a k = true) :
    ∃ buffer, readMemory a amount s = .ok buffer s ∧ buffer.take k = s.memory.bytes a k := by
  -- behind the mapped pages the buffer is zero
  have hfirst : s.memory.mapped a = true := by
    have h0 := isMapped_iff.mp hmapped 0 hpos
    rwa [plus, BitVec.add_zero] at h0
  let bytes := s.memory.transferred (remoteChunks amount a amount)
  have hread : s.memory.readv (remoteChunks amount a amount) = some bytes := by
    cases amount with
    | zero => rfl
    | succ n => exact if_pos (hm.isMapped hfirst (Nat.min_le_right _ _))
  have htake : bytes.take k = s.memory.bytes a k :=
    take_transferred hm amount a amount k le_rfl hk hmapped
  have hlength : k ≤ bytes.length := by
    have := congrArg List.length htake
    rw [List.length_take, bytes_length] at this
    omega
  refine ⟨bytes ++ List.replicate (amount - bytes.length) 0#8, ?_, ?_⟩
  · unfold readMemory
    rw [bind_ok (get_eq s), hread]
    rfl
  · rw [List.take_append_of_le_length hlength, htake]

theorem readMemory_unmapped {s : Process} {a : VirtAddr} {amount : ℕ} (hpos : 0 < amount)
    (ha : s.memory.mapped a = false) :
    readMemory a amount s = .error (.raised "Could not read process memory!\n") s := by
  have hread : s.memory.readv (remoteChunks amount a amount) = none := by
    obtain ⟨n, rfl⟩ : ∃ n, amount = n + 1 := ⟨amount - 1, by omega⟩
    have hpage := Nat.mod_lt a.toNat (show 0 < 0x1000 by decide)
    have hchunk : s.memory.isMapped a (min (n + 1) (0x1000 - a.toNat % 0x1000)) = false := by
      rw [Bool.eq_false_iff, ne_eq, isMapped_iff]
      intro hall
      have h0 := hall 0 (by omega)
      rw [plus, BitVec.add_zero, ha] at h0
      cases h0
    exact if_neg (by rw [hchunk]; exact Bool.false_ne_true)
  unfold readMemory
  rw [bind_ok (get_eq s), hread]
  rfl

/-- A read gives back the inferior's bytes, or raises an error. -/
def ReadsBytes (s : Process) (a : VirtAddr) (amount : ℕ) : Prop :=
  match readMemory a amount s with
  | .ok buffer _ => ∀ i < amount, s.memory.mapped (plus a i) = true ∧
      buffer[i]? = some (s.memory.byte (plus a i))
  | .error e _ => ∃ what, e = .raised what

theorem readsBytes_of_isMapped {s : Process} {a : VirtAddr} {amount : ℕ}
    (hall : s.memory.isMapped a amount = true) : ReadsBytes s a amount := by
  unfold ReadsBytes
  rw [readMemory_eq hall]
  exact fun i hi => ⟨isMapped_iff.mp hall i hi, bytes_getElem? s.memory a hi⟩

theorem not_readsBytes {s : Process} (hm : s.memory.Paged) {a : VirtAddr} {amount : ℕ}
    (hpos : 0 < amount) (ha : s.memory.mapped a = true)
    (hall : ¬ s.memory.isMapped a amount = true) : ¬ ReadsBytes s a amount := by
  have hfirst : s.memory.isMapped a 1 = true := hm.isMapped ha (by omega)
  obtain ⟨buffer, hread, -⟩ := readMemory_paged hm Nat.one_pos hpos hfirst
  unfold ReadsBytes
  rw [hread]
  exact fun h => hall (isMapped_iff.mpr fun i hi => (h i hi).1)

/-- A read gives back nothing but bytes it has read exactly when all of its range is
mapped, or not even the first byte. -/
theorem readsBytes_iff {s : Process} (hm : s.memory.Paged) (a : VirtAddr) (amount : ℕ) :
    ReadsBytes s a amount ↔
      s.memory.isMapped a amount = true ∨ s.memory.mapped a = false := by
  by_cases hall : s.memory.isMapped a amount = true
  · exact iff_of_true (readsBytes_of_isMapped hall) (.inl hall)
  have hpos : 0 < amount := by
    rcases Nat.eq_zero_or_pos amount with rfl | hpos
    · exact absurd rfl hall
    · exact hpos
  cases ha : s.memory.mapped a with
  | false =>
    refine iff_of_true ?_ (.inr rfl)
    unfold ReadsBytes
    rw [readMemory_unmapped hpos ha]
    exact ⟨_, rfl⟩
  | true => exact iff_of_false (not_readsBytes hm hpos ha hall) (by simp [hall])

def pageOfSevens : Process where
  pid := 1
  currentThread := 1
  threads := ⟨[{ tid := 1, regs := { data := fun _ => 0#8, tid := 1 } }], List.pairwise_singleton _ 1⟩
  casts := ⟨fun _ => 0#64, fun _ => 0#128, fun _ => 0#128, fun _ => 0#64⟩
  memory := ⟨fun _ => 7#8, fun x => x.toNat / 0x1000 = 1⟩
  user _ _ := 0#8

theorem pageOfSevens_paged : pageOfSevens.memory.Paged := by
  intro a b hab
  simp only [pageOfSevens, hab]

theorem readsBytes_iff_pageOfSevens : ReadsBytes pageOfSevens 0x1fff#64 1 ↔
    pageOfSevens.memory.isMapped 0x1fff#64 1 = true ∨
      pageOfSevens.memory.mapped 0x1fff#64 = false :=
  readsBytes_iff pageOfSevens_paged 0x1fff#64 1

/-- Two bytes across the end of the page: the second is a zero that nobody read. -/
theorem readsBytes_not_for_all :
    ¬ ∀ (s : Process) (a : VirtAddr) (amount : ℕ), s.memory.Paged → ReadsBytes s a amount := by
  intro h
  exact not_readsBytes pageOfSevens_paged (by decide) (by decide) (by decide)
    (h pageOfSevens 0x1fff#64 2 pageOfSevens_paged)

end Process
end KDebugger
