import KDebugger.Process.State

namespace KDebugger.Process

open ByteStream Exec Memory

/-- `PTRACE_PEEKDATA`, with the error of the caller. -/
def peekData (what : String) (a : VirtAddr) : M (BitVec 64) := do
  let s ← get
  match s.memory.peek a with
  | none => throw (.raised what)
  | some w => pure w

/-- `PTRACE_POKEDATA`, with the error of the caller. -/
def pokeData (what : String) (a : VirtAddr) (w : BitVec 64) : M Unit := do
  let s ← get
  match s.memory.poke a w with
  | none => throw (.raised what)
  | some memory => set { s with memory }

def remoteChunks : ℕ → VirtAddr → ℕ → List (VirtAddr × ℕ)
  -- a chunk does not cross a page
  | 0, _, _ => []
  | fuel + 1, address, amount =>
    if amount = 0 then []
    else
      let upToNextPage := 0x1000 - address.toNat % 0x1000
      let chunkSize := min amount upToNextPage
      (address, chunkSize) ::
        remoteChunks fuel (address + BitVec.ofNat 64 chunkSize) (amount - chunkSize)

/-- `read_memory`: a buffer of zeros, as far as it goes overwritten by what is read. -/
def readMemory (address : VirtAddr) (amount : ℕ) : M (List Byte) := do
  let s ← get
  match s.memory.readv (remoteChunks amount address amount) with
  | none => throw (.raised "Could not read process memory!\n")
  | some bytes => pure (bytes ++ List.replicate (amount - bytes.length) 0#8)

theorem within_readMemory {R : Process → Process → Prop} (hR : Frame R) (address : VirtAddr)
    (amount : ℕ) : Within R (readMemory address amount) := by
  refine hR.bind hR.get fun s => ?_
  cases s.memory.readv (remoteChunks amount address amount) with
  | none => exact hR.throw _
  | some bytes => exact hR.pure _

theorem transferred_remoteChunks {m : Memory} (fuel : ℕ) (a : VirtAddr) (amount : ℕ)
    (h : amount ≤ fuel) (hm : m.isMapped a amount = true) :
    m.transferred (remoteChunks fuel a amount) = m.bytes a amount := by
  induction fuel generalizing a amount with
  | zero =>
    obtain rfl : amount = 0 := by omega
    rfl
  | succ fuel ih =>
    unfold remoteChunks
    by_cases h0 : amount = 0
    · subst h0
      rfl
    · rw [if_neg h0, transferred]
      have hpage := Nat.mod_lt a.toNat (show 0 < 0x1000 by decide)
      have hpos : 0 < min amount (0x1000 - a.toNat % 0x1000) := by omega
      have hle : min amount (0x1000 - a.toNat % 0x1000) ≤ amount := Nat.min_le_left _ _
      generalize min amount (0x1000 - a.toNat % 0x1000) = chunkSize at hpos hle ⊢
      rw [← Nat.add_sub_cancel' hle, isMapped_add, Bool.and_eq_true] at hm
      rw [if_pos hm.1]
      refine (congrArg _ (ih _ _ (by omega) hm.2)).trans ?_
      rw [bytes_append, Nat.add_sub_cancel' hle]

theorem readMemory_eq {s : Process} {a : VirtAddr} {amount : ℕ}
    (hm : s.memory.isMapped a amount = true) :
    readMemory a amount s = .ok (s.memory.bytes a amount) s := by
  have hread : s.memory.readv (remoteChunks amount a amount) = some (s.memory.bytes a amount) := by
    rw [← transferred_remoteChunks amount a amount le_rfl hm]
    cases amount with
    | zero => rfl
    | succ n =>
      have hle : min (n + 1) (0x1000 - a.toNat % 0x1000) ≤ n + 1 := Nat.min_le_left _ _
      rw [← Nat.add_sub_cancel' hle, isMapped_add, Bool.and_eq_true] at hm
      exact if_pos hm.1
  unfold readMemory
  rw [bind_ok (get_eq s), hread]
  simp only [bytes_length, Nat.sub_self, List.replicate_zero, List.append_nil]
  rfl

end KDebugger.Process
