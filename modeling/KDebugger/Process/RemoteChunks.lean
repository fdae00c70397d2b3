import KDebugger.Process.MemoryReads

namespace KDebugger.Process

/-- All bytes of the chunk are in the page of the first. -/
def InPage (chunk : VirtAddr × ℕ) : Prop :=
  ∀ i < chunk.2, (chunk.1.toNat + i) / 0x1000 = chunk.1.toNat / 0x1000

/-- The chunks cover the range from its start on, each in its page. -/
structure CutByPages (address : VirtAddr) (amount : ℕ) (chunks : List (VirtAddr × ℕ)) : Prop where
  nonempty : ∀ chunk ∈ chunks, 0 < chunk.2
  starts : ∀ chunk ∈ chunks.head?, chunk.1 = address
  consecutive : chunks.IsChain fun chunk next => next.1.toNat = chunk.1.toNat + chunk.2
  total : (chunks.map Prod.snd).sum = amount
  inPage : ∀ chunk ∈ chunks, InPage chunk
  nil_iff : chunks = [] ↔ amount = 0

theorem cutByPages_nil (address : VirtAddr) : CutByPages address 0 [] where
  nonempty := by simp
  starts := by simp
  consecutive := .nil
  total := rfl
  inPage := by simp
  nil_iff := by simp

theorem CutByPages.cons {address : VirtAddr} {chunkSize left : ℕ} {chunks : List (VirtAddr × ℕ)}
    (hpos : 0 < chunkSize) (hpage : InPage (address, chunkSize))
    (hwrap : address.toNat + (chunkSize + left) ≤ 2 ^ 64)
    (h : CutByPages (address + BitVec.ofNat 64 chunkSize) left chunks) :
    CutByPages address (chunkSize + left) ((address, chunkSize) :: chunks) where
  nonempty := List.forall_mem_cons.mpr ⟨hpos, h.nonempty⟩
  starts := by simp
  consecutive := by
    cases chunks with
    | nil => exact .singleton _
    | cons next chunks =>
      -- there is a next chunk, so the range goes on behind this one
      have hleft : left ≠ 0 := fun h0 => List.cons_ne_nil _ _ (h.nil_iff.mpr h0)
      apply List.IsChain.cons_cons _ h.consecutive
      show next.1.toNat = address.toNat + chunkSize
      rw [h.starts next rfl, BitVec.toNat_add, BitVec.toNat_ofNat]
      omega
  total := by rw [List.map_cons, List.sum_cons, h.total]
  inPage := List.forall_mem_cons.mpr ⟨hpage, h.inPage⟩
  nil_iff := by
    apply iff_of_false (List.cons_ne_nil _ _)
    omega

theorem chunkSize_spec (address : VirtAddr) {amount : ℕ} (h : amount ≠ 0) :
    ∃ chunkSize left, min amount (0x1000 - address.toNat % 0x1000) = chunkSize ∧
      amount - chunkSize = left ∧ amount = chunkSize + left ∧ 0 < chunkSize ∧
      InPage (address, chunkSize) := by
  refine ⟨_, _, rfl, rfl, by omega, by omega, fun i hi => ?_⟩
  show (address.toNat + i) / 0x1000 = address.toNat / 0x1000
  dsimp only at hi
  omega

theorem remoteChunks_cut : ∀ (fuel : ℕ) (address : VirtAddr) (amount : ℕ), amount ≤ fuel →
    address.toNat + amount ≤ 2 ^ 64 → CutByPages address amount (remoteChunks fuel address amount) := by
  -- by induction on the turns: each chunk ends at the end of its page or of the range
  intro fuel
  induction fuel with
  | zero =>
    intro address amount hfuel _
    obtain rfl : amount = 0 := by omega
    exact cutByPages_nil address
  | succ fuel ih =>
    intro address amount hfuel hwrap
    unfold remoteChunks
    by_cases h0 : amount = 0
    · subst h0
      exact cutByPages_nil address
    obtain ⟨chunkSize, left, hsize, hleft, rfl, hpos, hpage⟩ := chunkSize_spec address h0
    rw [if_neg h0]
    simp only [hsize, hleft]
    apply CutByPages.cons hpos hpage hwrap
    apply ih _ _ (by omega)
    rw [BitVec.toNat_add, BitVec.toNat_ofNat]
    omega

theorem remoteChunks_bound : ∀ (fuel : ℕ) (address : VirtAddr) (amount : ℕ), amount ≤ fuel →
    remoteChunks fuel address amount = remoteChunks amount address amount := by
  suffices h : ∀ (fuel fuel' : ℕ) (address : VirtAddr) (amount : ℕ), amount ≤ fuel →
      amount ≤ fuel' → remoteChunks fuel address amount = remoteChunks fuel' address amount from
    fun fuel address amount hfuel => h fuel amount address amount hfuel le_rfl
  intro fuel
  induction fuel with
  | zero =>
    intro fuel' address amount hfuel _
    obtain rfl : amount = 0 := by omega
    cases fuel' <;> rfl
  | succ fuel ih =>
    intro fuel' address amount hfuel hfuel'
    by_cases h0 : amount = 0
    · subst h0
      cases fuel' <;> rfl
    obtain ⟨n, rfl⟩ : ∃ n, fuel' = n + 1 := ⟨fuel' - 1, by omega⟩
    obtain ⟨chunkSize, left, hsize, hleft, rfl, hpos, -⟩ := chunkSize_spec address h0
    unfold remoteChunks
    rw [if_neg h0, if_neg h0]
    simp only [hsize, hleft]
    rw [ih n _ left (by omega) (by omega)]

/-- The loop of `read_memory` ends, with the range cut at the ends of its pages. -/
theorem remoteChunks_cutByPages (address : VirtAddr) (amount : ℕ)
    (hwrap : address.toNat + amount ≤ 2 ^ 64) :
    ∃ chunks, (∀ fuel, amount ≤ fuel → remoteChunks fuel address amount = chunks) ∧
      CutByPages address amount chunks :=
  ⟨_, fun fuel => remoteChunks_bound fuel address amount,
    remoteChunks_cut amount address amount le_rfl hwrap⟩

theorem remoteChunks_cutByPages_last :
    (0xffffffffffffeff0#64).toNat + 0x1010 ≤ 2 ^ 64 ∧ ∃ chunks,
      (∀ fuel, 0x1010 ≤ fuel → remoteChunks fuel 0xffffffffffffeff0#64 0x1010 = chunks) ∧
      CutByPages 0xffffffffffffeff0#64 0x1010 chunks :=
  ⟨by decide, remoteChunks_cutByPages _ _ (by decide)⟩

end KDebugger.Process
