import KDebugger.Dwarf.CallFrame

namespace KDebugger.Dwarf

open ByteStream Exec Cur

/-- The reader goes forward in its area, and no bound of it is reached. -/
def Advances {α : Type} (p : Reader α) : Prop :=
  ∀ c, match p c with
    | .ok _ c' => c.pos ≤ c'.pos ∧ c'.stop = c.stop
    | .error e _ => e ≠ .exhausted

section Rules

variable {α β : Type}

theorem Advances.ok {p : Reader α} (h : Advances p) {c c' : Cursor} {a : α} (hp : p c = .ok a c') :
    c.pos ≤ c'.pos ∧ c'.stop = c.stop := by
  have hc := h c
  rwa [hp] at hc

theorem Advances.error {p : Reader α} (h : Advances p) {c c' : Cursor} {e : Failure}
    (hp : p c = .error e c') : e ≠ .exhausted := by
  have hc := h c
  rwa [hp] at hc

theorem advances_pure (a : α) : Advances (pure a) := fun _ => ⟨Nat.le_refl _, rfl⟩

theorem advances_throw {e : Failure} (h : e ≠ .exhausted) : Advances (throw e : Reader α) :=
  fun _ => h

theorem Advances.bind {p : Reader α} {f : α → Reader β} (hp : Advances p)
    (hf : ∀ a, Advances (f a)) : Advances (p >>= f) := by
  intro c
  cases h : p c with
  | error e c' =>
    rw [bind_error h]
    exact hp.error h
  | ok a c' =>
    obtain ⟨hpos, hstop⟩ := hp.ok h
    rw [bind_ok h]
    cases h' : f a c' with
    | error e c'' => exact (hf a).error h'
    | ok b c'' =>
      obtain ⟨hpos', hstop'⟩ := (hf a).ok h'
      exact ⟨hpos.trans hpos', hstop'.trans hstop⟩

theorem advances_ofExcept {x : Except Failure α} (h : x ≠ .error .exhausted) :
    Advances (ofExcept x : Reader α) := by
  cases x with
  | ok a => exact advances_pure a
  | error e => exact advances_throw fun he => h (by rw [he])

theorem Advances.ite {p q : Reader α} {P : Prop} [Decidable P] (hp : Advances p)
    (hq : Advances q) : Advances (if P then p else q) := by
  split
  · exact hp
  · exact hq

theorem advances_position : Advances position := fun _ => ⟨Nat.le_refl _, rfl⟩

theorem advances_fixedInt (n : ℕ) : Advances (fixedInt n) := by
  intro c
  cases h : fixedInt n c with
  | error e c' =>
    rw [onlyUndefined_fixedInt n _ _ _ h]
    exact Failure.noConfusion
  | ok v c' =>
    obtain ⟨bs, c₁, hbs, hc₁⟩ := bind_eq_ok.mp h
    obtain ⟨-, -, rfl⟩ := readBytes_ok hbs
    cases hc₁
    exact ⟨Nat.le_add_right _ _, rfl⟩

theorem advances_lebGroups : ∀ (more shift : ℕ) (res : BitVec 64),
    Advances (lebGroups more shift res) := by
  intro more
  induction more with
  | zero => exact fun _ _ => (advances_fixedInt 1).bind fun _ => advances_throw Failure.noConfusion
  | succ more ih =>
    intro shift res
    exact (advances_fixedInt 1).bind fun byte => (ih _ _).ite (advances_pure _)

theorem advances_uleb128 : Advances uleb128 :=
  (advances_lebGroups 10 0 0#64).bind fun _ => advances_pure _

theorem advances_sleb128 : Advances sleb128 :=
  (advances_lebGroups 10 0 0#64).bind fun _ => (advances_pure _).ite (advances_pure _)

end Rules

theorem advances_parseEhFramePointer (encoding : Byte) (bases : EhBases) :
    Advances (parseEhFramePointer encoding bases) := by
  have hfixed (n : ℕ) (f : BitVec (8 * n) → BitVec 64) :
      Advances (fixedInt n >>= fun v => pure (f v)) :=
    (advances_fixedInt n).bind fun _ => advances_pure _
  unfold parseEhFramePointer
  split
  · unfold parseEhFramePointerWithBase
    split
    · exact hfixed 8 _
    · exact advances_uleb128.bind fun _ => advances_pure _
    · exact hfixed 2 _
    · exact hfixed 4 _
    · exact hfixed 8 _
    · exact advances_sleb128.bind fun _ => advances_pure _
    · exact hfixed 2 _
    · exact hfixed 4 _
    · exact hfixed 8 _
    · exact advances_throw Failure.noConfusion
  · exact advances_throw Failure.noConfusion

theorem advances_restore (ctx : UnwindContext) (reg : BitVec 64) :
    Advances (ofExcept (ctx.restore reg) : Reader UnwindContext) := by
  apply advances_ofExcept
  unfold UnwindContext.restore
  split <;> simp

theorem advances_restoreState (ctx : UnwindContext) :
    Advances (ofExcept ctx.restoreState : Reader UnwindContext) := by
  apply advances_ofExcept
  unfold UnwindContext.restoreState
  split <;> simp

theorem advances_executeExtendedCfi (elf : FrameElf) (fde : Fde) (ctx : UnwindContext)
    (opcode : Byte) : Advances (executeExtendedCfi elf fde ctx opcode) := by
  have hone (f : BitVec 64 → UnwindContext) : Advances (uleb128 >>= fun v => pure (f v)) :=
    advances_uleb128.bind fun _ => advances_pure _
  have hunsigned (f : BitVec 64 → BitVec 64 → UnwindContext) :
      Advances (uleb128 >>= fun v => uleb128 >>= fun w => pure (f v w)) :=
    advances_uleb128.bind fun _ => hone _
  have hsigned (f : BitVec 64 → BitVec 64 → UnwindContext) :
      Advances (uleb128 >>= fun v => sleb128 >>= fun w => pure (f v w)) :=
    advances_uleb128.bind fun _ => advances_sleb128.bind fun _ => advances_pure _
  have hfixed (n : ℕ) (f : BitVec (8 * n) → UnwindContext) :
      Advances (fixedInt n >>= fun v => pure (f v)) :=
    (advances_fixedInt n).bind fun _ => advances_pure _
  have hraise : Advances (throw (.raised "DWARF expressions not yet implemented") :
      Reader UnwindContext) := advances_throw Failure.noConfusion
  unfold executeExtendedCfi
  dsimp only
  cases CfaOp.ofCode opcode with
  | none => exact advances_pure ctx
  | some op =>
    cases op with
    | setLoc =>
      exact advances_position.bind fun _ =>
        (advances_parseEhFramePointer _ _).bind fun _ => advances_pure _
    | advanceLoc1 => exact hfixed 1 _
    | advanceLoc2 => exact hfixed 2 _
    | advanceLoc4 => exact hfixed 4 _
    | defCfa | offsetExtended | valOffset | register => exact hunsigned _
    | defCfaSf | offsetExtendedSf | valOffsetSf => exact hsigned _
    | defCfaOffset | undefined | sameValue => exact hone _
    | defCfaOffsetSf => exact advances_sleb128.bind fun _ => advances_pure _
    | defCfaExpression | expression | valExpression => exact hraise
    | restoreExtended => exact advances_uleb128.bind fun _ => advances_restore _ _
    | rememberState => exact advances_pure _
    | restoreState => exact advances_restoreState _
    | nop | defCfaRegister => exact advances_pure _

theorem executeCfiInstruction_takes (elf : FrameElf) (fde : Fde) (ctx : UnwindContext) (c : Cursor) :
    match executeCfiInstruction elf fde ctx c with
    | .ok _ c' => c.pos < c'.pos ∧ c'.stop = c.stop
    | .error e _ => e ≠ .exhausted := by
  unfold executeCfiInstruction
  cases hopcode : u8 c with
  | error e c' =>
    rw [bind_error hopcode]
    exact (advances_fixedInt 1).error hopcode
  | ok opcode c' =>
    rw [bind_ok hopcode]
    have hpos : c'.pos = c.pos + 1 ∧ c'.stop = c.stop := by
      obtain ⟨bs, c₁, hbs, hc₁⟩ := bind_eq_ok.mp hopcode
      obtain ⟨-, -, rfl⟩ := readBytes_ok hbs
      cases hc₁
      exact ⟨rfl, rfl⟩
    have hrest (p : Reader UnwindContext) (hp : Advances p) : match p c' with
        | .ok _ c'' => c.pos < c''.pos ∧ c''.stop = c.stop
        | .error e _ => e ≠ .exhausted := by
      cases h : p c' with
      | error e c'' => exact hp.error h
      | ok a c'' =>
        obtain ⟨hle, hstop⟩ := hp.ok h
        exact ⟨by omega, hstop.trans hpos.2⟩
    apply hrest
    refine (advances_pure _).ite (Advances.ite ?_ (Advances.ite ?_ ?_))
    · exact advances_uleb128.bind fun _ => advances_pure _
    · exact advances_restore _ _
    · exact advances_executeExtendedCfi _ _ _ _

/-- A loop that goes on after an instruction ends when its rest does: the area ahead of it
is smaller by the opcode. -/
theorem turn_ends (elf : FrameElf) (fde : Fde) (ctx : UnwindContext) {c : Cursor} {n : ℕ}
    {rest : UnwindContext → Reader UnwindContext} (hn : c.stop - c.pos < n + 1)
    (hend : ¬ c.stop ≤ c.pos)
    (hrest : ∀ ctx' c', c'.stop - c'.pos < n → outcome (rest ctx') c' ≠ .error .exhausted) :
    outcome (executeCfiInstruction elf fde ctx >>= rest) c ≠ .error .exhausted := by
  unfold outcome
  have htakes := executeCfiInstruction_takes elf fde ctx c
  cases h : executeCfiInstruction elf fde ctx c with
  | error e c' =>
    rw [h] at htakes
    rw [bind_error h]
    simpa using htakes
  | ok ctx' c' =>
    rw [h] at htakes
    rw [bind_ok h]
    exact hrest ctx' c' (by omega)

theorem executeInitialInstructions_ends (elf : FrameElf) (fde : Fde) : ∀ (n : ℕ)
    (ctx : UnwindContext) (c : Cursor), c.stop - c.pos < n →
      outcome (executeInitialInstructions elf fde n ctx) c ≠ .error .exhausted := by
  intro n
  induction n with
  | zero => exact fun _ _ h => absurd h (Nat.not_lt_zero _)
  | succ n ih =>
    intro ctx c hn
    have hfinished : finished c = .ok (decide (c.stop ≤ c.pos)) c := rfl
    unfold executeInitialInstructions outcome
    rw [bind_ok hfinished]
    by_cases hend : c.stop ≤ c.pos
    · rw [if_pos (by simpa using hend)]
      simp [pure, EStateM.pure]
    · rw [if_neg (by simpa using hend)]
      exact turn_ends elf fde ctx hn hend ih

theorem executeInstructionsUntil_ends (elf : FrameElf) (fde : Fde) (pc : FileAddr) : ∀ (n : ℕ)
    (ctx : UnwindContext) (c : Cursor), c.stop - c.pos < n →
      outcome (executeInstructionsUntil elf fde pc n ctx) c ≠ .error .exhausted := by
  -- every instruction takes a byte at least, and the bound is the bytes that are left
  intro n
  induction n with
  | zero => exact fun _ _ h => absurd h (Nat.not_lt_zero _)
  | succ n ih =>
    intro ctx c hn
    have hfinished : finished c = .ok (decide (c.stop ≤ c.pos)) c := rfl
    unfold executeInstructionsUntil outcome
    rw [bind_ok hfinished]
    by_cases hend : c.stop ≤ c.pos
    · rw [if_pos (by simpa using hend)]
      simp [pure, EStateM.pure]
    · rw [if_neg (by simpa using hend)]
      unfold FileAddr.le
      split_ifs with hfile
      · rw [bind_ok (ofExcept_ok _ _)]
        split_ifs
        · exact turn_ends elf fde ctx hn hend ih
        · simp [pure, EStateM.pure]
      · rw [bind_error (ofExcept_error _ _)]
        simp

/-- The instructions of an entry run out. -/
theorem unwindContext_ends (elf : FrameElf) (fde : Fde) (pc : FileAddr) :
    unwindContext elf fde pc ≠ .error .exhausted := by
  unfold unwindContext FileAddr.lt FileAddr.le
  split_ifs with hfile hfile'
  · simp only [bind, Except.bind]
    split_ifs
    · simp
    · split
      · next e h =>
        intro he
        cases he
        exact executeInitialInstructions_ends _ _ _ _ _ (Nat.lt_succ_self _) h
      · exact executeInstructionsUntil_ends _ _ _ _ _ _ (Nat.lt_succ_self _)
  · simp [bind, Except.bind]
  · simp [bind, Except.bind]
  · simp [bind, Except.bind]

end KDebugger.Dwarf
