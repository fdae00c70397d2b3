import KDebugger.Dwarf.CursorSpec
import KDebugger.Process.Expression

namespace KDebugger.Expression

open ByteStream Leb128 Exec Dwarf Cur

/-- An operation that pushes a value. -/
inductive Push where
  | lit (n : Fin 32)
  | addr (v : BitVec 64)
  | const1u (v : BitVec 8)
  | const1s (v : BitVec 8)
  | const2u (v : BitVec 16)
  | const2s (v : BitVec 16)
  | const4u (v : BitVec 32)
  | const4s (v : BitVec 32)
  | const8u (v : BitVec 64)
  | const8s (v : BitVec 64)
  | constu (v : Uleb)
  | consts (v : Sleb)
  | breg (reg : Fin 32) (offset : Sleb)
  | bregx (reg : Uleb) (offset : Sleb)
  | fbreg (offset : Sleb)

/-- An operation that rearranges the stack. -/
inductive Move where
  | dup | drop | pick (i : Byte) | «over» | swap | rot

inductive Operation where
  | push (p : Push)
  | move (m : Move)

/-- The contents of a register, by the number `register_info_by_dwarf` knows it by; those of
no register count as 0. -/
def Env.contents (E : Env) (reg : ℕ) : BitVec 64 :=
  match registerInfoByDwarf (BitVec.ofNat 32 reg) with
  | .ok info =>
    BitVec.ofNat 64 (leValue ((List.range info.size).map fun i => E.regs.data (info.offset + i)))
  | .error _ => 0#64

def Env.base (E : Env) (func : Option Die) : BitVec 64 := (E.frameBaseOf func).toOption.getD 0#64

/-- The value an operation pushes: an address where the file is loaded, signed operands with
their sign. -/
def Push.value (E : Env) (func : Option Die) : Push → BitVec 64
  | lit n => BitVec.ofNat 64 n
  | addr v => v + E.elf.loadBias
  | const1u v => BitVec.ofNat 64 v.toNat
  | const1s v => BitVec.ofInt 64 v.toInt
  | const2u v => BitVec.ofNat 64 v.toNat
  | const2s v => BitVec.ofInt 64 v.toInt
  | const4u v => BitVec.ofNat 64 v.toNat
  | const4s v => BitVec.ofInt 64 v.toInt
  | const8u v => BitVec.ofNat 64 v.toNat
  | const8s v => BitVec.ofInt 64 v.toInt
  | constu v => BitVec.ofNat 64 v.value
  | consts v => BitVec.ofInt 64 v.value
  | breg reg offset => E.contents reg + BitVec.ofInt 64 offset.value
  | bregx reg offset => E.contents reg.value + BitVec.ofInt 64 offset.value
  | fbreg offset => E.base func + BitVec.ofInt 64 offset.value

/-- The stack after a rearrangement, unless it takes from an empty one. -/
def Move.apply : Move → List (BitVec 64) → Option (List (BitVec 64))
  | dup, x :: s => some (x :: x :: s)
  | drop, _ :: s => some s
  | pick i, s => s[i.toNat]?.map (· :: s)
  | «over», x :: y :: s => some (y :: x :: y :: s)
  | swap, x :: y :: s => some (y :: x :: s)
  | rot, x :: y :: z :: s => some (y :: z :: x :: s)
  | _, _ => none

def Operation.apply (E : Env) (func : Option Die) :
    Operation → List (BitVec 64) → Option (List (BitVec 64))
  | push p, s => some (p.value E func :: s)
  | move m, s => m.apply s

def machine (E : Env) (func : Option Die) :
    List Operation → List (BitVec 64) → Option (List (BitVec 64))
  | [], s => some s
  | op :: ops, s => (op.apply E func s).bind (machine E func ops)

def Push.bytes : Push → List Byte
  | lit n => [BitVec.ofNat 8 (0x30 + n)]
  | addr v => Opcode.addr.code :: leBytes 8 v.toNat
  | const1u v => [Opcode.const1u.code, v]
  | const1s v => [Opcode.const1s.code, v]
  | const2u v => Opcode.const2u.code :: leBytes 2 v.toNat
  | const2s v => Opcode.const2s.code :: leBytes 2 v.toNat
  | const4u v => Opcode.const4u.code :: leBytes 4 v.toNat
  | const4s v => Opcode.const4s.code :: leBytes 4 v.toNat
  | const8u v => Opcode.const8u.code :: leBytes 8 v.toNat
  | const8s v => Opcode.const8s.code :: leBytes 8 v.toNat
  | constu v => Opcode.constu.code :: v.bytes
  | consts v => Opcode.consts.code :: v.bytes
  | breg reg offset => BitVec.ofNat 8 (0x70 + reg) :: offset.bytes
  | bregx reg offset => Opcode.bregx.code :: (reg.bytes ++ offset.bytes)
  | fbreg offset => Opcode.fbreg.code :: offset.bytes

def Move.bytes : Move → List Byte
  | dup => [Opcode.dup.code]
  | drop => [Opcode.drop.code]
  | pick i => [Opcode.pick.code, i]
  | «over» => [Opcode.«over».code]
  | swap => [Opcode.swap.code]
  | rot => [Opcode.rot.code]

def Operation.bytes : Operation → List Byte
  | push p => p.bytes
  | move m => m.bytes

def exprBytes (ops : List Operation) : List Byte := (ops.map Operation.bytes).flatten

/-- `std::get<std::uint64_t>` of a register, by its DWARF number. -/
def Env.readU64 (E : Env) (reg : ℕ) : Except Failure (BitVec 64) :=
  (E.read (BitVec.ofNat 32 reg)).bind getU64

def Push.pushed (E : Env) (func : Option Die) : Push → Except Failure (BitVec 64)
  | addr v => .ok (E.toVirtAddr v)
  | consts v => .ok (slebRead v.toLeb)
  | breg reg offset => (E.readU64 reg).map (· + slebRead offset.toLeb)
  | bregx reg offset =>
    (E.readU64 reg.value).map (· + slebRead offset.toLeb)
  | fbreg offset => (E.frameBaseOf func).map (· + offset.unsigned)
  | p => .ok (p.value E func)

def State.moved (st : State) (stack : Option (List (BitVec 64))) : Except Failure State :=
  match stack with
  | none => .error .undefined
  | some stack => .ok { st with stack }

def Operation.evaluated (E : Env) (func : Option Die) (st : State) : Operation → Except Failure State
  | push p => (p.pushed E func).map st.push
  | move m => st.moved (m.apply st.stack)

variable {E : Env} {func : Option Die} {st : State}

theorem gives_switch {op : Opcode} {bs : List Byte} {x : Except Failure State}
    (h : Gives (evalSwitch E func st op.code) bs x) : Gives (evalTurn E func st) (op.code :: bs) x := by
  have hlit : ¬ (dwOpLit0 ≤ op.code ∧ op.code ≤ dwOpLit31) := by cases op <;> decide
  have hbreg : ¬ (dwOpBreg0 ≤ op.code ∧ op.code ≤ dwOpBreg31) := by cases op <;> decide
  have hreg : ¬ (dwOpReg0 ≤ op.code ∧ op.code ≤ dwOpReg31) := by cases op <;> decide
  refine gives_bind (reads_u8 op.code) ?_
  rw [if_neg hlit, if_neg hbreg, if_neg hreg]
  exact h

theorem gives_read {op : Opcode} {α : Type} {p : Reader α} {bs : List Byte} {a : α}
    {w : BitVec 64} (f : α → BitVec 64) (hread : Reads p bs a) (hvalue : f a = w)
    (hop : evalSwitch E func st op.code = (do
      let v ← p
      pure (st.push (f v)))) :
    Gives (evalTurn E func st) (op.code :: bs) (.ok (st.push w)) := by
  refine gives_switch ?_
  rw [hop, ← hvalue]
  exact (reads_map (fun v => st.push (f v)) hread).gives

theorem gives_register (reg : ℕ) (offset : Sleb) :
    Gives (do
      let regVal ← ofExcept (E.read (BitVec.ofNat 32 reg))
      let offset ← sleb128
      let v ← ofExcept (getU64 regVal)
      pure (st.push (v + offset)) : Reader State) offset.bytes
      (((E.readU64 reg).map (· + slebRead offset.toLeb)).map st.push) := by
  have hvalue : ((E.readU64 reg).map (· + slebRead offset.toLeb)).map st.push =
      (E.read (BitVec.ofNat 32 reg)).bind fun regVal => (getU64 regVal).bind fun v =>
        .ok (st.push (v + slebRead offset.toLeb)) := by
    unfold Env.readU64
    cases E.read (BitVec.ofNat 32 reg) with
    | error e => rfl
    | ok regVal =>
      change Except.map _ (Except.map _ (getU64 regVal)) = (getU64 regVal).bind _
      cases getU64 regVal <;> rfl
  rw [hvalue]
  refine gives_ofExcept_bind fun regVal => ?_
  rw [← List.append_nil offset.bytes]
  refine gives_bind (reads_sleb128 offset.toLeb) (gives_ofExcept_bind fun v => ?_)
  exact (reads_pure _).gives

theorem lit_code : ∀ n : Fin 32, dwOpLit0 ≤ BitVec.ofNat 8 (0x30 + n) ∧
    BitVec.ofNat 8 (0x30 + n) ≤ dwOpLit31 ∧
    (BitVec.ofNat 8 (0x30 + n) - dwOpLit0).setWidth 64 = BitVec.ofNat 64 n := by
  decide

theorem breg_code : ∀ n : Fin 32,
    ¬ (dwOpLit0 ≤ BitVec.ofNat 8 (0x70 + n) ∧ BitVec.ofNat 8 (0x70 + n) ≤ dwOpLit31) ∧
    dwOpBreg0 ≤ BitVec.ofNat 8 (0x70 + n) ∧ BitVec.ofNat 8 (0x70 + n) ≤ dwOpBreg31 ∧
    (BitVec.ofNat 8 (0x70 + n) - dwOpBreg0).setWidth 32 = BitVec.ofNat 32 n := by
  decide

theorem gives_push (p : Push) :
    Gives (evalTurn E func st) p.bytes ((p.pushed E func).map st.push) := by
  cases p with
  | lit n =>
    obtain ⟨hlow, hhigh, hvalue⟩ := lit_code n
    refine gives_bind (reads_u8 _) (?_ : Gives _ [] _)
    rw [if_pos ⟨hlow, hhigh⟩, hvalue]
    exact (reads_pure _).gives
  | addr v => exact gives_read E.toVirtAddr (reads_u64 v) rfl rfl
  | const1u v =>
    exact gives_read (fun v : BitVec 8 => v.setWidth 64) (reads_u8 v) (BitVec.ofNat_toNat 64 v).symm rfl
  | const1s v => exact gives_read (fun v : BitVec 8 => v.signExtend 64) (reads_u8 v) rfl rfl
  | const2u v =>
    exact gives_read (fun v : BitVec 16 => v.setWidth 64) (reads_u16 v) (BitVec.ofNat_toNat 64 v).symm rfl
  | const2s v => exact gives_read (fun v : BitVec 16 => v.signExtend 64) (reads_u16 v) rfl rfl
  | const4u v =>
    exact gives_read (fun v : BitVec 32 => v.setWidth 64) (reads_u32 v) (BitVec.ofNat_toNat 64 v).symm rfl
  | const4s v => exact gives_read (fun v : BitVec 32 => v.signExtend 64) (reads_u32 v) rfl rfl
  | const8u v =>
    have hvalue : v = BitVec.ofNat 64 v.toNat := by rw [BitVec.ofNat_toNat, BitVec.setWidth_eq]
    exact gives_read id (reads_u64 v) hvalue rfl
  | const8s v => exact gives_read id (reads_u64 v) BitVec.ofInt_toInt.symm rfl
  | constu v => exact gives_read id (reads_uleb128 v.toLeb) rfl rfl
  | consts v => exact gives_read id (reads_sleb128 v.toLeb) rfl rfl
  | breg reg offset =>
    obtain ⟨hlit, hlow, hhigh, hvalue⟩ := breg_code reg
    refine gives_bind (reads_u8 _) (?_ : Gives _ offset.bytes _)
    rw [if_neg hlit, if_pos ⟨hlow, hhigh⟩, hvalue]
    exact gives_register _ offset
  | bregx reg offset =>
    have hreg : reg.unsigned.setWidth 32 = BitVec.ofNat 32 reg.value := by
      rw [← reg.unsigned_toNat, BitVec.ofNat_toNat]
    refine gives_switch ?_
    refine gives_bind (reads_uleb128 reg.toLeb) ?_
    rw [hreg]
    exact gives_register reg.value offset
  | fbreg offset =>
    have hvalue : ((E.frameBaseOf func).map (· + offset.unsigned)).map st.push =
        (E.frameBaseOf func).bind fun base => .ok (st.push (base + offset.unsigned)) := by
      cases E.frameBaseOf func <;> rfl
    refine gives_switch ?_
    change Gives _ offset.bytes (((E.frameBaseOf func).map (· + offset.unsigned)).map st.push)
    rw [hvalue, ← List.append_nil offset.bytes]
    refine gives_bind (reads_uleb128 offset.toLeb) (gives_ofExcept_bind fun base => ?_)
    exact (reads_pure _).gives

theorem gives_rearrange (stack : Option (List (BitVec 64))) :
    Gives (rearrange st stack) [] (st.moved stack) := by
  cases stack with
  | none => exact fun c _ _ => ⟨c, rfl⟩
  | some stack => exact (reads_pure _).gives

theorem gives_bare {op : Opcode} {m : Move} {stack : Option (List (BitVec 64))}
    (hbytes : m.bytes = [op.code]) (hop : evalSwitch E func st op.code = rearrange st stack)
    (hstack : stack = m.apply st.stack) :
    Gives (evalTurn E func st) m.bytes (st.moved (m.apply st.stack)) := by
  rw [hbytes, ← hstack]
  refine gives_switch ?_
  rw [hop]
  exact gives_rearrange stack

theorem gives_move (m : Move) :
    Gives (evalTurn E func st) m.bytes (st.moved (m.apply st.stack)) := by
  cases m with
  | dup => exact gives_bare rfl rfl (by rcases st.stack with _ | ⟨x, s⟩ <;> rfl)
  | drop => exact gives_bare rfl rfl (by rcases st.stack with _ | ⟨x, s⟩ <;> rfl)
  | «over» => exact gives_bare rfl rfl (by rcases st.stack with _ | ⟨x, _ | ⟨y, s⟩⟩ <;> rfl)
  | swap => exact gives_bare rfl rfl (by rcases st.stack with _ | ⟨x, _ | ⟨y, s⟩⟩ <;> rfl)
  | rot => exact gives_bare rfl rfl (by rcases st.stack with _ | ⟨x, _ | ⟨y, _ | ⟨z, s⟩⟩⟩ <;> rfl)
  | pick i =>
    have hpick : State.pick i.toNat st.stack = Move.apply (.pick i) st.stack := by
      rcases st.stack with _ | ⟨x, s⟩ <;> rfl
    rw [← hpick]
    refine gives_switch ?_
    exact gives_bind (reads_u8 i) (gives_rearrange _)

theorem gives_operation (op : Operation) :
    Gives (evalTurn E func st) op.bytes (op.evaluated E func st) := by
  cases op with
  | push p => exact gives_push p
  | move m => exact gives_move m

def evaluatedAll (E : Env) (func : Option Die) : List Operation → State → Except Failure State
  | [], st => .ok st
  | op :: ops, st => (op.evaluated E func st).bind (evaluatedAll E func ops)

theorem operation_bytes_ne_nil (op : Operation) : op.bytes ≠ [] := by
  cases op with
  | push p => cases p <;> exact List.cons_ne_nil _ _
  | move m => cases m <;> exact List.cons_ne_nil _ _

/-- `n` turns of the loop evaluate the first `n` operations, and all of them in the end. -/
theorem evalTurns_ends (ops : List Operation) : ∀ {st : State} {c : Cursor},
    BytesAt c.image c.pos (exprBytes ops) → c.pos + (exprBytes ops).length = c.stop →
    ∀ n, EndsAs (evalTurns E func n st c) (evaluatedAll E func (ops.take n) st)
      (c.advance (exprBytes (ops.take n)).length) := by
  -- a turn for each operation, and one that finds nothing left
  induction ops with
  | nil =>
    intro st c hat hstop n
    rw [List.take_nil]
    cases n with
    | zero => exact rfl
    | succ n =>
      have hend : c.stop ≤ c.pos := hstop.ge
      have hfinished : finished c = .ok (decide (c.stop ≤ c.pos)) c := rfl
      rw [decide_eq_true hend] at hfinished
      rw [evalTurns, bind_ok hfinished]
      exact rfl
  | cons op ops ih =>
    intro st c hat hstop n
    cases n with
    | zero => exact rfl
    | succ n =>
      have hbytes : exprBytes (op :: ops) = op.bytes ++ exprBytes ops := rfl
      rw [hbytes] at hat hstop
      obtain ⟨hop, hrest⟩ := (bytesAt_append _ _ _ _).mp hat
      rw [List.length_append] at hstop
      have hne := List.length_pos_iff.mpr (operation_bytes_ne_nil op)
      have hfinished : finished c = .ok (decide (c.stop ≤ c.pos)) c := rfl
      rw [decide_eq_false (by omega)] at hfinished
      have hturns : evalTurns E func (n + 1) st c =
          (evalTurn E func st >>= evalTurns E func n) c := by
        rw [evalTurns, bind_ok hfinished]
        rfl
      have hturn : EndsAs (evalTurn E func st c) (op.evaluated E func st)
          (c.advance op.bytes.length) := gives_operation op c hop (by omega)
      have hstates : evaluatedAll E func ((op :: ops).take (n + 1)) st =
          (op.evaluated E func st).bind (evaluatedAll E func (ops.take n)) := rfl
      have htaken : (exprBytes ((op :: ops).take (n + 1))).length =
          op.bytes.length + (exprBytes (ops.take n)).length := List.length_append
      rw [hturns, hstates, htaken, ← Cursor.advance_advance]
      cases hevaluated : op.evaluated E func st with
      | error e =>
        rw [hevaluated] at hturn
        obtain ⟨c', hraises⟩ := hturn
        exact ⟨c', bind_error hraises⟩
      | ok st' =>
        rw [hevaluated] at hturn
        have hok : evalTurn E func st c = .ok st' (c.advance op.bytes.length) := hturn
        rw [bind_ok hok]
        exact ih hrest (by simpa [Nat.add_assoc] using hstop) n

/-- A register that `eval` reads as a 64-bit integer. -/
def Env.Readable (E : Env) (reg : ℕ) : Prop := ∃ v, E.readU64 reg = .ok v

/-- A signed operand that `sleb128` reads with its sign. -/
def Kept (v : Sleb) : Prop := 0 ≤ v.value ∨ v.bytes.length = 1 ∨ v.bytes.length = 10

/-- What an operation needs for the code to push the value of the machine. -/
def Operation.Meets (E : Env) (func : Option Die) : Operation → Prop
  | push (.addr v) => (E.elf.sectionContaining v).isSome = true ∨ v + E.elf.loadBias = 0#64
  | push (.consts v) => Kept v
  | push (.breg reg offset) => E.Readable reg ∧ Kept offset
  | push (.bregx reg offset) => E.Readable reg.value ∧ Kept offset
  | push (.fbreg offset) =>
    (∃ v, E.frameBaseOf func = .ok v) ∧ (0 ≤ offset.value ∨ offset.bytes.length = 10)
  | _ => True

theorem slebRead_eq_iff (v : Sleb) : slebRead v.toLeb = BitVec.ofInt 64 v.value ↔ Kept v :=
  slebRead_toLeb_iff v

theorem unsigned_eq_iff (v : Sleb) :
    v.unsigned = BitVec.ofInt 64 v.value ↔ 0 ≤ v.value ∨ v.bytes.length = 10 := by
  have h := unsigned_eq_signed_iff v.toLeb
  rw [v.signBit_eq_false_iff] at h
  rw [show BitVec.ofInt 64 v.value = v.toLeb.signed from rfl, h]
  exact or_comm

theorem map_add_eq_iff {e : Except Failure (BitVec 64)} {base a b : BitVec 64}
    (he : ∀ v, e = .ok v → v = base) :
    e.map (· + a) = .ok (base + b) ↔ (∃ v, e = .ok v) ∧ a = b := by
  cases e with
  | error e => exact iff_of_false nofun fun ⟨⟨_, h⟩, _⟩ => nomatch h
  | ok v =>
    obtain rfl := he v rfl
    simp [Except.map]

theorem getU64_eq_ok {x : Value} {v : BitVec 64} : getU64 x = .ok v ↔ x = .u64 v := by
  cases x <;> simp [getU64]

theorem read_u64 {regs : Registers} {info : RegisterInfo} {v : BitVec 64}
    (h : regs.read info = .ok (.u64 v)) : info.size = 8 ∧ v = regs.fromData 8 info.offset := by
  unfold Registers.read at h
  by_cases hmarked : regs.isUndefined info = true
  · rw [if_pos hmarked] at h
    cases h
  rw [if_neg hmarked] at h
  cases hformat : info.format with
  | uint =>
    simp only [hformat] at h
    split at h <;> simp only [Except.ok.injEq, Value.u64.injEq, reduceCtorEq] at h
    exact ⟨by assumption, h.symm⟩
  | doubleFloat | longDouble => simp [hformat] at h
  | vector =>
    simp only [hformat] at h
    split_ifs at h <;> simp only [Except.ok.injEq, reduceCtorEq] at h

theorem contents_of_readU64 {reg : ℕ} {v : BitVec 64} (h : E.readU64 reg = .ok v) :
    v = E.contents reg := by
  unfold Env.readU64 Env.read at h
  unfold Env.contents
  cases hinfo : registerInfoByDwarf (BitVec.ofNat 32 reg) with
  | error e =>
    rw [hinfo] at h
    cases h
  | ok info =>
    rw [hinfo] at h
    cases hread : E.regs.read info with
    | error e =>
      change (E.regs.read info).bind getU64 = _ at h
      rw [hread] at h
      cases h
    | ok x =>
      change (E.regs.read info).bind getU64 = _ at h
      rw [hread] at h
      obtain rfl := getU64_eq_ok.mp h
      obtain ⟨hsize, rfl⟩ := read_u64 hread
      dsimp only
      rw [hsize]
      rfl

theorem pushed_eq_iff (p : Push) :
    p.pushed E func = .ok (p.value E func) ↔ (Operation.push p).Meets E func := by
  cases p with
  | addr v =>
    refine (Except.ok.injEq _ _).to_iff.trans ?_
    unfold Env.toVirtAddr Push.value
    by_cases hsection : (E.elf.sectionContaining v).isSome = true
    · rw [if_pos hsection]
      exact iff_of_true rfl (.inl hsection)
    · rw [if_neg hsection]
      exact eq_comm.trans (or_iff_right hsection).symm
  | consts v => exact (Except.ok.injEq _ _).to_iff.trans (slebRead_eq_iff v)
  | breg reg offset =>
    exact (map_add_eq_iff fun v => contents_of_readU64).trans (and_congr Iff.rfl (slebRead_eq_iff offset))
  | bregx reg offset =>
    exact (map_add_eq_iff fun v => contents_of_readU64).trans (and_congr Iff.rfl (slebRead_eq_iff offset))
  | fbreg offset =>
    refine (map_add_eq_iff fun v hv => ?_).trans (and_congr Iff.rfl (unsigned_eq_iff offset))
    rw [Env.base, hv]
    rfl
  | _ => exact iff_of_true rfl trivial

theorem evaluated_of_meets {op : Operation} {s : List (BitVec 64)} (h : op.Meets E func)
    (hs : op.apply E func st.stack = some s) : op.evaluated E func st = .ok { st with stack := s } := by
  cases op with
  | push p =>
    have hpush : (p.pushed E func).map st.push = .ok (st.push (p.value E func)) := by
      rw [(pushed_eq_iff p).mpr h]
      rfl
    cases hs
    exact hpush
  | move m =>
    have hstack : m.apply st.stack = some s := hs
    rw [Operation.evaluated, hstack]
    rfl

theorem meets_of_evaluated {op : Operation} {st' : State} (h : op.evaluated E func st = .ok st')
    (hs : op.apply E func st.stack = some st'.stack) : op.Meets E func := by
  cases op with
  | push p =>
    rw [← pushed_eq_iff]
    rw [Operation.evaluated] at h
    cases hpushed : p.pushed E func with
    | error e =>
      rw [hpushed] at h
      cases h
    | ok v =>
      rw [hpushed] at h
      cases h
      have htop : p.value E func :: st.stack = v :: st.stack := Option.some.inj hs
      rw [(List.cons.inj htop).1]
  | move m => trivial

/-- After each turn of the loop the states are those of the machine. -/
def StatesFollow (E : Env) (func : Option Die) (ops : List Operation) (st : State) : Prop :=
  ∀ n, ∃ st', evaluatedAll E func (ops.take n) st = .ok st' ∧
    machine E func (ops.take n) st.stack = some st'.stack

theorem statesFollow_cons {op : Operation} {ops : List Operation} :
    StatesFollow E func (op :: ops) st ↔ ∃ st₁, op.evaluated E func st = .ok st₁ ∧
      op.apply E func st.stack = some st₁.stack ∧ StatesFollow E func ops st₁ := by
  have hstates (n : ℕ) : evaluatedAll E func ((op :: ops).take (n + 1)) st =
      (op.evaluated E func st).bind (evaluatedAll E func (ops.take n)) := rfl
  have hmachine (n : ℕ) : machine E func ((op :: ops).take (n + 1)) st.stack =
      (op.apply E func st.stack).bind (machine E func (ops.take n)) := rfl
  constructor
  · intro h
    obtain ⟨st₁, hall, hone⟩ := h 1
    rw [hstates] at hall
    rw [hmachine] at hone
    cases hop : op.evaluated E func st with
    | error e =>
      rw [hop] at hall
      cases hall
    | ok st₂ =>
      rw [hop] at hall
      cases hall
      cases hs : op.apply E func st.stack with
      | none =>
        rw [hs] at hone
        cases hone
      | some s =>
        rw [hs] at hone
        refine ⟨st₁, rfl, hone, fun n => ?_⟩
        have hnext := h (n + 1)
        rw [hstates, hmachine, hop, hs] at hnext
        cases hone
        exact hnext
  · rintro ⟨st₁, hop, hs, hrest⟩ n
    cases n with
    | zero => exact ⟨st, rfl, rfl⟩
    | succ n =>
      rw [hstates, hmachine, hop, hs]
      exact hrest n

theorem statesFollow_iff {ops : List Operation} (h : (machine E func ops st.stack).isSome = true) :
    StatesFollow E func ops st ↔ ∀ op ∈ ops, op.Meets E func := by
  induction ops generalizing st with
  | nil =>
    refine iff_of_true (fun n => ?_) (by simp)
    rw [List.take_nil]
    exact ⟨st, rfl, rfl⟩
  | cons op ops ih =>
    obtain ⟨s, hs, hrest⟩ : ∃ s, op.apply E func st.stack = some s ∧
        (machine E func ops s).isSome = true := by
      rw [machine] at h
      cases hop : op.apply E func st.stack with
      | none =>
        rw [hop] at h
        cases h
      | some s =>
        rw [hop] at h
        exact ⟨s, rfl, h⟩
    rw [statesFollow_cons, List.forall_mem_cons]
    constructor
    · rintro ⟨st₁, hop, hst₁, hfollow⟩
      cases hs.symm.trans hst₁
      exact ⟨meets_of_evaluated hop hst₁, (ih hrest).mp hfollow⟩
    · rintro ⟨hmeets, hall⟩
      exact ⟨{ st with stack := s }, evaluated_of_meets hmeets hs, hs, (ih hrest).mpr hall⟩

def Env.found (E : Env) : Option Die := E.function.toOption.getD none

/-- Wherever the bytes of the expression lie, after each turn and in the end the stack of `eval`
is that of the machine after as many operations. -/
def Follows (E : Env) (ops : List Operation) (stack : List (BitVec 64)) : Prop :=
  ∀ c : Cursor, BytesAt c.image c.pos (exprBytes ops) → c.pos + (exprBytes ops).length = c.stop →
    ∀ turns, ∃ st', eval E stack turns c = .ok st' (c.advance (exprBytes (ops.take turns)).length) ∧
      machine E E.found (ops.take turns) stack = some st'.stack

theorem exists_cursor (ops : List Operation) : ∃ c : Cursor,
    BytesAt c.image c.pos (exprBytes ops) ∧ c.pos + (exprBytes ops).length = c.stop :=
  ⟨⟨Image.ofList (exprBytes ops), 0, (exprBytes ops).length⟩, bytesAt_ofList fun i _ => by simp,
    Nat.zero_add _⟩

theorem eval_of_function (hfunc : E.function = .ok func) (stack : List (BitVec 64)) (turns : ℕ)
    (c : Cursor) : eval E stack turns c = evalTurns E func turns { stack } c := by
  unfold eval
  rw [hfunc, bind_ok (ofExcept_ok _ _)]

theorem follows_iff_states (hfunc : E.function = .ok func) {ops : List Operation}
    {stack : List (BitVec 64)} : Follows E ops stack ↔ StatesFollow E func ops { stack } := by
  have hsame : E.found = func := by
    rw [Env.found, hfunc]
    rfl
  unfold Follows
  simp only [eval_of_function hfunc, hsame]
  constructor
  · intro h n
    obtain ⟨c, hat, hstop⟩ := exists_cursor ops
    obtain ⟨st', hturns, hmachine⟩ := h c hat hstop n
    have hends : EndsAs (evalTurns E func n { stack } c) (evaluatedAll E func (ops.take n) { stack })
      (c.advance (exprBytes (ops.take n)).length) := evalTurns_ends ops hat hstop n
    rw [hturns] at hends
    cases hall : evaluatedAll E func (ops.take n) { stack } with
    | error e =>
      rw [hall] at hends
      obtain ⟨c', hraises⟩ := hends
      cases hraises
    | ok st₁ =>
      rw [hall] at hends
      cases hends
      exact ⟨st', rfl, hmachine⟩
  · intro h c hat hstop n
    obtain ⟨st', hall, hmachine⟩ := h n
    have hends : EndsAs (evalTurns E func n { stack } c) (evaluatedAll E func (ops.take n) { stack })
      (c.advance (exprBytes (ops.take n)).length) := evalTurns_ends ops hat hstop n
    rw [hall] at hends
    exact ⟨st', hends, hmachine⟩

/-- The stacks agree exactly when the function is looked up and each operation meets its
condition. -/
theorem follows_iff {ops : List Operation} {stack : List (BitVec 64)}
    (h : (machine E E.found ops stack).isSome = true) :
    Follows E ops stack ↔ (∃ func, E.function = .ok func) ∧ ∀ op ∈ ops, op.Meets E E.found := by
  cases hfunc : E.function with
  | error e =>
    refine iff_of_false (fun hfollows => ?_) fun hfound => ?_
    · obtain ⟨c, hat, hstop⟩ := exists_cursor ops
      obtain ⟨st', heval, -⟩ := hfollows c hat hstop 0
      unfold eval at heval
      rw [hfunc, bind_error (ofExcept_error _ _)] at heval
      cases heval
    · obtain ⟨⟨func, hok⟩, -⟩ := hfound
      cases hok
  | ok func =>
    have hsame : E.found = func := by
      rw [Env.found, hfunc]
      rfl
    rw [hsame] at h ⊢
    rw [follows_iff_states hfunc, statesFollow_iff h]
    exact (and_iff_right ⟨func, rfl⟩).symm

def framed : Env where
  self := 0
  elf := ⟨0#64, [], []⟩
  regs := { data := fun _ => 0#8, tid := 0 }
  inFrameInfo := false
  functionContaining _ := .ok (some { next := 0 })
  frameBase _ := .ok 4096#64

/-- `-16` in one byte. -/
def minusSixteen : Sleb := ⟨⟨[0x70#8], by decide, by decide⟩, by decide, by decide⟩

theorem follows_literals : Follows framed
    [.push (.lit 5), .push (.breg 7 minusSixteen), .move .swap, .move .«over»]
    (framed.initialStack true) := by
  refine (follows_iff (by decide +kernel)).mpr ⟨⟨_, rfl⟩, ?_⟩
  simp only [List.forall_mem_cons]
  exact ⟨trivial, ⟨⟨_, rfl⟩, .inr (.inl rfl)⟩, trivial, trivial, by simp⟩

/-- `DW_OP_fbreg -16` gives 4208 for a frame base of 4096. -/
theorem follows_not_for_all : ¬ ∀ (E : Env) (ops : List Operation) (stack : List (BitVec 64)),
    (machine E E.found ops stack).isSome = true → Follows E ops stack := by
  intro h
  have hat : BytesAt (Image.ofList [0x91#8, 0x70#8]) 0
      (exprBytes [.push (.fbreg minusSixteen)]) := bytesAt_ofList (by decide)
  obtain ⟨st', heval, hmachine⟩ := h framed [.push (.fbreg minusSixteen)]
    (framed.initialStack false) rfl ⟨Image.ofList [0x91#8, 0x70#8], 0, 2⟩ hat rfl 3
  have hpushed : outcome (eval framed (framed.initialStack false) 3)
      ⟨Image.ofList [0x91#8, 0x70#8], 0, 2⟩ = .ok { stack := [4208#64] } := by decide +kernel
  rw [outcome, heval] at hpushed
  cases hpushed
  exact absurd hmachine (by decide +kernel)

end KDebugger.Expression
