import KDebugger.Process.RegisterRoundTrips
import KDebugger.Process.UnwindEffects

namespace KDebugger.Process

open ByteStream Exec Dwarf Registers Words

/-- A DWARF number of a general-purpose register or of the return address. -/
def General (k : BitVec 32) : Prop := k ≤ 16#32

instance : DecidablePred General := fun k => inferInstanceAs (Decidable (k ≤ 16#32))

theorem general_places : ∀ i ∈ gRegisterInfos.filter fun i => 0 ≤ i.dwarfId ∧ i.dwarfId ≤ 16,
    i.size = 8 ∧ i.offset % 8 = 0 ∧ i.part.IsPlain ∧
      ∀ j ∈ gRegisterInfos.filter fun j => 0 ≤ j.dwarfId ∧ j.dwarfId ≤ 16,
        i.offset = j.offset → i.dwarfId = j.dwarfId := by
  decide +kernel

theorem General.mem {k : BitVec 32} {info : RegisterInfo} (hk : General k)
    (h : registerInfoByDwarf k = .ok info) :
    info ∈ gRegisterInfos.filter fun i => 0 ≤ i.dwarfId ∧ i.dwarfId ≤ 16 := by
  obtain ⟨hinfo, hid⟩ := registerInfoByDwarf_ok h
  refine List.mem_filter.mpr ⟨hinfo, decide_eq_true ?_⟩
  have hle : k.toNat ≤ 16 := BitVec.le_def.mp hk
  rw [hid, BitVec.toInt_eq_toNat_of_lt (by omega)]
  omega

theorem General.plain {k : BitVec 32} {info : RegisterInfo} (hk : General k)
    (h : registerInfoByDwarf k = .ok info) : info.part.IsPlain :=
  (general_places info (hk.mem h)).2.2.1

theorem General.place {k : BitVec 32} {info : RegisterInfo} (hk : General k)
    (h : registerInfoByDwarf k = .ok info) : info.size = 8 ∧
      ∀ {k' : BitVec 32} {info' : RegisterInfo}, General k' → registerInfoByDwarf k' = .ok info' →
        k ≠ k' → ∀ o, ¬ (info.Covers o ∧ info'.Covers o) := by
  obtain ⟨hsize, halign, -, hoffset⟩ := general_places info (hk.mem h)
  refine ⟨hsize, fun {k' info'} hk' h' hne o ⟨⟨hlo, hhi⟩, hlo', hhi'⟩ => ?_⟩
  obtain ⟨hsize', halign', -⟩ := general_places info' (hk'.mem h')
  have hsame := hoffset info' (hk'.mem h') (by omega)
  rw [(registerInfoByDwarf_ok h).2, (registerInfoByDwarf_ok h').2] at hsame
  exact hne (BitVec.eq_of_toInt_eq hsame)

/-- What `read_memory` finds in a memory. -/
def memoryBytes (memory : Memory) (address : VirtAddr) (n : ℕ) : Except Failure (List Byte) :=
  match memory.readv (remoteChunks n address n) with
  | none => .error (.raised "Could not read process memory!\n")
  | some bytes => .ok (bytes ++ List.replicate (n - bytes.length) 0#8)

/-- What a rule writes into its register, if anything. -/
def ruleValue (memory : Memory) (old : Registers) (cfa : BitVec 64) :
    CfiRule (BitVec 32) → Except Failure (Option Value)
  | .undefined | .sameValue => .ok none
  | .register reg => do
    let other ← registerInfoByDwarf reg
    let v ← old.read other
    pure (some v)
  | .offset n => do
    let bytes ← memoryBytes memory (cfa + n) 8
    pure (some (.u64 (fromBytes 8 bytes)))
  | .valOffset n => .ok (some (.u64 (cfa + n)))

def withRule (casts : FloatCasts) (info : RegisterInfo) (rule : CfiRule (BitVec 32))
    (v : Option Value) (unwound : Registers) : Registers :=
  if rule = .undefined then unwound.undefine info
  else v.elim unwound fun v => unwound.put info v.size (widen casts info v)

/-- The rule does not raise: there is the register, and the value fits into it. -/
structure Gives (s : Process) (old : Registers) (cfa : BitVec 64)
    (x : BitVec 32 × CfiRule (BitVec 32)) (info : RegisterInfo) (v : Option Value) : Prop where
  known : registerInfoByDwarf x.1 = .ok info
  value : ruleValue s.memory old cfa x.2 = .ok v
  fits : ∀ w, v = some w → w.size ≤ info.size

variable {s : Process} {old unwound unwound' : Registers} {cfa : BitVec 64}
  {x : BitVec 32 × CfiRule (BitVec 32)} {rules rules' : Ruleset}

theorem outcome_readMemory (address : VirtAddr) (n : ℕ) :
    outcome (readMemory address n) s = memoryBytes s.memory address n := by
  unfold outcome readMemory memoryBytes
  rw [bind_ok (get_eq _)]
  cases s.memory.readv (remoteChunks n address n) <;> rfl

theorem outcome_noteWrite (hstores : s.kernel.StoresPlain) {info : RegisterInfo}
    (hplain : info.part.IsPlain) (v : Value) (h : Handed) :
    outcome ((noting s).write unwound info v) h = unwound.store s.casts info v := by
  change outcome (noteWrite s unwound info v) h = _
  unfold noteWrite
  rw [outcome_ofExcept_bind]
  cases unwound.store s.casts info v with
  | error e => rfl
  | ok unwound =>
    change outcome (get >>= _) h = _
    unfold outcome
    rw [bind_ok (get_eq _), hstores _ hplain]
    rfl

theorem store_eq_ok_iff {casts : FloatCasts} {info : RegisterInfo} {v : Value} :
    unwound.store casts info v = .ok unwound' ↔
      v.size ≤ info.size ∧ unwound' = unwound.put info v.size (widen casts info v) := by
  unfold store
  split_ifs with hle
  · simp [hle, eq_comm]
  · simp [hle]

theorem gives_nothing {k : BitVec 32} {rule : CfiRule (BitVec 32)} {info : RegisterInfo}
    (hinfo : registerInfoByDwarf k = .ok info) (hvalue : ruleValue s.memory old cfa rule = .ok none) :
    (.ok (withRule s.casts info rule none unwound) : Except Failure Registers) = .ok unwound' ↔
      ∃ info v, Gives s old cfa (k, rule) info v ∧ unwound' = withRule s.casts info rule v unwound := by
  constructor
  · exact fun h => ⟨info, none, ⟨hinfo, hvalue, nofun⟩, (Except.ok.inj h).symm⟩
  · rintro ⟨info', v, hgives, rfl⟩
    obtain rfl : info = info' := Except.ok.inj (hinfo.symm.trans hgives.known)
    obtain rfl : none = v := Except.ok.inj (hvalue.symm.trans hgives.value)
    rfl

theorem gives_value {k : BitVec 32} {rule : CfiRule (BitVec 32)} {info : RegisterInfo}
    {e : Except Failure Value} (hinfo : registerInfoByDwarf k = .ok info)
    (hrule : rule ≠ .undefined) (hvalue : ruleValue s.memory old cfa rule = e.map some) :
    (e.bind fun v => unwound.store s.casts info v) = .ok unwound' ↔
      ∃ info v, Gives s old cfa (k, rule) info v ∧ unwound' = withRule s.casts info rule v unwound := by
  cases e with
  | error e =>
    refine iff_of_false nofun ?_
    rintro ⟨info', v, hgives, -⟩
    cases hvalue.symm.trans hgives.value
  | ok v =>
    refine store_eq_ok_iff.trans ⟨?_, ?_⟩
    · rintro ⟨hle, rfl⟩
      refine ⟨info, some v, ⟨hinfo, hvalue, fun w hw => Option.some.inj hw ▸ hle⟩, ?_⟩
      exact (if_neg hrule).symm
    · rintro ⟨info', v', hgives, rfl⟩
      obtain rfl : info = info' := Except.ok.inj (hinfo.symm.trans hgives.known)
      obtain rfl : some v = v' := Except.ok.inj (hvalue.symm.trans hgives.value)
      exact ⟨hgives.fits v rfl, if_neg hrule⟩

theorem unwindRule_ok_iff (hstores : s.kernel.StoresPlain) (hgeneral : General x.1) {h : Handed} :
    outcome (unwindRule (noting s) old cfa unwound x) h = .ok unwound' ↔
      ∃ info v, Gives s old cfa x info v ∧ unwound' = withRule s.casts info x.2 v unwound := by
  obtain ⟨k, rule⟩ := x
  unfold unwindRule
  rw [outcome_ofExcept_bind]
  cases hinfo : registerInfoByDwarf k with
  | error e =>
    refine iff_of_false nofun ?_
    rintro ⟨info, v, hgives, -⟩
    cases hinfo.symm.trans hgives.known
  | ok info =>
    have hwrite (v : Value) (h : Handed) :
        outcome ((noting s).write unwound info v) h = unwound.store s.casts info v :=
      outcome_noteWrite hstores (General.plain hgeneral hinfo) v h
    cases rule with
    | undefined =>
      have hvalue : ruleValue s.memory old cfa .undefined = .ok none := rfl
      exact gives_nothing hinfo hvalue
    | sameValue =>
      have hvalue : ruleValue s.memory old cfa .sameValue = .ok none := rfl
      exact gives_nothing hinfo hvalue
    | register reg =>
      have hrule : CfiRule.register reg ≠ .undefined := nofun
      have hvalue : ruleValue s.memory old cfa (.register reg) =
          ((registerInfoByDwarf reg).bind old.read).map some := by
        change (registerInfoByDwarf reg).bind _ = _
        cases registerInfoByDwarf reg with
        | error e => rfl
        | ok other =>
          change (old.read other).bind _ = (old.read other).map some
          cases old.read other <;> rfl
      refine (Eq.congr_left ?_).trans (gives_value hinfo hrule hvalue)
      refine (outcome_ofExcept_bind _ _ h).trans ?_
      cases registerInfoByDwarf reg with
      | error e => rfl
      | ok other =>
        refine (outcome_ofExcept_bind _ _ h).trans ?_
        change _ = (old.read other).bind fun v => unwound.store s.casts info v
        cases old.read other with
        | error e => rfl
        | ok v => exact hwrite v h
    | offset n =>
      have hrule : CfiRule.offset n ≠ (.undefined : CfiRule (BitVec 32)) := nofun
      have hvalue : ruleValue s.memory old cfa (.offset n) =
          ((memoryBytes s.memory (cfa + n) 8).map fun bytes => .u64 (fromBytes 8 bytes)).map
            some := by
        change (memoryBytes s.memory (cfa + n) 8).bind _ = _
        cases memoryBytes s.memory (cfa + n) 8 <;> rfl
      refine (Eq.congr_left ?_).trans (gives_value hinfo hrule hvalue)
      refine (outcome_ofExcept_bind _ _ h).trans ?_
      rw [outcome_readMemory]
      cases memoryBytes s.memory (cfa + n) 8 with
      | error e => rfl
      | ok bytes => exact hwrite _ h
    | valOffset n =>
      have hvalue : ruleValue s.memory old cfa (.valOffset n) =
          (Except.ok (.u64 (cfa + n)) : Except Failure Value).map some := rfl
      have hrule : CfiRule.valOffset n ≠ (.undefined : CfiRule (BitVec 32)) := nofun
      exact (Eq.congr_left (hwrite _ h)).trans (gives_value hinfo hrule hvalue)

/-- The rules in turn, none of which raises. -/
inductive Applies (s : Process) (old : Registers) (cfa : BitVec 64) :
    Ruleset → Registers → Registers → Prop where
  | nil (unwound : Registers) : Applies s old cfa [] unwound unwound
  | cons {x : BitVec 32 × CfiRule (BitVec 32)} {rules : Ruleset} {unwound unwound' : Registers}
      {info : RegisterInfo} {v : Option Value} (h : Gives s old cfa x info v)
      (rest : Applies s old cfa rules (withRule s.casts info x.2 v unwound) unwound') :
      Applies s old cfa (x :: rules) unwound unwound'

theorem unwindRules_ok_iff (hstores : s.kernel.StoresPlain) (hgeneral : ∀ x ∈ rules, General x.1)
    {h : Handed} : outcome (unwindRules (noting s) old cfa rules unwound) h = .ok unwound' ↔
      Applies s old cfa rules unwound unwound' := by
  -- by induction on the rules, in the order of the map
  induction rules generalizing unwound h with
  | nil =>
    constructor
    · intro heq
      cases Except.ok.inj heq
      exact .nil _
    · intro happlies
      cases happlies
      rfl
  | cons x rules ih =>
    obtain ⟨hx, hrules⟩ := List.forall_mem_cons.mp hgeneral
    have hrule_iff {unwound unwound' : Registers} {h : Handed} :
        outcome (unwindRule (noting s) old cfa unwound x) h = .ok unwound' ↔
          ∃ info v, Gives s old cfa x info v ∧ unwound' = withRule s.casts info x.2 v unwound :=
      unwindRule_ok_iff hstores hx
    rw [outcome_eq_ok_iff]
    constructor
    · rintro ⟨h', heq⟩
      obtain ⟨unwound₁, h₁, hrule, hrest⟩ := bind_eq_ok.mp heq
      obtain ⟨info, v, hgives, rfl⟩ := hrule_iff.mp (outcome_eq_ok_iff.mpr ⟨h₁, hrule⟩)
      exact .cons hgives ((ih hrules).mp (outcome_eq_ok_iff.mpr ⟨h', hrest⟩))
    · intro happlies
      cases happlies with
      | cons hgives hrest =>
        obtain ⟨h₁, hrule⟩ :=
          outcome_eq_ok_iff.mp ((hrule_iff (h := h)).mpr ⟨_, _, hgives, rfl⟩)
        obtain ⟨h', hlater⟩ := outcome_eq_ok_iff.mp ((ih hrules (h := h₁)).mpr hrest)
        exact ⟨h', bind_eq_ok.mpr ⟨_, h₁, hrule, hlater⟩⟩

theorem Applies.gives (h : Applies s old cfa rules unwound unwound') :
    ∀ x ∈ rules, ∃ info v, Gives s old cfa x info v := by
  induction h with
  | nil => simp
  | cons hgives rest ih => exact List.forall_mem_cons.mpr ⟨⟨_, _, hgives⟩, ih⟩

theorem exists_applies (h : ∀ x ∈ rules, ∃ info v, Gives s old cfa x info v) (unwound : Registers) :
    ∃ unwound', Applies s old cfa rules unwound unwound' := by
  induction rules generalizing unwound with
  | nil => exact ⟨unwound, .nil unwound⟩
  | cons x rules ih =>
    obtain ⟨⟨info, v, hgives⟩, hrest⟩ := List.forall_mem_cons.mp h
    obtain ⟨unwound', happlies⟩ := ih hrest (withRule s.casts info x.2 v unwound)
    exact ⟨unwound', .cons hgives happlies⟩

/-- Byte `i` of a register after its rule, where it was `kept` before. -/
def ruleByte (casts : FloatCasts) (info : RegisterInfo) (v : Option Value) (kept : Byte) (i : ℕ) :
    Byte :=
  v.elim kept fun v => if i < v.size then byteOf (widen casts info v) i else kept

theorem Gives.data {info : RegisterInfo} {v : Option Value} (h : Gives s old cfa x info v)
    (unwound : Registers) (i : ℕ) : (withRule s.casts info x.2 v unwound).data (info.offset + i) =
      ruleByte s.casts info v (unwound.data (info.offset + i)) i := by
  unfold withRule ruleByte
  by_cases hrule : x.2 = .undefined
  · have hnone : v = none := by
      have hvalue := h.value
      rw [hrule] at hvalue
      exact (Except.ok.inj hvalue).symm
    rw [if_pos hrule, hnone]
    rfl
  · rw [if_neg hrule]
    cases v with
    | none => rfl
    | some v => exact put_data unwound info v.size _ i

theorem Gives.data_elsewhere {info : RegisterInfo} {v : Option Value}
    (h : Gives s old cfa x info v) (unwound : Registers) {o : ℕ} (ho : ¬ info.Covers o) :
    (withRule s.casts info x.2 v unwound).data o = unwound.data o := by
  unfold withRule
  split_ifs
  · rfl
  · cases v with
    | none => rfl
    | some v => exact unwound.put_data_of_not_covers _ (h.fits v rfl) ho

theorem Applies.data_elsewhere (h : Applies s old cfa rules unwound unwound') {o : ℕ}
    (ho : ∀ x ∈ rules, ∀ info, registerInfoByDwarf x.1 = .ok info → ¬ info.Covers o) :
    unwound'.data o = unwound.data o := by
  induction h with
  | nil => rfl
  | cons hgives rest ih =>
    obtain ⟨hx, hrules⟩ := List.forall_mem_cons.mp ho
    exact (ih hrules).trans (hgives.data_elsewhere _ (hx _ hgives.known))

theorem Applies.data (h : Applies s old cfa rules unwound unwound')
    (hkeys : (rules.map Prod.fst).Nodup) (hgeneral : ∀ x ∈ rules, General x.1) :
    ∀ x ∈ rules, ∀ info v, Gives s old cfa x info v → ∀ i < 8,
      unwound'.data (info.offset + i) =
        ruleByte s.casts info v (unwound.data (info.offset + i)) i := by
  induction h with
  | nil => simp
  | @cons x rules unwound unwound' info v hgives rest ih =>
    obtain ⟨hx, hrules⟩ := List.forall_mem_cons.mp hgeneral
    obtain ⟨hfresh, hkeys⟩ := List.nodup_cons.mp hkeys
    have hplace := hx.place hgives.known
    have hcovers {i : ℕ} (hi : i < 8) {info : RegisterInfo} (hsize : info.size = 8) :
        info.Covers (info.offset + i) := ⟨Nat.le_add_right _ _, by omega⟩
    refine List.forall_mem_cons.mpr ⟨fun info' v' hgives' i hi => ?_, fun y hy info' v' hy' i hi => ?_⟩
    · obtain rfl : info = info' := Except.ok.inj (hgives.known.symm.trans hgives'.known)
      obtain rfl : v = v' := Except.ok.inj (hgives.value.symm.trans hgives'.value)
      -- no later rule reaches the register
      have hlater := rest.data_elsewhere fun y hy info' hinfo' hcover =>
        hplace.2 (hrules y hy) hinfo' (fun heq => hfresh (heq ▸ List.mem_map_of_mem hy)) _
          ⟨hcovers hi hplace.1, hcover⟩
      exact hlater.trans (hgives.data _ i)
    · have hsize := ((hrules y hy).place hy'.known).1
      have hearlier : ¬ info.Covers (info'.offset + i) := fun hcover =>
        hplace.2 (hrules y hy) hy'.known (fun heq => hfresh (heq ▸ List.mem_map_of_mem hy)) _
          ⟨hcover, hcovers hi hsize⟩
      rw [ih hkeys hrules y hy info' v' hy' i hi, hgives.data_elsewhere _ hearlier]

theorem Applies.undefined (h : Applies s old cfa rules unwound unwound') (n : ℕ) :
    n ∈ unwound'.undefined ↔ n ∈ unwound.undefined ∨ ∃ x ∈ rules, x.2 = .undefined ∧
      ∃ info, registerInfoByDwarf x.1 = .ok info ∧ n = info.offset / 2 := by
  induction h with
  | nil => simp
  | @cons x rules unwound unwound' info v hgives rest ih =>
    have hstep : n ∈ (withRule s.casts info x.2 v unwound).undefined ↔
        n ∈ unwound.undefined ∨ x.2 = .undefined ∧ n = info.offset / 2 := by
      unfold withRule
      split_ifs with hrule
      · simp [Registers.undefine, hrule]
      · cases v <;> simp [hrule]
    have hown : (∃ info', registerInfoByDwarf x.1 = .ok info' ∧ n = info'.offset / 2) ↔
        n = info.offset / 2 := by simp [hgives.known]
    rw [ih, hstep, List.exists_mem_cons_iff, hown, or_assoc]

theorem withRule_cfa (casts : FloatCasts) (info : RegisterInfo) (rule : CfiRule (BitVec 32))
    (v : Option Value) : (withRule casts info rule v unwound).cfa = unwound.cfa ∧
      (withRule casts info rule v unwound).tid = unwound.tid := by
  unfold withRule
  split_ifs
  · exact ⟨rfl, rfl⟩
  · cases v <;> exact ⟨rfl, rfl⟩

theorem Applies.same (h : Applies s old cfa rules unwound unwound') :
    unwound'.cfa = unwound.cfa ∧ unwound'.tid = unwound.tid := by
  induction h with
  | nil => exact ⟨rfl, rfl⟩
  | cons hgives rest ih =>
    obtain ⟨hcfa, htid⟩ := withRule_cfa s.casts _ _ _
    exact ⟨ih.1.trans hcfa, ih.2.trans htid⟩

/-- Byte `i` of a register after unwinding.  The register starts out as it was, `rsp` as the
CFA, and only the rule of the register itself counts. -/
def unwoundByte (casts : FloatCasts) (memory : Memory) (old : Registers) (cfa : BitVec 64)
    (info : RegisterInfo) (rule : Option (CfiRule (BitVec 32))) (i : ℕ) : Byte :=
  let kept := if info.id = .gpr64 .rsp then byteOf cfa i else old.data (info.offset + i)
  match rule.map (ruleValue memory old cfa) with
  | some (.ok v) => ruleByte casts info v kept i
  | _ => kept

/-- The registers of the caller: each from the old registers, the CFA, memory and its own
rule. -/
structure Unwinds (casts : FloatCasts) (memory : Memory) (old : Registers) (cfa : BitVec 64)
    (rules : Ruleset) (unwound : Registers) : Prop where
  value : ∀ k info, General k → registerInfoByDwarf k = .ok info → ∀ i < 8,
    unwound.data (info.offset + i) = unwoundByte casts memory old cfa info (rules.find k) i
  elsewhere : ∀ o, (∀ k info, General k → registerInfoByDwarf k = .ok info → ¬ info.Covers o) →
    unwound.data o = old.data o
  undefined : ∀ n, n ∈ unwound.undefined ↔ n ∈ old.undefined ∨ ∃ k info,
    rules.find k = some .undefined ∧ registerInfoByDwarf k = .ok info ∧ n = info.offset / 2
  cfa : unwound.cfa = old.cfa
  tid : unwound.tid = old.tid

/-- The same bytes, marks and CFA. -/
structure SameFile (r r' : Registers) : Prop where
  data : r.data = r'.data
  undefined : ∀ info, r.isUndefined info = r'.isUndefined info
  cfa : r.cfa = r'.cfa
  tid : r.tid = r'.tid

theorem find_eq_some_iff (hkeys : (rules.map Prod.fst).Nodup) {k : BitVec 32}
    {rule : CfiRule (BitVec 32)} : rules.find k = some rule ↔ (k, rule) ∈ rules := by
  induction rules with
  | nil => exact iff_of_false nofun List.not_mem_nil
  | cons x rules ih =>
    obtain ⟨hfresh, hkeys⟩ := List.nodup_cons.mp hkeys
    rw [List.mem_cons]
    by_cases hk : x.1 = k
    · subst hk
      have hnot : (x.1, rule) ∉ rules := fun hmem => hfresh (List.mem_map.mpr ⟨_, hmem, rfl⟩)
      have hfind : Ruleset.find (x :: rules) x.1 = some x.2 := by simp [Ruleset.find]
      rw [hfind, or_iff_left hnot, Option.some.injEq, Prod.ext_iff]
      simp [eq_comm]
    · have hfind : Ruleset.find (x :: rules) k = Ruleset.find rules k := by simp [Ruleset.find, hk]
      have hne : (k, rule) ≠ x := fun heq => hk (congrArg Prod.fst heq).symm
      rw [hfind, ih hkeys, or_iff_right hne]

theorem find_perm (hperm : rules.Perm rules') (hkeys : (rules.map Prod.fst).Nodup)
    (k : BitVec 32) : rules.find k = rules'.find k := by
  have hkeys' : (rules'.map Prod.fst).Nodup := (hperm.map Prod.fst).nodup_iff.mp hkeys
  refine Option.ext fun rule => ?_
  rw [find_eq_some_iff hkeys, find_eq_some_iff hkeys', hperm.mem_iff]

def withCfaInRsp (s : Process) (old : Registers) (cfa : BitVec 64) : Registers :=
  old.put (defineGpr64 .rsp 7) 8 (widen s.casts (defineGpr64 .rsp 7) (.u64 cfa))

theorem eq_rsp : ∀ i ∈ gRegisterInfos, i.id = .gpr64 .rsp → i = defineGpr64 .rsp 7 := by
  decide +kernel

theorem registerInfoByDwarf_rsp : registerInfoByDwarf 7#32 = .ok (defineGpr64 .rsp 7) := by
  decide +kernel

theorem withCfaInRsp_data {k : BitVec 32} {info : RegisterInfo} (hk : General k)
    (h : registerInfoByDwarf k = .ok info) {i : ℕ} (hi : i < 8) :
    (withCfaInRsp s old cfa).data (info.offset + i) =
      if info.id = .gpr64 .rsp then byteOf cfa i else old.data (info.offset + i) := by
  by_cases hid : info.id = .gpr64 .rsp
  · rw [if_pos hid, eq_rsp info (registerInfoByDwarf_ok h).1 hid, withCfaInRsp, put_data, if_pos hi]
    exact byteOf_widened (by decide) cfa i
  · rw [if_neg hid]
    obtain ⟨hsize, hother⟩ := hk.place h
    have hne : k ≠ 7#32 := by
      rintro rfl
      rw [registerInfoByDwarf_rsp] at h
      cases h
      exact hid rfl
    have hcover : info.Covers (info.offset + i) := ⟨Nat.le_add_right _ _, by omega⟩
    refine old.put_data_of_not_covers _ (Nat.le_refl 8) fun hrsp => ?_
    exact hother (show General 7#32 by decide) registerInfoByDwarf_rsp hne _ ⟨hcover, hrsp⟩

theorem Applies.unwinds (h : Applies s { old with cfa } cfa rules (withCfaInRsp s old cfa) unwound)
    (hkeys : (rules.map Prod.fst).Nodup) (hgeneral : ∀ x ∈ rules, General x.1) :
    Unwinds s.casts s.memory old cfa rules unwound where
  value k info hk hinfo i hi := by
    unfold unwoundByte
    dsimp only
    rw [← withCfaInRsp_data (s := s) hk hinfo hi]
    cases hfind : rules.find k with
    | none =>
      have hcover : info.Covers (info.offset + i) :=
        ⟨Nat.le_add_right _ _, by have := (hk.place hinfo).1; omega⟩
      refine h.data_elsewhere fun x hx info' hinfo' hcover' => ?_
      refine (hk.place hinfo).2 (hgeneral x hx) hinfo' ?_ _ ⟨hcover, hcover'⟩
      rintro rfl
      rw [(find_eq_some_iff hkeys).mpr hx] at hfind
      cases hfind
    | some rule =>
      have hmem := (find_eq_some_iff hkeys).mp hfind
      obtain ⟨info', v, hgives⟩ := h.gives _ hmem
      obtain rfl : info = info' := Except.ok.inj (hinfo.symm.trans hgives.known)
      have hvalue : ruleValue s.memory old cfa rule = .ok v := hgives.value
      rw [Option.map_some, hvalue]
      exact h.data hkeys hgeneral _ hmem info v hgives i hi
  elsewhere o ho := by
    rw [h.data_elsewhere fun x hx info => ho x.1 info (hgeneral x hx)]
    exact old.put_data_of_not_covers _ (Nat.le_refl 8)
      (ho 7#32 _ (show General 7#32 by decide) registerInfoByDwarf_rsp)
  undefined n := by
    rw [h.undefined n]
    refine or_congr Iff.rfl ?_
    constructor
    · rintro ⟨⟨k, rule⟩, hx, rfl, info, hinfo⟩
      exact ⟨k, info, (find_eq_some_iff hkeys).mpr hx, hinfo⟩
    · rintro ⟨k, info, hfind, hinfo⟩
      exact ⟨_, (find_eq_some_iff hkeys).mp hfind, rfl, info, hinfo⟩
  cfa := h.same.1
  tid := h.same.2

theorem Unwinds.sameFile (hfind : ∀ k, rules.find k = rules'.find k)
    (h : Unwinds s.casts s.memory old cfa rules unwound) (h' : Unwinds s.casts s.memory old cfa rules' unwound') :
    SameFile unwound unwound' where
  data := by
    funext o
    by_cases ho : ∀ k info, General k → registerInfoByDwarf k = .ok info → ¬ info.Covers o
    · rw [h.elsewhere o ho, h'.elsewhere o ho]
    · push Not at ho
      obtain ⟨k, info, hk, hinfo, hlo, hhi⟩ := ho
      have hsize := (hk.place hinfo).1
      have heq := (h.value k info hk hinfo (o - info.offset) (by omega)).trans
        ((hfind k ▸ (h'.value k info hk hinfo (o - info.offset) (by omega))).symm)
      rwa [Nat.add_sub_cancel' hlo] at heq
  undefined info := by
    rw [isUndefined, isUndefined, Bool.eq_iff_iff, List.contains_iff_mem, List.contains_iff_mem,
      h.undefined, h'.undefined]
    simp only [hfind]
  cfa := h.cfa.trans h'.cfa.symm
  tid := h.tid.trans h'.tid.symm

theorem storesPlain_of_noteWrite {info : RegisterInfo} (hplain : info.part.IsPlain) {v : Value}
    {h : Handed} (hok : outcome ((noting s).write old info v) h = .ok unwound) :
    s.kernel.StoresPlain := by
  refine s.kernel.storesPlain_or.resolve_right fun hrefuses => ?_
  change outcome (noteWrite s old info v) h = _ at hok
  unfold noteWrite at hok
  rw [outcome_ofExcept_bind] at hok
  cases hstore : old.store s.casts info v with
  | error e =>
    rw [hstore] at hok
    cases hok
  | ok regs =>
    rw [hstore] at hok
    change outcome (get >>= _) h = _ at hok
    unfold outcome at hok
    rw [bind_ok (get_eq _), hrefuses _ hplain] at hok
    cases hok

theorem rsp_plain : (defineGpr64 .rsp 7).part.IsPlain := by decide

/-- Unwinding writes `rsp` before anything else. -/
theorem storesPlain_of_executeUnwindRules {ctx : UnwindContext} {regs : Registers × Registers}
    (h : outcome (executeUnwindRules inferior ctx old) s = .ok regs) : s.kernel.StoresPlain := by
  have hstart : s = s.handing fun _ => none := (setUser_self _).symm
  obtain ⟨hnotes, -⟩ := (inferior_agrees s).executeUnwindRules ctx old s (fun _ => none) hstart
  rw [hnotes, outcome_eq_ok_iff] at h
  obtain ⟨h', heq⟩ := h
  obtain ⟨info, h₁, -, hrest⟩ := bind_eq_ok.mp heq
  obtain ⟨base, h₂, -, hrest⟩ := bind_eq_ok.mp hrest
  obtain ⟨rsp, h₃, hrsp, hrest⟩ := bind_eq_ok.mp hrest
  obtain ⟨unwound, h₄, hwrite, -⟩ := bind_eq_ok.mp hrest
  rw [registerInfoById_rsp] at hrsp
  cases hrsp
  exact storesPlain_of_noteWrite rsp_plain (outcome_eq_ok_iff.mpr ⟨_, hwrite⟩)

/-- The outcome of `execute_unwind_rules`: the CFA, and the rules in turn. -/
theorem executeUnwindRules_ok_iff {ctx : UnwindContext} {left : Registers}
    (hstores : s.kernel.StoresPlain) (hgeneral : ∀ x ∈ ctx.registerRules, General x.1) :
    outcome (executeUnwindRules inferior ctx old) s = .ok (left, unwound) ↔
      ∃ info base, registerInfoByDwarf ctx.cfaRule.reg = .ok info ∧ old.readU64 info = .ok base ∧
        left = { old with cfa := base + ctx.cfaRule.offset } ∧
        Applies s left left.cfa ctx.registerRules (withCfaInRsp s old left.cfa) unwound := by
  have hstart : s = s.handing fun _ => none := (setUser_self _).symm
  obtain ⟨hnotes, -⟩ := (inferior_agrees s).executeUnwindRules ctx old s (fun _ => none) hstart
  rw [hnotes]
  unfold executeUnwindRules
  rw [outcome_ofExcept_bind]
  cases hinfo : registerInfoByDwarf ctx.cfaRule.reg with
  | error e =>
    constructor
    · intro h
      cases h
    · rintro ⟨info', base, hinfo', -⟩
      cases hinfo'
  | ok info =>
    refine (Eq.congr_left (outcome_ofExcept_bind _ _ _)).trans ?_
    cases hbase : old.readU64 info with
    | error e =>
      constructor
      · intro h
        cases h
      rintro ⟨info', base, hinfo', hbase', -⟩
      cases hinfo'
      cases hbase.symm.trans hbase'
    | ok base =>
      have hrsp : ∀ h : Handed, (ofExcept (registerInfoById (.gpr64 .rsp)) :
          EStateM Failure Handed RegisterInfo) h = .ok (defineGpr64 .rsp 7) h := by
        rw [registerInfoById_rsp]
        exact fun h => ofExcept_ok _ h
      have hstored : ∀ v : BitVec 64, old.store s.casts (defineGpr64 .rsp 7) (.u64 v) =
          .ok (withCfaInRsp s old v) := fun v => store_of_le (Nat.le_refl 8)
      obtain ⟨notes, hwrite⟩ := outcome_eq_ok_iff.mp
        ((outcome_noteWrite hstores rsp_plain _ fun _ => none).trans
          (hstored (base + ctx.cfaRule.offset)))
      refine (Eq.congr_left ((outcome_bind_ok (hrsp _)).trans (outcome_bind_ok hwrite))).trans ?_
      constructor
      · intro heq
        obtain ⟨h', heq⟩ := outcome_eq_ok_iff.mp heq
        obtain ⟨unwound', h₁, hrules, hpure⟩ := bind_eq_ok.mp heq
        cases hpure
        exact ⟨info, base, rfl, hbase, rfl,
          (unwindRules_ok_iff hstores hgeneral).mp (outcome_eq_ok_iff.mpr ⟨_, hrules⟩)⟩
      · rintro ⟨info', base', hinfo', hbase', rfl, happlies⟩
        cases hinfo'
        cases hbase.symm.trans hbase'
        obtain ⟨h', hrules⟩ := outcome_eq_ok_iff.mp ((unwindRules_ok_iff hstores hgeneral).mpr happlies)
        exact outcome_bind_ok hrules

/-- The registers that `execute_unwind_rules` returns are each computed from the old ones, the
CFA, memory and one rule, so no order of the rules gives others. -/
theorem executeUnwindRules_order {ctx : UnwindContext} {left : Registers} {s' : Process}
    (hkeys : (ctx.registerRules.map Prod.fst).Nodup)
    (hgeneral : ∀ x ∈ ctx.registerRules, General x.1)
    (h : executeUnwindRules inferior ctx old s = .ok (left, unwound) s')
    (hperm : ctx.registerRules.Perm rules') :
    Unwinds s.casts s.memory old left.cfa ctx.registerRules unwound ∧
    ∃ unwound' s'', executeUnwindRules inferior { ctx with registerRules := rules' } old s =
      .ok (left, unwound') s'' ∧ SameFile unwound unwound' := by
  have hreturned := outcome_eq_ok_iff.mpr ⟨s', h⟩
  have hstores := storesPlain_of_executeUnwindRules hreturned
  obtain ⟨info, base, hinfo, hbase, rfl, happlies⟩ :=
    (executeUnwindRules_ok_iff hstores hgeneral).mp hreturned
  have hkeys' : (rules'.map Prod.fst).Nodup := (hperm.map Prod.fst).nodup_iff.mp hkeys
  have hgeneral' : ∀ x ∈ rules', General x.1 := fun x hx => hgeneral x (hperm.mem_iff.mpr hx)
  obtain ⟨unwound', happlies'⟩ := exists_applies
    (fun x hx => happlies.gives x (hperm.mem_iff.mpr hx)) (withCfaInRsp s old (base + ctx.cfaRule.offset))
  have hreturns : outcome (executeUnwindRules inferior { ctx with registerRules := rules' } old) s =
      .ok ({ old with cfa := base + ctx.cfaRule.offset }, unwound') :=
    (executeUnwindRules_ok_iff hstores hgeneral').mpr ⟨info, base, hinfo, hbase, rfl, happlies'⟩
  obtain ⟨s'', h'⟩ := outcome_eq_ok_iff.mp hreturns
  have hunwinds := happlies.unwinds hkeys hgeneral
  exact ⟨hunwinds, unwound', s'', h',
    hunwinds.sameFile (find_perm hperm hkeys) (happlies'.unwinds hkeys' hgeneral')⟩

/-- `rax` from `rdx` and `rdx` from `rax`. -/
def exchange : UnwindContext where
  cfaRule := ⟨7#32, 16#64⟩
  registerRules := [(0#32, .register 1#32), (1#32, .register 0#32)]

def numbered : Registers := { data := fun o => BitVec.ofNat 8 o, tid := 0 }

theorem exchange_order : ∃ left unwound,
    Unwinds untouched.casts untouched.memory numbered left.cfa exchange.registerRules unwound ∧
    ∃ unwound' s'', executeUnwindRules inferior
      { exchange with registerRules := exchange.registerRules.reverse } numbered untouched =
        .ok (left, unwound') s'' ∧ SameFile unwound unwound' := by
  obtain ⟨left, unwound, s', h⟩ : ∃ left unwound s',
      executeUnwindRules inferior exchange numbered untouched = .ok (left, unwound) s' :=
    ⟨_, _, _, rfl⟩
  exact ⟨left, unwound, executeUnwindRules_order (by decide) (by decide) h
    (List.reverse_perm _).symm⟩

end KDebugger.Process
