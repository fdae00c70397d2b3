import KDebugger.Chains
import KDebugger.Dwarf.CallFrameEnds
import KDebugger.Process.FrameTurns
import KDebugger.Process.UnwindEffects
import Mathlib.Data.Finite.Prod

namespace KDebugger

open Exec

namespace Registers

/-- The same bytes of a `struct user`, and the same registers undefined. -/
def Alike (r r' : Registers) : Prop :=
  (∀ o < userSize, r.data o = r'.data o) ∧ ∀ i < userSize, i ∈ r.undefined ↔ i ∈ r'.undefined

/-- A relation between register files that reads cannot tell apart, and writes keep. -/
structure Respected (V : Registers → Registers → Prop) : Prop where
  read : ∀ {r r'}, V r r' → ∀ info ∈ gRegisterInfos, r.read info = r'.read info
  put : ∀ {r r'}, V r r' → ∀ (info : RegisterInfo) (size : ℕ) (wide : BitVec 128),
    V (r.put info size wide) (r'.put info size wide)
  undefine : ∀ {r r'}, V r r' → ∀ info : RegisterInfo, V (r.undefine info) (r'.undefine info)
  cfa : ∀ {r r'}, V r r' → ∀ cfa : VirtAddr, V { r with cfa } { r' with cfa }
  given : ∀ {r r'}, V r r' → ∀ info : RegisterInfo, info.Placed →
    info.part.given r.data = info.part.given r'.data

theorem respected_eq : Respected (· = ·) where
  read h _ _ := by rw [h]
  put h _ _ _ := by rw [h]
  undefine h _ := by rw [h]
  cfa h _ := by rw [h]
  given h _ _ := by rw [h]

/-- What is handed over with a register lies inside a `struct user`. -/
theorem part_inside {info : RegisterInfo} (h : info.Placed) {o : ℕ} (ho : info.part.Covers o) :
    o < userSize := by
  unfold RegisterInfo.Placed at h
  unfold RegisterInfo.part at ho
  split_ifs at h ho
  · obtain ⟨-, hhi⟩ := ho
    unfold i387Offset i387Size at hhi
    unfold userSize
    omega
  · obtain ⟨-, hhi⟩ := ho
    exact hhi.trans_le h.2

/-- What is read of a register lies inside a `struct user`. -/
theorem read_inside {info : RegisterInfo} (h : info ∈ gRegisterInfos) :
    info.offset + info.size ≤ userSize ∧ (info.format = .doubleFloat → 8 ≤ info.size) ∧
      (info.format = .longDouble → 16 ≤ info.size) ∧
      (info.format = .vector → info.size = 8 ∨ 16 ≤ info.size) := by
  revert info
  decide +kernel

theorem fromData_congr {r r' : Registers} {n offset : ℕ}
    (h : ∀ o < userSize, r.data o = r'.data o) (hn : offset + n ≤ userSize) :
    r.fromData n offset = r'.fromData n offset := by
  unfold fromData
  congr 1
  apply List.map_congr_left
  intro i hi
  have := List.mem_range.mp hi
  exact h _ (by omega)

theorem alike_read {r r' : Registers} (h : Alike r r') {info : RegisterInfo}
    (hinfo : info ∈ gRegisterInfos) : r.read info = r'.read info := by
  obtain ⟨hdata, hundefined⟩ := h
  obtain ⟨hlast, hdouble, hlong, hvector⟩ := read_inside hinfo
  have hmem : r.isUndefined info = r'.isUndefined info := by
    unfold isUndefined
    rw [Bool.eq_iff_iff, List.contains_iff_mem, List.contains_iff_mem]
    have huser : userSize = 912 := rfl
    exact hundefined _ (by omega)
  have hbytes {n : ℕ} (hn : n ≤ info.size) : r.fromData n info.offset = r'.fromData n info.offset :=
    fromData_congr hdata (by omega)
  unfold read
  rw [hmem]
  refine if_congr .rfl rfl ?_
  cases hformat : info.format with
  | uint =>
    dsimp only
    split
    · rw [hbytes (by omega)]
    · rw [hbytes (by omega)]
    · rw [hbytes (by omega)]
    · rw [hbytes (by omega)]
    · rfl
  | doubleFloat =>
    dsimp only
    rw [hbytes (hdouble hformat)]
  | longDouble =>
    dsimp only
    rw [hbytes (hlong hformat)]
  | vector =>
    dsimp only
    have hsize := hvector hformat
    split_ifs with height
    · rw [hbytes (by omega)]
    · rw [hbytes (hsize.resolve_left height)]

theorem respected_alike : Respected Alike where
  read h _ hinfo := alike_read h hinfo
  put h info size wide := by
    refine ⟨fun o ho => ?_, h.2⟩
    change (if _ then _ else _) = if _ then _ else _
    rw [h.1 o ho]
  undefine h info := by
    refine ⟨h.1, fun i hi => ?_⟩
    change i ∈ _ ++ _ ↔ i ∈ _ ++ _
    rw [List.mem_append, List.mem_append, h.2 i hi]
  cfa h _ := h
  given h _ hplaced := UserPart.given_congr fun o ho => h.1 o (part_inside hplaced ho)

theorem not_debug_of_dwarf {n : BitVec 32} {info : RegisterInfo}
    (h : registerInfoByDwarf n = .ok info) : ¬ info.part.IsDebug := by
  have hnone : ∀ i ∈ gRegisterInfos, i.part.IsDebug → i.dwarfId = -1 := by decide +kernel
  have hfirst : registerInfoBy (fun i => i.dwarfId == -1) = .ok (defineGpr64 .origRax (-1)) := by
    decide +kernel
  obtain ⟨hmem, hdwarf⟩ := registerInfoByDwarf_ok h
  intro hdebug
  rw [hnone info hmem hdebug] at hdwarf
  unfold registerInfoByDwarf at h
  rw [← hdwarf, hfirst] at h
  cases h
  exact absurd hdebug (by decide)

end Registers

namespace Process

open ByteStream Dwarf Registers

/-- The processes differ at most in what the kernel has of the registers. -/
def SameBesidesUser (s t : Process) : Prop := t = { s with user := t.user }

theorem SameBesidesUser.refl (s : Process) : SameBesidesUser s s := rfl

theorem SameBesidesUser.symm {s t : Process} (h : SameBesidesUser s t) : SameBesidesUser t s := by
  unfold SameBesidesUser
  rw [h]

theorem SameBesidesUser.trans {s t u : Process} (h : SameBesidesUser s t)
    (h' : SameBesidesUser t u) : SameBesidesUser s u := by
  unfold SameBesidesUser at *
  rw [h', h]

theorem readMemory_upTo (address : VirtAddr) (amount : ℕ) :
    MatchesUpTo SameBesidesUser (· = ·) (readMemory address amount)
      (readMemory address amount) := by
  intro s t h
  unfold readMemory
  rw [bind_ok (get_eq _), bind_ok (get_eq _), h]
  cases s.memory.readv (remoteChunks amount address amount) with
  | none => exact ⟨rfl, rfl⟩
  | some bytes => exact ⟨rfl, rfl⟩

variable {V : Registers → Registers → Prop}

/-- A register that is handed over is taken in both processes or in none. -/
theorem deliver_upTo (hV : Respected V) {r r' : Registers} (h : V r r') {info : RegisterInfo}
    (hinfo : info.Placed) (hdebug : ¬ info.part.IsDebug) :
    MatchesUpTo SameBesidesUser (fun _ _ => True) (r.deliver info none) (r'.deliver info none) := by
  intro s t hst
  have hkernel : t.kernel = s.kernel := by rw [hst]
  have hpid : t.pid = s.pid := by rw [hst]
  have hgiven : s.kernel.write info.part r'.data (t.user s.pid) =
      s.kernel.write info.part r.data (t.user s.pid) := by
    unfold RegisterKernel.write
    rw [hV.given h info hinfo]
  have hboth : (s.kernel.write info.part r.data (s.user s.pid)).isSome =
      (t.kernel.write info.part r'.data (t.user t.pid)).isSome := by
    rw [hkernel, hpid, hgiven]
    exact RegisterKernel.write_isSome hdebug _ _
  rw [deliver_eq r hinfo, deliver_eq r' hinfo]
  cases hu : s.kernel.write info.part r.data (s.user s.pid) with
  | none =>
    rw [hu, eq_comm, Option.isSome_none, Option.isSome_eq_false_iff, Option.isNone_iff_eq_none]
      at hboth
    rw [pokeRegisters_refused hu, pokeRegisters_refused hboth]
    exact ⟨rfl, hst⟩
  | some u =>
    rw [hu, eq_comm, Option.isSome_some] at hboth
    obtain ⟨u', hu'⟩ := Option.isSome_iff_exists.mp hboth
    rw [pokeRegisters_taken hu, pokeRegisters_taken hu']
    refine ⟨trivial, ?_⟩
    unfold SameBesidesUser setUser
    rw [hst]

theorem write_upTo (hV : Respected V) {r r' : Registers} (h : V r r') {info : RegisterInfo}
    (hinfo : info.Placed) (hdebug : ¬ info.part.IsDebug) (v : Value) :
    MatchesUpTo SameBesidesUser V (r.write info v false) (r'.write info v false) := by
  intro s t hst
  have hcasts : t.casts = s.casts := by rw [hst]
  unfold Registers.write
  rw [bind_ok (get_eq _), bind_ok (get_eq _), hcasts]
  by_cases hsize : v.size ≤ info.size
  · have hput := hV.put h info v.size (widen s.casts info v)
    rw [store_of_le hsize, store_of_le hsize, bind_ok (ofExcept_ok _ _), bind_ok (ofExcept_ok _ _)]
    have hhandOver := (deliver_upTo hV hput hinfo hdebug).bind fun _ _ _ =>
      MatchesUpTo.pure (R := SameBesidesUser) (V := fun _ _ => True) (a := ()) (b := ()) trivial
    exact (hhandOver.bind fun _ _ _ => .pure hput) s t hst
  · have herror (regs : Registers) : regs.store s.casts info v = .error .aborted := if_neg hsize
    rw [herror, herror, bind_error (ofExcept_error _ _), bind_error (ofExcept_error _ _)]
    exact ⟨rfl, hst⟩

section Upto

variable (hV : Respected V)

include hV

theorem readU64_eq {r r' : Registers} (h : V r r') {info : RegisterInfo}
    (hinfo : info ∈ gRegisterInfos) : r.readU64 info = r'.readU64 info := by
  unfold readU64
  rw [hV.read h info hinfo]

theorem readByIdAsU64_eq {r r' : Registers} (h : V r r') (id : RegisterId) :
    r.readByIdAsU64 id = r'.readByIdAsU64 id := by
  unfold readByIdAsU64
  cases hinfo : registerInfoById id with
  | error e => rfl
  | ok info => exact readU64_eq hV h (registerInfoBy_mem hinfo)

theorem unwindRule_upTo {old old' unwound unwound' : Registers} (hold : V old old')
    (hunwound : V unwound unwound') (cfa : BitVec 64) (x : BitVec 32 × CfiRule (BitVec 32)) :
    MatchesUpTo SameBesidesUser V (unwindRule inferior old cfa unwound x)
      (unwindRule inferior old' cfa unwound' x) := by
  obtain ⟨reg, rule⟩ := x
  apply MatchesUpTo.ofExcept_bind
  intro info hinfo
  have hplaced := RegisterInfo.placed (registerInfoBy_mem hinfo)
  have hdebug := not_debug_of_dwarf hinfo
  cases rule with
  | undefined => exact .pure (hV.undefine hunwound info)
  | sameValue => exact .pure hunwound
  | register other =>
    apply MatchesUpTo.ofExcept_bind
    intro otherInfo hother
    rw [hV.read hold otherInfo (registerInfoBy_mem hother)]
    apply MatchesUpTo.ofExcept_bind
    exact fun v _ => write_upTo hV hunwound hplaced hdebug v
  | offset n =>
    apply (readMemory_upTo _ _).bind
    rintro bytes _ rfl
    exact write_upTo hV hunwound hplaced hdebug _
  | valOffset n => exact write_upTo hV hunwound hplaced hdebug _

theorem unwindRules_upTo {old old' : Registers} (hold : V old old') (cfa : BitVec 64) :
    ∀ (rules : Ruleset) {unwound unwound' : Registers}, V unwound unwound' →
      MatchesUpTo SameBesidesUser V (unwindRules inferior old cfa rules unwound)
        (unwindRules inferior old' cfa rules unwound') := by
  intro rules
  induction rules with
  | nil => exact fun h => .pure h
  | cons x rules ih => exact fun h => (unwindRule_upTo hV hold h cfa x).bind fun _ _ => ih

theorem executeUnwindRules_upTo (ctx : UnwindContext) {r r' : Registers} (h : V r r') :
    MatchesUpTo SameBesidesUser (fun p q => V p.1 q.1 ∧ V p.2 q.2)
      (executeUnwindRules inferior ctx r) (executeUnwindRules inferior ctx r') := by
  apply MatchesUpTo.ofExcept_bind
  intro cfaInfo hcfa
  rw [readU64_eq hV h (registerInfoBy_mem hcfa)]
  apply MatchesUpTo.ofExcept_bind
  intro base _
  apply MatchesUpTo.ofExcept_bind
  intro rsp hrsp
  have hinfo : rsp = defineGpr64 .rsp 7 := Except.ok.inj (hrsp.symm.trans registerInfoById_rsp)
  subst hinfo
  apply (write_upTo hV h (by decide) (by decide) _).bind
  intro unwound unwound' hunwound
  apply (unwindRules_upTo hV (hV.cfa h _) _ _ hunwound).bind
  exact fun _ _ hrules => .pure ⟨hV.cfa h _, hrules⟩

theorem cfiUnwind_upTo (I : FrameInfo) (pc : FileAddr) {r r' : Registers} (h : V r r') :
    MatchesUpTo SameBesidesUser (fun p q => V p.1 q.1 ∧ V p.2 q.2)
      (cfiUnwind inferior I pc r) (cfiUnwind inferior I pc r') := by
  apply MatchesUpTo.ofExcept_bind
  intro fde _
  apply MatchesUpTo.ofExcept_bind
  intro ctx _
  exact executeUnwindRules_upTo hV ctx h

end Upto

theorem createBaseFrame_regs (I : FrameInfo) (r r' : Registers) (d : Die) (pc : FileAddr)
    (inlined : Bool) : createBaseFrame I r' d pc inlined =
      (createBaseFrame I r d pc inlined).map fun frame => { frame with regs := r' } := by
  unfold createBaseFrame
  cases I.elves.toVirtAddr pc with
  | error e => rfl
  | ok backtracePc =>
    cases hentry : I.lineEntryAtAddress pc with
    | error e => rfl
    | ok lineEntry =>
      simp only [bind, Except.bind]
      split_ifs with hnone
      · rfl
      · cases I.elves.toVirtAddr (lineEntry.getD {}).address <;> rfl

theorem createInlineStackFrames_regs (I : FrameInfo) (r r' : Registers) : ∀ ds : List Die,
    createInlineStackFrames I r' ds =
      (createInlineStackFrames I r ds).map (List.map fun frame => { frame with regs := r' }) := by
  intro ds
  induction ds with
  | nil => rfl
  | cons inner ds ih =>
    cases ds with
    | nil => rfl
    | cons outer ds =>
      unfold createInlineStackFrames
      rw [ih]
      cases I.lowPc inner with
      | error e => rfl
      | ok lowPc =>
        cases hvirt : I.elves.toVirtAddr lowPc with
        | error e => simp [hvirt, bind, Except.bind, Except.map]
        | ok inlinedPc =>
          cases hloc : I.location inner with
          | error e => simp [hvirt, bind, Except.bind, Except.map]
          | ok location =>
            cases createInlineStackFrames I r (outer :: ds) with
            | error e => simp [hvirt, bind, Except.bind, Except.map]
            | ok frames => simp [hvirt, bind, Except.bind, Except.map, pure, Except.pure]

theorem caller_upTo (hV : Respected V) {I : FrameInfo} {s t : Process} {r r' r₁ : Registers}
    {pc pc₁ : VirtAddr} (hst : SameBesidesUser s t) (hr : V r r')
    (h : Caller I inferior s r pc r₁ pc₁) :
    ∃ r₁', Caller I inferior t r' pc r₁' pc₁ ∧ V r₁ r₁' := by
  obtain ⟨hzero, helf, inlineStack, d, ds, s', hstack, hrev, base, inlined, left, hbase, hinlined,
    hcfi, hrip⟩ := h
  obtain ⟨⟨left', r₁'⟩, t', hcfi', ⟨-, hr₁⟩, -⟩ := (cfiUnwind_upTo hV I _ hr).ok hst hcfi
  have hbase' := createBaseFrame_regs I r r' d (I.elves.toFileAddr pc) !ds.isEmpty
  have hinlined' := createInlineStackFrames_regs I r r' (d :: ds)
  rw [hbase] at hbase'
  rw [hinlined] at hinlined'
  have hrip' : r₁'.readByIdAsU64 (.gpr64 .rip) = .ok (pc₁ + 1#64) := by
    rw [← readByIdAsU64_eq hV hr₁, hrip]
  exact ⟨r₁', ⟨hzero, helf, inlineStack, d, ds, t', hstack, hrev, _, _, left', hbase', hinlined',
    hcfi', hrip'⟩, hr₁⟩

/-- The second frame is the caller of the first. -/
def CallerOf (I : FrameInfo) (s : Process) (x y : VirtAddr × Registers) : Prop :=
  Caller I inferior s x.2 x.1 y.2 y.1

def frameKey (x : VirtAddr × Registers) :
    VirtAddr × (Fin userSize → Byte) × (Fin userSize → Bool) :=
  (x.1, fun o => x.2.data o, fun i => x.2.undefined.contains i.val)

instance (n : ℕ) : Finite (BitVec n) := .of_injective BitVec.toFin fun _ _ => BitVec.eq_of_toFin_eq

theorem frameKey_eq_iff {x y : VirtAddr × Registers} :
    frameKey x = frameKey y ↔ x.1 = y.1 ∧ Alike x.2 y.2 := by
  have hmem (i : ℕ) : x.2.undefined.contains i = y.2.undefined.contains i ↔
      (i ∈ x.2.undefined ↔ i ∈ y.2.undefined) := by
    rw [Bool.eq_iff_iff, List.contains_iff_mem, List.contains_iff_mem]
  unfold frameKey Alike
  simp only [Prod.mk.injEq, funext_iff, Fin.forall_iff, hmem]

theorem keyedSteps_callerOf (I : FrameInfo) (s : Process) : KeyedSteps (CallerOf I s) frameKey := by
  rintro ⟨pc, r⟩ ⟨pc₁, r₁⟩ ⟨pc', r'⟩ h hkey
  obtain ⟨rfl, halike⟩ := frameKey_eq_iff.mp hkey.symm
  obtain ⟨r₁', hcaller, halike₁⟩ := caller_upTo respected_alike (.refl s) halike h
  have hsame : frameKey (pc₁, r₁) = frameKey (pc₁, r₁') := frameKey_eq_iff.mpr ⟨rfl, halike₁⟩
  exact ⟨(pc₁, r₁'), hcaller, hsame.symm⟩

theorem callerOf_of_same {I : FrameInfo} {s t : Process} {x y : VirtAddr × Registers}
    (hst : SameBesidesUser s t) (h : CallerOf I s x y) : CallerOf I t x y := by
  obtain ⟨r, hcaller, heq⟩ := caller_upTo respected_eq hst rfl h
  unfold CallerOf
  rwa [heq]

theorem after_cfiUnwind (I : FrameInfo) (pc : FileAddr) (regs : Registers) (s : Process) :
    SameBesidesUser s (after (cfiUnwind inferior I pc regs) s) := by
  have hstart : s = s.handing fun _ => none := (setUser_self _).symm
  obtain ⟨-, hafter⟩ := (inferior_agrees s).cfiUnwind I pc regs s (fun _ => none) hstart
  rw [hafter]
  rfl

theorem SameBesidesUser.of_cfiUnwind {I : FrameInfo} {pc : FileAddr} {regs : Registers}
    {s t t' : Process} {a : Registers × Registers} (hst : SameBesidesUser s t)
    (h : cfiUnwind inferior I pc regs t = .ok a t') : SameBesidesUser s t' := by
  have hafter := after_cfiUnwind I pc regs t
  rw [after, h] at hafter
  exact hst.trans hafter

variable {I : FrameInfo} {s : Process}

theorem unwindLoop_stable {x : VirtAddr × Registers} (h : Ending (CallerOf I s) x) :
    ∀ (t : Process) (st : Stack), SameBesidesUser s t → ∃ n, ∀ m, n ≤ m →
      Stack.unwindLoop inferior I m x.1 (I.elves.toFileAddr x.1) x.2 (t, st) =
        Stack.unwindLoop inferior I n x.1 (I.elves.toFileAddr x.1) x.2 (t, st) := by
  induction h with
  | intro x _ ih =>
    intro t st hst
    obtain ⟨regs', pc', t', st', k, hcaller, heq, ⟨left, hcfi⟩, -⟩ | ⟨-, r, heq, -⟩ :=
      unwindLoop_cases (T := inferior) (I := I) x.2 x.1 t st
    · have ht' : SameBesidesUser s t' := hst.of_cfiUnwind hcfi
      obtain ⟨n, hn⟩ := ih (pc', regs') (callerOf_of_same hst.symm hcaller) t' st' ht'
      refine ⟨n + 1, fun m hm => ?_⟩
      obtain ⟨m, rfl⟩ := Nat.exists_eq_add_of_le' (Nat.one_le_of_lt hm)
      rw [heq m, heq n]
      exact hn m (Nat.le_of_succ_le_succ hm)
    · refine ⟨1, fun m hm => ?_⟩
      obtain ⟨m, rfl⟩ := Nat.exists_eq_add_of_le' hm
      rw [heq m, ← heq 0]

theorem unwindLoop_grows : ∀ (n : ℕ) (x : VirtAddr × Registers), ¬ Ending (CallerOf I s) x →
    ∀ (t : Process) (st : Stack), SameBesidesUser s t →
      (after (Stack.unwindLoop inferior I n x.1 (I.elves.toFileAddr x.1) x.2) (t, st)).2.frames.length <
        (after (Stack.unwindLoop inferior I (n + 1) x.1 (I.elves.toFileAddr x.1) x.2)
          (t, st)).2.frames.length := by
  -- where a frame comes back the chain has no end, and every bound is used up
  intro n
  induction n with
  | zero =>
    intro x hx t st hst
    obtain ⟨y, -, hy⟩ := exists_not_acc_lt_of_not_acc hx
    obtain ⟨regs', pc', t', st', k, -, heq, -, hext, hpos, -⟩ | ⟨hnone, -⟩ :=
      unwindLoop_cases (T := inferior) (I := I) x.2 x.1 t st
    · unfold after
      rw [heq]
      change st.frames.length < st'.frames.length
      have := hext.length_eq
      omega
    · exact absurd (callerOf_of_same hst hy) (hnone _ _)
  | succ n ih =>
    intro x hx t st hst
    obtain ⟨y, hnot, hy⟩ := exists_not_acc_lt_of_not_acc hx
    obtain ⟨regs', pc', t', st', k, hcaller, heq, ⟨left, hcfi⟩, -⟩ | ⟨hnone, -⟩ :=
      unwindLoop_cases (T := inferior) (I := I) x.2 x.1 t st
    · have ht' : SameBesidesUser s t' := hst.of_cfiUnwind hcfi
      obtain ⟨hregs, hpc⟩ := hcaller.unique (callerOf_of_same hst hy)
      subst hregs
      subst hpc
      have hgrows := ih y hnot t' st' ht'
      unfold after at hgrows ⊢
      rwa [heq, heq]
    · exact absurd (callerOf_of_same hst hy) (hnone _ _)

/-- `unwind` ends: from some number of turns on, the bound on them makes no difference. -/
def Ends (I : FrameInfo) (tid : Tid) (s : Process) (st : Stack) : Prop :=
  ∃ n, ∀ m, n ≤ m →
    Stack.unwind inferior I m tid (s, st) = Stack.unwind inferior I n tid (s, st)

/-- The loop is entered with these registers: the height is counted before. -/
def Entered (I : FrameInfo) (tid : Tid) (s : Process) (regs : Registers) (pc : VirtAddr) : Prop :=
  (∃ height s', resetInlineHeight inferior I tid s = .ok height s') ∧
    getRegisters (some tid) s = .ok regs s ∧ regs.readByIdAsU64 (.gpr64 .rip) = .ok pc

theorem Entered.unique {tid : Tid} {regs regs' : Registers} {pc pc' : VirtAddr}
    (h : Entered I tid s regs pc) (h' : Entered I tid s regs' pc') : regs = regs' ∧ pc = pc' := by
  obtain ⟨-, hregs, hpc⟩ := h
  obtain ⟨-, hregs', hpc'⟩ := h'
  rw [hregs] at hregs'
  cases hregs'
  rw [hpc] at hpc'
  exact ⟨rfl, Except.ok.inj hpc'⟩

/-- Before the loop `unwind` either fails, or finds where the loop starts. -/
theorem unwind_cases (tid : Tid) (st : Stack) :
    ((∀ regs pc, ¬ Entered I tid s regs pc) ∧ ∃ r, ∀ m,
      Stack.unwind inferior I m tid (s, st) = r) ∨
    ∃ regs pc st', Entered I tid s regs pc ∧ ∀ m, Stack.unwind inferior I m tid (s, st) =
      (if (I.elves.toFileAddr pc).elf = none then pure ()
        else Stack.unwindLoop inferior I m pc (I.elves.toFileAddr pc) regs) (s, st') := by
  unfold Stack.unwind
  cases hreset : Stack.resetInlineHeight inferior I tid (s, st) with
  | error e p =>
    refine .inl ⟨?_, _, fun m => bind_error hreset⟩
    rintro regs pc ⟨⟨height, s', h⟩, -⟩
    rw [resetInlineHeight_ok.mpr ⟨height, s', h, rfl⟩] at hreset
    cases hreset
  | ok u p =>
    obtain ⟨height, s', hheight, rfl⟩ := resetInlineHeight_ok.mp hreset
    obtain ⟨inlineStack, s₁, hstack, hrest⟩ := bind_eq_ok.mp hheight
    obtain ⟨rfl, regs, rip, hregs, hrip, -⟩ := inlineStackAtPc_ok hstack
    obtain ⟨pc, s₂, hpc, hcount⟩ := bind_eq_ok.mp hrest
    obtain ⟨rfl, -⟩ := getPcFileAddress_ok hpc
    obtain ⟨-, rfl⟩ := ofExcept_eq_ok.mp hcount
    have hregs' : inferior.getRegisters (some tid) s' = .ok regs s' := hregs
    have hvirt : inferior.getPc (some tid) s' = .ok rip s' := by
      unfold Traced.getPc
      rw [bind_ok hregs', hrip]
      rfl
    have hfile : getPcFileAddress inferior I (some tid) s' = .ok (I.elves.toFileAddr rip) s' :=
      bind_ok hvirt
    let cleared : Stack := ⟨BitVec.ofNat 32 height, [], (BitVec.ofNat 32 height).setWidth 64⟩
    refine .inr ⟨regs, rip, cleared, ⟨⟨height, s', hheight⟩, hregs, hrip⟩, fun m => ?_⟩
    rw [bind_ok hreset, bind_ok (onStack_eq _ _), bind_ok (onProcess_ok hvirt),
      bind_ok (onProcess_ok hfile), bind_ok (onProcess_ok hregs'), bind_ok (onStack_eq _ _)]

/-- Once the loop is entered, `unwind` ends with the chain of callers. -/
theorem ends_iff_ending {tid : Tid} {regs : Registers} {pc : VirtAddr}
    (hentered : Entered I tid s regs pc) (st : Stack) :
    Ends I tid s st ↔ Ending (CallerOf I s) (pc, regs) := by
  -- the bytes of a file and its undefined registers are finitely many
  obtain ⟨hnone, -⟩ | ⟨regs', pc', st', hentered', hunwind⟩ := unwind_cases (I := I) (s := s) tid st
  · exact absurd hentered (hnone regs pc)
  obtain ⟨rfl, rfl⟩ := hentered.unique hentered'
  unfold Ends
  simp only [hunwind]
  by_cases helf : (I.elves.toFileAddr pc).elf = none
  · simp only [if_pos helf]
    refine iff_of_true ⟨0, fun m _ => trivial⟩ (.intro _ ?_)
    rintro y ⟨-, hmain, -⟩
    rw [helf] at hmain
    cases hmain
  · simp only [if_neg helf]
    constructor
    · rintro ⟨n, hn⟩
      by_contra hnot
      have hgrows := unwindLoop_grows n (pc, regs) hnot s st' (.refl s)
      rw [after, after, hn (n + 1) (Nat.le_succ n)] at hgrows
      exact Nat.lt_irrefl _ hgrows
    · exact fun h => unwindLoop_stable h s st' (.refl s)

/-- The instructions of a frame always run out; `unwind` ends if and only if no frame comes
back among the callers of the thread. -/
theorem unwind_ends_iff (I : FrameInfo) (tid : Tid) (s : Process) (st : Stack) :
    (∀ fde pc, unwindContext I.frameElf fde pc ≠ .error .exhausted) ∧
      (Ends I tid s st ↔ ∀ regs pc, Entered I tid s regs pc →
        ¬ ComesBack (CallerOf I s) frameKey (pc, regs)) := by
  refine ⟨unwindContext_ends I.frameElf, ?_⟩
  obtain ⟨hnone, r, hr⟩ | ⟨regs, pc, -, hentered, -⟩ := unwind_cases (I := I) (s := s) tid st
  · refine iff_of_true ⟨0, fun m _ => by rw [hr, hr]⟩ fun regs pc h => ?_
    exact absurd h (hnone regs pc)
  · rw [ends_iff_ending hentered, ending_iff_not_comesBack (keyedSteps_callerOf I s)]
    refine ⟨fun h regs' pc' h' => ?_, fun h => h regs pc hentered⟩
    obtain ⟨rfl, rfl⟩ := hentered.unique h'
    exact h

def sixteenRegs : Registers := { data := fun o => if o = 128 then 16#8 else 0#8, tid := 1 }

def standing : Process :=
  { twoThreads with
    threads := { entries := [{ tid := 1, regs := sixteenRegs }], nodup := by decide } }

/-- An entry without instructions: the CFA is `rax`, and every other register is that of
the frame before. -/
def noRulesEntry : Fde where
  cie := ⟨1#64, 1#64, 0#8, ⟨0, 0⟩⟩
  initialLocation := { elf := some 0, addr := 8#64 }
  addressRange := 16#64
  instructions := ⟨0, 0⟩

def noRules : FrameInfo where
  elves := [{ loadBias := 0#64, sectionHeaders := [⟨0#64, 256#64, 2#64⟩] }]
  mainElf := 0
  frameElf := { elf := 0, image := .ofList [], textSectionStart := 0#64, gotPltStart := none }
  fdeAt _ := .ok noRulesEntry
  inlineStackAtAddress _ := .ok [{ next := 0 }]
  lineEntryAtAddress _ := .ok none
  lowPc _ := .ok { elf := some 0, addr := 8#64 }
  location _ := .ok .unset

/-- The registers of the caller: `rsp` has the CFA, which is 0. -/
def standingCaller (regs : Registers) : Registers :=
  regs.put (defineGpr64 .rsp 7) 8 (widen standing.casts (defineGpr64 .rsp 7) (.u64 0#64))

theorem registerInfoByDwarf_zero : registerInfoByDwarf 0#32 = .ok (defineGpr64 .rax 0) := by
  decide +kernel

theorem executeUnwindRules_standing (ctx : UnwindContext) (hcfa : ctx.cfaRule = {})
    (hrules : ctx.registerRules = []) {regs : Registers}
    (hread : regs.readU64 (defineGpr64 .rax 0) = .ok 0#64) :
    ∃ left s', executeUnwindRules inferior ctx regs standing = .ok (left, standingCaller regs) s' := by
  have hplain : (defineGpr64 .rsp 7).part.IsPlain := by decide
  obtain ⟨u, htaken⟩ : ∃ u, standing.kernel.write (defineGpr64 .rsp 7).part
      (standingCaller regs).data (standing.user standing.pid) = some u :=
    ⟨_, RegisterKernel.x86_storesPlain _ hplain _ _⟩
  have hhands := hands_handOver (s := standing) (standingCaller regs)
    (show (defineGpr64 .rsp 7).Placed by decide) false
  have hwrite : inferior.write regs (defineGpr64 .rsp 7) (.u64 0#64) standing = .ok
      (standingCaller regs) (standing.setUser standing.pid u) := by
    change Registers.write regs (defineGpr64 .rsp 7) (.u64 0#64) false standing = _
    unfold Registers.write
    rw [bind_ok (get_eq _), store_of_le (by decide), bind_ok (ofExcept_ok _ _)]
    exact bind_ok (hhands.taken _ ((handed_one _ _).trans htaken))
  unfold executeUnwindRules
  rw [hcfa, hrules, registerInfoByDwarf_zero, bind_ok (ofExcept_ok _ _), hread,
    bind_ok (ofExcept_ok _ _), registerInfoById_rsp, bind_ok (ofExcept_ok _ _)]
  exact ⟨_, _, bind_ok hwrite⟩

theorem caller_standing {pc : VirtAddr} {regs : Registers} (hpc : pc = 16#64 ∨ pc = 15#64)
    (hread : regs.readU64 (defineGpr64 .rax 0) = .ok 0#64)
    (hrip : (standingCaller regs).readByIdAsU64 (.gpr64 .rip) = .ok 16#64) :
    Caller noRules inferior standing regs pc (standingCaller regs) 15#64 := by
  have hfile : noRules.elves.toFileAddr pc = ⟨some 0, pc⟩ := by
    obtain rfl | rfl := hpc <;> rfl
  obtain ⟨ctx, hctx, hcfa, hrules⟩ : ∃ ctx, unwindContext noRules.frameElf noRulesEntry
      ⟨some 0, pc⟩ = .ok ctx ∧ ctx.cfaRule = {} ∧ ctx.registerRules = [] := by
    obtain rfl | rfl := hpc <;> exact ⟨_, rfl, rfl, rfl⟩
  obtain ⟨base, hbase⟩ : ∃ base, createBaseFrame noRules regs { next := 0 } ⟨some 0, pc⟩ false =
      .ok base := by
    obtain rfl | rfl := hpc <;> exact ⟨_, rfl⟩
  obtain ⟨left, s', hunwind⟩ := executeUnwindRules_standing ctx hcfa hrules hread
  have hcfi : cfiUnwind inferior noRules ⟨some 0, pc⟩ regs standing =
      .ok (left, standingCaller regs) s' := by
    change ((ofExcept (unwindContext noRules.frameElf noRulesEntry ⟨some 0, pc⟩) : M UnwindContext)
      >>= _) standing = _
    rw [hctx, bind_ok (ofExcept_ok _ _), hunwind]
  have hzero : pc ≠ 0#64 := by
    obtain rfl | rfl := hpc <;> decide
  rw [← hfile] at hbase hcfi
  exact ⟨hzero, by rw [hfile]; rfl, [{ next := 0 }], { next := 0 }, [], s', rfl, rfl, base, [], left,
    hbase, rfl, hcfi, hrip⟩

theorem entered_standing : Entered noRules 1 standing sixteenRegs 16#64 :=
  ⟨⟨0, standing, rfl⟩, rfl, rfl⟩

theorem standingCaller_idem (regs : Registers) :
    standingCaller (standingCaller regs) = standingCaller regs := by
  unfold standingCaller put
  dsimp only
  congr 1
  funext o
  split_ifs <;> rfl

theorem comesBack_standing : ComesBack (CallerOf noRules standing) frameKey (16#64, sixteenRegs) := by
  let first := standingCaller sixteenRegs
  have hrip : first.readByIdAsU64 (.gpr64 .rip) = .ok 16#64 := by decide +kernel
  have hfirst : CallerOf noRules standing (16#64, sixteenRegs) (15#64, first) :=
    caller_standing (.inl rfl) (by decide +kernel) hrip
  have hagain : CallerOf noRules standing (15#64, first) (15#64, first) := by
    have h := caller_standing (.inr rfl)
      (show first.readU64 (defineGpr64 .rax 0) = .ok 0#64 by decide +kernel)
    rw [standingCaller_idem] at h
    exact h hrip
  exact ⟨_, _, .single hfirst, .single hagain, rfl⟩

/-- A function whose entry says nothing of its caller is unwound for ever. -/
theorem unwind_ends_not_for_all : ¬ ∀ (I : FrameInfo) (tid : Tid) (s : Process) (st : Stack),
    Ends I tid s st := by
  intro h
  have hending := (ends_iff_ending entered_standing {}).mp (h noRules 1 standing {})
  exact hending.not_comesBack (keyedSteps_callerOf noRules standing) comesBack_standing

end Process
end KDebugger
