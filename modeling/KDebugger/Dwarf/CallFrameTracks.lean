import KDebugger.Dwarf.CallFrameStep

namespace KDebugger.Dwarf

open Exec

def ruleOf (rules : Ruleset) (reg : ℕ) : Option (CfiRule ℕ) :=
  if reg < 2 ^ 32 then (rules.find (BitVec.ofNat 32 reg)).map (CfiRule.map BitVec.toNat) else none

namespace Ruleset

theorem find_emplace (rules : Ruleset) (k k' : BitVec 32) (v : CfiRule (BitVec 32)) :
    (rules.emplace k v).find k' = (rules.find k').or (if k' = k then some v else none) := by
  cases hk : rules.find k with
  | some w =>
    rw [emplace, hk]
    by_cases h : k' = k
    · subst h
      simp [hk]
    · simp [h]
  | none =>
    have hlast : (find [(k, v)] k') = if k' = k then some v else none := by
      by_cases h : k' = k
      · simp [find, h]
      · simp [find, h, Ne.symm h]
    rw [emplace, hk, ← hlast]
    simp only [find, List.find?_append, Option.map_or]

end Ruleset

theorem key_eq_iff {r reg : ℕ} (hr : r < 2 ^ 32) (hreg : reg < 2 ^ 32) :
    BitVec.ofNat 32 r = (BitVec.ofNat 64 reg).setWidth 32 ↔ r = reg := by
  rw [← BitVec.toNat_inj, BitVec.toNat_ofNat, BitVec.toNat_setWidth, BitVec.toNat_ofNat]
  omega

theorem ruleOf_emplace {rules : Ruleset} {reg : ℕ} (hreg : reg < 2 ^ 32)
    (v : CfiRule (BitVec 32)) (r : ℕ) :
    ruleOf (rules.emplace ((BitVec.ofNat 64 reg).setWidth 32) v) r =
      (ruleOf rules r).or (if r = reg then some (v.map BitVec.toNat) else none) := by
  unfold ruleOf
  by_cases hr : r < 2 ^ 32
  · rw [if_pos hr, if_pos hr, Ruleset.find_emplace, Option.map_or]
    simp only [key_eq_iff hr hreg]
    split_ifs <;> rfl
  · have hne : r ≠ reg := by omega
    rw [if_neg hr, if_neg hr, if_neg hne]
    rfl

/-- The code's rules and CFA, the row of the standard and the live assignments. -/
structure TracksRow (rules : Ruleset) (cfa : CfaRegisterRule) (row : FrameRow) (l : Live) : Prop where
  cfaReg : cfa.reg.toNat = row.cfaReg
  cfaOffset : cfa.offset = row.cfaOffset ↔ l.cfaRight = true
  written : ∀ r, ruleOf rules r = (l.assigned r).head?.map Assignment.written
  meant : ∀ r, row.rules r = (l.assigned r).getLast?.map Assignment.meant

inductive TracksSaved : List (Ruleset × CfaRegisterRule) → List FrameRow → List Live → Prop where
  | nil : TracksSaved [] [] []
  | cons {rules : Ruleset} {cfa : CfaRegisterRule} {row : FrameRow} {l : Live}
      {saved : List (Ruleset × CfaRegisterRule)} {rows : List FrameRow} {ls : List Live}
      (h : TracksRow rules cfa row l) (hs : TracksSaved saved rows ls) :
      TracksSaved ((rules, cfa) :: saved) (row :: rows) (l :: ls)

/-- The rules the initial instructions left, in the three readings. -/
structure TracksInitial (rules : Ruleset) (initial : ℕ → Option (CfiRule ℕ))
    (live : ℕ → List Assignment) : Prop where
  written : ∀ r, ruleOf rules r = (live r).head?.map Assignment.written
  meant : ∀ r, initial r = (live r).getLast?.map Assignment.meant

structure TracksAll (ctx : UnwindContext) (t : Stacked FrameRow) (l : Stacked Live) : Prop where
  row : TracksRow ctx.registerRules ctx.cfaRule t.row l.row
  saved : TracksSaved ctx.ruleStack t.saved l.saved

/-- Register numbers that are keys fit the type of the keys, and a written register
number is one that fits. -/
def RowAction.Sound : RowAction → Prop
  | .assign reg _ written => reg < 2 ^ 32 ∧ written.map (· % 2 ^ 32) = written
  | .restore reg => reg < 2 ^ 32
  | .cfa reg _ _ => reg < 2 ^ 32
  | .cfaRegister _ => False
  | .keep | .cfaOffset _ _ | .remember | .bringBack => True

/-- The register of a restore has a rule from the initial instructions. -/
def RowAction.Found (initial : ℕ → List Assignment) (a : RowAction) : Prop :=
  ∀ reg, a = .restore reg → initial reg ≠ []

theorem CfiRule.map_map (rule : CfiRule ℕ) :
    (rule.map (BitVec.ofNat 32)).map BitVec.toNat = rule.map (· % 2 ^ 32) := by
  cases rule <;> simp [CfiRule.map]

theorem tracks_push {rules : Ruleset} {cfa : CfaRegisterRule} {row : FrameRow} {l : Live}
    (h : TracksRow rules cfa row l) {reg : ℕ} (hreg : reg < 2 ^ 32) {v : CfiRule (BitVec 32)}
    {a : Assignment} (hv : v.map BitVec.toNat = a.written) {o : Option (CfiRule ℕ)}
    (ho : o = some a.meant) :
    TracksRow (rules.emplace ((BitVec.ofNat 64 reg).setWidth 32) v) cfa
      { row with rules := Function.update row.rules reg o } (l.push reg a) where
  cfaReg := h.cfaReg
  cfaOffset := h.cfaOffset
  written r := by
    rw [ruleOf_emplace hreg, h.written, hv]
    by_cases hr : r = reg
    · subst hr
      simp only [Live.push, Function.update_self, if_true, List.head?_append]
      cases (l.assigned r).head? <;> rfl
    · simp [Live.push, hr]
  meant r := by
    by_cases hr : r = reg
    · subst hr
      simp [Live.push, ho]
    · simp [Live.push, hr, h.meant]

theorem tracks_act {ctx : UnwindContext} {t : Stacked FrameRow} {l : Stacked Live}
    {initial : ℕ → Option (CfiRule ℕ)} {live : ℕ → List Assignment}
    (hinit : TracksInitial ctx.cieRegisterRules initial live) (h : TracksAll ctx t l)
    {a : RowAction} (hs : a.Sound) (hf : a.Found live) (hback : a = .bringBack → l.saved ≠ []) :
    ∃ ctx', ctx.act a = .ok ctx' ∧ ctx'.location = ctx.location ∧
      ctx'.cieRegisterRules = ctx.cieRegisterRules ∧
      TracksAll ctx' (FrameRow.step initial t a) (Live.step live l a) := by
  -- one case an action; `emplace` keeps the first rule, the table has the last
  cases a with
  | cfaRegister reg => exact absurd hs id
  | keep => exact ⟨ctx, rfl, rfl, rfl, h⟩
  | assign reg meant written =>
    refine ⟨_, rfl, rfl, rfl, tracks_push h.row hs.1 ?_ rfl, h.saved⟩
    rw [CfiRule.map_map]
    exact hs.2
  | cfa reg meant written =>
    refine ⟨_, rfl, rfl, rfl, ⟨?_, ?_, h.row.written, h.row.meant⟩, h.saved⟩
    · have hreg : reg < 2 ^ 32 := hs
      simp only [Stacked.update, FrameRow.step, BitVec.toNat_setWidth, BitVec.toNat_ofNat]
      omega
    · simp only [Live.step, FrameRow.step, Stacked.update, beq_iff_eq]
      exact eq_comm
  | cfaOffset meant written =>
    refine ⟨_, rfl, rfl, rfl, ⟨h.row.cfaReg, ?_, h.row.written, h.row.meant⟩, h.saved⟩
    simp only [Live.step, FrameRow.step, Stacked.update, beq_iff_eq]
    exact eq_comm
  | remember => exact ⟨_, rfl, rfl, rfl, h.row, .cons h.row h.saved⟩
  | bringBack =>
    have hne := hback rfl
    obtain ⟨row, saved⟩ := l
    obtain ⟨trow, tsaved⟩ := t
    have hsaved := h.saved
    simp only at hne hsaved
    cases hctx : ctx.ruleStack with
    | nil =>
      rw [hctx] at hsaved
      cases hsaved
      exact absurd rfl hne
    | cons x xs =>
      rw [hctx] at hsaved
      cases hsaved with
      | @cons rules cfa _ _ _ _ _ hrow hrest =>
        have hact : ctx.act .bringBack = .ok { ctx with
            registerRules := rules, cfaRule := cfa, ruleStack := xs } := by
          simp only [UnwindContext.act, UnwindContext.restoreState, hctx]
        exact ⟨_, hact, rfl, rfl, hrow, hrest⟩
  | restore reg =>
    have hne := hf reg rfl
    have hreg : reg < 2 ^ 32 := hs
    obtain ⟨first, hfirst⟩ : ∃ x, (live reg).head? = some x :=
      Option.isSome_iff_exists.mp (by simpa using hne)
    obtain ⟨last, hlast⟩ : ∃ x, (live reg).getLast? = some x :=
      Option.isSome_iff_exists.mp (by simpa using hne)
    have hwritten := hinit.written reg
    have hmeant := hinit.meant reg
    rw [hfirst] at hwritten
    rw [hlast] at hmeant
    have hkey : (BitVec.ofNat 64 reg).setWidth 32 = BitVec.ofNat 32 reg :=
      ((key_eq_iff hreg hreg).mpr rfl).symm
    simp only [ruleOf, if_pos hreg, Option.map_some, Option.map_eq_some_iff] at hwritten
    obtain ⟨rule, hrule, hmap⟩ := hwritten
    refine ⟨ctx.emplace (BitVec.ofNat 64 reg) rule, ?_, rfl, rfl, ?_, ?_⟩
    · simp only [UnwindContext.act, UnwindContext.restore, hkey, hrule]
    · simp only [Live.step, Live.restored, hfirst, hlast]
      exact tracks_push h.row hreg (a := ⟨last.meant, first.written⟩) hmap hmeant
    · simp only [Live.step, Live.restored, hfirst, hlast]
      exact h.saved

theorem act_not_found {ctx : UnwindContext} {initial : ℕ → Option (CfiRule ℕ)}
    {live : ℕ → List Assignment} (hinit : TracksInitial ctx.cieRegisterRules initial live)
    {a : RowAction} (hs : a.Sound) (hf : ¬ a.Found live) : ctx.act a = .error .outOfRange := by
  unfold RowAction.Found at hf
  push Not at hf
  obtain ⟨reg, rfl, hnil⟩ := hf
  have hreg : reg < 2 ^ 32 := hs
  have hkey : (BitVec.ofNat 64 reg).setWidth 32 = BitVec.ofNat 32 reg :=
    ((key_eq_iff hreg hreg).mpr rfl).symm
  have hnone := hinit.written reg
  simp only [ruleOf, if_pos hreg, hnil, List.head?_nil, Option.map_none,
    Option.map_eq_none_iff] at hnone
  simp only [UnwindContext.act, UnwindContext.restore, hkey, hnone]

end KDebugger.Dwarf
