import KDebugger.Process.StackRuns
import Mathlib.Data.List.TakeWhile

namespace KDebugger.Process

open Exec Dwarf

section Height

variable (I : FrameInfo)

/-- How many of the inlined subroutines, the innermost one last, begin at `pc` in a row. -/
def inlinedFrom (pc : FileAddr) (inlined : List Die) : ℕ :=
  (inlined.reverse.takeWhile fun d => I.lowPc d = .ok pc).length

def FunctionsOf (stack : List Die) (functions : List Die) : Prop :=
  ∃ regs pc d ds base frames, stack.reverse = d :: ds ∧
    createBaseFrame I regs d pc (!ds.isEmpty) = .ok base ∧
    createInlineStackFrames I regs (d :: ds) = .ok frames ∧
    functions = (base :: frames).map StackFrame.funcDie

/-- The height `n` at `pc` in `f` and what is inlined there. -/
structure HeightAt (pc : FileAddr) (f : Die) (inlined : List Die) (n : ℕ) : Prop where
  counted : n = inlinedFrom I pc inlined
  /-- the frame of `f` is among those that `frames` shows -/
  shown : ∀ functions, FunctionsOf I (f :: inlined) functions → f ∈ functions.drop n
  /-- `step_in` simulates a step into something -/
  entered : 0 < n → inlined ≠ []

/-- With the pc of the thread itself, some function of the stack begins elsewhere; with
another one, the innermost function begins at neither, as far as it is inlined. -/
def CountsInlined (pc pc' : FileAddr) (f : Die) (inlined : List Die) : Prop :=
  if pc' = pc then ∃ d ∈ f :: inlined, I.lowPc d ≠ .ok pc
  else I.lowPc (inlined.getLastD f) ≠ .ok pc' ∧
    (inlined ≠ [] → I.lowPc (inlined.getLastD f) ≠ .ok pc)

variable {I}

theorem createInlineStackFrames_functions {regs : Registers} :
    ∀ {ds : List Die} {frames : List StackFrame},
      createInlineStackFrames I regs ds = .ok frames → frames.map StackFrame.funcDie = ds.tail := by
  intro ds
  induction ds with
  | nil =>
    intro frames h
    cases h
    rfl
  | cons inner ds ih =>
    intro frames h
    cases ds with
    | nil =>
      cases h
      rfl
    | cons outer ds =>
      unfold createInlineStackFrames at h
      obtain ⟨lowPc, -, h₁⟩ := except_bind_eq_ok.mp h
      obtain ⟨inlinedPc, -, h₂⟩ := except_bind_eq_ok.mp h₁
      obtain ⟨location, -, h₃⟩ := except_bind_eq_ok.mp h₂
      obtain ⟨rest, hrest, h₄⟩ := except_bind_eq_ok.mp h₃
      cases h₄
      rw [List.map_cons, ih hrest]
      rfl

theorem FunctionsOf.eq_reverse {stack functions : List Die} (h : FunctionsOf I stack functions) :
    functions = stack.reverse := by
  obtain ⟨regs, pc, d, ds, base, frames, hstack, hbase, hframes, rfl⟩ := h
  rw [hstack, List.map_cons, createInlineStackFrames_functions hframes,
    (createBaseFrame_of_ok hbase).1]
  rfl

theorem inlinedFrom_le (pc : FileAddr) (inlined : List Die) :
    inlinedFrom I pc inlined ≤ inlined.length := by
  have hle := (List.takeWhile_sublist (fun d => I.lowPc d = .ok pc) (l := inlined.reverse)).length_le
  rwa [List.length_reverse] at hle

theorem heightAt_iff {pc : FileAddr} {f : Die} {inlined : List Die} {n : ℕ} :
    HeightAt I pc f inlined n ↔ n = inlinedFrom I pc inlined := by
  refine ⟨HeightAt.counted, ?_⟩
  rintro rfl
  have hle := inlinedFrom_le (I := I) pc inlined
  refine ⟨rfl, fun functions h => ?_, ?_⟩
  · rw [h.eq_reverse, List.reverse_cons, List.drop_append_of_le_length (by simpa using hle)]
    exact List.mem_append_right _ (List.mem_singleton_self f)
  · rintro hpos rfl
    exact absurd hpos (by simp [inlinedFrom])

theorem countInlined_eq {pc : FileAddr} : ∀ {ds : List Die},
    (∀ d ∈ ds, ∃ a, I.lowPc d = .ok a) →
      countInlined I pc ds = .ok (ds.takeWhile fun d => I.lowPc d = .ok pc).length := by
  intro ds
  induction ds with
  | nil => exact fun _ => rfl
  | cons d ds ih =>
    intro h
    obtain ⟨⟨a, ha⟩, hrest⟩ := List.forall_mem_cons.mp h
    unfold countInlined
    rw [ha]
    change (if a = pc then _ else _) = _
    by_cases hpc : a = pc
    · rw [if_pos hpc, ih hrest, List.takeWhile_cons_of_pos (by simp [ha, hpc])]
      rfl
    · rw [if_neg hpc, List.takeWhile_cons_of_neg (by simp [ha, hpc])]
      rfl

theorem takeWhile_eq_iff_of_ne {pc pc' : FileAddr} (hne : pc' ≠ pc) (f : Die) (inlined : List Die) :
    ((f :: inlined).reverse.takeWhile fun d => I.lowPc d = .ok pc').length =
        inlinedFrom I pc inlined ↔
      I.lowPc (inlined.getLastD f) ≠ .ok pc' ∧
        (inlined ≠ [] → I.lowPc (inlined.getLastD f) ≠ .ok pc) := by
  rcases List.eq_nil_or_concat inlined with rfl | ⟨outer, inner, rfl⟩
  · by_cases hf : I.lowPc f = .ok pc'
    · simp [hf, inlinedFrom]
    · simp [hf, inlinedFrom]
  · have hreverse : (f :: outer.concat inner).reverse = inner :: (f :: outer).reverse := by simp
    have hlast : (outer.concat inner).getLastD f = inner := by simp
    have hinlined : inlinedFrom I pc (outer.concat inner) =
        ((inner :: outer.reverse).takeWhile fun d => I.lowPc d = .ok pc).length := by
      simp [inlinedFrom]
    rw [hreverse, hlast, hinlined, List.takeWhile_cons, List.takeWhile_cons]
    by_cases hthere : I.lowPc inner = .ok pc'
    · have hother : I.lowPc inner ≠ .ok pc := by
        rw [hthere]
        exact fun heq => hne (Except.ok.inj heq)
      simp [hthere, hne]
    · by_cases hhere : I.lowPc inner = .ok pc
      · simp [hhere, Ne.symm hne]
      · simp [hthere, hhere]

theorem takeWhile_eq_iff {pc : FileAddr} (f : Die) (inlined : List Die) :
    ((f :: inlined).reverse.takeWhile fun d => I.lowPc d = .ok pc).length =
        inlinedFrom I pc inlined ↔ ∃ d ∈ f :: inlined, I.lowPc d ≠ .ok pc := by
  rw [List.reverse_cons, List.takeWhile_append]
  unfold inlinedFrom
  split_ifs with hall
  · -- all that is inlined begins at the pc, so the function decides
    have hinlined : ∀ d ∈ inlined, I.lowPc d = .ok pc := by
      have hself := List.takeWhile_eq_self_iff.mp
        ((List.takeWhile_prefix _ (l := inlined.reverse)).eq_of_length hall)
      exact fun d hd => by simpa using hself d (List.mem_reverse.mpr hd)
    rw [hall, List.length_append]
    by_cases hf : I.lowPc f = .ok pc
    · refine iff_of_false (by simp [hf]) ?_
      rintro ⟨d, hd, hlow⟩
      obtain rfl | hd := List.mem_cons.mp hd
      · exact hlow hf
      · exact hlow (hinlined d hd)
    · exact iff_of_true (by simp [hf]) ⟨f, List.mem_cons_self, hf⟩
  · refine iff_of_true rfl ?_
    by_contra hno
    apply hall
    have hself : inlined.reverse.takeWhile (fun d => I.lowPc d = .ok pc) = inlined.reverse := by
      rw [List.takeWhile_eq_self_iff]
      intro d hd
      by_contra hlow
      exact hno ⟨d, List.mem_cons_of_mem f (List.mem_reverse.mp hd), by simpa using hlow⟩
    rw [hself]

end Height

variable {σ : Type} {T : Traced σ} {I : FrameInfo} {s : σ}

theorem resetInlineHeight_iff {tid : Tid} {st : Stack} {pc pc' : FileAddr} {f : Die}
    {inlined : List Die} (hpc : getPcFileAddress T I (some tid) s = .ok pc s)
    (hcurrent : getPcFileAddress T I none s = .ok pc' s) (helf : pc.elf ≠ none)
    (hstack : I.inlineStackAtAddress pc = .ok (f :: inlined))
    (hlow : ∀ d ∈ f :: inlined, ∃ a, I.lowPc d = .ok a) :
    (∃ n, resetInlineHeight T I tid s = .ok n s ∧
      Stack.resetInlineHeight T I tid (s, st) =
        .ok () (s, { st with inlineHeight := BitVec.ofNat 32 n }) ∧
      HeightAt I pc f inlined n) ↔ CountsInlined I pc pc' f inlined := by
  have hat : inlineStackAtPc T I tid s = .ok (f :: inlined) s := by
    unfold inlineStackAtPc
    rw [bind_ok hpc, if_neg helf, hstack]
    rfl
  let n := ((f :: inlined).reverse.takeWhile fun d => I.lowPc d = .ok pc').length
  have hcount : resetInlineHeight T I tid s = .ok n s := by
    unfold resetInlineHeight
    rw [bind_ok hat, bind_ok hcurrent, countInlined_eq fun d hd => hlow d (List.mem_reverse.mp hd)]
    rfl
  have hmeaning : (∃ m, resetInlineHeight T I tid s = .ok m s ∧
      Stack.resetInlineHeight T I tid (s, st) =
        .ok () (s, { st with inlineHeight := BitVec.ofNat 32 m }) ∧ HeightAt I pc f inlined m) ↔
      n = inlinedFrom I pc inlined := by
    constructor
    · rintro ⟨m, hm, -, hheight⟩
      rw [hcount] at hm
      cases hm
      exact heightAt_iff.mp hheight
    · intro hn
      exact ⟨n, hcount, resetInlineHeight_ok.mpr ⟨n, s, hcount, rfl⟩, heightAt_iff.mpr hn⟩
  rw [hmeaning]
  unfold CountsInlined
  split_ifs with hsame
  · subst hsame
    exact takeWhile_eq_iff f inlined
  · exact takeWhile_eq_iff_of_ne hsame f inlined

/-- Two subroutines inlined into each other at the address 16, in a function that begins at
`low`. -/
def twoInlined (low : BitVec 64) : FrameInfo :=
  { oneFunction with
    inlineStackAtAddress := fun _ => .ok [{ next := 0 }, { next := 1 }, { next := 2 }]
    lowPc := fun d => .ok { elf := some 0, addr := if d.next = 0 then low else 16#64 } }

theorem resetInlineHeight_twoInlined :
    (∃ n, resetInlineHeight inferior (twoInlined 8#64) 1 atSixteen = .ok n atSixteen ∧
      Stack.resetInlineHeight inferior (twoInlined 8#64) 1 (atSixteen, {}) =
        .ok () (atSixteen, { inlineHeight := BitVec.ofNat 32 n }) ∧
      HeightAt (twoInlined 8#64) { elf := some 0, addr := 16#64 } { next := 0 }
        [{ next := 1 }, { next := 2 }] n) ↔
      CountsInlined (twoInlined 8#64) { elf := some 0, addr := 16#64 }
        { elf := some 0, addr := 16#64 } { next := 0 } [{ next := 1 }, { next := 2 }] :=
  resetInlineHeight_iff rfl rfl (by decide) rfl fun _ _ => ⟨_, rfl⟩

theorem resetInlineHeight_not_for_all : ¬ ∀ (I : FrameInfo) (s : Process) (tid : Tid)
    (pc : FileAddr) (f : Die) (inlined : List Die),
    getPcFileAddress inferior I (some tid) s = .ok pc s → getPcFileAddress inferior I none s = .ok pc s →
    pc.elf ≠ none → I.inlineStackAtAddress pc = .ok (f :: inlined) →
    (∀ d ∈ f :: inlined, ∃ a, I.lowPc d = .ok a) →
    ∃ n, resetInlineHeight inferior I tid s = .ok n s ∧ HeightAt I pc f inlined n := by
  intro h
  obtain ⟨n, hn, hheight⟩ := h (twoInlined 16#64) atSixteen 1 { elf := some 0, addr := 16#64 }
    { next := 0 } [{ next := 1 }, { next := 2 }] rfl rfl (by decide) rfl fun _ _ => ⟨_, rfl⟩
  have hthree : resetInlineHeight inferior (twoInlined 16#64) 1 atSixteen = .ok 3 atSixteen := rfl
  rw [hthree] at hn
  cases hn
  have htwo : inlinedFrom (twoInlined 16#64) { elf := some 0, addr := 16#64 }
      [{ next := 1 }, { next := 2 }] = 2 := by decide
  exact absurd (heightAt_iff.mp hheight) (by rw [htwo]; decide)

end KDebugger.Process
