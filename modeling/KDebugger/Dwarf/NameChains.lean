import KDebugger.Dwarf.CursorFormats
import KDebugger.Dwarf.FunctionIndex
import KDebugger.Following
import Mathlib.Data.Set.Finite.Lattice
import Mathlib.Order.Interval.Finset.Nat

namespace KDebugger.Dwarf

open ByteStream Exec Cur Leb128 Relation

variable {dw : DwarfInfo} {d d' : Die} {cu : CompileUnit} {p : ℕ}

theorem Die.contains_entry {entry : Abbrev} (h : d.abbrevEntry = some entry) (a : BitVec 64) :
    d.contains a = .ok (entry.attrSpecs.any fun spec => spec.attr == a) := by
  rw [Die.contains, h]

theorem Die.contains_null (h : d.abbrevEntry = none) (a : BitVec 64) :
    d.contains a = .error .undefined := by
  rw [Die.contains, h]

namespace DwarfInfo

/-- `die::name` up to its recursive call: the name, or the DIE that is asked next. -/
def nameStep (dw : DwarfInfo) (d : Die) : Except Failure (Option (List Byte) ⊕ Die) := do
  if ← d.contains dwAtName then
    let a ← d.attrOf dwAtName
    let s ← a.asString dw
    return .inl (some s)
  if ← d.contains dwAtSpecification then
    let a ← d.attrOf dwAtSpecification
    let target ← a.asReference dw
    return .inr target
  if ← d.contains dwAtAbstractOrigin then
    let a ← d.attrOf dwAtAbstractOrigin
    let target ← a.asReference dw
    return .inr target
  return .inl none

/-- The DIE whose name is taken for the name of the other one. -/
def RefersTo (dw : DwarfInfo) (d d' : Die) : Prop := LeadsTo dw.nameStep d d'

theorem nameStep_of_entry {entry : Abbrev} (hentry : d.abbrevEntry = some entry) : dw.nameStep d =
    if entry.attrSpecs.any fun spec => spec.attr == dwAtName then do
      let a ← d.attrOf dwAtName
      let s ← a.asString dw
      pure (.inl (some s))
    else if entry.attrSpecs.any fun spec => spec.attr == dwAtSpecification then do
      let a ← d.attrOf dwAtSpecification
      let target ← a.asReference dw
      pure (.inr target)
    else if entry.attrSpecs.any fun spec => spec.attr == dwAtAbstractOrigin then do
      let a ← d.attrOf dwAtAbstractOrigin
      let target ← a.asReference dw
      pure (.inr target)
    else pure (.inl none) := by
  unfold nameStep
  rw [Die.contains_entry hentry, Die.contains_entry hentry, Die.contains_entry hentry]
  rfl

theorem nameStep_null (hentry : d.abbrevEntry = none) : dw.nameStep d = .error .undefined := by
  unfold nameStep
  rw [Die.contains_null hentry]
  rfl

theorem name_succ (dw : DwarfInfo) (n : ℕ) (d : Die) : dw.name (n + 1) d =
    match dw.nameStep d with
    | .error e => .error e
    | .ok (.inl r) => .ok r
    | .ok (.inr d') => dw.name n d' := by
  unfold nameStep
  rw [name]
  cases hentry : d.abbrevEntry with
  | none =>
    rw [Die.contains_null hentry]
    rfl
  | some entry =>
    rw [Die.contains_entry hentry, Die.contains_entry hentry, Die.contains_entry hentry]
    cases entry.attrSpecs.any fun spec => spec.attr == dwAtName with
    | true =>
      cases d.attrOf dwAtName with
      | error e => rfl
      | ok a => cases hs : a.asString dw <;> simp [hs, bind, Except.bind, pure, Except.pure]
    | false =>
      cases entry.attrSpecs.any fun spec => spec.attr == dwAtSpecification with
      | true =>
        cases d.attrOf dwAtSpecification with
        | error e => rfl
        | ok a => cases ht : a.asReference dw <;> simp [ht, bind, Except.bind, pure, Except.pure]
      | false =>
        cases entry.attrSpecs.any fun spec => spec.attr == dwAtAbstractOrigin with
        | true =>
          cases d.attrOf dwAtAbstractOrigin with
          | error e => rfl
          | ok a => cases ht : a.asReference dw <;> simp [ht, bind, Except.bind, pure, Except.pure]
        | false => rfl

theorem name_eq_chase (dw : DwarfInfo) (n : ℕ) (d : Die) : dw.name n d = chase dw.nameStep n d := by
  induction n generalizing d with
  | zero => rfl
  | succ n ih =>
    rw [name_succ, chase]
    cases dw.nameStep d with
    | error e => rfl
    | ok r =>
      cases r with
      | inl r => rfl
      | inr d' => exact ih d'

theorem parseDieAt_placed (h : dw.parseDieAt cu p = .ok d) :
    p < dw.image.size ∧ (∀ cu', d.cu = some cu' → cu' = cu) ∧ ∀ p', d.pos = some p' → p' = p := by
  unfold parseDieAt outcome at h
  cases hparse : parseDie cu (dw.cursorIn cu p) with
  | error e c =>
    rw [hparse] at h
    cases h
  | ok d' c =>
    rw [hparse] at h
    cases h
    obtain ⟨pos, c₁, hpos, hrest⟩ := bind_eq_ok.mp hparse
    cases hpos
    obtain ⟨code, c₂, hcode, hrest⟩ := bind_eq_ok.mp hrest
    obtain ⟨l, hat, -, -⟩ := uleb128_ok hcode
    obtain ⟨b, bs, hbytes⟩ := List.exists_cons_of_ne_nil l.shaped.ne_nil
    rw [hbytes] at hat
    refine ⟨hat.pos_lt_size, ?_⟩
    split_ifs at hrest with hnull
    · obtain ⟨_, _, _, hdone⟩ := bind_eq_ok.mp hrest
      cases hdone
      exact ⟨fun _ h => (nomatch h), fun _ h => (nomatch h)⟩
    · cases hab : cu.abbrevAt code with
      | none =>
        rw [hab] at hrest
        cases hrest
      | some entry =>
        rw [hab] at hrest
        obtain ⟨_, _, _, hrest⟩ := bind_eq_ok.mp hrest
        obtain ⟨_, _, _, hdone⟩ := bind_eq_ok.mp hrest
        cases hdone
        exact ⟨fun _ h => (Option.some.inj h).symm, fun _ h => (Option.some.inj h).symm⟩

/-- A DIE of the unit of another one, or of one of the units of the file. -/
def Located (dw : DwarfInfo) (first : Option CompileUnit) (d : Die) : Prop :=
  ∃ cu ∈ first.toList ++ dw.compileUnits, ∃ p < dw.image.size, dw.parseDieAt cu p = .ok d

theorem located_of_parse (hcu : cu ∈ (d'.cu).toList ++ dw.compileUnits)
    (h : dw.parseDieAt cu p = .ok d) : dw.Located d'.cu d :=
  ⟨cu, hcu, p, (parseDieAt_placed h).1, h⟩

theorem located_of_asReference {a : Attr} {name : BitVec 64} (ha : d.attrOf name = .ok a)
    (h : a.asReference dw = .ok d') : dw.Located d.cu d' := by
  -- a reference leads to an entry of a unit, which may be a null one
  have hcu : d.cu = some a.cu := by
    unfold Die.attrOf at ha
    cases hentry : d.abbrevEntry with
    | none =>
      rw [hentry] at ha
      cases ha
    | some entry =>
      cases hunit : d.cu with
      | none =>
        rw [hentry, hunit] at ha
        cases ha
      | some cu =>
        simp only [hentry, hunit] at ha
        split at ha
        · cases ha
          rfl
        · cases ha
  have hown {offset : ℕ} (hdie : a.dieInUnit dw offset = .ok d') : dw.Located d.cu d' := by
    refine located_of_parse ?_ hdie
    rw [hcu]
    exact List.mem_append_left _ (List.mem_singleton_self _)
  have hat {α : Type} {x : Except Failure α} {offset : α → ℕ}
      (hx : (x.bind fun o => a.dieInUnit dw (offset o)) = .ok d') : dw.Located d.cu d' := by
    cases x with
    | error e => cases hx
    | ok o => exact hown hx
  unfold Attr.asReference at h
  split at h
  · exact hat h
  · exact hat h
  · exact hat h
  · exact hat h
  · cases hoffset : a.decode dw u32 with
    | error e =>
      rw [hoffset] at h
      cases h
    | ok offset =>
      rw [hoffset] at h
      cases hinfo : dw.getSectionContents ".debug_info" with
      | none =>
        simp only [bind, Except.bind, hinfo] at h
        cases h
      | some info =>
        simp only [bind, Except.bind, hinfo] at h
        split at h
        · cases h
        · exact located_of_parse (List.mem_append_right _ (List.mem_of_find?_eq_some ‹_›)) h
  · cases h

theorem RefersTo.located (h : dw.RefersTo d d') : dw.Located d.cu d' := by
  have hvia {name : BitVec 64} (hx : (do
      let a ← d.attrOf name
      let target ← a.asReference dw
      pure (.inr target) : Except Failure (Option (List Byte) ⊕ Die)) = .ok (.inr d')) :
      dw.Located d.cu d' := by
    cases ha : d.attrOf name with
    | error e =>
      rw [ha] at hx
      cases hx
    | ok a =>
      rw [ha] at hx
      cases ht : a.asReference dw with
      | error e => simp [ht, bind, Except.bind] at hx
      | ok target =>
        obtain rfl : target = d' := by simpa [ht, bind, Except.bind, pure, Except.pure] using hx
        exact located_of_asReference ha ht
  cases hentry : d.abbrevEntry with
  | none => cases (nameStep_null hentry).symm.trans h
  | some entry =>
    have hstep := (nameStep_of_entry hentry).symm.trans h
    split_ifs at hstep
    · cases ha : d.attrOf dwAtName with
      | error e =>
        rw [ha] at hstep
        cases hstep
      | ok a =>
        cases hs : a.asString dw <;> simp [ha, hs, bind, Except.bind, pure, Except.pure] at hstep
    · exact hvia hstep
    · exact hvia hstep
    · cases hstep

theorem finite_reached (dw : DwarfInfo) (d : Die) : {x | ReflTransGen dw.RefersTo d x}.Finite := by
  -- the positions in the file are finitely many, and a DIE is parsed from its position
  have hlocated : {x | dw.Located d.cu x}.Finite := by
    have hunion : {x | dw.Located d.cu x} ⊆ ⋃ cu ∈ {cu | cu ∈ d.cu.toList ++ dw.compileUnits},
        ⋃ p ∈ Set.Iio dw.image.size, {x | dw.parseDieAt cu p = .ok x} := by
      rintro x ⟨cu, hcu, p, hp, hparse⟩
      simp only [Set.mem_iUnion]
      exact ⟨cu, hcu, p, hp, hparse⟩
    refine Set.Finite.subset (Set.Finite.biUnion (List.finite_toSet _) fun cu _ => ?_) hunion
    refine (Set.finite_Iio _).biUnion fun p _ => Set.Subsingleton.finite ?_
    intro x hx y hy
    exact Except.ok.inj (hx.symm.trans hy)
  have hreached {x : Die} (hx : ReflTransGen dw.RefersTo d x) : x = d ∨ dw.Located d.cu x := by
    induction hx with
    | refl => exact .inl rfl
    | @tail x y _ hstep ih =>
      right
      obtain ⟨cu, hcu, p, hp, hparse⟩ := hstep.located
      refine ⟨cu, ?_, p, hp, hparse⟩
      obtain rfl | ⟨cu', hcu', p', -, hparse'⟩ := ih
      · exact hcu
      · -- the unit of a DIE that was parsed is the unit it was parsed in
        obtain hown | hunit := List.mem_append.mp hcu
        · obtain rfl := (parseDieAt_placed hparse').2.1 cu (Option.mem_toList.mp hown)
          exact hcu'
        · exact List.mem_append_right _ hunit
  refine (hlocated.insert d).subset fun x hx => ?_
  obtain rfl | hx := hreached hx
  · exact Set.mem_insert _ _
  · exact Set.mem_insert_of_mem _ hx

end DwarfInfo

/-- The name of every DIE is found, or found missing, or an error is raised, exactly where its
references do not come back and none of them leads to what cannot be read. -/
theorem name_settles_iff (dw : DwarfInfo) (d : Die) :
    Settles (dw.name · d) ↔
      (¬ ∃ x, ReflTransGen dw.RefersTo d x ∧ TransGen dw.RefersTo x x) ∧
      ∀ x, ReflTransGen dw.RefersTo d x → Conclusive (dw.nameStep x) := by
  have hchase : (dw.name · d) = (chase dw.nameStep · d) := by
    funext n
    exact dw.name_eq_chase n d
  rw [hchase, settles_iff]
  exact and_congr_left' (ending_iff_acyclic (dw.finite_reached d))

/-- A unit with one function, whose specification is at the offset of the function itself. -/
def ownSpecification : CompileUnit where
  data := ⟨0, 13⟩
  abbrevTable := [⟨1#64, dwTagSubprogram, false, [⟨dwAtSpecification, 0x11#64⟩]⟩]

def selfReferring : DwarfInfo where
  elf := 0
  image := Image.ofList [9#8, 0#8, 0#8, 0#8, 4#8, 0#8, 0#8, 0#8, 0#8, 0#8, 8#8, 1#8, 11#8]
  getSectionContents name := if name = ".debug_info" then some ⟨0, 13⟩ else none
  compileUnits := [ownSpecification]

def selfReferringDie : Die where
  pos := some 11
  cu := some ownSpecification
  abbrevEntry := some ⟨1#64, dwTagSubprogram, false, [⟨dwAtSpecification, 0x11#64⟩]⟩
  attrLocs := [12]
  next := 13

theorem root_selfReferring : selfReferring.root ownSpecification = .ok selfReferringDie := by
  decide

theorem refersTo_self : selfReferring.RefersTo selfReferringDie selfReferringDie := by
  unfold DwarfInfo.RefersTo LeadsTo
  decide

/-- The recursion goes on for as long as there is a stack. -/
theorem name_not_settles_always : ¬ ∀ (dw : DwarfInfo) (cu : CompileUnit) (p : ℕ) (d : Die),
    dw.parseDieAt cu p = .ok d → Settles (dw.name · d) := by
  intro h
  obtain ⟨r, hr, N, hN⟩ := h selfReferring ownSpecification 11 _ root_selfReferring
  have hexhausted (n : ℕ) : selfReferring.name n selfReferringDie = .error .exhausted := by
    induction n with
    | zero => rfl
    | succ n ih =>
      rw [DwarfInfo.name_succ, refersTo_self]
      exact ih
  obtain rfl := (hexhausted N).symm.trans (hN N le_rfl)
  exact hr

end KDebugger.Dwarf
