import KDebugger.Descents
import KDebugger.Dwarf.DieBounds
import KDebugger.Dwarf.Indexing

namespace KDebugger.Dwarf

open ByteStream Leb128 Exec Descents

namespace DwarfInfo

/-- One turn of the loop of `function_containing_address`. -/
def functionAt (dw : DwarfInfo) (address : FileAddr) (e : IndexEntry) :
    Except Failure (Option Die) := do
  let d ← dw.parseDieAt e.cu e.pos
  let contains ← d.containsAddress dw address
  if contains then
    match d.abbrevEntry with
    | none => .error .undefined
    | some entry => pure (if entry.tag = dwTagSubprogram then some d else none)
  else pure none

/-- `function_containing_address`.  The entries of the multimap come in some order. -/
def functionContainingAddress (dw : DwarfInfo) (order : FunctionIndex → FunctionIndex) (depth : ℕ)
    (address : FileAddr) : EStateM Failure FunctionIndex (Option Die) := do
  dw.index depth
  let functionIndex ← get
  ofExcept ((order functionIndex).findSomeM? fun x => dw.functionAt address x.2)

def inlinedAt (dw : DwarfInfo) (address : FileAddr) (child : Die) : Except Failure Bool :=
  match child.abbrevEntry with
  | none => .error .undefined
  | some entry =>
    if entry.tag = dwTagInlinedSubroutine then child.containsAddress dw address else .ok false

/-- The loop of `inline_stack_at_address`, from the last DIE of the stack on. -/
def inlinedBelow (dw : DwarfInfo) (address : FileAddr) : ℕ → Die → Except Failure (List Die)
  -- the first inlined child only, and nothing in a lexical block
  | 0, _ => .error .exhausted
  | n + 1, last => do
    let children ← dw.children last
    match ← children.findM? (dw.inlinedAt address) with
    | none => pure []
    | some child => do
      let rest ← inlinedBelow dw address n child
      pure (child :: rest)

/-- `inline_stack_at_address`.  Every turn goes further into the unit, which bounds the
loop. -/
def inlineStackAtAddress (dw : DwarfInfo) (order : FunctionIndex → FunctionIndex) (depth : ℕ)
    (address : FileAddr) : EStateM Failure FunctionIndex (List Die) := do
  match ← dw.functionContainingAddress order depth address with
  | none => pure []
  | some func => do
    let inlined ← ofExcept (dw.inlinedBelow address dw.fuel func)
    pure (func :: inlined)

end DwarfInfo

def Siblings.forest (cu : CompileUnit) : ℕ → Siblings → Forest Die
  | _, .null _ => .nil
  | p, .leaf h rest => .tree (h.die cu p) .nil (rest.forest cu (p + h.length))
  | p, .node h sub rest =>
    .tree (h.die cu p) (sub.forest cu (p + h.length)) (rest.forest cu (p + h.length + sub.length))

/-- What hangs below the root of a tree. -/
def DieTree.forest (cu : CompileUnit) (p : ℕ) : DieTree → Forest Die
  | .leaf _ => .nil
  | .node h sub => sub.forest cu (p + h.length)

/-- The trees below the root of a tree, with their positions. -/
def DieTree.below (p : ℕ) : DieTree → List (ℕ × DieTree)
  | .leaf _ => []
  | .node h sub => sub.subtrees (p + h.length)

theorem DieTree.subtrees_eq (p : ℕ) (t : DieTree) : t.subtrees p = (p, t) :: t.below p := by
  cases t <;> rfl

theorem Siblings.subtrees_trans (s : Siblings) :
    ∀ {p q : ℕ} {u : DieTree}, (q, u) ∈ s.subtrees p → u.below q ⊆ s.subtrees p := by
  induction s with
  | null z => nofun
  | leaf h rest ih =>
    intro p q u hmem
    rcases List.mem_cons.mp hmem with heq | hmem
    · obtain ⟨rfl, rfl⟩ := Prod.mk.inj heq
      nofun
    · exact fun y hy => List.mem_cons_of_mem _ (ih hmem hy)
  | node h sub rest ihSub ihRest =>
    intro p q u hmem y hy
    apply List.mem_cons_of_mem
    apply List.mem_append.mpr
    rcases List.mem_cons.mp hmem with heq | hmem
    · obtain ⟨rfl, rfl⟩ := Prod.mk.inj heq
      exact .inl hy
    · rcases List.mem_append.mp hmem with hmem | hmem
      · exact .inl (ihSub hmem hy)
      · exact .inr (ihRest hmem hy)

theorem DieTree.subtrees_trans {p q : ℕ} {t u : DieTree} (h : (q, u) ∈ t.subtrees p) :
    u.below q ⊆ t.subtrees p := by
  intro y hy
  rw [subtrees_eq] at h ⊢
  apply List.mem_cons_of_mem
  rcases List.mem_cons.mp h with heq | h
  · obtain ⟨rfl, rfl⟩ := Prod.mk.inj heq
    exact hy
  · cases t with
    | leaf h' => cases h
    | node h' sub => exact sub.subtrees_trans h hy

theorem Siblings.preorder_forest (cu : CompileUnit) (s : Siblings) :
    ∀ p : ℕ, (s.forest cu p).preorder = (s.subtrees p).map fun x => x.2.head.die cu x.1 := by
  induction s with
  | null z => intro p; rfl
  | leaf h rest ih =>
    intro p
    simp only [forest, subtrees, Forest.preorder, List.nil_append, List.map_cons, ih, DieTree.head]
  | node h sub rest ihSub ihRest =>
    intro p
    simp only [forest, subtrees, Forest.preorder, List.map_cons, List.map_append, ihSub, ihRest,
      DieTree.head]

theorem DieTree.preorder_forest (cu : CompileUnit) (p : ℕ) (t : DieTree) :
    (t.forest cu p).preorder = (t.below p).map fun x => x.2.head.die cu x.1 := by
  cases t with
  | leaf h => rfl
  | node h sub => exact sub.preorder_forest cu _

section Descent

variable {dw : DwarfInfo} {cu : CompileUnit} {a : FileAddr}

/-- An inlined subroutine whose range contains the address. -/
def inlinedOver (dw : DwarfInfo) (a : FileAddr) (d : Die) : Bool := dw.inlinedAt a d = .ok true

/-- The test can be made on a DIE. -/
def Tested (dw : DwarfInfo) (a : FileAddr) (d : Die) : Prop := ∃ b, dw.inlinedAt a d = .ok b

theorem inlinedAt_eq {d : Die} (h : Tested dw a d) : dw.inlinedAt a d = .ok (inlinedOver dw a d) := by
  obtain ⟨b, hb⟩ := h
  unfold inlinedOver
  rw [hb]
  cases b <;> rfl

def turnFrom (dw : DwarfInfo) (a : FileAddr) (n : ℕ) (children : List Die) :
    Except Failure (List Die) := do
  match ← children.findM? (dw.inlinedAt a) with
  | none => pure []
  | some child => do
    let rest ← dw.inlinedBelow a n child
    pure (child :: rest)

theorem inlinedBelow_succ {n : ℕ} {d : Die} {children : List Die} (h : dw.children d = .ok children) :
    dw.inlinedBelow a (n + 1) d = turnFrom dw a n children := by
  rw [DwarfInfo.inlinedBelow, h]
  rfl

theorem turnFrom_marked {n : ℕ} {d : Die} {ds rest : List Die} (hd : dw.inlinedAt a d = .ok true)
    (hrest : dw.inlinedBelow a n d = .ok rest) : turnFrom dw a n (d :: ds) = .ok (d :: rest) := by
  simp only [turnFrom, List.findM?, hd, hrest, bind, Except.bind, pure, Except.pure]

theorem turnFrom_unmarked {n : ℕ} {d : Die} {ds : List Die} (hd : dw.inlinedAt a d = .ok false) :
    turnFrom dw a n (d :: ds) = turnFrom dw a n ds := by
  simp only [turnFrom, List.findM?, hd, bind, Except.bind]

theorem turnFrom_dies (s : Siblings) :
    ∀ {p n : ℕ}, Placed dw.image cu p s.bytes → s.Fits cu p → s.weight ≤ n →
      (∀ x ∈ s.subtrees p, Tested dw a (x.2.head.die cu x.1)) →
      turnFrom dw a n (s.dies cu p) = .ok ((s.forest cu p).descend (inlinedOver dw a)) := by
  induction s with
  | null z => intro p n _ _ _ _; rfl
  | leaf h rest ih =>
    intro p n hp hfit hn htested
    obtain ⟨hh, hrest⟩ := placed_leaf.mp hp
    obtain ⟨hc, hab, hfitRest⟩ := hfit
    have hpos := rest.weight_pos
    simp only [Siblings.weight] at hn
    obtain ⟨n, rfl⟩ : ∃ k, n = k + 1 := ⟨n - 1, by omega⟩
    have hd : dw.inlinedAt a (h.die cu p) = .ok (inlinedOver dw a (h.die cu p)) :=
      inlinedAt_eq (htested (p, .leaf h) List.mem_cons_self)
    rw [Siblings.dies, Siblings.forest, Forest.descend]
    cases hmark : inlinedOver dw a (h.die cu p) with
    | true =>
      -- a DIE without children ends the descent
      have htree : Encoded dw cu p (.leaf h) := ⟨hh, hc, hab⟩
      have hnone : dw.inlinedBelow a (n + 1) (h.die cu p) = .ok [] := inlinedBelow_succ htree.children
      exact turnFrom_marked (hd.trans (congrArg _ hmark)) hnone
    | false =>
      rw [turnFrom_unmarked (hd.trans (congrArg _ hmark))]
      exact ih hrest hfitRest (by omega) fun x hx => htested x (List.mem_cons_of_mem _ hx)
  | node h sub rest ihSub ihRest =>
    intro p n hp hfit hn htested
    obtain ⟨hh, hsub, hrest⟩ := placed_node.mp hp
    obtain ⟨hc, hab, hattr, hfitSub, hfitRest⟩ := hfit
    simp only [Siblings.weight] at hn
    obtain ⟨n, rfl⟩ : ∃ k, n = k + 1 := ⟨n - 1, by omega⟩
    have hd : dw.inlinedAt a (h.die cu p) = .ok (inlinedOver dw a (h.die cu p)) :=
      inlinedAt_eq (htested (p, .node h sub) List.mem_cons_self)
    rw [Siblings.dies, Siblings.forest, Forest.descend]
    cases hmark : inlinedOver dw a (h.die cu p) with
    | true =>
      have htree : Encoded dw cu p (.node h sub) :=
        ⟨placed_append.mpr ⟨hh, hsub⟩, hc, hab, hattr, hfitSub⟩
      have hbelow := ihSub hsub hfitSub (show sub.weight ≤ n by omega)
        fun x hx => htested x (List.mem_cons_of_mem _ (List.mem_append_left _ hx))
      have hrest : dw.inlinedBelow a (n + 1) (h.die cu p) = _ :=
        (inlinedBelow_succ htree.children).trans hbelow
      exact turnFrom_marked (hd.trans (congrArg _ hmark)) hrest
    | false =>
      rw [turnFrom_unmarked (hd.trans (congrArg _ hmark))]
      exact ihRest hrest hfitRest (by omega)
        fun x hx => htested x (List.mem_cons_of_mem _ (List.mem_append_right _ hx))

theorem inlinedBelow_eq {p : ℕ} {t : DieTree} (ht : Encoded dw cu p t)
    (htested : ∀ x ∈ t.below p, Tested dw a (x.2.head.die cu x.1)) :
    dw.inlinedBelow a dw.fuel (t.head.die cu p) =
      .ok ((t.forest cu p).descend (inlinedOver dw a)) := by
  have hfuel : dw.fuel = 2 * dw.image.size + 1 + 1 := rfl
  rw [hfuel, inlinedBelow_succ ht.children]
  cases t with
  | leaf h => rfl
  | node h sub =>
    obtain ⟨-, hsub⟩ := placed_append.mp ht.placed
    have hw := weight_le_fuel hsub
    exact turnFrom_dies sub hsub ht.fits.2.2.2 (by omega) htested

end Descent

/-- The ranges of all function DIEs can be read. -/
def Ranged (dw : DwarfInfo) (a : FileAddr) (units : List (CompileUnit × DieTree)) : Prop :=
  ∀ g ∈ functions units, ∃ b, (g.head.die g.cu g.pos).containsAddress dw a = .ok b

/-- An entry of a subprogram whose range contains the address. -/
def SubprogramOver (dw : DwarfInfo) (a : FileAddr) (e : IndexEntry) : Prop :=
  ∃ d entry, dw.parseDieAt e.cu e.pos = .ok d ∧ d.abbrevEntry = some entry ∧
    entry.tag = dwTagSubprogram ∧ d.containsAddress dw a = .ok true

section Function

variable {dw : DwarfInfo} {a : FileAddr} {units : List (CompileUnit × DieTree)}
  {names : Occurrence → Option (List Byte)}

theorem containsAddress_of_not_code (h : Head) (cu : CompileUnit) (p : ℕ)
    (hlow : (h.entry.attrSpecs.any fun spec => spec.attr == dwAtLowPc) = false)
    (hranges : (h.entry.attrSpecs.any fun spec => spec.attr == dwAtRanges) = false) :
    (h.die cu p).containsAddress dw a = .ok false := by
  unfold Die.containsAddress
  rw [if_neg (by simp [Head.die]), contains_die, contains_die, hlow, hranges]
  split_ifs <;> rfl

/-- Where the ranges can be read, the test can be made on every DIE of a unit. -/
theorem tested_of_ranged (h : Ranged dw a units) {x : CompileUnit × DieTree} (hx : x ∈ units)
    {y : ℕ × DieTree} (hy : y ∈ x.2.subtrees (x.1.data.first + 11)) :
    Tested dw a (y.2.head.die x.1 y.1) := by
  unfold Tested DwarfInfo.inlinedAt
  change ∃ b, (if y.2.head.entry.tag = dwTagInlinedSubroutine then
    (y.2.head.die x.1 y.1).containsAddress dw a else .ok false) = .ok b
  by_cases htag : y.2.head.entry.tag = dwTagInlinedSubroutine
  · rw [if_pos htag]
    by_cases hcode : y.2.head.isFunction = true
    · apply h ⟨x.1, y.1, y.2.head⟩
      apply List.mem_flatMap.mpr
      exact ⟨x, hx, List.mem_map.mpr ⟨y, List.mem_filter.mpr ⟨hy, hcode⟩, rfl⟩⟩
    · simp only [Head.isFunction, htag, beq_self_eq_true, Bool.or_true, Bool.and_true,
        Bool.or_eq_true, not_or, Bool.not_eq_true] at hcode
      exact ⟨false, containsAddress_of_not_code _ _ _ hcode.1 hcode.2⟩
  · exact ⟨false, if_neg htag⟩

theorem mem_entries {x : List Byte × IndexEntry} {fs : List Occurrence} (hx : x ∈ entries names fs) :
    ∃ g ∈ fs, x.2 = ⟨g.cu, g.pos⟩ := by
  obtain ⟨g, hg, hmap⟩ := List.mem_filterMap.mp hx
  obtain ⟨s, -, rfl⟩ := Option.map_eq_some_iff.mp hmap
  exact ⟨g, hg, rfl⟩

theorem parse_of_function (henc : ∀ x ∈ units, Encoded dw x.1 (x.1.data.first + 11) x.2)
    {g : Occurrence} (hg : g ∈ functions units) :
    dw.parseDieAt g.cu g.pos = .ok (g.head.die g.cu g.pos) := by
  obtain ⟨x, hx, hmem⟩ := List.mem_flatMap.mp hg
  obtain ⟨y, hy, rfl⟩ := List.mem_map.mp hmem
  exact ((henc x hx).subtree (List.mem_filter.mp hy).1).parse

theorem functionAt_eq (henc : ∀ x ∈ units, Encoded dw x.1 (x.1.data.first + 11) x.2)
    (hranged : Ranged dw a units) {g : Occurrence} (hg : g ∈ functions units) :
    ∃ r, dw.functionAt a ⟨g.cu, g.pos⟩ = .ok r ∧
      (r = some (g.head.die g.cu g.pos) ∧ SubprogramOver dw a ⟨g.cu, g.pos⟩ ∨
        r = none ∧ ¬ SubprogramOver dw a ⟨g.cu, g.pos⟩) := by
  have hparse := parse_of_function henc hg
  obtain ⟨b, hb⟩ := hranged g hg
  have hover : SubprogramOver dw a ⟨g.cu, g.pos⟩ ↔
      g.head.entry.tag = dwTagSubprogram ∧ (g.head.die g.cu g.pos).containsAddress dw a = .ok true := by
    constructor
    · rintro ⟨d, entry, hd, hentry, htag, hin⟩
      cases hparse.symm.trans hd
      cases hentry
      exact ⟨htag, hin⟩
    · rintro ⟨htag, hin⟩
      exact ⟨_, _, hparse, rfl, htag, hin⟩
  have hturn : dw.functionAt a ⟨g.cu, g.pos⟩ =
      .ok (if b = true ∧ g.head.entry.tag = dwTagSubprogram then some (g.head.die g.cu g.pos)
        else none) := by
    unfold DwarfInfo.functionAt
    rw [hparse]
    change ((g.head.die g.cu g.pos).containsAddress dw a >>= _) = _
    rw [hb]
    cases b with
    | false => rfl
    | true =>
      simp only [true_and]
      rfl
  refine ⟨_, hturn, ?_⟩
  rw [hover, hb]
  by_cases hall : b = true ∧ g.head.entry.tag = dwTagSubprogram
  · obtain ⟨rfl, htag⟩ := hall
    exact .inl ⟨if_pos ⟨rfl, htag⟩, htag, rfl⟩
  · refine .inr ⟨if_neg hall, ?_⟩
    rintro ⟨htag, hb⟩
    exact hall ⟨Except.ok.inj hb, htag⟩

theorem functionAt_over (henc : ∀ x ∈ units, Encoded dw x.1 (x.1.data.first + 11) x.2)
    (hranged : Ranged dw a units) {g : Occurrence} (hg : g ∈ functions units)
    (hover : SubprogramOver dw a ⟨g.cu, g.pos⟩) :
    dw.functionAt a ⟨g.cu, g.pos⟩ = .ok (some (g.head.die g.cu g.pos)) := by
  obtain ⟨r, hr, ⟨rfl, -⟩ | ⟨-, hnot⟩⟩ := functionAt_eq henc hranged hg
  · exact hr
  · exact absurd hover hnot

theorem functionAt_not_over (henc : ∀ x ∈ units, Encoded dw x.1 (x.1.data.first + 11) x.2)
    (hranged : Ranged dw a units) {g : Occurrence} (hg : g ∈ functions units)
    (hover : ¬ SubprogramOver dw a ⟨g.cu, g.pos⟩) :
    dw.functionAt a ⟨g.cu, g.pos⟩ = .ok none := by
  obtain ⟨r, hr, ⟨-, hyes⟩ | ⟨rfl, -⟩⟩ := functionAt_eq henc hranged hg
  · exact absurd hyes hover
  · exact hr

/-- Of the entries in their order, the entry is the first one of a subprogram over the
address. -/
def FirstOver (dw : DwarfInfo) (a : FileAddr) (l : FunctionIndex) (e : IndexEntry) : Prop :=
  ∃ before name after, l = before ++ (name, e) :: after ∧ ∀ x ∈ before, ¬ SubprogramOver dw a x.2

theorem findFunction_iff (henc : ∀ x ∈ units, Encoded dw x.1 (x.1.data.first + 11) x.2)
    (hranged : Ranged dw a units) {f : Occurrence} (hf : f ∈ functions units)
    (hover : SubprogramOver dw a ⟨f.cu, f.pos⟩) {l : FunctionIndex}
    (hl : ∀ x ∈ l, ∃ g ∈ functions units, x.2 = ⟨g.cu, g.pos⟩) :
    (l.findSomeM? fun x => dw.functionAt a x.2) = .ok (some (f.head.die f.cu f.pos)) ↔
      FirstOver dw a l ⟨f.cu, f.pos⟩ := by
  induction l with
  | nil =>
    apply iff_of_false
    · intro h
      cases h
    · rintro ⟨before, name, after, h, -⟩
      simp at h
  | cons x l ih =>
    obtain ⟨name, e⟩ := x
    obtain ⟨g, hg, rfl⟩ : ∃ g ∈ functions units, e = ⟨g.cu, g.pos⟩ := hl (name, e) List.mem_cons_self
    have hrest := ih fun x hx => hl x (List.mem_cons_of_mem _ hx)
    rw [List.findSomeM?_cons]
    by_cases hgover : SubprogramOver dw a ⟨g.cu, g.pos⟩
    · rw [functionAt_over henc hranged hg hgover]
      change Except.ok (some (g.head.die g.cu g.pos)) = _ ↔ _
      constructor
      · intro h
        have hdie := Option.some.inj (Except.ok.inj h)
        have hcu : g.cu = f.cu := Option.some.inj (congrArg Die.cu hdie)
        have hpos : g.pos = f.pos := Option.some.inj (congrArg Die.pos hdie)
        exact ⟨[], name, l, by rw [hcu, hpos]; rfl, nofun⟩
      · rintro ⟨before, name', after, hsplit, hbefore⟩
        cases before with
        | nil =>
          have hentry : (⟨g.cu, g.pos⟩ : IndexEntry) = ⟨f.cu, f.pos⟩ :=
            congrArg Prod.snd (List.cons.inj hsplit).1
          -- one position is parsed as one DIE
          have hparse := parse_of_function henc hg
          injection hentry with hcu hpos
          rw [hcu, hpos, parse_of_function henc hf] at hparse
          rw [hcu, hpos, Except.ok.inj hparse]
        | cons y before =>
          obtain rfl : (name, (⟨g.cu, g.pos⟩ : IndexEntry)) = y := (List.cons.inj hsplit).1
          exact absurd hgover (hbefore _ List.mem_cons_self)
    · rw [functionAt_not_over henc hranged hg hgover]
      change (l.findSomeM? fun x => dw.functionAt a x.2) = _ ↔ _
      rw [hrest]
      constructor
      · rintro ⟨before, name', after, rfl, hbefore⟩
        refine ⟨(name, ⟨g.cu, g.pos⟩) :: before, name', after, rfl, ?_⟩
        exact List.forall_mem_cons.mpr ⟨hgover, hbefore⟩
      · rintro ⟨before, name', after, hsplit, hbefore⟩
        cases before with
        | nil =>
          have hentry : (⟨g.cu, g.pos⟩ : IndexEntry) = ⟨f.cu, f.pos⟩ :=
            congrArg Prod.snd (List.cons.inj hsplit).1
          rw [hentry] at hgover
          exact absurd hover hgover
        | cons y before =>
          exact ⟨before, name', after, (List.cons.inj hsplit).2,
            fun x hx => hbefore x (List.mem_cons_of_mem _ hx)⟩

end Function

/-- The inlined subroutines over the address anywhere below a function. -/
def inlinedWithin (dw : DwarfInfo) (a : FileAddr) (cu : CompileUnit) (p : ℕ) (t : DieTree) : List Die :=
  ((t.below p).map fun x => x.2.head.die cu x.1).filter (inlinedOver dw a)

/-- With depth enough, the stack is the function and what is inlined below it. -/
def StackLaw (dw : DwarfInfo) (order : FunctionIndex → FunctionIndex) (a : FileAddr)
    (cu : CompileUnit) (p : ℕ) (t : DieTree) : Prop :=
  ∃ N, ∀ n ≥ N, outcome (dw.inlineStackAtAddress order n a) [] =
    .ok (t.head.die cu p :: inlinedWithin dw a cu p t)

section Stack

variable {dw : DwarfInfo} {order : FunctionIndex → FunctionIndex} {a : FileAddr}
  {units : List (CompileUnit × DieTree)} {names : Occurrence → Option (List Byte)}
  {x : CompileUnit × DieTree} {p : ℕ} {t : DieTree}

theorem mem_functions_of_over (hx : x ∈ units) (ht : (p, t) ∈ x.2.subtrees (x.1.data.first + 11))
    (htag : t.head.entry.tag = dwTagSubprogram)
    (hin : (t.head.die x.1 p).containsAddress dw a = .ok true) :
    (⟨x.1, p, t.head⟩ : Occurrence) ∈ functions units := by
  have hcode : t.head.isFunction = true := by
    unfold Head.isFunction
    rw [htag, beq_self_eq_true, Bool.true_or, Bool.and_true]
    by_contra hno
    rw [Bool.or_eq_true, not_or, Bool.not_eq_true, Bool.not_eq_true] at hno
    rw [containsAddress_of_not_code _ _ _ hno.1 hno.2] at hin
    cases hin
  apply List.mem_flatMap.mpr
  exact ⟨x, hx, List.mem_map.mpr ⟨(p, t), List.mem_filter.mpr ⟨ht, hcode⟩, rfl⟩⟩

theorem inlineStack_of_index {n : ℕ} {m : FunctionIndex} (hindex : dw.index n [] = .ok () m) :
    outcome (dw.inlineStackAtAddress order n a) [] =
      ((order m).findSomeM? fun x => dw.functionAt a x.2) >>= fun
        | none => pure []
        | some func => dw.inlinedBelow a dw.fuel func >>= fun inlined => pure (func :: inlined) := by
  have hfunction : dw.functionContainingAddress order n a [] =
      (ofExcept ((order m).findSomeM? fun x => dw.functionAt a x.2) :
        EStateM Failure FunctionIndex (Option Die)) m := by
    unfold DwarfInfo.functionContainingAddress
    rw [bind_ok hindex]
    exact bind_ok (get_eq m)
  unfold DwarfInfo.inlineStackAtAddress
  cases hsearch : (order m).findSomeM? fun x => dw.functionAt a x.2 with
  | error e =>
    rw [hsearch] at hfunction
    exact outcome_bind_error hfunction
  | ok found =>
    rw [hsearch] at hfunction
    rw [outcome_bind_ok hfunction]
    cases found with
    | none => rfl
    | some func => exact outcome_ofExcept_bind _ _ _

/-- The stack begins with the function exactly when the entry of the function is first, and
then goes on as the descent from it does. -/
theorem inlineStack_iff_first (henc : ∀ x ∈ units, Encoded dw x.1 (x.1.data.first + 11) x.2)
    (horder : ∀ m, (order m).Perm m) (hranged : Ranged dw a units) (hx : x ∈ units)
    (ht : (p, t) ∈ x.2.subtrees (x.1.data.first + 11)) (htag : t.head.entry.tag = dwTagSubprogram)
    (hin : (t.head.die x.1 p).containsAddress dw a = .ok true) {n : ℕ}
    (hindex : dw.index n [] = .ok () (entries names (functions units))) (rest : List Die) :
    outcome (dw.inlineStackAtAddress order n a) [] = .ok (t.head.die x.1 p :: rest) ↔
      FirstOver dw a (order (entries names (functions units))) ⟨x.1, p⟩ ∧
        (t.forest x.1 p).descend (inlinedOver dw a) = rest := by
  -- the loop follows first marked children, the law wants all marked DIEs
  have hf := mem_functions_of_over hx ht htag hin
  have hover : SubprogramOver dw a ⟨x.1, p⟩ :=
    ⟨_, _, parse_of_function henc hf, rfl, htag, hin⟩
  have hl : ∀ y ∈ order (entries names (functions units)), ∃ g ∈ functions units,
      y.2 = ⟨g.cu, g.pos⟩ := fun y hy => mem_entries ((horder _).mem_iff.mp hy)
  have hfind := findFunction_iff henc hranged hf hover hl
  have hbelow : dw.inlinedBelow a dw.fuel (t.head.die x.1 p) =
      .ok ((t.forest x.1 p).descend (inlinedOver dw a)) := by
    apply inlinedBelow_eq ((henc x hx).subtree ht)
    intro y hy
    exact tested_of_ranged hranged hx (DieTree.subtrees_trans ht hy)
  rw [inlineStack_of_index hindex, ← hfind]
  constructor
  · intro h
    obtain ⟨found, hfound, hrest⟩ := except_bind_eq_ok.mp h
    cases found with
    | none =>
      cases hrest
    | some func =>
      obtain ⟨inlined, hinlined, hcons⟩ := except_bind_eq_ok.mp hrest
      obtain ⟨rfl, rfl⟩ := List.cons.inj (Except.ok.inj hcons)
      rw [hbelow] at hinlined
      exact ⟨hfound, Except.ok.inj hinlined⟩
  · rintro ⟨hfound, rfl⟩
    rw [hfound]
    change (dw.inlinedBelow a dw.fuel (t.head.die x.1 p) >>= _) = _
    rw [hbelow]
    rfl

/-- When the stack is right: every name can be reached, no other function over the address
comes first in the index, and below the function every inlined subroutine over the address is
a child of the function or of another one, and the only one there. -/
structure Followed (dw : DwarfInfo) (order : FunctionIndex → FunctionIndex) (a : FileAddr)
    (units : List (CompileUnit × DieTree)) (names : Occurrence → Option (List Byte))
    (cu : CompileUnit) (p : ℕ) (t : DieTree) : Prop where
  named : ∀ g ∈ functions units, NameReachable dw names g
  first : FirstOver dw a (order (entries names (functions units))) ⟨cu, p⟩
  chained : (t.forest cu p).Chained (inlinedOver dw a)

theorem inlinedWithin_eq (cu : CompileUnit) :
    inlinedWithin dw a cu p t = (t.forest cu p).preorder.filter (inlinedOver dw a) := by
  rw [inlinedWithin, DieTree.preorder_forest]

theorem followed_of_law (h : WellFormed dw units names) (horder : ∀ m, (order m).Perm m)
    (hranged : Ranged dw a units) (hx : x ∈ units)
    (ht : (p, t) ∈ x.2.subtrees (x.1.data.first + 11)) (htag : t.head.entry.tag = dwTagSubprogram)
    (hin : (t.head.die x.1 p).containsAddress dw a = .ok true) (hlaw : StackLaw dw order a x.1 p t) :
    Followed dw order a units names x.1 p t := by
  obtain ⟨N, hN⟩ := hlaw
  have hnamed : ∀ g ∈ functions units, NameReachable dw names g := by
    obtain ⟨m', hrun⟩ := outcome_eq_ok_iff.mp (hN N le_rfl)
    obtain ⟨found, m, hfound, -⟩ := bind_eq_ok.mp hrun
    obtain ⟨_, m, hindex, -⟩ := bind_eq_ok.mp hfound
    exact nameReachable_of_index h hindex
  obtain ⟨M, hM⟩ := index_of_nameReachable h hnamed
  have hrun := hN (max N M) (by omega)
  obtain ⟨hfirst, hdescend⟩ := (inlineStack_iff_first h.encoded horder hranged hx ht htag hin
    (hM (max N M) (by omega)) _).mp hrun
  rw [inlinedWithin_eq] at hdescend
  exact ⟨hnamed, hfirst, (Forest.descend_eq_iff _).mp hdescend⟩

theorem law_of_followed (h : WellFormed dw units names) (horder : ∀ m, (order m).Perm m)
    (hranged : Ranged dw a units) (hx : x ∈ units)
    (ht : (p, t) ∈ x.2.subtrees (x.1.data.first + 11)) (htag : t.head.entry.tag = dwTagSubprogram)
    (hin : (t.head.die x.1 p).containsAddress dw a = .ok true)
    (hfollowed : Followed dw order a units names x.1 p t) : StackLaw dw order a x.1 p t := by
  obtain ⟨N, hN⟩ := index_of_nameReachable h hfollowed.named
  refine ⟨N, fun n hn => ?_⟩
  rw [inlineStack_iff_first h.encoded horder hranged hx ht htag hin (hN n hn), inlinedWithin_eq]
  exact ⟨hfollowed.first, (Forest.descend_eq_iff _).mpr hfollowed.chained⟩

/-- The stack at an address in a function is the function and all that is inlined there
exactly when the function and the subroutines can be followed. -/
theorem inlineStack_iff (h : WellFormed dw units names) (horder : ∀ m, (order m).Perm m)
    (hranged : Ranged dw a units) (hx : x ∈ units)
    (ht : (p, t) ∈ x.2.subtrees (x.1.data.first + 11)) (htag : t.head.entry.tag = dwTagSubprogram)
    (hin : (t.head.die x.1 p).containsAddress dw a = .ok true) :
    StackLaw dw order a x.1 p t ↔ Followed dw order a units names x.1 p t :=
  ⟨followed_of_law h horder hranged hx ht htag hin, law_of_followed h horder hranged hx ht htag hin⟩

end Stack

open LinkedChild (function no_sibling resolves_function)

namespace InlinedCode

def block : Head :=
  ⟨(Uleb.small 3).toLeb,
    ⟨3#64, 0x0b#64, true, [⟨dwAtRanges, Form.secOffset.code⟩]⟩,
    [[0#8, 0#8, 0#8, 0#8]], rfl, SmallTree.inner.code_ne, OneFunction.nameless.handled⟩

def inlined : Head :=
  ⟨(Uleb.small 4).toLeb,
    ⟨4#64, dwTagInlinedSubroutine, false,
      [⟨dwAtName, Form.string.code⟩, ⟨dwAtRanges, Form.secOffset.code⟩]⟩,
    [[0x67#8] ++ [0#8], [0#8, 0#8, 0#8, 0#8]], rfl, by decide,
    .cons (.string (by decide)) (.cons (.fixed (f := .secOffset) rfl) .nil)⟩

def root : Head := SmallTree.outer

def close : NullEntry := SmallTree.close

/-- The subroutine as a child of the function. -/
def direct : Siblings := .leaf inlined (.null close)

def blocked : Siblings := .node block direct (.null close)

def whole (sub : Siblings) : DieTree := .node root (.node function sub (.null close))

theorem first_ne : 0x1000#64 ≠ RangeIterator.baseAddressFlag := by decide

def items : List RangeItem := [.range 0x1000#64 0x1010#64 first_ne (by decide)]

def unit (sub : Siblings) : CompileUnit :=
  ⟨⟨0, 11 + (whole sub).bytes.length⟩, [root.entry, function.entry, block.entry, inlined.entry]⟩

def info (sub : Siblings) : DwarfInfo where
  elf := 0
  image := .ofList (List.replicate 11 0#8 ++ (whole sub).bytes ++ rangeBytes items)
  getSectionContents _ :=
    some ⟨11 + (whole sub).bytes.length, 11 + (whole sub).bytes.length + (rangeBytes items).length⟩
  compileUnits := [unit sub]

def names (g : Occurrence) : Option (List Byte) :=
  if g.head.entry.tag = dwTagSubprogram then some [0x66#8] else some [0x67#8]

theorem placed (sub : Siblings) : Placed (info sub).image (unit sub) 11 (whole sub).bytes :=
  ⟨bytesAt_ofList_append (List.replicate 11 0#8) (whole sub).bytes (rangeBytes items), le_rfl⟩

theorem encoded_direct : Encoded (info direct) (unit direct) 11 (whole direct) where
  placed := placed direct
  fits := by
    refine ⟨rfl, rfl, no_sibling _ _ rfl, ⟨rfl, rfl, no_sibling _ _ rfl, ?_, trivial⟩⟩
    exact ⟨rfl, rfl, trivial⟩

theorem encoded_blocked : Encoded (info blocked) (unit blocked) 11 (whole blocked) where
  placed := placed blocked
  fits := by
    refine ⟨rfl, rfl, no_sibling _ _ rfl, ⟨rfl, rfl, no_sibling _ _ rfl, ?_, trivial⟩⟩
    exact ⟨rfl, rfl, no_sibling _ _ rfl, ⟨rfl, rfl, trivial⟩, trivial⟩

theorem functions_direct : functions [(unit direct, whole direct)] =
    [⟨unit direct, 12, function⟩, ⟨unit direct, 19, inlined⟩] := rfl

theorem functions_blocked : functions [(unit blocked, whole blocked)] =
    [⟨unit blocked, 12, function⟩, ⟨unit blocked, 24, inlined⟩] := rfl

theorem resolves_inlined (dw : DwarfInfo) {adm : Form → Prop} (h : adm .string) (cu : CompileUnit) :
    Resolves dw adm cu inlined (some [0x67#8]) :=
  have hname : inlined.field dwAtName = some (⟨dwAtName, Form.string.code⟩, [0x67#8] ++ [0#8]) := rfl
  .own hname (.inline (by decide) h)

theorem resolves_names (dw : DwarfInfo) {adm : Form → Prop} (h : adm .string) {cu : CompileUnit}
    {q : ℕ} {g : Occurrence} (hg : g ∈ [⟨cu, 12, function⟩, ⟨cu, q, inlined⟩]) :
    Resolves dw adm g.cu g.head (names g) ∧ (names g).isSome := by
  rcases List.mem_cons.mp hg with rfl | hg
  · exact ⟨resolves_function dw h cu, rfl⟩
  · obtain rfl := List.mem_singleton.mp hg
    exact ⟨resolves_inlined dw h cu, rfl⟩

theorem wellFormed_direct : WellFormed (info direct) [(unit direct, whole direct)] names where
  listed := rfl
  encoded x hx := by
    obtain rfl := List.mem_singleton.mp hx
    exact encoded_direct
  named f hmem := by
    rw [functions_direct] at hmem
    exact (resolves_names _ trivial hmem).1

theorem wellFormed_blocked : WellFormed (info blocked) [(unit blocked, whole blocked)] names where
  listed := rfl
  encoded x hx := by
    obtain rfl := List.mem_singleton.mp hx
    exact encoded_blocked
  named f hmem := by
    rw [functions_blocked] at hmem
    exact (resolves_names _ trivial hmem).1

def inside : FileAddr := ⟨some 0, 0x1008#64⟩

theorem ranged_direct : Ranged (info direct) inside [(unit direct, whole direct)] := by
  intro g hg
  rw [functions_direct] at hg
  rcases List.mem_cons.mp hg with rfl | hg
  · exact ⟨true, by decide +kernel⟩
  · obtain rfl := List.mem_singleton.mp hg
    exact ⟨true, by decide +kernel⟩

theorem ranged_blocked : Ranged (info blocked) inside [(unit blocked, whole blocked)] := by
  intro g hg
  rw [functions_blocked] at hg
  rcases List.mem_cons.mp hg with rfl | hg
  · exact ⟨true, by decide +kernel⟩
  · obtain rfl := List.mem_singleton.mp hg
    exact ⟨true, by decide +kernel⟩

theorem chained_direct :
    ((DieTree.node function direct).forest (unit direct) 12).Chained (inlinedOver (info direct) inside) := by
  have hover : inlinedOver (info direct) inside (inlined.die (unit direct) 19) = true := by decide +kernel
  exact (Forest.chained_marked hover).mpr ⟨Forest.nil_chained, fun b hb => absurd hb List.not_mem_nil⟩

theorem rangeList_blocked : ∀ d ∈ [function.die (unit blocked) 12, block.die (unit blocked) 19,
    inlined.die (unit blocked) 24], d.cu ≠ none ∧ d.contains dwAtRanges = .ok true ∧
      d.rangeList (info blocked) = .ok ⟨⟨34, 66⟩, {}⟩ := by decide +kernel

end InlinedCode

open InlinedCode

/-- The stack in the subroutine that is a child of the function. -/
theorem inlineStack_direct : StackLaw (info direct) id inside (unit direct) 12 (.node function direct) := by
  refine (inlineStack_iff (x := (unit direct, whole direct)) wellFormed_direct (fun m => .refl m)
    ranged_direct List.mem_cons_self (List.mem_cons_of_mem _ List.mem_cons_self) rfl
    (by decide +kernel)).mpr ⟨?_, ⟨[], [0x66#8], [([0x67#8], ⟨unit direct, 19⟩)], rfl, nofun⟩, chained_direct⟩
  intro g hg
  rw [functions_direct] at hg
  have haccepted : Accepted .string := ⟨by decide, by decide⟩
  have hnamed := resolves_names (info direct) haccepted hg
  exact ⟨hnamed.2, hnamed.1⟩

/-- No subprogram is below. -/
def NoneNested (p : ℕ) (t : DieTree) : Prop :=
  ∀ x ∈ t.below p, x.2.head.entry.tag ≠ dwTagSubprogram

/-- The code range of a DIE lies within that of its parent. -/
def RangesNest (dw : DwarfInfo) (cu : CompileUnit) (p : ℕ) (t : DieTree) : Prop :=
  ∀ x ∈ t.subtrees p, ∀ kid ∈ x.2.kids cu x.1, ∀ address,
    kid.containsAddress dw address = .ok true →
      (x.2.head.die cu x.1).containsAddress dw address = .ok true

theorem containsAddress_of_rangeList {dw : DwarfInfo} {d : Die} {l : RangeList} (hcu : d.cu ≠ none)
    (hranges : d.contains dwAtRanges = .ok true) (hlist : d.rangeList dw = .ok l) (address : FileAddr) :
    d.containsAddress dw address =
      if address.elf ≠ some dw.elf then .ok false else l.contains dw address := by
  unfold Die.containsAddress
  rw [if_neg hcu, hranges]
  simp only [hlist, bind, Except.bind, if_true]

theorem rangesNest_blocked : RangesNest (info blocked) (unit blocked) 12 (.node function blocked) := by
  have hsame : ∀ d ∈ [function.die (unit blocked) 12, block.die (unit blocked) 19,
      inlined.die (unit blocked) 24], ∀ address, d.containsAddress (info blocked) address =
        if address.elf ≠ some 0 then .ok false
        else RangeList.contains (info blocked) ⟨⟨34, 66⟩, {}⟩ address := by
    intro d hd address
    obtain ⟨hcu, hranges, hlist⟩ := rangeList_blocked d hd
    exact containsAddress_of_rangeList hcu hranges hlist address
  intro x hx kid hkid address hin
  have hpairs : ∀ x ∈ DieTree.subtrees 12 (.node function blocked), ∀ kid ∈ x.2.kids (unit blocked) x.1,
      kid ∈ [function.die (unit blocked) 12, block.die (unit blocked) 19, inlined.die (unit blocked) 24] ∧
        x.2.head.die (unit blocked) x.1 ∈ [function.die (unit blocked) 12,
          block.die (unit blocked) 19, inlined.die (unit blocked) 24] := by
    decide +kernel
  obtain ⟨hkid, hparent⟩ := hpairs x hx kid hkid
  rw [hsame _ hparent, ← hsame _ hkid]
  exact hin

/-- The subroutine in the block is left out. -/
theorem inlineStack_not_for_all : ¬ ∀ (dw : DwarfInfo) (order : FunctionIndex → FunctionIndex)
    (a : FileAddr) (units : List (CompileUnit × DieTree)) (names : Occurrence → Option (List Byte))
    (x : CompileUnit × DieTree) (p : ℕ) (t : DieTree), WellFormed dw units names →
    (∀ m, (order m).Perm m) → Ranged dw a units → x ∈ units →
    (p, t) ∈ x.2.subtrees (x.1.data.first + 11) → t.head.entry.tag = dwTagSubprogram →
    (t.head.die x.1 p).containsAddress dw a = .ok true → NoneNested p t → RangesNest dw x.1 p t →
    StackLaw dw order a x.1 p t := by
  intro h
  have hmem : (12, DieTree.node function blocked) ∈ (whole blocked).subtrees 11 :=
    List.mem_cons_of_mem _ List.mem_cons_self
  have hnone : NoneNested 12 (.node function blocked) := by
    unfold NoneNested
    decide +kernel
  have hin : (function.die (unit blocked) 12).containsAddress (info blocked) inside = .ok true := by
    decide +kernel
  have hlaw := h (info blocked) id inside _ names (unit blocked, whole blocked) 12 _ wellFormed_blocked
    (fun m => .refl m) ranged_blocked List.mem_cons_self hmem rfl hin hnone rangesNest_blocked
  have hfollowed := followed_of_law (x := (unit blocked, whole blocked)) wellFormed_blocked
    (fun m => .refl m) ranged_blocked List.mem_cons_self hmem rfl hin hlaw
  have hblock : inlinedOver (info blocked) inside (block.die (unit blocked) 19) = false := by
    decide +kernel
  have hunder := hfollowed.chained.hung _ List.mem_cons_self hblock (inlined.die (unit blocked) 24)
    List.mem_cons_self
  exact absurd hunder (by decide +kernel)

end KDebugger.Dwarf
