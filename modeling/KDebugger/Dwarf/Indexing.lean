import KDebugger.Dwarf.FunctionIndex

namespace KDebugger.Dwarf

open ByteStream Leb128 Exec

/-- A DIE of one of the trees. -/
structure Occurrence where
  cu : CompileUnit
  pos : ℕ
  head : Head

/-- A function with code: the DIEs the index is about. -/
def Head.isFunction (h : Head) : Bool :=
  ((h.entry.attrSpecs.any fun spec => spec.attr == dwAtLowPc) ||
      h.entry.attrSpecs.any fun spec => spec.attr == dwAtRanges) &&
    (h.entry.tag == dwTagSubprogram || h.entry.tag == dwTagInlinedSubroutine)

/-- The function DIEs among some placed trees of a unit. -/
def functionsOf (cu : CompileUnit) (trees : List (ℕ × DieTree)) : List Occurrence :=
  (trees.filter fun t => t.2.head.isFunction).map fun t => ⟨cu, t.1, t.2.head⟩

/-- The function DIEs of all units, each unit with its tree. -/
def functions (units : List (CompileUnit × DieTree)) : List Occurrence :=
  units.flatMap fun x => functionsOf x.1 (x.2.subtrees (x.1.data.first + 11))

/-- The entries of the function DIEs that `names` names. -/
def entries (names : Occurrence → Option (List Byte)) (fs : List Occurrence) : FunctionIndex :=
  fs.filterMap fun f => (names f).map fun s => (s, ⟨f.cu, f.pos⟩)

theorem functionsOf_cons (cu : CompileUnit) (t : ℕ × DieTree) (trees : List (ℕ × DieTree)) :
    functionsOf cu (t :: trees) =
      (if t.2.head.isFunction then [⟨cu, t.1, t.2.head⟩] else []) ++ functionsOf cu trees := by
  by_cases h : t.2.head.isFunction <;> simp [functionsOf, h]

theorem mem_functionsOf_cons {cu : CompileUnit} {p : ℕ} {t : DieTree}
    {trees : List (ℕ × DieTree)} {f : Occurrence} :
    f ∈ functionsOf cu ((p, t) :: trees) ↔
      (t.head.isFunction ∧ f = ⟨cu, p, t.head⟩) ∨ f ∈ functionsOf cu trees := by
  rw [functionsOf_cons, List.mem_append]
  by_cases h : t.head.isFunction <;> simp [h]

theorem functionsOf_append (cu : CompileUnit) (ts ts' : List (ℕ × DieTree)) :
    functionsOf cu (ts ++ ts') = functionsOf cu ts ++ functionsOf cu ts' := by
  simp [functionsOf]

theorem entries_append (names : Occurrence → Option (List Byte)) (fs fs' : List Occurrence) :
    entries names (fs ++ fs') = entries names fs ++ entries names fs' := by
  simp [entries]

/-- With depth enough, the pass ends and appends `es`. -/
def Emits (pass : ℕ → EStateM Failure FunctionIndex Unit) (es : FunctionIndex) : Prop :=
  ∃ N, ∀ n ≥ N, ∀ m, pass n m = .ok () (m ++ es)

theorem emits_skip : Emits (fun _ => pure ()) [] := ⟨0, fun _ _ m => by simp [pure, EStateM.pure]⟩

theorem emits_seq {p q : ℕ → EStateM Failure FunctionIndex Unit} {es es' : FunctionIndex}
    (hp : Emits p es) (hq : Emits q es') :
    Emits (fun n => do p n; q n) (es ++ es') := by
  obtain ⟨N, hN⟩ := hp
  obtain ⟨M, hM⟩ := hq
  refine ⟨max N M, fun n hn m => ?_⟩
  have hfirst := hN n (by omega) m
  have hsecond := hM n (by omega) (m ++ es)
  rw [List.append_assoc] at hsecond
  exact (bind_ok hfirst).trans hsecond

theorem emits_succ {p : ℕ → EStateM Failure FunctionIndex Unit} {es : FunctionIndex}
    (h : Emits (fun n => p (n + 1)) es) : Emits p es := by
  obtain ⟨N, hN⟩ := h
  refine ⟨N + 1, fun n hn m => ?_⟩
  obtain ⟨n, rfl⟩ : ∃ k, n = k + 1 := ⟨n - 1, by omega⟩
  exact hN n (by omega) m

section Trees

variable {dw : DwarfInfo} {cu : CompileUnit} {names : Occurrence → Option (List Byte)}

/-- The code finds the name of the DIE, and it is the expected one. -/
def Found (dw : DwarfInfo) (names : Occurrence → Option (List Byte)) (f : Occurrence) : Prop :=
  ∃ s N, names f = some s ∧ ∀ n ≥ N, dw.name n (f.head.die f.cu f.pos) = .ok (some s)

/-- `index_die` on an encoded tree: the entry of its root, then its children. -/
theorem indexDie_tree {p n : ℕ} {t : DieTree} (ht : Encoded dw cu p t) :
    dw.indexDie (n + 1) (t.head.die cu p) =
      (if t.head.isFunction then dw.emplaceFunction n (t.head.die cu p) else pure ()) >>=
        fun _ => (t.kids cu p).forM (dw.indexDie n) := by
  have hchildren := ht.children
  have hlow := contains_die t.head cu p dwAtLowPc
  have hranges := contains_die t.head cu p dwAtRanges
  cases hf : t.head.isFunction <;> simp only [Head.isFunction] at hf <;>
    · simp only [DwarfInfo.indexDie, Head.die] at hchildren hlow hranges ⊢
      rw [hlow, hranges, DwarfInfo.forChildren_eq hchildren]
      simp only [ofExcept, pure_bind, hf]
      rfl

theorem emplaceFunction_eq {f : Occurrence} {s : List Byte} {n : ℕ} {m : FunctionIndex}
    (hs : dw.name n (f.head.die f.cu f.pos) = .ok (some s)) :
    dw.emplaceFunction n (f.head.die f.cu f.pos) m = .ok () (m ++ [(s, ⟨f.cu, f.pos⟩)]) := by
  simp only [DwarfInfo.emplaceFunction, hs]
  rfl

theorem name_of_emplaceFunction {f : Occurrence} {n : ℕ} {m m' : FunctionIndex}
    (h : dw.emplaceFunction n (f.head.die f.cu f.pos) m = .ok () m') :
    ∃ s, dw.name n (f.head.die f.cu f.pos) = .ok (some s) := by
  simp only [DwarfInfo.emplaceFunction, Head.die] at h
  obtain ⟨r, m₁, hr, hrest⟩ := bind_eq_ok.mp h
  cases r with
  | none => cases hrest
  | some s => exact ⟨s, (ofExcept_eq_ok.mp hr).1⟩

theorem emits_tree {p : ℕ} {t : DieTree} {es : FunctionIndex} (ht : Encoded dw cu p t)
    (hroot : t.head.isFunction → Found dw names ⟨cu, p, t.head⟩)
    (hkids : Emits (fun n => (t.kids cu p).forM (dw.indexDie n)) es) :
    Emits (fun n => dw.indexDie n (t.head.die cu p))
      (entries names (if t.head.isFunction then [⟨cu, p, t.head⟩] else []) ++ es) := by
  apply emits_succ
  simp only [indexDie_tree ht]
  refine emits_seq ?_ hkids
  by_cases hf : t.head.isFunction
  · obtain ⟨s, N, hs, hN⟩ := hroot hf
    refine ⟨N, fun n hn m => ?_⟩
    have hemplace := emplaceFunction_eq (m := m) (hN n hn)
    simpa [hf, entries, hs] using hemplace
  · simpa [hf, entries] using emits_skip

theorem emits_siblings (s : Siblings) :
    ∀ {p : ℕ}, Placed dw.image cu p s.bytes → s.Fits cu p →
      (∀ f ∈ functionsOf cu (s.subtrees p), Found dw names f) →
      Emits (fun n => (s.dies cu p).forM (dw.indexDie n))
        (entries names (functionsOf cu (s.subtrees p))) := by
  -- a DIE and all below it come before the DIEs beside it
  induction s with
  | null z => intro p _ _ _; exact emits_skip
  | leaf h rest ih =>
    intro p hp hfit hall
    obtain ⟨hh, hrest⟩ := placed_leaf.mp hp
    obtain ⟨hc, hab, hfitRest⟩ := hfit
    rw [Siblings.subtrees] at hall ⊢
    rw [functionsOf_cons, entries_append]
    have htree : Encoded dw cu p (.leaf h) := ⟨hh, hc, hab⟩
    have hhead : h.isFunction → Found dw names ⟨cu, p, h⟩ :=
      fun hf => hall _ (mem_functionsOf_cons.mpr (.inl ⟨hf, rfl⟩))
    have hroot := emits_tree htree hhead emits_skip
    rw [List.append_nil] at hroot
    exact emits_seq hroot
      (ih hrest hfitRest fun f hf => hall f (mem_functionsOf_cons.mpr (.inr hf)))
  | node h sub rest ihSub ihRest =>
    intro p hp hfit hall
    obtain ⟨hh, hsub, hrest⟩ := placed_node.mp hp
    obtain ⟨hc, hab, hattr, hfitSub, hfitRest⟩ := hfit
    rw [Siblings.subtrees] at hall ⊢
    rw [functionsOf_cons, functionsOf_append, entries_append, entries_append,
      ← List.append_assoc]
    have hbelow : ∀ f, f ∈ functionsOf cu (sub.subtrees (p + h.length)) ∨
        f ∈ functionsOf cu (rest.subtrees (p + h.length + sub.length)) → Found dw names f :=
      fun f hf => hall f (mem_functionsOf_cons.mpr (.inr (by
        rw [functionsOf_append]
        exact List.mem_append.mpr hf)))
    have htree : Encoded dw cu p (.node h sub) :=
      ⟨placed_append.mpr ⟨hh, hsub⟩, hc, hab, hattr, hfitSub⟩
    have hhead : h.isFunction → Found dw names ⟨cu, p, h⟩ :=
      fun hf => hall _ (mem_functionsOf_cons.mpr (.inl ⟨hf, rfl⟩))
    have hroot := emits_tree htree hhead (ihSub hsub hfitSub fun f hf => hbelow f (.inl hf))
    exact emits_seq hroot (ihRest hrest hfitRest fun f hf => hbelow f (.inr hf))

/-- A pass over a tree that ends has found the name of every function DIE. -/
theorem names_of_tree {p n : ℕ} {t : DieTree} {m m' : FunctionIndex} (ht : Encoded dw cu p t)
    (h : dw.indexDie n (t.head.die cu p) m = .ok () m') :
    (t.head.isFunction → ∃ k s, dw.name k (t.head.die cu p) = .ok (some s)) ∧
      ∃ k m₁, (t.kids cu p).forM (dw.indexDie k) m₁ = .ok () m' := by
  cases n with
  | zero => cases h
  | succ n =>
    rw [indexDie_tree ht] at h
    obtain ⟨_, m₁, hroot, hkids⟩ := bind_eq_ok.mp h
    refine ⟨fun hf => ?_, n, m₁, hkids⟩
    rw [if_pos hf] at hroot
    obtain ⟨s, hs⟩ := name_of_emplaceFunction (f := ⟨cu, p, t.head⟩) hroot
    exact ⟨n, s, hs⟩

theorem names_of_siblings (s : Siblings) :
    ∀ {p n : ℕ} {m m' : FunctionIndex}, Placed dw.image cu p s.bytes → s.Fits cu p →
      (s.dies cu p).forM (dw.indexDie n) m = .ok () m' →
      ∀ f ∈ functionsOf cu (s.subtrees p), ∃ k r, dw.name k (f.head.die f.cu f.pos) = .ok (some r) := by
  induction s with
  | null z => intro p n m m' _ _ _ f hf; simp [Siblings.subtrees, functionsOf] at hf
  | leaf h rest ih =>
    intro p n m m' hp hfit hrun f hf
    obtain ⟨hh, hrest⟩ := placed_leaf.mp hp
    obtain ⟨hc, hab, hfitRest⟩ := hfit
    obtain ⟨_, m₁, hroot, htail⟩ := bind_eq_ok.mp hrun
    obtain ⟨hname, -⟩ := names_of_tree (t := .leaf h) ⟨hh, hc, hab⟩ hroot
    rw [Siblings.subtrees] at hf
    rcases mem_functionsOf_cons.mp hf with ⟨hfun, rfl⟩ | hf
    · exact hname hfun
    · exact ih hrest hfitRest htail f hf
  | node h sub rest ihSub ihRest =>
    intro p n m m' hp hfit hrun f hf
    obtain ⟨hh, hsub, hrest⟩ := placed_node.mp hp
    obtain ⟨hc, hab, hattr, hfitSub, hfitRest⟩ := hfit
    obtain ⟨_, m₁, hroot, htail⟩ := bind_eq_ok.mp hrun
    obtain ⟨hname, k, m₂, hkids⟩ := names_of_tree (t := .node h sub)
      ⟨placed_append.mpr ⟨hh, hsub⟩, hc, hab, hattr, hfitSub⟩ hroot
    rw [Siblings.subtrees] at hf
    rcases mem_functionsOf_cons.mp hf with ⟨hfun, rfl⟩ | hf
    · exact hname hfun
    · rw [functionsOf_append] at hf
      rcases List.mem_append.mp hf with hf | hf
      · exact ihSub hsub hfitSub hkids f hf
      · exact ihRest hrest hfitRest htail f hf

theorem emits_root {p : ℕ} {t : DieTree} (ht : Encoded dw cu p t)
    (hall : ∀ f ∈ functionsOf cu (t.subtrees p), Found dw names f) :
    Emits (fun n => dw.indexDie n (t.head.die cu p))
      (entries names (functionsOf cu (t.subtrees p))) := by
  cases t with
  | leaf h =>
    rw [DieTree.subtrees] at hall ⊢
    rw [functionsOf_cons, entries_append]
    exact emits_tree ht (fun hf => hall _ (mem_functionsOf_cons.mpr (.inl ⟨hf, rfl⟩))) emits_skip
  | node h sub =>
    rw [DieTree.subtrees] at hall ⊢
    rw [functionsOf_cons, entries_append]
    obtain ⟨-, hsub⟩ := placed_append.mp ht.placed
    have hbelow : ∀ f ∈ functionsOf cu (sub.subtrees (p + h.length)), Found dw names f :=
      fun f hf => hall f (mem_functionsOf_cons.mpr (.inr hf))
    have hkids := emits_siblings sub hsub ht.fits.2.2.2 hbelow
    exact emits_tree ht (fun hf => hall _ (mem_functionsOf_cons.mpr (.inl ⟨hf, rfl⟩))) hkids

theorem names_of_root {p n : ℕ} {t : DieTree} {m m' : FunctionIndex} (ht : Encoded dw cu p t)
    (hrun : dw.indexDie n (t.head.die cu p) m = .ok () m') :
    ∀ f ∈ functionsOf cu (t.subtrees p),
      ∃ k r, dw.name k (f.head.die f.cu f.pos) = .ok (some r) := by
  obtain ⟨hname, k, m₁, hkids⟩ := names_of_tree ht hrun
  intro f hf
  cases t with
  | leaf h =>
    rcases mem_functionsOf_cons.mp hf with ⟨hfun, rfl⟩ | hf
    · exact hname hfun
    · simp [functionsOf] at hf
  | node h sub =>
    obtain ⟨-, hsub⟩ := placed_append.mp ht.placed
    rcases mem_functionsOf_cons.mp hf with ⟨hfun, rfl⟩ | hf
    · exact hname hfun
    · exact names_of_siblings sub hsub ht.fits.2.2.2 hkids f hf

end Trees

/-- Units with their trees; `names` is the name of every function DIE. -/
structure WellFormed (dw : DwarfInfo) (units : List (CompileUnit × DieTree))
    (names : Occurrence → Option (List Byte)) : Prop where
  listed : dw.compileUnits = units.map Prod.fst
  encoded : ∀ x ∈ units, Encoded dw x.1 (x.1.data.first + 11) x.2
  named : ∀ f ∈ functions units, Resolves dw (fun _ => True) f.cu f.head (names f)

/-- A call on an empty index ends, and the index then holds one entry for each named
function DIE and no other. -/
def IndexLaw (dw : DwarfInfo) (units : List (CompileUnit × DieTree))
    (names : Occurrence → Option (List Byte)) : Prop :=
  ∃ N, ∀ n ≥ N, dw.index n [] = .ok () (entries names (functions units))

section Units

variable {dw : DwarfInfo} {names : Occurrence → Option (List Byte)}

def passOver (dw : DwarfInfo) (cus : List CompileUnit) (n : ℕ) :
    EStateM Failure FunctionIndex Unit :=
  cus.forM fun cu => do
    let root ← ofExcept (dw.root cu)
    dw.indexDie n root

theorem index_empty (n : ℕ) : dw.index n [] = passOver dw dw.compileUnits n [] := rfl

theorem index_again (n : ℕ) {m : FunctionIndex} (hm : m ≠ []) : dw.index n m = .ok () m := by
  cases m with
  | nil => exact absurd rfl hm
  | cons e m => rfl

theorem root_eq {x : CompileUnit × DieTree} (hx : Encoded dw x.1 (x.1.data.first + 11) x.2) :
    dw.root x.1 = .ok (x.2.head.die x.1 (x.1.data.first + 11)) := hx.parse

theorem passOver_cons {x : CompileUnit × DieTree} {cus : List CompileUnit}
    (hx : Encoded dw x.1 (x.1.data.first + 11) x.2) (n : ℕ) :
    passOver dw (x.1 :: cus) n =
      dw.indexDie n (x.2.head.die x.1 (x.1.data.first + 11)) >>= fun _ => passOver dw cus n := by
  funext m
  simp only [passOver, List.forM_eq_forM, List.forM_cons, root_eq hx]
  rfl

theorem emits_units (units : List (CompileUnit × DieTree)) :
    (∀ x ∈ units, Encoded dw x.1 (x.1.data.first + 11) x.2) →
      (∀ f ∈ functions units, Found dw names f) →
      Emits (passOver dw (units.map Prod.fst)) (entries names (functions units)) := by
  induction units with
  | nil => intro _ _; exact emits_skip
  | cons x units ih =>
    intro henc hall
    simp only [functions, List.flatMap_cons] at hall ⊢
    rw [entries_append]
    have hx := henc x List.mem_cons_self
    have hroot := emits_root hx fun f hf => hall f (List.mem_append_left _ hf)
    have hrest := ih (fun y hy => henc y (List.mem_cons_of_mem _ hy))
      fun f hf => hall f (List.mem_append_right _ hf)
    simp only [List.map_cons, funext (passOver_cons hx)]
    exact emits_seq hroot hrest

theorem names_of_units (units : List (CompileUnit × DieTree)) :
    ∀ {n : ℕ} {m m' : FunctionIndex},
      (∀ x ∈ units, Encoded dw x.1 (x.1.data.first + 11) x.2) →
      passOver dw (units.map Prod.fst) n m = .ok () m' →
      ∀ f ∈ functions units, ∃ k r, dw.name k (f.head.die f.cu f.pos) = .ok (some r) := by
  induction units with
  | nil => intro n m m' _ _ f hf; simp [functions] at hf
  | cons x units ih =>
    intro n m m' henc hrun f hf
    have hx := henc x List.mem_cons_self
    rw [List.map_cons, passOver_cons hx] at hrun
    obtain ⟨_, m₁, hroot, hrest⟩ := bind_eq_ok.mp hrun
    simp only [functions, List.flatMap_cons] at hf
    rcases List.mem_append.mp hf with hf | hf
    · exact names_of_root hx hroot f hf
    · exact ih (fun y hy => henc y (List.mem_cons_of_mem _ hy)) hrest f hf

theorem placed_of_function {units : List (CompileUnit × DieTree)}
    (henc : ∀ x ∈ units, Encoded dw x.1 (x.1.data.first + 11) x.2) {f : Occurrence}
    (hf : f ∈ functions units) : Placed dw.image f.cu f.pos f.head.bytes := by
  obtain ⟨x, hx, hmem⟩ := List.mem_flatMap.mp hf
  obtain ⟨⟨q, u⟩, hu, rfl⟩ := List.mem_map.mp hmem
  have hsub := ((henc x hx).subtree (List.mem_filter.mp hu).1).placed
  cases u with
  | leaf h => exact hsub
  | node h sub => exact (placed_append.mp hsub).1

/-- The name of a DIE is within reach of the accessors. -/
def NameReachable (dw : DwarfInfo) (names : Occurrence → Option (List Byte)) (f : Occurrence) :
    Prop :=
  (names f).isSome ∧ Resolves dw Accepted f.cu f.head (names f)

theorem nameReachable_of_index {units : List (CompileUnit × DieTree)} (h : WellFormed dw units names)
    {n : ℕ} {m : FunctionIndex} (hrun : dw.index n [] = .ok () m) :
    ∀ f ∈ functions units, NameReachable dw names f := by
  intro f hf
  rw [index_empty, h.listed] at hrun
  obtain ⟨k, r, hname⟩ := names_of_units units h.encoded hrun f hf
  obtain ⟨heq, hres⟩ :=
    resolves_of_name (h.named f hf) (placed_of_function h.encoded hf) hname
  exact ⟨by simp [heq], hres⟩

theorem index_of_nameReachable {units : List (CompileUnit × DieTree)} (h : WellFormed dw units names)
    (hall : ∀ f ∈ functions units, NameReachable dw names f) : IndexLaw dw units names := by
  have hfound : ∀ f ∈ functions units, Found dw names f := by
    intro f hf
    obtain ⟨hsome, hres⟩ := hall f hf
    obtain ⟨s, hs⟩ := Option.isSome_iff_exists.mp hsome
    obtain ⟨N, hN⟩ := name_of_resolves hres (placed_of_function h.encoded hf)
    exact ⟨s, N, hs, by simpa [hs] using hN⟩
  obtain ⟨N, hN⟩ := emits_units units h.encoded hfound
  refine ⟨N, fun n hn => ?_⟩
  rw [index_empty, h.listed]
  simpa using hN n hn []

/-- Indexing does what it is for exactly when every function DIE has a name, reached
through forms that `as_reference` and `as_string` take. -/
theorem index_iff {units : List (CompileUnit × DieTree)} (h : WellFormed dw units names) :
    IndexLaw dw units names ↔ ∀ f ∈ functions units, NameReachable dw names f :=
  ⟨fun ⟨N, hN⟩ => nameReachable_of_index h (hN N le_rfl), index_of_nameReachable h⟩

end Units

namespace OneFunction

def unit (h : Head) : CompileUnit := ⟨⟨0, 11 + h.bytes.length⟩, [h.entry]⟩

/-- A file with one unit, whose only DIE is `h`. -/
def info (h : Head) : DwarfInfo where
  elf := 0
  image := .ofList (List.replicate 11 0#8 ++ h.bytes)
  getSectionContents _ := none
  compileUnits := [unit h]

def named : Head :=
  ⟨(Uleb.small 1).toLeb,
    ⟨1#64, dwTagSubprogram, false,
      [⟨dwAtName, Form.string.code⟩, ⟨dwAtRanges, Form.secOffset.code⟩]⟩,
    [[0x66#8] ++ [0#8], [0#8, 0#8, 0#8, 0#8]], rfl, SmallTree.outer.code_ne,
    .cons (.string (by decide)) (.cons (.fixed (f := .secOffset) rfl) .nil)⟩

def nameless : Head :=
  ⟨(Uleb.small 1).toLeb,
    ⟨1#64, dwTagSubprogram, false, [⟨dwAtRanges, Form.secOffset.code⟩]⟩,
    [[0#8, 0#8, 0#8, 0#8]], rfl, SmallTree.outer.code_ne,
    .cons (.fixed (f := .secOffset) rfl) .nil⟩

theorem encoded {h : Head} (hc : h.entry.hasChildren = false) :
    Encoded (info h) (unit h) 11 (.leaf h) where
  placed := by
    have hat := bytesAt_ofList_append (List.replicate 11 0#8) h.bytes []
    rw [List.append_nil, List.length_replicate] at hat
    exact ⟨hat, le_rfl⟩
  fits := ⟨hc, by simp [CompileUnit.abbrevAt, unit]⟩

theorem functions_eq {h : Head} (hf : h.isFunction) :
    functions [(unit h, .leaf h)] = [⟨unit h, 11, h⟩] := by
  simp [functions, functionsOf, DieTree.subtrees, DieTree.head, hf, unit]

theorem wellFormed {h : Head} {r : Option (List Byte)} (hc : h.entry.hasChildren = false)
    (hf : h.isFunction) (hr : Resolves (info h) (fun _ => True) (unit h) h r) :
    WellFormed (info h) [(unit h, .leaf h)] (fun _ => r) where
  listed := rfl
  encoded x hx := by
    obtain rfl := List.mem_singleton.mp hx
    exact OneFunction.encoded hc
  named f hmem := by
    rw [functions_eq hf] at hmem
    obtain rfl := List.mem_singleton.mp hmem
    exact hr

end OneFunction

namespace LinkedChild

def function : Head :=
  ⟨(Uleb.small 2).toLeb,
    ⟨2#64, dwTagSubprogram, true,
      [⟨dwAtName, Form.string.code⟩, ⟨dwAtRanges, Form.secOffset.code⟩]⟩,
    [[0x66#8] ++ [0#8], [0#8, 0#8, 0#8, 0#8]], rfl, SmallTree.middle.code_ne,
    OneFunction.named.handled⟩

/-- A subroutine that refers to the function, at offset 12, for its name. -/
def inlined : Head :=
  ⟨(Uleb.small 3).toLeb,
    ⟨3#64, dwTagInlinedSubroutine, false,
      [⟨dwAtAbstractOrigin, Form.ref4.code⟩, ⟨dwAtRanges, Form.secOffset.code⟩]⟩,
    [leBytes 4 12, [0#8, 0#8, 0#8, 0#8]], rfl, SmallTree.inner.code_ne,
    .cons (.fixed (f := .ref4) rfl) (.cons (.fixed (f := .secOffset) rfl) .nil)⟩

def tree : DieTree :=
  .node SmallTree.outer
    (.node function (.leaf inlined (.null SmallTree.close)) (.null SmallTree.close))

def unit : CompileUnit :=
  ⟨⟨0, 11 + tree.bytes.length⟩, [SmallTree.outer.entry, function.entry, inlined.entry]⟩

def info : DwarfInfo where
  elf := 0
  image := .ofList (List.replicate 11 0#8 ++ tree.bytes)
  getSectionContents _ := none
  compileUnits := [unit]

def name : List Byte := [0x66#8]

theorem placed : Placed info.image unit 11 tree.bytes := by
  have hat := bytesAt_ofList_append (List.replicate 11 0#8) tree.bytes []
  rw [List.append_nil, List.length_replicate] at hat
  exact ⟨hat, le_rfl⟩

theorem no_sibling {h : Head} (cu : CompileUnit) (after : ℕ) (hnone : h.field dwAtSibling = none) :
    SiblingAttr cu h after := by
  intro spec bs hsome
  rw [hnone] at hsome
  cases hsome

theorem encoded : Encoded info unit 11 tree where
  placed := placed
  fits := by
    refine ⟨rfl, rfl, no_sibling _ _ rfl, ⟨rfl, rfl, no_sibling _ _ rfl, ?_, trivial⟩⟩
    exact ⟨rfl, rfl, trivial⟩

theorem functions_eq :
    functions [(unit, tree)] = [⟨unit, 12, function⟩, ⟨unit, 19, inlined⟩] := rfl

theorem resolves_function (dw : DwarfInfo) {adm : Form → Prop} (h : adm .string) (cu : CompileUnit) :
    Resolves dw adm cu function (some name) :=
  have hname : function.field dwAtName =
      some (⟨dwAtName, Form.string.code⟩, [0x66#8] ++ [0#8]) := rfl
  .own hname (.inline (by decide) h)

theorem resolves_inlined {adm : Form → Prop} (hstring : adm .string) (href : adm .ref4) :
    Resolves info adm unit inlined (some name) := by
  have hlink : inlined.link = some (⟨dwAtAbstractOrigin, Form.ref4.code⟩, leBytes 4 12) := rfl
  have hrefers : Refers info adm unit Form.ref4.code (leBytes 4 12) unit 12 :=
    .inUnit (f := .ref4) (by simp) (.ref4 12#32) href
  have hplaced : Placed info.image unit 12 function.bytes :=
    (placed_append.mp (placed_append.mp placed).2).1
  exact .link rfl hlink hrefers hplaced rfl (resolves_function _ hstring _)

theorem resolves_names {adm : Form → Prop} (hstring : adm .string) (href : adm .ref4)
    {f : Occurrence} (hf : f ∈ functions [(unit, tree)]) :
    Resolves info adm f.cu f.head (some name) := by
  rw [functions_eq] at hf
  rcases List.mem_cons.mp hf with rfl | hf
  · exact resolves_function _ hstring _
  · obtain rfl := List.mem_singleton.mp hf
    exact resolves_inlined hstring href

theorem wellFormed : WellFormed info [(unit, tree)] fun _ => some name where
  listed := rfl
  encoded x hx := by
    obtain rfl := List.mem_singleton.mp hx
    exact encoded
  named _ hf := resolves_names trivial trivial hf

end LinkedChild

/-- A function and the subroutine in it, which takes its name from the function. -/
theorem index_iff_linked :
    IndexLaw LinkedChild.info [(LinkedChild.unit, LinkedChild.tree)]
      (fun _ => some LinkedChild.name) := by
  refine (index_iff LinkedChild.wellFormed).mpr fun f hf => ⟨rfl, ?_⟩
  exact LinkedChild.resolves_names ⟨by decide, by decide⟩ ⟨by decide, by decide⟩ hf

/-- A function without a name ends the indexing. -/
theorem indexLaw_not_for_all : ¬ ∀ (dw : DwarfInfo) (units : List (CompileUnit × DieTree))
    (names : Occurrence → Option (List Byte)), WellFormed dw units names →
      IndexLaw dw units names := by
  intro h
  have hwf := OneFunction.wellFormed (h := OneFunction.nameless) rfl rfl (.nameless rfl rfl)
  obtain ⟨N, hN⟩ := h _ _ _ hwf
  have hrun := hN N le_rfl
  rw [index_empty] at hrun
  obtain ⟨k, r, hname⟩ := names_of_units _ hwf.encoded hrun
    ⟨OneFunction.unit OneFunction.nameless, 11, OneFunction.nameless⟩
    (by rw [OneFunction.functions_eq rfl]; exact List.mem_singleton_self _)
  cases k with
  | zero => simp [DwarfInfo.name] at hname
  | succ k =>
    rw [name_nameless rfl rfl] at hname
    simp at hname

end KDebugger.Dwarf
