import KDebugger.Dwarf.DieTree

namespace KDebugger.Dwarf

open ByteStream Leb128 Exec

namespace Siblings

/-- The steps of the recursive walk over a list of entries. -/
def weight : Siblings → ℕ
  | null _ => 1
  | leaf _ rest => rest.weight + 1
  | node _ sub rest => sub.weight + rest.weight + 2

theorem weight_pos (s : Siblings) : 0 < s.weight := by
  cases s <;> simp [weight]

/-- Each entry takes a byte, so the walk has at most two steps a byte. -/
theorem weight_le (s : Siblings) : s.weight ≤ 2 * s.length := by
  induction s with
  | null z =>
    have := List.length_pos_iff.mpr z.code.shaped.ne_nil
    simp only [weight, length, bytes]
    omega
  | leaf h rest ih =>
    have := h.length_pos
    rw [weight, length_leaf]
    omega
  | node h sub rest ihSub ihRest =>
    have := h.length_pos
    rw [weight, length_node]
    omega

theorem length_pos (s : Siblings) : 0 < s.length := by
  have := s.weight_le
  have := s.weight_pos
  omega

theorem ne_nil (s : Siblings) : s.bytes ≠ [] := List.length_pos_iff.mp s.length_pos

def count : Siblings → ℕ
  | null _ => 1
  | leaf _ rest => rest.count + 1
  | node _ _ rest => rest.count + 1

theorem count_le_weight (s : Siblings) : s.count ≤ s.weight := by
  induction s with
  | null z => exact le_rfl
  | leaf h rest ih => simpa [count, weight] using ih
  | node h sub rest _ ih =>
    simp only [count, weight]
    omega

end Siblings

section Walk

variable {dw : DwarfInfo} {cu : CompileUnit}

theorem placed_leaf {p : ℕ} {h : Head} {rest : Siblings} :
    Placed dw.image cu p (Siblings.leaf h rest).bytes ↔
      Placed dw.image cu p h.bytes ∧ Placed dw.image cu (p + h.length) rest.bytes :=
  placed_append

theorem placed_node {p : ℕ} {h : Head} {sub rest : Siblings} :
    Placed dw.image cu p (Siblings.node h sub rest).bytes ↔
      Placed dw.image cu p h.bytes ∧ Placed dw.image cu (p + h.length) sub.bytes ∧
        Placed dw.image cu (p + h.length + sub.length) rest.bytes := by
  rw [Siblings.bytes, placed_append, placed_append]
  rfl

theorem weight_le_fuel {p : ℕ} {s : Siblings} (hp : Placed dw.image cu p s.bytes) :
    s.weight < dw.fuel := by
  have hw := s.weight_le
  have hsize := hp.1.end_le_size s.ne_nil
  change p + s.length ≤ dw.image.size at hsize
  simp only [DwarfInfo.fuel]
  omega

/-- `m_Die.value()[DW_AT_sibling].as_reference()` is the entry after the subtree. -/
theorem sibling_asReference {p after : ℕ} {h : Head} (hp : Placed dw.image cu p h.bytes)
    (hs : SiblingAttr cu h after) (hf : (h.field dwAtSibling).isSome) :
    (do let a ← (h.die cu p).attrOf dwAtSibling; a.asReference dw) = dw.parseDieAt cu after := by
  obtain ⟨⟨spec, bs⟩, hfield⟩ := Option.isSome_iff_exists.mp hf
  obtain ⟨f, offset, hforms, hform, henc, hafter⟩ := hs spec bs hfield
  obtain ⟨loc, hattr, hplaced⟩ := attrOf_die hp hfield
  have h8 : f ≠ .ref8 := by
    rintro rfl
    simp at hforms
  have hread : Accessed dw ⟨cu, spec.attr, spec.form, loc⟩ bs (.reference offset) :=
    accessed_of_encodes henc h8 hform hplaced.1 hplaced.2
  rw [hattr, ← hafter]
  exact hread

/-- What the walk over the entries at `p` does: it stops on their null entry. -/
def WalkEnds (dw : DwarfInfo) (cu : CompileUnit) (p : ℕ) (s : Siblings) : Prop :=
  ∀ n, s.weight ≤ n → dw.skipSiblings n (s.first cu p) = .ok { next := p + s.length }

theorem increment_leaf {p n : ℕ} {h : Head} (hc : h.entry.hasChildren = false) :
    dw.increment (n + 1) (h.die cu p) = dw.parseDieAt cu (p + h.length) := by
  simp [DwarfInfo.increment, Head.die, hc]

theorem increment_walk {p n : ℕ} {h : Head} {sub : Siblings} (hc : h.entry.hasChildren = true)
    (hsib : (h.field dwAtSibling).isSome = false) (hp : Placed dw.image cu (p + h.length) sub.bytes)
    (hfit : sub.Fits cu (p + h.length)) (hwalk : WalkEnds dw cu (p + h.length) sub)
    (hn : sub.weight ≤ n) :
    dw.increment (n + 1) (h.die cu p) = dw.parseDieAt cu (p + h.length + sub.length) := by
  have hcontains : (h.die cu p).contains dwAtSibling = .ok false := by
    rw [contains_die, ← h.field_isSome, hsib]
  have hfirst := parseDieAt_first hp hfit
  have hlast := hwalk n hn
  rw [DwarfInfo.increment]
  simp only [Head.die, hc, Bool.not_true, Bool.false_eq_true, if_false]
  change (do if ← (h.die cu p).contains dwAtSibling then _ else _) = _
  rw [hcontains]
  simp only [bind, Except.bind, Bool.false_eq_true, if_false, hfirst, hlast]

theorem increment_shortcut {p n after : ℕ} {h : Head} (hc : h.entry.hasChildren = true)
    (hsib : (h.field dwAtSibling).isSome = true) (hp : Placed dw.image cu p h.bytes)
    (hattr : SiblingAttr cu h after) :
    dw.increment (n + 1) (h.die cu p) = dw.parseDieAt cu after := by
  have hcontains : (h.die cu p).contains dwAtSibling = .ok true := by
    rw [contains_die, ← h.field_isSome, hsib]
  rw [← sibling_asReference hp hattr hsib, DwarfInfo.increment]
  simp only [Head.die, hc, Bool.not_true, Bool.false_eq_true, if_false]
  change (do if ← (h.die cu p).contains dwAtSibling then _ else _) = _
  rw [hcontains]
  simp only [bind, Except.bind, if_true]

theorem increment_node {p n : ℕ} {h : Head} {sub : Siblings} (hc : h.entry.hasChildren = true)
    (hh : Placed dw.image cu p h.bytes) (hp : Placed dw.image cu (p + h.length) sub.bytes)
    (hattr : SiblingAttr cu h (p + h.length + sub.length)) (hfit : sub.Fits cu (p + h.length))
    (hwalk : WalkEnds dw cu (p + h.length) sub) (hn : sub.weight ≤ n) :
    dw.increment (n + 1) (h.die cu p) = dw.parseDieAt cu (p + h.length + sub.length) := by
  cases hsib : (h.field dwAtSibling).isSome with
  | false => exact increment_walk hc hsib hp hfit hwalk hn
  | true => exact increment_shortcut hc hsib hh hattr

theorem skipSiblings_die {p n : ℕ} {h : Head} {d : Die}
    (hi : dw.increment n (h.die cu p) = .ok d) :
    dw.skipSiblings (n + 1) (h.die cu p) = dw.skipSiblings n d := by
  rw [DwarfInfo.skipSiblings]
  simp only [Head.die]
  change (do let d' ← dw.increment n (h.die cu p); _) = _
  rw [hi]
  rfl

/-- The walk over sibling entries ends on their null entry, whatever mix of leaves,
shortcuts and inner walks it takes. -/
theorem walkEnds (s : Siblings) :
    ∀ {p : ℕ}, Placed dw.image cu p s.bytes → s.Fits cu p → WalkEnds dw cu p s := by
  -- the walk over the sub-children, by induction on what hangs below the DIE
  induction s with
  | null z =>
    intro p _ _ n hn
    obtain ⟨n, rfl⟩ : ∃ k, n = k + 1 := ⟨n - 1, by simp only [Siblings.weight] at hn; omega⟩
    simp [DwarfInfo.skipSiblings, Siblings.first, Siblings.length, Siblings.bytes]
  | leaf h rest ih =>
    intro p hp hfit n hn
    obtain ⟨-, hrest⟩ := placed_leaf.mp hp
    obtain ⟨hc, -, hfitRest⟩ := hfit
    have hpos := rest.weight_pos
    simp only [Siblings.weight] at hn
    obtain ⟨n, rfl⟩ : ∃ k, n = k + 2 := ⟨n - 2, by omega⟩
    have hi : dw.increment (n + 1) (h.die cu p) = .ok (rest.first cu (p + h.length)) := by
      rw [increment_leaf hc, parseDieAt_first hrest hfitRest]
    rw [Siblings.first, skipSiblings_die hi, ih hrest hfitRest (n + 1) (by omega),
      Siblings.length_leaf, Nat.add_assoc]
  | node h sub rest ihSub ihRest =>
    intro p hp hfit n hn
    obtain ⟨hh, hsub, hrest⟩ := placed_node.mp hp
    obtain ⟨hc, -, hattr, hfitSub, hfitRest⟩ := hfit
    simp only [Siblings.weight] at hn
    obtain ⟨n, rfl⟩ : ∃ k, n = k + 2 := ⟨n - 2, by omega⟩
    have hi : dw.increment (n + 1) (h.die cu p) =
        .ok (rest.first cu (p + h.length + sub.length)) := by
      rw [increment_node hc hh hsub hattr hfitSub (ihSub hsub hfitSub) (by omega),
        parseDieAt_first hrest hfitRest]
    rw [Siblings.first, skipSiblings_die hi, ihRest hrest hfitRest (n + 1) (by omega),
      Siblings.length_node]
    simp only [Nat.add_assoc]

theorem collect_die {p n : ℕ} {h : Head} {d : Die}
    (hi : dw.increment dw.fuel (h.die cu p) = .ok d) :
    dw.collect (n + 1) (h.die cu p) = (do let ds ← dw.collect n d; pure (h.die cu p :: ds)) := by
  rw [DwarfInfo.collect]
  simp only [Head.die]
  change (do let d' ← dw.increment dw.fuel (h.die cu p); _) = _
  rw [hi]
  rfl

theorem collect_first (s : Siblings) :
    ∀ {p n : ℕ}, Placed dw.image cu p s.bytes → s.Fits cu p → s.count ≤ n →
      dw.collect n (s.first cu p) = .ok (s.dies cu p) := by
  have hfuel : dw.fuel = 2 * dw.image.size + 1 + 1 := rfl
  induction s with
  | null z =>
    intro p n _ _ hn
    obtain ⟨n, rfl⟩ : ∃ k, n = k + 1 := ⟨n - 1, by simp only [Siblings.count] at hn; omega⟩
    simp [DwarfInfo.collect, Siblings.first, Siblings.dies]
  | leaf h rest ih =>
    intro p n hp hfit hn
    obtain ⟨-, hrest⟩ := placed_leaf.mp hp
    obtain ⟨hc, -, hfitRest⟩ := hfit
    simp only [Siblings.count] at hn
    obtain ⟨n, rfl⟩ : ∃ k, n = k + 1 := ⟨n - 1, by omega⟩
    have hi : dw.increment dw.fuel (h.die cu p) = .ok (rest.first cu (p + h.length)) := by
      rw [hfuel, increment_leaf hc, parseDieAt_first hrest hfitRest]
    rw [Siblings.first, collect_die hi, ih hrest hfitRest (by omega)]
    rfl
  | node h sub rest _ ih =>
    intro p n hp hfit hn
    obtain ⟨hh, hsub, hrest⟩ := placed_node.mp hp
    obtain ⟨hc, -, hattr, hfitSub, hfitRest⟩ := hfit
    simp only [Siblings.count] at hn
    obtain ⟨n, rfl⟩ : ∃ k, n = k + 1 := ⟨n - 1, by omega⟩
    have hw := weight_le_fuel hsub
    have hi : dw.increment dw.fuel (h.die cu p) =
        .ok (rest.first cu (p + h.length + sub.length)) := by
      rw [hfuel, increment_node hc hh hsub hattr hfitSub (walkEnds sub hsub hfitSub) (by omega),
        parseDieAt_first hrest hfitRest]
    rw [Siblings.first, collect_die hi, ih hrest hfitRest (by omega)]
    rfl

end Walk

namespace DieTree

def head : DieTree → Head
  | leaf h => h
  | node h _ => h

def bytes : DieTree → List Byte
  | leaf h => h.bytes
  | node h sub => h.bytes ++ sub.bytes

/-- The direct children of the root of the tree, which lies at `p`. -/
def kids (cu : CompileUnit) (p : ℕ) : DieTree → List Die
  | leaf _ => []
  | node h sub => sub.dies cu (p + h.length)

def Fits (cu : CompileUnit) (p : ℕ) : DieTree → Prop
  | leaf h => h.entry.hasChildren = false ∧ cu.abbrevAt h.entry.code = some h.entry
  | node h sub =>
    h.entry.hasChildren = true ∧ cu.abbrevAt h.entry.code = some h.entry ∧
      SiblingAttr cu h (p + h.length + sub.length) ∧ sub.Fits cu (p + h.length)

end DieTree

/-- The trees of a list of entries and of everything below them, with their positions. -/
def Siblings.subtrees : ℕ → Siblings → List (ℕ × DieTree)
  | _, .null _ => []
  | p, .leaf h rest => (p, .leaf h) :: rest.subtrees (p + h.length)
  | p, .node h sub rest =>
    (p, .node h sub) ::
      (sub.subtrees (p + h.length) ++ rest.subtrees (p + h.length + sub.length))

def DieTree.subtrees (p : ℕ) : DieTree → List (ℕ × DieTree)
  | .leaf h => [(p, .leaf h)]
  | .node h sub => (p, .node h sub) :: sub.subtrees (p + h.length)

/-- The tree is encoded at `p` of the unit. -/
structure Encoded (dw : DwarfInfo) (cu : CompileUnit) (p : ℕ) (t : DieTree) : Prop where
  placed : Placed dw.image cu p t.bytes
  fits : t.Fits cu p

variable {dw : DwarfInfo} {cu : CompileUnit}

theorem encoded_of_siblings (s : Siblings) :
    ∀ {p : ℕ}, Placed dw.image cu p s.bytes → s.Fits cu p →
      ∀ q u, (q, u) ∈ s.subtrees p → Encoded dw cu q u := by
  induction s with
  | null z => intro p _ _ q u h; simp [Siblings.subtrees] at h
  | leaf h rest ih =>
    intro p hp hfit q u hmem
    obtain ⟨hh, hrest⟩ := placed_leaf.mp hp
    obtain ⟨hc, hab, hfitRest⟩ := hfit
    rcases List.mem_cons.mp hmem with heq | hmem
    · obtain ⟨rfl, rfl⟩ := Prod.mk.inj heq
      exact ⟨hh, hc, hab⟩
    · exact ih hrest hfitRest q u hmem
  | node h sub rest ihSub ihRest =>
    intro p hp hfit q u hmem
    obtain ⟨hh, hsub, hrest⟩ := placed_node.mp hp
    obtain ⟨hc, hab, hattr, hfitSub, hfitRest⟩ := hfit
    rcases List.mem_cons.mp hmem with heq | hmem
    · obtain ⟨rfl, rfl⟩ := Prod.mk.inj heq
      exact ⟨placed_append.mpr ⟨hh, hsub⟩, hc, hab, hattr, hfitSub⟩
    · rcases List.mem_append.mp hmem with hmem | hmem
      · exact ihSub hsub hfitSub q u hmem
      · exact ihRest hrest hfitRest q u hmem

theorem Encoded.subtree {p : ℕ} {t : DieTree} (ht : Encoded dw cu p t) {q : ℕ} {u : DieTree}
    (hmem : (q, u) ∈ t.subtrees p) : Encoded dw cu q u := by
  cases t with
  | leaf h =>
    obtain ⟨rfl, rfl⟩ := Prod.mk.inj (List.mem_singleton.mp hmem)
    exact ht
  | node h sub =>
    rcases List.mem_cons.mp hmem with heq | hmem
    · obtain ⟨rfl, rfl⟩ := Prod.mk.inj heq
      exact ht
    · exact encoded_of_siblings sub (placed_append.mp ht.placed).2 ht.fits.2.2.2 q u hmem

theorem Encoded.parse {p : ℕ} {t : DieTree} (ht : Encoded dw cu p t) :
    dw.parseDieAt cu p = .ok (t.head.die cu p) := by
  cases t with
  | leaf h => exact parseDieAt_head ht.placed ht.fits.2
  | node h sub => exact parseDieAt_head (placed_append.mp ht.placed).1 ht.fits.2.1

/-- `children()` of the root of an encoded tree. -/
theorem Encoded.children {p : ℕ} {t : DieTree} (ht : Encoded dw cu p t) :
    dw.children (t.head.die cu p) = .ok (t.kids cu p) := by
  -- the entry behind a leaf, the target of `DW_AT_sibling`, and the walk: all three lead to the
  -- next
  cases t with
  | leaf h =>
    have hc := ht.fits.1
    simp [DwarfInfo.children, DieTree.head, DieTree.kids, Head.die, hc, pure, Except.pure]
  | node h sub =>
    obtain ⟨hc, -, -, hfit⟩ := ht.fits
    obtain ⟨-, hsub⟩ := placed_append.mp ht.placed
    have hfirst : dw.parseDieAt cu (p + h.length) = .ok (sub.first cu (p + h.length)) :=
      parseDieAt_first hsub hfit
    have hw := weight_le_fuel hsub
    have hcollect : dw.collect dw.fuel (sub.first cu (p + h.length)) =
        .ok (sub.dies cu (p + h.length)) :=
      collect_first sub hsub hfit (sub.count_le_weight.trans hw.le)
    simp [DwarfInfo.children, DieTree.head, DieTree.kids, Head.die, hc, hfirst, hcollect, bind,
      Except.bind]

namespace SmallTree

def abbrevs : List Abbrev :=
  [⟨1#64, 0x11#64, true, []⟩, ⟨2#64, 0x2e#64, true, [⟨dwAtSibling, Form.ref1.code⟩]⟩,
    ⟨3#64, 0x34#64, false, []⟩]

/-- A DIE with one child, which has a `DW_AT_sibling` and a child of its own. -/
def image : Image := .ofList [1#8, 2#8, 5#8, 3#8, 0#8, 0#8]

def unit : CompileUnit := ⟨⟨0, 6⟩, abbrevs⟩

def info : DwarfInfo := ⟨0, image, fun _ => none, [unit]⟩

def outer : Head := ⟨(Uleb.small 1).toLeb, ⟨1#64, 0x11#64, true, []⟩, [], rfl, by decide, .nil⟩

def middle : Head :=
  ⟨(Uleb.small 2).toLeb, ⟨2#64, 0x2e#64, true, [⟨dwAtSibling, Form.ref1.code⟩]⟩, [[5#8]], rfl,
    by decide, .cons (.fixed (f := .ref1) rfl) .nil⟩

def inner : Head := ⟨(Uleb.small 3).toLeb, ⟨3#64, 0x34#64, false, []⟩, [], rfl, by decide, .nil⟩

def close : NullEntry := ⟨(Uleb.small 0).toLeb, rfl⟩

def tree : DieTree := .node outer (.node middle (.leaf inner (.null close)) (.null close))

theorem encoded : Encoded info unit 0 tree where
  placed := ⟨bytesAt_ofList (by decide), by decide⟩
  fits := by
    refine ⟨rfl, rfl, ?_, rfl, rfl, ?_, ⟨rfl, rfl, trivial⟩, trivial⟩
    · intro spec bs h
      simp [Head.field, outer] at h
    · intro spec bs h
      obtain ⟨rfl, rfl⟩ : ⟨dwAtSibling, Form.ref1.code⟩ = spec ∧ [5#8] = bs := by
        simpa [Head.field, middle] using h
      exact ⟨.ref1, 5#64, by simp, rfl, .ref1 5#8, rfl⟩

end SmallTree

end KDebugger.Dwarf
