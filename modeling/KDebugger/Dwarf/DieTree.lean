import KDebugger.Dwarf.AttributeForms

namespace KDebugger.Dwarf

open ByteStream Leb128 Exec Cur

/-- One DIE without its children: an abbreviation code and the attribute values. -/
structure Head where
  code : Leb
  entry : Abbrev
  fields : List (List Byte)
  code_eq : entry.code = code.unsigned
  code_ne : code.unsigned ≠ 0#64
  handled : List.Forall₂ (fun spec bs => Handled spec.form bs) entry.attrSpecs fields

/-- The entry that closes a list of siblings. -/
structure NullEntry where
  code : Leb
  zero : code.unsigned = 0#64

/-- Sibling DIEs in order, each with its children, up to the null entry. -/
inductive Siblings where
  | null (z : NullEntry)
  | leaf (h : Head) (rest : Siblings)
  | node (h : Head) (sub rest : Siblings)

inductive DieTree where
  | leaf (h : Head)
  | node (h : Head) (sub : Siblings)

namespace Head

def bytes (h : Head) : List Byte := h.code.bytes ++ h.fields.flatten

def length (h : Head) : ℕ := h.bytes.length

theorem length_pos (h : Head) : 0 < h.length := by
  have := List.length_pos_iff.mpr h.code.shaped.ne_nil
  simp only [length, bytes, List.length_append]
  omega

def locsFrom : ℕ → List (List Byte) → List ℕ
  | _, [] => []
  | p, bs :: rest => p :: locsFrom (p + bs.length) rest

/-- The DIE that stands for the entry at `p`. -/
def die (h : Head) (cu : CompileUnit) (p : ℕ) : Die where
  pos := some p
  cu := some cu
  abbrevEntry := some h.entry
  attrLocs := locsFrom (p + h.code.bytes.length) h.fields
  next := p + h.length

/-- The value of the first attribute of that name, with its form. -/
def field (h : Head) (name : BitVec 64) : Option (AttrSpec × List Byte) :=
  (h.entry.attrSpecs.zip h.fields).find? fun x => x.1.attr == name

end Head

namespace Siblings

def bytes : Siblings → List Byte
  | null z => z.code.bytes
  | leaf h rest => h.bytes ++ rest.bytes
  | node h sub rest => h.bytes ++ (sub.bytes ++ rest.bytes)

def length (s : Siblings) : ℕ := s.bytes.length

theorem length_leaf (h : Head) (rest : Siblings) :
    (leaf h rest).length = h.length + rest.length := by
  simp [length, bytes, Head.length]

theorem length_node (h : Head) (sub rest : Siblings) :
    (node h sub rest).length = h.length + sub.length + rest.length := by
  simp [length, bytes, Head.length, Nat.add_assoc]

/-- The DIEs of the list itself, where the list starts at `p`. -/
def dies (cu : CompileUnit) : ℕ → Siblings → List Die
  | _, null _ => []
  | p, leaf h rest => h.die cu p :: rest.dies cu (p + h.length)
  | p, node h sub rest => h.die cu p :: rest.dies cu (p + h.length + sub.length)

def first (cu : CompileUnit) (p : ℕ) : Siblings → Die
  | null z => { next := p + z.code.bytes.length }
  | leaf h _ => h.die cu p
  | node h _ _ => h.die cu p

end Siblings

/-- A `DW_AT_sibling` gives the entry at `after`, as an offset in the unit. -/
def SiblingAttr (cu : CompileUnit) (h : Head) (after : ℕ) : Prop :=
  ∀ spec bs, h.field dwAtSibling = some (spec, bs) →
    ∃ f offset, f ∈ [Form.ref1, .ref2, .ref4] ∧ spec.form = f.code ∧
      Encodes f (.reference offset) bs ∧ cu.data.first + offset.toNat = after

def Siblings.Fits (cu : CompileUnit) : ℕ → Siblings → Prop
  | _, .null _ => True
  | p, .leaf h rest =>
    h.entry.hasChildren = false ∧ cu.abbrevAt h.entry.code = some h.entry ∧
      rest.Fits cu (p + h.length)
  | p, .node h sub rest =>
    h.entry.hasChildren = true ∧ cu.abbrevAt h.entry.code = some h.entry ∧
      SiblingAttr cu h (p + h.length + sub.length) ∧ sub.Fits cu (p + h.length) ∧
      rest.Fits cu (p + h.length + sub.length)

/-- The bytes of an encoding lie at `p` of the unit. -/
def Placed (img : Image) (cu : CompileUnit) (p : ℕ) (bs : List Byte) : Prop :=
  BytesAt img p bs ∧ p + bs.length ≤ cu.data.last

theorem placed_append {img : Image} {cu : CompileUnit} {p : ℕ} {bs bs' : List Byte} :
    Placed img cu p (bs ++ bs') ↔
      Placed img cu p bs ∧ Placed img cu (p + bs.length) bs' := by
  simp only [Placed, bytesAt_append, List.length_append]
  constructor
  · rintro ⟨⟨h, h'⟩, hl⟩
    exact ⟨⟨h, by omega⟩, h', by omega⟩
  · rintro ⟨⟨h, _⟩, h', hl⟩
    exact ⟨⟨h, h'⟩, by omega⟩

theorem skipAttrs_eq {specs : List AttrSpec} {fields : List (List Byte)}
    (hh : List.Forall₂ (fun spec bs => Handled spec.form bs) specs fields) :
    ∀ {c : Cursor}, BytesAt c.image c.pos fields.flatten →
      c.pos + fields.flatten.length ≤ c.stop →
      skipAttrs specs c = .ok (Head.locsFrom c.pos fields) (c.advance fields.flatten.length) := by
  induction hh with
  | nil => intro c _ _; rfl
  | @cons spec bs specs fields h _ ih =>
    intro c hat hstop
    simp only [List.flatten_cons, bytesAt_append, List.length_append] at hat hstop
    have hskip := reads_skipForm h c hat.1 (by omega)
    have hrest := ih (c := c.advance bs.length) hat.2 (by simpa [Nat.add_assoc] using hstop)
    simp only [skipAttrs]
    rw [bind_ok (show position c = .ok c.pos c from rfl), bind_ok hskip, bind_ok hrest]
    simp [Head.locsFrom, pure, EStateM.pure]

theorem parseDieAt_head {dw : DwarfInfo} {cu : CompileUnit} {p : ℕ} {h : Head}
    (hp : Placed dw.image cu p h.bytes) (hab : cu.abbrevAt h.entry.code = some h.entry) :
    dw.parseDieAt cu p = .ok (h.die cu p) := by
  obtain ⟨⟨hcode, hcstop⟩, hfields, hstop⟩ := placed_append.mp hp
  let c := dw.cursorIn cu p
  have hread : uleb128 c = .ok h.code.unsigned (c.advance h.code.bytes.length) :=
    reads_uleb128 h.code c hcode hcstop
  have hskip := skipAttrs_eq h.handled (c := c.advance h.code.bytes.length) hfields hstop
  have hparse : parseDie cu c = .ok (h.die cu p) (c.advance h.length) := by
    simp only [parseDie]
    rw [bind_ok (position_eq c), bind_ok hread, if_neg h.code_ne]
    rw [h.code_eq] at hab
    simp only [hab]
    rw [bind_ok hskip, bind_ok (position_eq _)]
    simp [Head.die, Head.length, Head.bytes, c, DwarfInfo.cursorIn, pure, EStateM.pure]
  simp [DwarfInfo.parseDieAt, outcome, hparse, c]

theorem parseDieAt_null {dw : DwarfInfo} {cu : CompileUnit} {p : ℕ} {z : NullEntry}
    (hp : Placed dw.image cu p z.code.bytes) :
    dw.parseDieAt cu p = .ok { next := p + z.code.bytes.length } := by
  let c := dw.cursorIn cu p
  have hread : uleb128 c = .ok z.code.unsigned (c.advance z.code.bytes.length) :=
    reads_uleb128 z.code c hp.1 hp.2
  have hparse : parseDie cu c =
      .ok { next := p + z.code.bytes.length } (c.advance z.code.bytes.length) := by
    simp only [parseDie]
    rw [bind_ok (show position c = .ok p c from rfl), bind_ok hread, if_pos z.zero]
    rfl
  simp [DwarfInfo.parseDieAt, outcome, hparse, c]

theorem parseDieAt_first {dw : DwarfInfo} {cu : CompileUnit} {p : ℕ} {s : Siblings}
    (hp : Placed dw.image cu p s.bytes) (hs : s.Fits cu p) :
    dw.parseDieAt cu p = .ok (s.first cu p) := by
  cases s with
  | null z => exact parseDieAt_null hp
  | leaf h rest => exact parseDieAt_head (placed_append.mp hp).1 hs.2.1
  | node h sub rest => exact parseDieAt_head (placed_append.mp hp).1 hs.2.1

theorem find_locsFrom {img : Image} {name : BitVec 64} {spec : AttrSpec} {bs : List Byte} :
    ∀ {specs : List AttrSpec} {fields : List (List Byte)} {p : ℕ},
      (specs.zip fields).find? (fun x => x.1.attr == name) = some (spec, bs) →
      BytesAt img p fields.flatten →
      ∃ loc, (specs.zip (Head.locsFrom p fields)).find? (fun x => x.1.attr == name) =
          some (spec, loc) ∧ BytesAt img loc bs ∧ loc + bs.length ≤ p + fields.flatten.length
  | [], _, _, h, _ => by simp at h
  | _ :: _, [], _, h, _ => by simp at h
  | spec' :: specs, bs' :: fields, p, h, hat => by
    simp only [List.flatten_cons, bytesAt_append] at hat
    simp only [List.zip_cons_cons, Head.locsFrom, List.flatten_cons, List.length_append] at h ⊢
    by_cases hname : spec'.attr == name
    · simp only [List.find?_cons, hname, Option.some.injEq, Prod.mk.injEq] at h ⊢
      obtain ⟨rfl, rfl⟩ := h
      exact ⟨p, ⟨rfl, rfl⟩, hat.1, by omega⟩
    · simp only [List.find?_cons, hname] at h ⊢
      obtain ⟨loc, hloc, hbs, hle⟩ := find_locsFrom h hat.2
      exact ⟨loc, hloc, hbs, by omega⟩

theorem contains_die (h : Head) (cu : CompileUnit) (p : ℕ) (name : BitVec 64) :
    (h.die cu p).contains name = .ok (h.entry.attrSpecs.any fun spec => spec.attr == name) := rfl

theorem Head.field_isSome (h : Head) (name : BitVec 64) :
    (h.field name).isSome = h.entry.attrSpecs.any fun spec => spec.attr == name := by
  have hh := h.handled
  rw [Head.field]
  generalize h.entry.attrSpecs = specs at hh ⊢
  generalize h.fields = fields at hh ⊢
  induction hh with
  | nil => rfl
  | @cons spec _ _ _ _ _ ih =>
    by_cases hname : spec.attr == name
    · simp [hname]
    · simpa [List.find?_cons, hname] using ih

theorem attrOf_die {dw : DwarfInfo} {h : Head} {cu : CompileUnit} {p : ℕ} {name : BitVec 64}
    {spec : AttrSpec} {bs : List Byte} (hp : Placed dw.image cu p h.bytes)
    (hf : h.field name = some (spec, bs)) :
    ∃ loc, (h.die cu p).attrOf name = .ok ⟨cu, spec.attr, spec.form, loc⟩ ∧
      Placed dw.image cu loc bs := by
  obtain ⟨-, hfields, hstop⟩ := placed_append.mp hp
  obtain ⟨loc, hloc, hbs, hle⟩ := find_locsFrom hf hfields
  refine ⟨loc, ?_, hbs, by omega⟩
  simp only [Die.attrOf, Head.die, hloc]

end KDebugger.Dwarf
