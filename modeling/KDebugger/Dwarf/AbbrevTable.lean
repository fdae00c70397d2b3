import KDebugger.Dwarf.CursorSpec
import KDebugger.Dwarf.Die

namespace KDebugger.Dwarf

open ByteStream Leb128 Exec Cur

/-- The inner loop: pairs of an attribute and a form, up to the attribute 0. -/
def attrSpecsWithin : ℕ → Reader (List AttrSpec)
  | 0 => throw .exhausted
  | n + 1 => do
    let attr ← uleb128
    let form ← uleb128
    if attr ≠ 0#64 then do
      let attrSpecs ← attrSpecsWithin n
      pure (⟨attr, form⟩ :: attrSpecs)
    else pure []

/-- Every pair takes a byte, which bounds the loop. -/
def parseAttrSpecs : Reader (List AttrSpec) := do
  let c ← get
  attrSpecsWithin (c.image.size + 1)

/-- `table.emplace`, which keeps an element that is there already. -/
def emplaceAbbrev (table : List Abbrev) (x : Abbrev) : List Abbrev :=
  if table.any fun y => y.code == x.code then table else table ++ [x]

def parseAbbrev : Reader Abbrev := do
  let code ← uleb128
  let tag ← uleb128
  let hasChildren ← u8
  let attrSpecs ← parseAttrSpecs
  pure ⟨code, tag, hasChildren ≠ 0#8, attrSpecs⟩

def abbrevsWithin : ℕ → List Abbrev → Reader (List Abbrev)
  | 0, _ => throw .exhausted
  | n + 1, table => do
    -- a tag, a flag and attributes are read after every code, also after the zero
    let entry ← parseAbbrev
    if entry.code ≠ 0#64 then abbrevsWithin n (emplaceAbbrev table entry) else pure table

def parseAbbrevs : Reader (List Abbrev) := do
  let c ← get
  abbrevsWithin (c.image.size + 1) []

/-- `parse_abbrev_table`, without a section through a null pointer. -/
def DwarfInfo.parseAbbrevTable (dw : DwarfInfo) (offset : ℕ) : Except Failure (List Abbrev) :=
  match dw.getSectionContents ".debug_abbrev" with
  | none => .error .undefined
  | some contents => outcome parseAbbrevs ⟨dw.image, contents.first + offset, contents.last⟩

/-- An attribute of a declaration, with its two encoded numbers. -/
structure AttrDecl where
  attr : Uleb
  form : Uleb
  nonzero : attr.value ≠ 0

namespace AttrDecl

def spec (a : AttrDecl) : AttrSpec := ⟨a.attr.unsigned, a.form.unsigned⟩

def bytes (a : AttrDecl) : List Byte := a.attr.bytes ++ a.form.bytes

theorem attr_ne_zero (a : AttrDecl) : a.attr.unsigned ≠ 0#64 := by
  intro h
  have hvalue := a.attr.unsigned_toNat
  rw [h] at hvalue
  exact a.nonzero hvalue.symm

theorem one_le_length (a : AttrDecl) : 1 ≤ a.bytes.length := by
  rw [bytes, List.length_append]
  have := List.length_pos_iff.mpr a.attr.shaped.ne_nil
  omega

end AttrDecl

def attrListBytes (attrs : List AttrDecl) : List Byte :=
  (attrs.map AttrDecl.bytes).flatten ++ [0#8, 0#8]

/-- A declaration with its encoded numbers. -/
structure AbbrevDecl where
  code : Uleb
  tag : Uleb
  hasChildren : Bool
  attrs : List AttrDecl
  nonzero : code.value ≠ 0

namespace AbbrevDecl

def declared (d : AbbrevDecl) : Abbrev :=
  ⟨d.code.unsigned, d.tag.unsigned, d.hasChildren, d.attrs.map AttrDecl.spec⟩

def bytes (d : AbbrevDecl) : List Byte :=
  d.code.bytes ++ (d.tag.bytes ++ (BitVec.ofBool d.hasChildren).setWidth 8 ::
    attrListBytes d.attrs)

theorem code_ne_zero (d : AbbrevDecl) : d.code.unsigned ≠ 0#64 := by
  intro h
  have hvalue := d.code.unsigned_toNat
  rw [h] at hvalue
  exact d.nonzero hvalue.symm

end AbbrevDecl

/-- Declarations under different codes. -/
structure AbbrevDecls where
  decls : List AbbrevDecl
  distinct : (decls.map fun d => d.code.unsigned).Nodup

namespace AbbrevDecls

def table (A : AbbrevDecls) : List Abbrev := A.decls.map AbbrevDecl.declared

def bytes (A : AbbrevDecls) : List Byte := (A.decls.map AbbrevDecl.bytes).flatten ++ [0#8]

end AbbrevDecls

def zeroLeb : Leb := ⟨[0#8], by decide, by decide⟩

theorem reads_zero : Reads uleb128 [0#8] 0#64 := reads_uleb128 zeroLeb

theorem reads_attrSpecsWithin (attrs : List AttrDecl) : ∀ {n : ℕ}, attrs.length < n →
    Reads (attrSpecsWithin n) (attrListBytes attrs) (attrs.map AttrDecl.spec) := by
  induction attrs with
  | nil =>
    intro n hn
    obtain ⟨n, rfl⟩ : ∃ k, n = k + 1 := ⟨n - 1, by omega⟩
    have hend : Reads (attrSpecsWithin (n + 1)) ([0#8] ++ ([0#8] ++ [])) [] :=
      reads_bind reads_zero (reads_bind reads_zero (reads_pure []))
    exact hend
  | cons a attrs ih =>
    intro n hn
    obtain ⟨n, rfl⟩ : ∃ k, n = k + 1 := ⟨n - 1, by omega⟩
    have hrest := reads_map (a.spec :: ·) (ih (Nat.lt_of_succ_lt_succ hn))
    have hbytes : attrListBytes (a :: attrs) =
        a.attr.bytes ++ (a.form.bytes ++ attrListBytes attrs) := by
      simp [attrListBytes, AttrDecl.bytes]
    rw [hbytes]
    refine reads_bind (reads_uleb128 a.attr.toLeb) (reads_bind (reads_uleb128 a.form.toLeb) ?_)
    rw [if_pos a.attr_ne_zero]
    exact hrest

theorem length_le_attrListBytes (attrs : List AttrDecl) :
    attrs.length ≤ (attrListBytes attrs).length := by
  induction attrs with
  | nil => exact Nat.zero_le _
  | cons a attrs ih =>
    have ha := a.one_le_length
    have hbytes : attrListBytes (a :: attrs) = a.bytes ++ attrListBytes attrs := by
      simp [attrListBytes]
    rw [hbytes, List.length_append, List.length_cons]
    omega

theorem reads_parseAttrSpecs (attrs : List AttrDecl) :
    Reads parseAttrSpecs (attrListBytes attrs) (attrs.map AttrDecl.spec) := by
  intro c hat hstop
  have hsize := hat.end_le_size (by simp [attrListBytes])
  have hlength := length_le_attrListBytes attrs
  exact reads_attrSpecsWithin attrs (by omega) c hat hstop

theorem reads_parseAbbrev (d : AbbrevDecl) : Reads parseAbbrev d.bytes d.declared := by
  have hflag : decide ((BitVec.ofBool d.hasChildren).setWidth 8 ≠ 0#8) = d.hasChildren := by
    cases d.hasChildren <;> rfl
  have hrest := reads_map (fun specs => Abbrev.mk d.code.unsigned d.tag.unsigned
    (decide ((BitVec.ofBool d.hasChildren).setWidth 8 ≠ 0#8)) specs) (reads_parseAttrSpecs d.attrs)
  rw [hflag] at hrest
  refine reads_bind (reads_uleb128 d.code.toLeb) (reads_bind (reads_uleb128 d.tag.toLeb)
    (reads_bind (reads_u8 ((BitVec.ofBool d.hasChildren).setWidth 8)) ?_))
  rw [hflag]
  exact hrest

theorem parseAbbrev_zero {c : Cursor} (hat : c.image.read c.pos = some 0#8)
    (hstop : c.pos + 1 ≤ c.stop) : parseAbbrev c = (do
      let tag ← uleb128
      let hasChildren ← u8
      let attrSpecs ← parseAttrSpecs
      pure ⟨0#64, tag, hasChildren ≠ 0#8, attrSpecs⟩ : Reader Abbrev) (c.advance 1) :=
  bind_ok (reads_zero c ⟨hat, trivial⟩ hstop)

theorem code_of_zero {c c' : Cursor} {entry : Abbrev} (hat : c.image.read c.pos = some 0#8)
    (hstop : c.pos + 1 ≤ c.stop) (h : parseAbbrev c = .ok entry c') : entry.code = 0#64 := by
  rw [parseAbbrev_zero hat hstop] at h
  obtain ⟨tag, c₁, -, h⟩ := bind_eq_ok.mp h
  obtain ⟨hasChildren, c₂, -, h⟩ := bind_eq_ok.mp h
  obtain ⟨attrSpecs, c₃, -, h⟩ := bind_eq_ok.mp h
  cases h
  rfl

theorem emplaceAbbrev_fresh {table : List Abbrev} {x : Abbrev}
    (h : x.code ∉ table.map Abbrev.code) : emplaceAbbrev table x = table ++ [x] := by
  refine if_neg fun hany => h ?_
  obtain ⟨y, hy, heq⟩ := List.any_eq_true.mp hany
  exact List.mem_map.mpr ⟨y, hy, eq_of_beq heq⟩

theorem abbrevsWithin_eq (decls : List AbbrevDecl) : ∀ {n : ℕ} {table : List Abbrev} {c : Cursor},
    decls.length < n →
    BytesAt c.image c.pos ((decls.map AbbrevDecl.bytes).flatten ++ [0#8]) →
    c.pos + ((decls.map AbbrevDecl.bytes).flatten ++ [0#8]).length ≤ c.stop →
    (table.map Abbrev.code ++ decls.map fun d => d.code.unsigned).Nodup →
    outcome (abbrevsWithin n table) c =
      (outcome parseAbbrev (c.advance (decls.map AbbrevDecl.bytes).flatten.length)).map
        fun _ => table ++ decls.map AbbrevDecl.declared := by
  -- every declaration is a round, and so is the zero that ends the table
  induction decls with
  | nil =>
    intro n table c hn hat hstop _
    obtain ⟨n, rfl⟩ : ∃ k, n = k + 1 := ⟨n - 1, by omega⟩
    rw [abbrevsWithin]
    change _ = (outcome parseAbbrev c).map fun _ => table ++ []
    rw [List.append_nil]
    cases h : parseAbbrev c with
    | error e c' =>
      rw [outcome_bind_error h, outcome, h]
      rfl
    | ok entry c' =>
      have hcode := code_of_zero hat.1 hstop h
      rw [outcome_bind_ok h, if_neg (not_not_intro hcode), outcome, outcome, h]
      rfl
  | cons d decls ih =>
    intro n table c hn hat hstop hnodup
    obtain ⟨n, rfl⟩ : ∃ k, n = k + 1 := ⟨n - 1, by omega⟩
    have hbytes : (((d :: decls).map AbbrevDecl.bytes).flatten ++ [0#8]) =
        d.bytes ++ ((decls.map AbbrevDecl.bytes).flatten ++ [0#8]) := by simp
    rw [hbytes] at hat hstop
    obtain ⟨hd, hrest⟩ := (bytesAt_append _ _ _ _).mp hat
    rw [List.length_append] at hstop
    have hread := reads_parseAbbrev d c hd (by omega)
    have hfresh : d.declared.code ∉ table.map Abbrev.code := fun hmem =>
      (List.nodup_append.mp hnodup).2.2 _ hmem _ List.mem_cons_self rfl
    have hnext : ((table ++ [d.declared]).map Abbrev.code ++
        decls.map fun d => d.code.unsigned).Nodup := by
      rw [List.map_append, List.append_assoc]
      exact hnodup
    have hih := @ih n (table ++ [d.declared]) (c.advance d.bytes.length)
      (Nat.lt_of_succ_lt_succ hn) hrest (by simpa [Nat.add_assoc] using hstop) hnext
    have hstep : outcome (abbrevsWithin (n + 1) table) c =
        outcome (abbrevsWithin n (table ++ [d.declared])) (c.advance d.bytes.length) := by
      rw [abbrevsWithin, outcome_bind_ok hread, if_pos (show d.declared.code ≠ 0#64 from
        d.code_ne_zero), emplaceAbbrev_fresh hfresh]
    have hlength : ((d :: decls).map AbbrevDecl.bytes).flatten.length =
        d.bytes.length + (decls.map AbbrevDecl.bytes).flatten.length := by simp
    rw [hstep, hih, Cursor.advance_advance, hlength, List.append_assoc]
    rfl

/-- The image without the bytes from `k` on. -/
def truncate (img : Image) (k : ℕ) : Image where
  size := k
  read i := if i < k then img.read i else none
  bounded _ h := if_neg (Nat.not_lt.mpr h)

theorem uleb128_end {c : Cursor} (h : c.image.read c.pos = none) :
    uleb128 c = .error .undefined c := by
  have hbyte : readByte c = .error .undefined c := by simp [readByte, h]
  have hopcode : u8 c = .error .undefined c := bind_error (bind_error hbyte)
  exact bind_error (bind_error hopcode)

/-- Declarations stored at an offset of `.debug_abbrev`. -/
structure StoredAbbrevs extends AbbrevDecls where
  dw : DwarfInfo
  offset : ℕ
  contents : Span
  there : dw.getSectionContents ".debug_abbrev" = some contents
  stored : BytesAt dw.image (contents.first + offset) toAbbrevDecls.bytes
  within : contents.first + offset + toAbbrevDecls.bytes.length ≤ contents.last

namespace StoredAbbrevs

variable (T : StoredAbbrevs)

def stop : ℕ := T.contents.first + T.offset + T.bytes.length

theorem decls_length_lt : T.decls.length < T.bytes.length := by
  have h : ∀ decls : List AbbrevDecl, decls.length ≤ (decls.map AbbrevDecl.bytes).flatten.length := by
    intro decls
    induction decls with
    | nil => exact Nat.zero_le _
    | cons d decls ih =>
      have hcode := List.length_pos_iff.mpr d.code.shaped.ne_nil
      simp only [List.map_cons, List.flatten_cons, List.length_cons, List.length_append,
        AbbrevDecl.bytes] at ih ⊢
      omega
  rw [AbbrevDecls.bytes, List.length_append, List.length_singleton]
  exact Nat.lt_succ_of_le (h T.decls)

theorem parseAbbrevTable_eq {img : Image}
    (hat : BytesAt img (T.contents.first + T.offset) T.bytes) :
    { T.dw with image := img }.parseAbbrevTable T.offset =
      (outcome parseAbbrev ⟨img, T.stop - 1, T.contents.last⟩).map fun _ => T.table := by
  have hsize := hat.end_le_size (by simp [AbbrevDecls.bytes])
  have hlength := T.decls_length_lt
  have hstop : T.stop - 1 =
      T.contents.first + T.offset + (T.decls.map AbbrevDecl.bytes).flatten.length := by
    simp [stop, AbbrevDecls.bytes]
  have h := @abbrevsWithin_eq T.decls (img.size + 1) []
    ⟨img, T.contents.first + T.offset, T.contents.last⟩ (by omega) hat T.within T.distinct
  have hthere : ({ T.dw with image := img } : DwarfInfo).getSectionContents ".debug_abbrev" =
      some T.contents := T.there
  unfold DwarfInfo.parseAbbrevTable
  rw [hthere, hstop]
  exact h

/-- The map is returned from every image that agrees up to the end of the table. -/
def ReadAlone : Prop :=
  ∀ img : Image, (∀ i < T.stop, img.read i = T.dw.image.read i) →
    { T.dw with image := img }.parseAbbrevTable T.offset = .ok T.table

/-- Every table is read past its end: an image that ends with it gives no map. -/
theorem not_readAlone (T : StoredAbbrevs) : ¬ T.ReadAlone := by
  intro h
  have hagree : ∀ i < T.stop, (truncate T.dw.image T.stop).read i = T.dw.image.read i :=
    fun i hi => if_pos hi
  have hat : BytesAt (truncate T.dw.image T.stop) (T.contents.first + T.offset) T.bytes :=
    bytesAt_of_agree T.stored hagree
  have hlast : T.stop - 1 =
      T.contents.first + T.offset + (T.decls.map AbbrevDecl.bytes).flatten.length := by
    simp [stop, AbbrevDecls.bytes]
  have hstop : T.stop - 1 + 1 = T.stop := by
    have := T.decls_length_lt
    unfold stop
    omega
  have hzero : (truncate T.dw.image T.stop).read (T.stop - 1) = some 0#8 := by
    rw [hlast]
    exact ((bytesAt_append _ _ _ _).mp hat).2.1
  have hend : (truncate T.dw.image T.stop).read (T.stop - 1 + 1) = none := by
    rw [hstop]
    exact if_neg (Nat.lt_irrefl _)
  have hround : outcome parseAbbrev ⟨truncate T.dw.image T.stop, T.stop - 1, T.contents.last⟩ =
      .error .undefined := by
    rw [outcome, parseAbbrev_zero hzero (hstop.trans_le T.within), bind_error (uleb128_end hend)]
  have heq := h _ hagree
  rw [T.parseAbbrevTable_eq hat, hround] at heq
  cases heq

def single : StoredAbbrevs where
  decls := [⟨.small 1, .small 0x11, false, [], by decide⟩]
  distinct := List.pairwise_singleton _ _
  dw := ⟨0, .ofList [1, 0x11, 0, 0, 0, 0], fun _ => some ⟨0, 6⟩, []⟩
  offset := 0
  contents := ⟨0, 6⟩
  there := rfl
  stored := bytesAt_ofList (by decide)
  within := by decide

theorem not_readAlone_everywhere : ¬ ∀ T : StoredAbbrevs, T.ReadAlone := by
  intro h
  have hparse := h single single.dw.image fun _ _ => rfl
  have hend : single.dw.parseAbbrevTable 0 = .error .undefined := by decide
  cases hend.symm.trans hparse

end StoredAbbrevs
end KDebugger.Dwarf
