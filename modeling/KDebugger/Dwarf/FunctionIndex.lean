import KDebugger.Dwarf.Children

namespace KDebugger.Dwarf

open ByteStream Leb128 Exec Cur

structure IndexEntry where
  cu : CompileUnit
  pos : ℕ
deriving DecidableEq, Repr

abbrev FunctionIndex := List (List Byte × IndexEntry)

namespace DwarfInfo

def name (dw : DwarfInfo) : ℕ → Die → Except Failure (Option (List Byte))
  -- the first number is the stack depth that is left
  | 0, _ => .error .exhausted
  | depth + 1, d => do
    if ← d.contains dwAtName then
      let a ← d.attrOf dwAtName
      let s ← a.asString dw
      return some s
    if ← d.contains dwAtSpecification then
      let a ← d.attrOf dwAtSpecification
      let target ← a.asReference dw
      return ← name dw depth target
    if ← d.contains dwAtAbstractOrigin then
      let a ← d.attrOf dwAtAbstractOrigin
      let target ← a.asReference dw
      return ← name dw depth target
    return none

/-- The emplacement in `index_die`.  `*name` of an empty optional is undefined. -/
def emplaceFunction (dw : DwarfInfo) (depth : ℕ) (current : Die) :
    EStateM Failure FunctionIndex Unit := do
  -- `*name` of an empty optional is undefined
  match current.cu, current.pos with
  | some cu, some pos =>
    match ← ofExcept (dw.name depth current) with
    | some s => modify (· ++ [(s, ⟨cu, pos⟩)])
    | none => throw .undefined
  | _, _ => throw .undefined

/-- A loop from a child on, which is handled before the next one is parsed. -/
def forSiblings {σ : Type} (dw : DwarfInfo) (body : Die → EStateM Failure σ Unit) :
    ℕ → Die → EStateM Failure σ Unit
  | 0, _ => throw .exhausted
  | n + 1, d =>
    match d.abbrevEntry with
    | none => pure ()
    | some _ => do
      body d
      let d' ← ofExcept (dw.increment dw.fuel d)
      forSiblings dw body n d'

def forChildren {σ : Type} (dw : DwarfInfo) (body : Die → EStateM Failure σ Unit) (d : Die) :
    EStateM Failure σ Unit :=
  match d.abbrevEntry, d.cu with
  | some entry, some cu =>
    if entry.hasChildren then do
      let first ← ofExcept (dw.parseDieAt cu d.next)
      dw.forSiblings body dw.fuel first
    else pure ()
  | _, _ => throw .undefined

def indexDie (dw : DwarfInfo) : ℕ → Die → EStateM Failure FunctionIndex Unit
  | 0, _ => throw .exhausted
  | depth + 1, current =>
    match current.abbrevEntry with
    | none => throw .undefined
    | some entry => do
      let hasLowPc ← ofExcept (current.contains dwAtLowPc)
      let hasRanges ← ofExcept (current.contains dwAtRanges)
      let isFunction := entry.tag == dwTagSubprogram || entry.tag == dwTagInlinedSubroutine
      if (hasLowPc || hasRanges) && isFunction then emplaceFunction dw depth current
      dw.forChildren (indexDie dw depth) current

def index (dw : DwarfInfo) (depth : ℕ) : EStateM Failure FunctionIndex Unit := do
  -- a map that is not empty is taken for a finished one
  let functionIndex ← get
  if !functionIndex.isEmpty then return
  dw.compileUnits.forM fun cu => do
    let root ← ofExcept (dw.root cu)
    dw.indexDie depth root

variable {σ : Type} {dw : DwarfInfo} {body : Die → EStateM Failure σ Unit}

theorem forSiblings_eq : ∀ {n : ℕ} {d : Die} {ds : List Die}, dw.collect n d = .ok ds →
    dw.forSiblings body n d = ds.forM body := by
  intro n
  induction n with
  | zero => exact fun h => nomatch h
  | succ n ih =>
    intro d ds h
    unfold collect at h
    unfold forSiblings
    cases hentry : d.abbrevEntry with
    | none =>
      rw [hentry] at h
      cases h
      rfl
    | some entry =>
      rw [hentry] at h
      cases hnext : dw.increment dw.fuel d with
      | error e => simp [hnext, bind, Except.bind] at h
      | ok d' =>
        cases hrest : dw.collect n d' with
        | error e => simp [hnext, hrest, bind, Except.bind] at h
        | ok rest =>
          obtain rfl : d :: rest = ds := by
            simpa [hnext, hrest, bind, Except.bind, pure, Except.pure] using h
          simp only [ofExcept, pure_bind, ih hrest]
          rfl

theorem forChildren_eq {d : Die} {ds : List Die} (h : dw.children d = .ok ds) :
    dw.forChildren body d = ds.forM body := by
  unfold children at h
  unfold forChildren
  cases hentry : d.abbrevEntry with
  | none =>
    rw [hentry] at h
    cases h
  | some entry =>
    cases hcu : d.cu with
    | none =>
      rw [hentry, hcu] at h
      cases h
    | some cu =>
      rw [hentry, hcu] at h
      dsimp only at h ⊢
      split_ifs at h ⊢ with hkids
      · cases hfirst : dw.parseDieAt cu d.next with
        | error e => simp [hfirst, bind, Except.bind] at h
        | ok first =>
          simp only [hfirst, bind, Except.bind] at h
          simp only [ofExcept, pure_bind, forSiblings_eq h]
      · cases h
        rfl

end DwarfInfo

/-- The entry a reference of `cu` leads to, by the forms `skip_form` handles. -/
inductive Refers (dw : DwarfInfo) (adm : Form → Prop) (cu : CompileUnit) :
    BitVec 64 → List Byte → CompileUnit → ℕ → Prop where
  | inUnit {f : Form} {offset : BitVec 64} {bs : List Byte} (hf : f ∈ [Form.ref1, .ref2, .ref4])
      (h : Encodes f (.reference offset) bs) (ha : adm f) :
      Refers dw adm cu f.code bs cu (cu.data.first + offset.toNat)
  | udata (u : Uleb) (ha : adm .refUdata) :
      Refers dw adm cu Form.refUdata.code u.bytes cu (cu.data.first + u.value)
  | inSection {v : BitVec 32} {debugInfo : Span} {cu' : CompileUnit}
      (hsec : dw.getSectionContents ".debug_info" = some debugInfo)
      (hunit : UnitOf dw cu' (debugInfo.first + v.toNat)) (ha : adm .refAddr) :
      Refers dw adm cu Form.refAddr.code (leBytes 4 v.toNat) cu' (debugInfo.first + v.toNat)
  | indirect (l : Leb) {bs : List Byte} {cu' : CompileUnit} {p : ℕ}
      (h : Refers dw adm cu l.unsigned bs cu' p) (ha : adm .indirect) :
      Refers dw adm cu Form.indirect.code (l.bytes ++ bs) cu' p

/-- The text of a name attribute. -/
inductive Spells (dw : DwarfInfo) (adm : Form → Prop) : BitVec 64 → List Byte → List Byte → Prop where
  | inline {s : List Byte} (hs : 0#8 ∉ s) (ha : adm .string) :
      Spells dw adm Form.string.code (s ++ [0#8]) s
  | table {v : BitVec 32} {debugStr : Span} {s : List Byte} (hs : 0#8 ∉ s)
      (hsec : dw.getSectionContents ".debug_str" = some debugStr)
      (hat : BytesAt dw.image (debugStr.first + v.toNat) (s ++ [0#8]))
      (hstop : debugStr.first + v.toNat + (s ++ [0#8]).length ≤ debugStr.last)
      (ha : adm .strp) : Spells dw adm Form.strp.code (leBytes 4 v.toNat) s
  | indirect (l : Leb) {bs s : List Byte} (h : Spells dw adm l.unsigned bs s)
      (ha : adm .indirect) : Spells dw adm Form.indirect.code (l.bytes ++ bs) s

def Head.link (h : Head) : Option (AttrSpec × List Byte) :=
  match h.field dwAtSpecification with
  | some x => some x
  | none => h.field dwAtAbstractOrigin

/-- The name of a DIE; the forms used on the way are all in `adm`. -/
inductive Resolves (dw : DwarfInfo) (adm : Form → Prop) :
    CompileUnit → Head → Option (List Byte) → Prop where
  | own {cu : CompileUnit} {h : Head} {spec : AttrSpec} {bs s : List Byte}
      (hname : h.field dwAtName = some (spec, bs)) (hs : Spells dw adm spec.form bs s) :
      Resolves dw adm cu h (some s)
  | link {cu cu' : CompileUnit} {h h' : Head} {spec : AttrSpec} {bs : List Byte} {p : ℕ}
      {r : Option (List Byte)} (hname : h.field dwAtName = none)
      (hlink : h.link = some (spec, bs)) (href : Refers dw adm cu spec.form bs cu' p)
      (hp : Placed dw.image cu' p h'.bytes) (hab : cu'.abbrevAt h'.entry.code = some h'.entry)
      (hrest : Resolves dw adm cu' h' r) : Resolves dw adm cu h r
  | nameless {cu : CompileUnit} {h : Head} (hname : h.field dwAtName = none)
      (hlink : h.link = none) : Resolves dw adm cu h none

/-- The forms `as_reference` and `as_string` take, among those `skip_form` handles. -/
def Accepted (f : Form) : Prop := f ≠ .refUdata ∧ f ≠ .indirect

section Names

variable {dw : DwarfInfo} {cu : CompileUnit}

theorem name_own {p n : ℕ} {h : Head} {spec : AttrSpec} {bs : List Byte}
    (hp : Placed dw.image cu p h.bytes) (hname : h.field dwAtName = some (spec, bs)) :
    ∃ loc, Placed dw.image cu loc bs ∧
      dw.name (n + 1) (h.die cu p) =
        (do let s ← (⟨cu, spec.attr, spec.form, loc⟩ : Attr).asString dw; pure (some s)) := by
  obtain ⟨loc, hattr, hloc⟩ := attrOf_die hp hname
  refine ⟨loc, hloc, ?_⟩
  rw [DwarfInfo.name, contains_die, ← h.field_isSome, hname, hattr]
  rfl

theorem name_link {p n : ℕ} {h : Head} {spec : AttrSpec} {bs : List Byte}
    (hp : Placed dw.image cu p h.bytes) (hname : h.field dwAtName = none)
    (hlink : h.link = some (spec, bs)) :
    ∃ loc, Placed dw.image cu loc bs ∧
      dw.name (n + 1) (h.die cu p) =
        (do let d ← (⟨cu, spec.attr, spec.form, loc⟩ : Attr).asReference dw; dw.name n d) := by
  have hno : (h.die cu p).contains dwAtName = .ok false := by
    rw [contains_die, ← h.field_isSome, hname]
    rfl
  cases hspec : h.field dwAtSpecification with
  | some x =>
    obtain rfl : x = (spec, bs) := by simpa [Head.link, hspec] using hlink
    obtain ⟨loc, hattr, hloc⟩ := attrOf_die hp hspec
    refine ⟨loc, hloc, ?_⟩
    rw [DwarfInfo.name, hno, contains_die, ← h.field_isSome, hspec, hattr]
    rfl
  | none =>
    have horigin : h.field dwAtAbstractOrigin = some (spec, bs) := by
      simpa [Head.link, hspec] using hlink
    obtain ⟨loc, hattr, hloc⟩ := attrOf_die hp horigin
    refine ⟨loc, hloc, ?_⟩
    rw [DwarfInfo.name, hno, contains_die, ← h.field_isSome, hspec, contains_die,
      ← h.field_isSome, horigin, hattr]
    rfl

theorem name_nameless {p n : ℕ} {h : Head} (hname : h.field dwAtName = none)
    (hlink : h.link = none) : dw.name (n + 1) (h.die cu p) = .ok none := by
  cases hspec : h.field dwAtSpecification with
  | some x => simp [Head.link, hspec] at hlink
  | none =>
    have horigin : h.field dwAtAbstractOrigin = none := by simpa [Head.link, hspec] using hlink
    rw [DwarfInfo.name, contains_die, ← h.field_isSome, hname, contains_die, ← h.field_isSome,
      hspec, contains_die, ← h.field_isSome, horigin]
    rfl

theorem asReference_of_refers {attr form : BitVec 64} {bs : List Byte} {cu' : CompileUnit}
    {p loc : ℕ} (h : Refers dw Accepted cu form bs cu' p) (hloc : Placed dw.image cu loc bs) :
    (⟨cu, attr, form, loc⟩ : Attr).asReference dw = dw.parseDieAt cu' p := by
  cases h with
  | @inUnit f offset bs hf henc ha =>
    have h8 : f ≠ .ref8 := by
      rintro rfl
      simp at hf
    exact accessed_of_encodes henc h8 (a := ⟨cu, attr, f.code, loc⟩) rfl hloc.1 hloc.2
  | udata u ha => exact absurd rfl ha.1
  | @inSection v debugInfo _ hsec hunit ha =>
    exact accessed_of_encodes (.refAddr v) (by decide) (a := ⟨cu, attr, Form.refAddr.code, loc⟩)
      rfl hloc.1 hloc.2 debugInfo cu' hsec hunit
  | indirect l h ha => exact absurd rfl ha.2

theorem refers_of_asReference {adm : Form → Prop} {attr form : BitVec 64} {bs : List Byte}
    {cu' : CompileUnit} {p loc : ℕ} {d : Die} (h : Refers dw adm cu form bs cu' p)
    (hd : (⟨cu, attr, form, loc⟩ : Attr).asReference dw = .ok d) :
    Refers dw Accepted cu form bs cu' p := by
  cases h with
  | @inUnit f offset bs hf henc ha =>
    refine .inUnit hf henc ⟨?_, ?_⟩ <;>
      · rintro rfl
        simp at hf
  | udata u ha => simp [Attr.asReference] at hd
  | inSection hsec hunit ha => exact .inSection hsec hunit ⟨by decide, by decide⟩
  | indirect l h ha => simp [Attr.asReference] at hd

theorem asString_of_spells {attr form : BitVec 64} {bs s : List Byte} {loc : ℕ}
    (h : Spells dw Accepted form bs s) (hloc : Placed dw.image cu loc bs) :
    (⟨cu, attr, form, loc⟩ : Attr).asString dw = .ok s := by
  cases h with
  | inline hs ha =>
    exact accessed_of_encodes (.string hs) (by decide) (a := ⟨cu, attr, Form.string.code, loc⟩)
      rfl hloc.1 hloc.2
  | @table v debugStr _ hs hsec hat hstop ha =>
    exact accessed_of_encodes (.strp v) (by decide) (a := ⟨cu, attr, Form.strp.code, loc⟩)
      rfl hloc.1 hloc.2 debugStr s hsec hs hat hstop
  | indirect l h ha => exact absurd rfl ha.2

theorem spells_of_asString {adm : Form → Prop} {attr form : BitVec 64} {bs s s' : List Byte}
    {loc : ℕ} (h : Spells dw adm form bs s)
    (hs' : (⟨cu, attr, form, loc⟩ : Attr).asString dw = .ok s') :
    Spells dw Accepted form bs s := by
  cases h with
  | inline hs ha => exact .inline hs ⟨by decide, by decide⟩
  | table hs hsec hat hstop ha => exact .table hs hsec hat hstop ⟨by decide, by decide⟩
  | indirect l h ha => simp [Attr.asString] at hs'

/-- Through accepted forms `name` finds the name, given depth enough. -/
theorem name_of_resolves {h : Head} {r : Option (List Byte)} (hr : Resolves dw Accepted cu h r) :
    ∀ {p : ℕ}, Placed dw.image cu p h.bytes →
      ∃ N, ∀ n ≥ N, dw.name n (h.die cu p) = .ok r := by
  induction hr with
  | own hname hs =>
    intro p hp
    refine ⟨1, fun n hn => ?_⟩
    obtain ⟨n, rfl⟩ : ∃ k, n = k + 1 := ⟨n - 1, by omega⟩
    obtain ⟨loc, hloc, heq⟩ := name_own (n := n) hp hname
    rw [heq, asString_of_spells hs hloc]
    rfl
  | link hname hlink href hp' hab hrest ih =>
    intro p hp
    obtain ⟨N, hN⟩ := ih hp'
    refine ⟨N + 1, fun n hn => ?_⟩
    obtain ⟨n, rfl⟩ : ∃ k, n = k + 1 := ⟨n - 1, by omega⟩
    obtain ⟨loc, hloc, heq⟩ := name_link (n := n) hp hname hlink
    rw [heq, asReference_of_refers href hloc, parseDieAt_head hp' hab]
    exact hN n (by omega)
  | nameless hname hlink =>
    intro p _
    refine ⟨1, fun n hn => ?_⟩
    obtain ⟨n, rfl⟩ : ∃ k, n = k + 1 := ⟨n - 1, by omega⟩
    exact name_nameless hname hlink

theorem resolves_of_name {adm : Form → Prop} {h : Head} {r : Option (List Byte)}
    (hr : Resolves dw adm cu h r) :
    ∀ {p n : ℕ} {o : Option (List Byte)}, Placed dw.image cu p h.bytes →
      dw.name n (h.die cu p) = .ok o → r = o ∧ Resolves dw Accepted cu h r := by
  -- by induction on how the name resolves; each link takes one level of the stack
  induction hr with
  | @own cu h spec bs s hname hs =>
    intro p n o hp ho
    cases n with
    | zero => simp [DwarfInfo.name] at ho
    | succ n =>
      obtain ⟨loc, hloc, heq⟩ := name_own (n := n) hp hname
      rw [heq] at ho
      cases hstr : (⟨cu, spec.attr, spec.form, loc⟩ : Attr).asString dw with
      | error e => simp [hstr, bind, Except.bind] at ho
      | ok s' =>
        have hacc := spells_of_asString hs hstr
        rw [asString_of_spells hacc hloc] at ho
        exact ⟨by simpa [bind, Except.bind, pure, Except.pure] using ho, .own hname hacc⟩
  | @link cu cu' h h' spec bs p' r hname hlink href hp' hab hrest ih =>
    intro p n o hp ho
    cases n with
    | zero => simp [DwarfInfo.name] at ho
    | succ n =>
      obtain ⟨loc, hloc, heq⟩ := name_link (n := n) hp hname hlink
      rw [heq] at ho
      cases hdie : (⟨cu, spec.attr, spec.form, loc⟩ : Attr).asReference dw with
      | error e => simp [hdie, bind, Except.bind] at ho
      | ok d =>
        have hacc := refers_of_asReference href hdie
        rw [asReference_of_refers hacc hloc, parseDieAt_head hp' hab] at ho
        obtain ⟨rfl, hres⟩ := ih hp' ho
        exact ⟨rfl, .link hname hlink hacc hp' hab hres⟩
  | nameless hname hlink =>
    intro p n o _ ho
    cases n with
    | zero => simp [DwarfInfo.name] at ho
    | succ n =>
      rw [name_nameless hname hlink] at ho
      exact ⟨by simpa using ho, .nameless hname hlink⟩

end Names

end KDebugger.Dwarf
