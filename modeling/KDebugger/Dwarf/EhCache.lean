import KDebugger.Dwarf.CursorFormats
import KDebugger.Dwarf.EhEntries

namespace KDebugger.Dwarf

open ByteStream Leb128 Exec Cur

/-- What `parse_cie` makes of an offset. -/
def EhFile.cieAt (F : EhFile) (offset : BitVec 64) : Except Failure CommonInformationEntry :=
  outcome parseCie ⟨F.dw.image, offset.toNat, F.sectionEnd ".eh_frame"⟩

/-- A cache, with the offsets that were looked up so far. -/
inductive CacheFrom (F : EhFile) : List (BitVec 64) → CieMap → Prop where
  | empty : CacheFrom F [] []
  | looked {offsets : List (BitVec 64)} {map map' : CieMap} {offset : BitVec 64}
      {cie : CommonInformationEntry} (h : CacheFrom F offsets map)
      (hget : F.getCie map offset = .ok (cie, map')) : CacheFrom F (offsets ++ [offset]) map'

def SameKey (offset o : BitVec 64) : Bool := o.setWidth 32 == offset.setWidth 32

def firstLooked (offsets : List (BitVec 64)) (offset : BitVec 64) : Option (BitVec 64) :=
  offsets.find? (SameKey offset)

/-- What the cache has under the key of an offset. -/
def Kept (F : EhFile) (map : CieMap) (offset : BitVec 64) : Option (BitVec 64) → Prop
  | none => map.lookup (offset.setWidth 32) = none
  | some o => ∃ cie, F.cieAt o = .ok cie ∧ map.lookup (offset.setWidth 32) = some cie

section Cache

variable {F : EhFile} {offsets : List (BitVec 64)} {map map' : CieMap}

theorem getCie_of_hit {offset : BitVec 64} {cie : CommonInformationEntry}
    (h : map.lookup (offset.setWidth 32) = some cie) : F.getCie map offset = .ok (cie, map) := by
  rw [EhFile.getCie, h]

theorem getCie_of_miss {offset : BitVec 64} (h : map.lookup (offset.setWidth 32) = none) :
    F.getCie map offset =
      (F.cieAt offset).map fun cie => (cie, map ++ [(offset.setWidth 32, cie)]) := by
  rw [EhFile.getCie, h]
  rfl

theorem getCie_cases {offset : BitVec 64} {cie : CommonInformationEntry}
    (h : F.getCie map offset = .ok (cie, map')) :
    (map.lookup (offset.setWidth 32) = some cie ∧ map' = map) ∨
    (map.lookup (offset.setWidth 32) = none ∧ F.cieAt offset = .ok cie ∧
      map' = map ++ [(offset.setWidth 32, cie)]) := by
  cases hlookup : map.lookup (offset.setWidth 32) with
  | some cie' =>
    rw [getCie_of_hit hlookup] at h
    cases h
    exact .inl ⟨rfl, rfl⟩
  | none =>
    rw [getCie_of_miss hlookup] at h
    cases hparse : F.cieAt offset with
    | error e =>
      rw [hparse] at h
      cases h
    | ok cie' =>
      rw [hparse] at h
      cases h
      exact .inr ⟨rfl, rfl, rfl⟩

theorem CacheFrom.kept (h : CacheFrom F offsets map) :
    ∀ offset, Kept F map offset (firstLooked offsets offset) := by
  induction h with
  | empty => exact fun _ => rfl
  | @looked offsets map map' o cie _ hget ih =>
    intro offset
    have hbefore := ih offset
    unfold firstLooked at hbefore ⊢
    rw [List.find?_append]
    cases hfind : offsets.find? (SameKey offset) with
    | some o' =>
      rw [hfind] at hbefore
      obtain ⟨cie', hparse, hlookup⟩ := hbefore
      refine ⟨cie', hparse, ?_⟩
      obtain ⟨-, rfl⟩ | ⟨-, -, rfl⟩ := getCie_cases hget
      · exact hlookup
      · rw [List.lookup_append, hlookup]
        rfl
    | none =>
      rw [hfind] at hbefore
      have hbefore : map.lookup (offset.setWidth 32) = none := hbefore
      by_cases hkey : o.setWidth 32 = offset.setWidth 32
      · have hsame : [o].find? (SameKey offset) = some o := by simp [SameKey, hkey]
        rw [hsame]
        obtain ⟨hlookup, -⟩ | ⟨-, hparse, rfl⟩ := getCie_cases hget
        · rw [hkey, hbefore] at hlookup
          cases hlookup
        · refine ⟨cie, hparse, ?_⟩
          rw [List.lookup_append, hbefore, hkey]
          exact List.lookup_cons_self
      · have hother : [o].find? (SameKey offset) = none := by simp [SameKey, hkey]
        rw [hother]
        change map'.lookup (offset.setWidth 32) = none
        obtain ⟨-, rfl⟩ | ⟨-, -, rfl⟩ := getCie_cases hget
        · exact hbefore
        · rw [List.lookup_append, hbefore]
          have hne : (offset.setWidth 32 == o.setWidth 32) = false :=
            beq_eq_false_iff_ne.mpr (Ne.symm hkey)
          rw [List.lookup_cons, hne]
          rfl

def parsedAt (offsets : List (BitVec 64)) (offset : BitVec 64) : BitVec 64 :=
  (firstLooked offsets offset).getD offset

theorem CacheFrom.parsed (h : CacheFrom F offsets map) {offset : BitVec 64}
    {cie : CommonInformationEntry} (hget : F.getCie map offset = .ok (cie, map')) :
    F.cieAt (parsedAt offsets offset) = .ok cie ∧ map'.lookup (offset.setWidth 32) = some cie := by
  have hkept := h.kept offset
  unfold parsedAt
  obtain ⟨hlookup, rfl⟩ | ⟨hlookup, hparse, rfl⟩ := getCie_cases hget
  · cases hfirst : firstLooked offsets offset with
    | none =>
      rw [hfirst] at hkept
      exact absurd (hlookup.symm.trans hkept) (Option.some_ne_none _)
    | some o =>
      rw [hfirst] at hkept
      obtain ⟨cie', hparse, hlookup'⟩ := hkept
      obtain rfl := Option.some.inj (hlookup.symm.trans hlookup')
      exact ⟨hparse, hlookup⟩
  · cases hfirst : firstLooked offsets offset with
    | none =>
      refine ⟨hparse, ?_⟩
      rw [List.lookup_append, hlookup]
      exact List.lookup_cons_self
    | some o =>
      rw [hfirst] at hkept
      obtain ⟨cie', -, hlookup'⟩ := hkept
      exact absurd (hlookup'.symm.trans hlookup) (Option.some_ne_none _)

theorem CacheFrom.found (h : CacheFrom F offsets map) {offset : BitVec 64}
    {cie : CommonInformationEntry} (hparse : F.cieAt (parsedAt offsets offset) = .ok cie) :
    ∃ map', F.getCie map offset = .ok (cie, map') := by
  have hkept := h.kept offset
  unfold parsedAt at hparse
  cases hfirst : firstLooked offsets offset with
  | none =>
    rw [hfirst] at hkept hparse
    have hparse : F.cieAt offset = .ok cie := hparse
    rw [getCie_of_miss hkept, hparse]
    exact ⟨_, rfl⟩
  | some o =>
    rw [hfirst] at hkept hparse
    obtain ⟨cie', hparse', hlookup⟩ := hkept
    obtain rfl := Except.ok.inj (hparse'.symm.trans hparse)
    exact ⟨map, getCie_of_hit hlookup⟩

end Cache

theorem onward_parseEhFramePointerWithBase (encoding : Byte) (base : BitVec 64) :
    Within Onward (parseEhFramePointerWithBase encoding base) := by
  unfold parseEhFramePointerWithBase
  split
  case h_2 => exact onward.bind onward_uleb128 fun _ => onward.pure _
  case h_6 => exact onward.bind onward_sleb128 fun _ => onward.pure _
  case h_10 => exact onward.throw _
  all_goals exact onward.bind (onward_fixedInt _) fun _ => onward.pure _

theorem onward_parseAugmentation : ∀ (letters : List Byte) (encoding : Byte),
    Within Onward (parseAugmentation letters encoding)
  | [], _ => onward.pure _
  | _ :: letters, _ =>
    within_ite (onward.bind onward_uleb128 fun _ => onward_parseAugmentation letters _)
      (within_ite (onward.bind (onward_fixedInt 1) fun _ => onward_parseAugmentation letters _)
        (within_ite (onward.bind (onward_fixedInt 1) fun _ => onward_parseAugmentation letters _)
          (within_ite (onward.bind (onward_fixedInt 1) fun _ =>
              onward.bind (onward_parseEhFramePointerWithBase _ _) fun _ =>
                onward_parseAugmentation letters _)
            (onward.throw _))))

theorem onward_checkSizes (version : Byte) : Within Onward (checkSizes version) :=
  within_ite (onward.bind (onward_fixedInt 1) fun _ => onward.bind (onward_fixedInt 1) fun _ =>
    within_ite (onward.throw _) (within_ite (onward.throw _) (onward.pure _))) (onward.pure _)

/-- Read from `start` on or behind it, the entry has instructions from there on, up to where
the length from `start` on ends. -/
def SpansFrom (start : ℕ) (p : Reader CommonInformationEntry) : Prop :=
  ∀ c cie c', start ≤ c.pos → p c = .ok cie c' →
    start ≤ cie.instructions.first ∧ cie.instructions.last = start + cie.length.toNat

section Spans

variable {start : ℕ} {α : Type}

theorem spansFrom_bind {p : Reader α} {f : α → Reader CommonInformationEntry}
    (hp : Within Onward p) (hf : ∀ a, SpansFrom start (f a)) : SpansFrom start (p >>= f) := by
  intro c cie c' hstart h
  obtain ⟨a, c₁, ha, hrest⟩ := bind_eq_ok.mp h
  exact hf a c₁ cie c' (hstart.trans (hp.ok ha).2.2) hrest

theorem spansFrom_position {f : ℕ → Reader CommonInformationEntry}
    (hf : ∀ pos, start ≤ pos → SpansFrom start (f pos)) : SpansFrom start (position >>= f) := by
  intro c cie c' hstart h
  obtain ⟨_, _, hposition, hrest⟩ := bind_eq_ok.mp h
  cases hposition
  exact hf c.pos hstart c cie c' hstart hrest

theorem spansFrom_ite {P : Prop} [Decidable P] {p q : Reader CommonInformationEntry}
    (hp : SpansFrom start p) (hq : SpansFrom start q) : SpansFrom start (if P then p else q) := by
  split
  · exact hp
  · exact hq

theorem spansFrom_throw (e : Failure) : SpansFrom start (throw e) := fun _ _ _ _ h => nomatch h

theorem spansFrom_pure {cie : CommonInformationEntry} (hfirst : start ≤ cie.instructions.first)
    (hlast : cie.instructions.last = start + cie.length.toNat) : SpansFrom start (pure cie) := by
  intro c cie' c' _ h
  cases h
  exact ⟨hfirst, hlast⟩

end Spans

theorem parseCie_instructions {c c' : Cursor} {cie : CommonInformationEntry}
    (h : parseCie c = .ok cie c') : c.pos ≤ cie.instructions.first ∧
      cie.instructions.last = c.pos + cie.length.toNat := by
  obtain ⟨_, _, hstart, hrest⟩ := bind_eq_ok.mp h
  cases hstart
  refine (?_ : SpansFrom c.pos _) c cie c' le_rfl hrest
  refine spansFrom_bind (onward_fixedInt 4) fun length => spansFrom_bind (onward_fixedInt 4) fun _ =>
    spansFrom_bind (onward_fixedInt 1) fun version => spansFrom_ite (spansFrom_throw _)
      (spansFrom_bind format_string.onward fun augmentation => spansFrom_ite (spansFrom_throw _) ?_)
  refine spansFrom_bind (onward_checkSizes version) fun _ => spansFrom_bind onward_uleb128 fun _ =>
    spansFrom_bind onward_sleb128 fun _ => ?_
  -- the register of the return address is a byte or a number
  refine spansFrom_ite (spansFrom_bind (onward.bind (onward_fixedInt 1) fun _ => onward.pure _)
    fun _ => ?_) (spansFrom_bind onward_uleb128 fun _ => ?_)
  all_goals
    exact spansFrom_bind (onward_parseAugmentation _ _) fun _ =>
      spansFrom_position fun _ hpos => spansFrom_pure hpos rfl

/-- An FDE behind its CIE, both in one section. -/
structure EncodedFde (F : EhFile) extends FdeFields where
  pos : ℕ
  cie : EncodedCie
  ciePos : ℕ
  baseCode : base.code = cie.encoding &&& 0x70#8
  locationCode : location.format.code = cie.encoding &&& 0x0f#8
  rangeCode : range.format.code = cie.encoding &&& 0x0f#8
  augmented : toFdeFields.Augmented cie.augmentation.isSome
  sized : length.toNat = (toFdeFields.head ++ instructions).length
  bounded : length.toNat < 2 ^ 32 - 4
  behind : ciePos + cie.bytes.length ≤ pos
  refers : ciePos + ciePointer.toNat = pos + 4
  cieLies : BytesAt F.dw.image ciePos cie.bytes
  lies : BytesAt F.dw.image pos toFdeFields.bytes
  inside : pos + toFdeFields.bytes.length ≤ F.sectionEnd ".eh_frame"
  fileSize : F.dw.image.size ≤ 2 ^ 64

namespace EncodedFde

variable {F : EhFile} (d : EncodedFde F)

def cieOffset : BitVec 64 := BitVec.ofNat 64 d.ciePos

/-- What the format says of the FDE and its CIE. -/
structure Describes (fde : FrameDescriptionEntry) (cie : CommonInformationEntry) : Prop where
  instructions : fde.instructions = ⟨d.pos + (4 + d.head.length), d.pos + d.bytes.length⟩
  initialLocation : d.base = .absolute → fde.initialLocation = ⟨some F.dw.elf, d.location.value⟩
  addressRange : fde.addressRange = d.range.value
  codeAlignmentFactor : cie.codeAlignmentFactor = d.cie.codeAlignment.unsigned
  dataAlignmentFactor : cie.dataAlignmentFactor = d.cie.dataAlignment.signed
  fdePointerEncoding : cie.fdePointerEncoding = d.cie.encoding
  fdeHasAugmentation : cie.fdeHasAugmentation = d.cie.augmentation.isSome
  cieInstructions : cie.instructions =
    ⟨d.ciePos + (4 + d.cie.head.length), d.ciePos + d.cie.bytes.length⟩

/-- `parse_fde` returns the description, with the CIE that is then in the cache. -/
def Parsed (map : CieMap) : Prop :=
  ∃ fde cie map', outcome (F.parseFde map) ⟨F.dw.image, d.pos, F.sectionEnd ".eh_frame"⟩ =
      .ok (fde, map') ∧ map'.lookup (d.cieOffset.setWidth 32) = some cie ∧ fde.cie = cie.toCie ∧
    d.Describes fde cie

/-- The first CIE that was looked up under the key of this one is this one; if there was
none, the pointer to it is positive as a signed number. -/
def CieReached (offsets : List (BitVec 64)) : Prop :=
  match firstLooked offsets d.cieOffset with
  | some o => o.toNat = d.ciePos
  | none => d.ciePointer.toNat < 2 ^ 31

/-- The data alignment factor is not negative, or its encoding has one byte or ten. -/
def FactorRead : Prop :=
  0 ≤ d.cie.dataAlignment.value ∨ d.cie.dataAlignment.bytes.length = 1 ∨
    d.cie.dataAlignment.bytes.length = 10

/-- The offset `parse_fde` looks up. -/
def lookedUp : BitVec 64 := BitVec.ofNat 64 (d.pos + 4) - d.ciePointer.signExtend 64

theorem pos_lt : d.pos + 4 < 2 ^ 64 := by
  have hend := d.lies.end_le_size (by simp [FdeFields.bytes, leBytes])
  have hsize := d.fileSize
  have hpositive : 4 < d.bytes.length := by
    simp only [FdeFields.bytes, FdeFields.head, List.length_append, leBytes_length]
    omega
  omega

theorem cieOffset_toNat : d.cieOffset.toNat = d.ciePos := by
  have hpos := d.pos_lt
  have hbehind := d.behind
  rw [cieOffset, BitVec.toNat_ofNat, Nat.mod_eq_of_lt (by omega)]

theorem lookedUp_eq : d.lookedUp = if d.ciePointer.toNat < 2 ^ 31 then d.cieOffset
    else d.cieOffset + BitVec.ofNat 64 (2 ^ 32) := by
  have hrefers := d.refers
  have hpos := d.pos_lt
  have hlt := d.ciePointer.isLt
  have hoffset := d.cieOffset_toNat
  apply BitVec.eq_of_toNat_eq
  split_ifs with hshort
  · have hmsb : d.ciePointer.msb = false := by
      rw [BitVec.msb_eq_decide, decide_eq_false_iff_not]
      omega
    have hextend : (d.ciePointer.signExtend 64).toNat = d.ciePointer.toNat := by
      rw [BitVec.signExtend_eq_setWidth_of_msb_false hmsb, BitVec.toNat_setWidth,
        Nat.mod_eq_of_lt (by omega)]
    rw [lookedUp, BitVec.toNat_sub, BitVec.toNat_ofNat, hextend, hoffset]
    omega
  · have hmsb : d.ciePointer.msb = true := by
      rw [BitVec.msb_eq_decide, decide_eq_true_iff]
      omega
    have hextend : (d.ciePointer.signExtend 64).toNat =
        d.ciePointer.toNat + (2 ^ 64 - 2 ^ 32) := by
      rw [BitVec.toNat_signExtend, hmsb, if_pos rfl, BitVec.toNat_setWidth,
        Nat.mod_eq_of_lt (by omega)]
    rw [lookedUp, BitVec.toNat_sub, BitVec.toNat_ofNat, hextend, BitVec.toNat_add,
      BitVec.toNat_ofNat, hoffset]
    omega

theorem lookedUp_key : d.lookedUp.setWidth 32 = d.cieOffset.setWidth 32 := by
  rw [d.lookedUp_eq]
  split_ifs
  · rfl
  · bv_omega

theorem lookedUp_toNat_iff : d.lookedUp.toNat = d.ciePos ↔ d.ciePointer.toNat < 2 ^ 31 := by
  rw [← d.cieOffset_toNat, BitVec.toNat_inj, d.lookedUp_eq]
  split_ifs with hshort
  · exact iff_of_true rfl hshort
  · exact iff_of_false (by bv_omega) hshort

def cieSource (offsets : List (BitVec 64)) : BitVec 64 := parsedAt offsets d.lookedUp

theorem cieSource_eq (offsets : List (BitVec 64)) :
    d.cieSource offsets = (firstLooked offsets d.cieOffset).getD d.lookedUp := by
  have hkeys : SameKey d.lookedUp = SameKey d.cieOffset := by
    funext o
    simp only [SameKey, d.lookedUp_key]
  rw [cieSource, parsedAt, firstLooked, hkeys, firstLooked]

theorem cieReached_iff (offsets : List (BitVec 64)) :
    d.CieReached offsets ↔ (d.cieSource offsets).toNat = d.ciePos := by
  rw [d.cieSource_eq, CieReached]
  cases firstLooked offsets d.cieOffset with
  | none => exact d.lookedUp_toNat_iff.symm
  | some o => exact Iff.rfl

theorem cieSource_key (offsets : List (BitVec 64)) :
    (d.cieSource offsets).toNat % 2 ^ 32 = d.ciePos % 2 ^ 32 := by
  have hkey : (d.cieSource offsets).setWidth 32 = d.cieOffset.setWidth 32 := by
    rw [d.cieSource_eq]
    cases hfirst : firstLooked offsets d.cieOffset with
    | none => exact d.lookedUp_key
    | some o =>
      have hsame : SameKey d.cieOffset o = true := List.find?_some hfirst
      exact eq_of_beq hsame
  have hnat := congrArg BitVec.toNat hkey
  rwa [BitVec.toNat_setWidth, BitVec.toNat_setWidth, d.cieOffset_toNat] at hnat

theorem cieSource_of_instructions {offsets : List (BitVec 64)} {cie : CommonInformationEntry}
    (hparse : F.cieAt (d.cieSource offsets) = .ok cie)
    (h : cie.instructions = ⟨d.ciePos + (4 + d.cie.head.length), d.ciePos + d.cie.bytes.length⟩) :
    (d.cieSource offsets).toNat = d.ciePos := by
  obtain ⟨c', hrun⟩ := outcome_eq_ok_iff.mp hparse
  obtain ⟨hfirst, hlast⟩ := parseCie_instructions hrun
  have hkey := d.cieSource_key offsets
  have hlength := cie.length.isLt
  have hcie := (d.cie.length + 4#32).isLt
  rw [d.cie.length_bytes] at hcie
  have hhead : 4 + d.cie.head.length ≤ d.cie.bytes.length := by
    simp only [CieFields.bytes, List.length_append, leBytes_length]
    omega
  rw [h] at hfirst hlast
  dsimp only at hfirst hlast
  omega

theorem cieAt_of_reached {offsets : List (BitVec 64)}
    (h : (d.cieSource offsets).toNat = d.ciePos) :
    F.cieAt (d.cieSource offsets) = .ok (d.cie.decoded d.ciePos) := by
  have hlies := d.cieLies
  have hinside := d.inside
  have hbehind := d.behind
  unfold EhFile.cieAt outcome
  rw [h]
  simp only [CieFields.bytes, ← List.append_assoc, List.length_append] at hlies hbehind
  rw [bytesAt_append] at hlies
  rw [d.cie.readsAt_parseCie d.ciePos ⟨F.dw.image, d.ciePos, F.sectionEnd ".eh_frame"⟩ rfl hlies.1
    (by simp only [List.length_append]; omega)]

theorem factorRead_iff :
    d.FactorRead ↔ slebRead d.cie.dataAlignment.toLeb = d.cie.dataAlignment.signed :=
  (slebRead_toLeb_iff d.cie.dataAlignment).symm

/-- The CIE `parse_fde` goes on with is the one of the lookup. -/
theorem getCie_of_parseFde {map map' : CieMap} {fde : FrameDescriptionEntry}
    (h : outcome (F.parseFde map) ⟨F.dw.image, d.pos, F.sectionEnd ".eh_frame"⟩ =
      .ok (fde, map')) :
    ∃ cie, F.getCie map d.lookedUp = .ok (cie, map') ∧ fde.cie = cie.toCie := by
  obtain ⟨c', hrun⟩ := outcome_eq_ok_iff.mp h
  have hlies := d.lies
  simp only [FdeFields.bytes, FdeFields.head, bytesAt_append, leBytes_length] at hlies
  obtain ⟨hlength, ⟨hpointer, -⟩, -⟩ := hlies
  let c : Cursor := ⟨F.dw.image, d.pos, F.sectionEnd ".eh_frame"⟩
  have hread₁ : u32 c = .ok d.length (c.advance 4) := fixedInt_at hlength
  have hread₂ : u32 (c.advance 4) = .ok d.ciePointer (c.advance 8) := fixedInt_at hpointer
  have hposition (c : Cursor) : position c = .ok c.pos c := rfl
  unfold EhFile.parseFde at hrun
  rw [bind_ok (hposition c), bind_ok hread₁, bind_ok (hposition _), bind_ok hread₂] at hrun
  obtain ⟨⟨cie, map₁⟩, c₁, hget, hrest⟩ := bind_eq_ok.mp hrun
  obtain ⟨hget, -⟩ := ofExcept_eq_ok.mp hget
  obtain ⟨_, c₂, -, hrest⟩ := bind_eq_ok.mp hrest
  obtain ⟨_, c₃, -, hrest⟩ := bind_eq_ok.mp hrest
  obtain ⟨_, c₄, -, hrest⟩ := bind_eq_ok.mp hrest
  obtain ⟨_, c₅, -, hrest⟩ := bind_eq_ok.mp hrest
  obtain ⟨_, c₆, -, hrest⟩ := bind_eq_ok.mp hrest
  cases hrest
  exact ⟨cie, hget, rfl⟩

variable {d}

theorem Parsed.reached {offsets : List (BitVec 64)} {map : CieMap} (h : d.Parsed map)
    (hcache : CacheFrom F offsets map) : d.CieReached offsets ∧ d.FactorRead := by
  obtain ⟨fde, cie, map', hparse, hlookup, -, hdescribes⟩ := h
  obtain ⟨cie', hget, -⟩ := d.getCie_of_parseFde hparse
  obtain ⟨hcie, hkept⟩ := hcache.parsed hget
  rw [d.lookedUp_key] at hkept
  obtain rfl := Option.some.inj (hlookup.symm.trans hkept)
  have hsource : (d.cieSource offsets).toNat = d.ciePos :=
    d.cieSource_of_instructions hcie hdescribes.cieInstructions
  have hdecoded := d.cieAt_of_reached hsource
  rw [show F.cieAt (d.cieSource offsets) = .ok cie from hcie] at hdecoded
  obtain rfl := Except.ok.inj hdecoded
  exact ⟨(d.cieReached_iff offsets).mpr hsource, d.factorRead_iff.mpr hdescribes.dataAlignmentFactor⟩

theorem length_bytes (d : EncodedFde F) : (d.length + 4#32).toNat = d.bytes.length := by
  rw [toNat_add_four d.bounded, d.sized]
  simp only [FdeFields.bytes, List.length_append, leBytes_length]
  omega

theorem CieReached.parsed {offsets : List (BitVec 64)} {map : CieMap} (h : d.CieReached offsets)
    (hfactor : d.FactorRead) (hcache : CacheFrom F offsets map) : d.Parsed map := by
  have hcie := d.cieAt_of_reached ((d.cieReached_iff offsets).mp h)
  obtain ⟨map', hget⟩ := hcache.found hcie
  have hkept := (hcache.parsed hget).2
  rw [d.lookedUp_key] at hkept
  have hread := FdeFields.readsAt_parseFde (p := d.pos) (F := F) d.baseCode d.locationCode d.rangeCode
    d.augmented hget
  have hlies := d.lies
  have hinside := d.inside
  simp only [FdeFields.bytes, ← List.append_assoc, List.length_append] at hlies hinside
  rw [bytesAt_append] at hlies
  have hparse := hread ⟨F.dw.image, d.pos, F.sectionEnd ".eh_frame"⟩ rfl hlies.1
    (by simp only [List.length_append]; omega)
  refine ⟨_, _, map', outcome_eq_ok_iff.mpr ⟨_, hparse⟩, hkept, rfl, ?_⟩
  exact {
    instructions := by
      rw [← d.length_bytes]
      rfl
    initialLocation := by
      intro hbase
      have hlocation := d.cie.decoded_eq_value d.locationCode
      simp only [FdeFields.decoded, hbase, EhBases.of, hlocation, BitVec.zero_add]
    addressRange := d.cie.decoded_eq_value d.rangeCode
    codeAlignmentFactor := rfl
    dataAlignmentFactor := d.factorRead_iff.mp hfactor
    fdePointerEncoding := rfl
    fdeHasAugmentation := rfl
    cieInstructions := rfl }

end EncodedFde

/-- After any lookups the FDE is read as the format has it exactly when its CIE is reached and
the data alignment factor is read. -/
theorem fdeParsed_iff {F : EhFile} (d : EncodedFde F) {offsets : List (BitVec 64)} {map : CieMap}
    (h : CacheFrom F offsets map) : d.Parsed map ↔ d.CieReached offsets ∧ d.FactorRead :=
  ⟨fun hparsed => hparsed.reached h, fun hright => hright.1.parsed hright.2 h⟩

namespace SmallFrame

/-- Version 1 with `R`, for pointers of four bytes. -/
def cie : EncodedCie where
  length := 13#32
  version := .one 16#8
  augmentation := some {
    length := .small 1
    letters := [.fdeEncoding 0x0b#8]
    distinct := by decide
    handled := by
      intro l hl
      obtain rfl := List.mem_singleton.mp hl
      exact ⟨.sdata4, .absolute, rfl, by decide, by decide⟩
    measured := rfl }
  codeAlignment := .small 1
  dataAlignment := ⟨⟨[0x78#8], by decide, by decide⟩, by decide, by decide⟩
  instructions := []
  small := by decide
  sized := rfl
  bounded := by decide

/-- An FDE at this distance, with nothing in its augmentation. -/
def fields (ciePointer : BitVec 32) : FdeFields where
  length := 13#32
  ciePointer := ciePointer
  base := .absolute
  location := .sdata4 0x100#32
  range := .sdata4 0x10#32
  augmentation := [0#8]
  instructions := []

def file (image : Image) : EhFile where
  dw := {
    elf := 0
    image := image
    getSectionContents name := if name = ".eh_frame" then some ⟨0, image.size⟩ else none
    compileUnits := [] }
  sectionStart name := if name = ".eh_frame" then some 0#64 else none

def fde : EncodedFde (file (.ofList (cie.bytes ++ (fields 21#32).bytes))) where
  toFdeFields := fields 21#32
  pos := 17
  cie := cie
  ciePos := 0
  baseCode := by decide
  locationCode := by decide
  rangeCode := by decide
  augmented := ⟨⟨[0#8], by decide, by decide⟩, [], by decide, rfl⟩
  sized := rfl
  bounded := by decide
  behind := by decide
  refers := rfl
  cieLies := bytesAt_ofList (by decide)
  lies := bytesAt_ofList (by decide)
  inside := by decide
  fileSize := by decide

end SmallFrame

theorem smallFde_parsed : SmallFrame.fde.Parsed [] :=
  (fdeParsed_iff SmallFrame.fde .empty).mpr
    ⟨(by decide : (21#32).toNat < 2 ^ 31), .inr (.inl rfl)⟩

namespace LongFrame

def last : ℕ := 2 ^ 31 - 4

/-- An FDE that fills the section up to the last one. -/
def filler : FdeFields :=
  { SmallFrame.fields 21#32 with length := BitVec.ofNat 32 (last - 21) }

def image : Image where
  size := last + 17
  read i :=
    if i < 34 then (SmallFrame.cie.bytes ++ filler.bytes)[i]?
    else if i < last then some 0#8
    else (SmallFrame.fields (BitVec.ofNat 32 (2 ^ 31))).bytes[i - last]?
  bounded i hi := by
    have hfirst : ¬ i < 34 := by
      unfold last at hi
      omega
    have hlast : ¬ i < last := by omega
    rw [if_neg hfirst, if_neg hlast]
    exact List.getElem?_eq_none (show 17 ≤ i - last by omega)

def fde : EncodedFde (SmallFrame.file image) where
  toFdeFields := SmallFrame.fields (BitVec.ofNat 32 (2 ^ 31))
  pos := last
  cie := SmallFrame.cie
  ciePos := 0
  baseCode := by decide
  locationCode := by decide
  rangeCode := by decide
  augmented := ⟨⟨[0#8], by decide, by decide⟩, [], by decide, rfl⟩
  sized := rfl
  bounded := by decide
  behind := by decide
  refers := rfl
  cieLies := bytesAt_of_read (by decide)
  lies := bytesAt_of_read (by decide)
  inside := by decide
  fileSize := by decide

end LongFrame

/-- The distance to the CIE is taken for a negative number. -/
theorem fdeParsed_not_everywhere : ¬ ∀ (F : EhFile) (d : EncodedFde F) (offsets : List (BitVec 64))
    (map : CieMap), CacheFrom F offsets map → d.Parsed map := by
  intro h
  have hreached := (h _ LongFrame.fde [] [] .empty).reached .empty
  have hshort : (BitVec.ofNat 32 (2 ^ 31)).toNat < 2 ^ 31 := hreached.1
  exact absurd hshort (by decide)

end KDebugger.Dwarf
