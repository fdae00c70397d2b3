import KDebugger.Dwarf.CursorSpec
import KDebugger.Dwarf.Die

namespace KDebugger.Dwarf

open ByteStream Exec Cur

/-- The fields of a unit header, as they are read. -/
structure UnitHeader where
  size : BitVec 32
  version : BitVec 16
  abbrevOffset : BitVec 32
  addressSize : BitVec 8
deriving DecidableEq, Repr

/-- The span of a compile unit and the offset of its abbreviations, which its constructor
is given. -/
structure UnitData where
  data : Span
  abbrevOffset : BitVec 32
deriving DecidableEq, Repr

def readUnitHeader : Reader UnitHeader := do
  let size ← u32
  let version ← u16
  let abbrevOffset ← u32
  let addressSize ← u8
  pure ⟨size, version, abbrevOffset, addressSize⟩

def parseCompileUnit : Reader UnitData := do
  let start ← position
  let h ← readUnitHeader
  if h.size = 0xffffffff#32 then throw (.raised "Only DWARF32 is supported at this moment.")
  else if h.version ≠ 4#16 then throw (.raised "Only DWARF version 4 is supported")
  else if h.addressSize ≠ 8#8 then throw (.raised "Invalid address size for DWARF")
  else
    -- in 32 bits, so that the largest lengths wrap round
    let size := h.size + 4#32
    pure { data := ⟨start, start + size.toNat⟩, abbrevOffset := h.abbrevOffset }

/-- `parse_compile_units`: every unit is parsed with a copy of the cursor, which then moves
by the size of the unit. -/
def parseCompileUnits : ℕ → Reader (List UnitData)
  | 0 => throw .exhausted
  | fuel + 1 => do
    if ← finished then pure []
    else do
      let c ← get
      let unit ← ofExcept (outcome parseCompileUnit c)
      skip (unit.data.last - unit.data.first)
      let units ← parseCompileUnits fuel
      pure (unit :: units)

namespace UnitHeader

def bytes (h : UnitHeader) : List Byte :=
  leBytes 4 h.size.toNat ++ (leBytes 2 h.version.toNat ++
    (leBytes 4 h.abbrevOffset.toNat ++ leBytes 1 h.addressSize.toNat))

/-- DWARF 4 in 32 bits, with addresses of eight bytes. -/
def Accepted (h : UnitHeader) : Prop :=
  h.size ≠ 0xffffffff#32 ∧ h.version = 4#16 ∧ h.addressSize = 8#8

instance (h : UnitHeader) : Decidable h.Accepted := inferInstanceAs (Decidable (_ ∧ _))

/-- How far the unit reaches, its size and the field of the size, in 32 bits. -/
def length (h : UnitHeader) : ℕ := (h.size + 4#32).toNat

end UnitHeader

theorem readUnitHeader_of_bytesAt {c : Cursor} {h : UnitHeader}
    (hat : BytesAt c.image c.pos h.bytes) : readUnitHeader c = .ok h (c.advance 11) := by
  simp only [UnitHeader.bytes, bytesAt_append, leBytes_length] at hat
  obtain ⟨hsize, hversion, habbrev, haddress⟩ := hat
  have hread₁ : u32 c = .ok h.size (c.advance 4) := fixedInt_at hsize
  have hread₂ : u16 (c.advance 4) = .ok h.version (c.advance 6) := fixedInt_at hversion
  have hread₃ : u32 (c.advance 6) = .ok h.abbrevOffset (c.advance 10) :=
    fixedInt_at habbrev
  have hread₄ : u8 (c.advance 10) = .ok h.addressSize (c.advance 11) :=
    fixedInt_at haddress
  unfold readUnitHeader
  rw [bind_ok hread₁, bind_ok hread₂, bind_ok hread₃, bind_ok hread₄]
  rfl

theorem readUnitHeader_ok {c c' : Cursor} {h : UnitHeader} (hread : readUnitHeader c = .ok h c') :
    BytesAt c.image c.pos h.bytes := by
  obtain ⟨size, c₁, hsize, hread₁⟩ := bind_eq_ok.mp hread
  obtain ⟨version, c₂, hversion, hread₂⟩ := bind_eq_ok.mp hread₁
  obtain ⟨abbrevOffset, c₃, habbrev, hread₃⟩ := bind_eq_ok.mp hread₂
  obtain ⟨addressSize, c₄, haddress, hread₄⟩ := bind_eq_ok.mp hread₃
  cases hread₄
  obtain ⟨hat₁, rfl⟩ := fixedInt_ok hsize
  obtain ⟨hat₂, rfl⟩ := fixedInt_ok hversion
  obtain ⟨hat₃, rfl⟩ := fixedInt_ok habbrev
  obtain ⟨hat₄, rfl⟩ := fixedInt_ok haddress
  simp only [UnitHeader.bytes, bytesAt_append, leBytes_length]
  exact ⟨hat₁, hat₂, hat₃, hat₄⟩

theorem onlyUndefined_readUnitHeader : OnlyUndefined readUnitHeader :=
  (onlyUndefined_fixedInt 4).bind fun _ => (onlyUndefined_fixedInt 2).bind fun _ =>
    (onlyUndefined_fixedInt 4).bind fun _ => (onlyUndefined_fixedInt 1).bind fun _ =>
      onlyUndefined_pure _

def UnitHeader.result (h : UnitHeader) (start : ℕ) : Except Failure UnitData :=
  if h.size = 0xffffffff#32 then .error (.raised "Only DWARF32 is supported at this moment.")
  else if h.version ≠ 4#16 then .error (.raised "Only DWARF version 4 is supported")
  else if h.addressSize ≠ 8#8 then .error (.raised "Invalid address size for DWARF")
  else .ok { data := ⟨start, start + h.length⟩, abbrevOffset := h.abbrevOffset }

theorem UnitHeader.result_of_accepted {h : UnitHeader} (hh : h.Accepted) (start : ℕ) :
    h.result start = .ok { data := ⟨start, start + h.length⟩, abbrevOffset := h.abbrevOffset } := by
  obtain ⟨hsize, hversion, haddress⟩ := hh
  simp [result, hsize, hversion, haddress]

theorem UnitHeader.result_of_not_accepted {h : UnitHeader} (hh : ¬ h.Accepted) (start : ℕ) :
    ∃ what, h.result start = .error (.raised what) := by
  unfold result
  split_ifs with hsize hversion haddress
  · exact ⟨_, rfl⟩
  · exact ⟨_, rfl⟩
  · exact ⟨_, rfl⟩
  · exact absurd ⟨hsize, not_not.mp hversion, not_not.mp haddress⟩ hh

theorem outcome_parseCompileUnit {c : Cursor} {h : UnitHeader}
    (hat : BytesAt c.image c.pos h.bytes) : outcome parseCompileUnit c = h.result c.pos := by
  have hposition : position c = .ok c.pos c := rfl
  unfold outcome parseCompileUnit UnitHeader.result
  rw [bind_ok hposition, bind_ok (readUnitHeader_of_bytesAt hat)]
  split_ifs <;> rfl

theorem outcome_parseCompileUnit_unreadable {c : Cursor}
    (hno : ∀ h : UnitHeader, ¬ BytesAt c.image c.pos h.bytes) :
    outcome parseCompileUnit c = .error .undefined := by
  have hposition : position c = .ok c.pos c := rfl
  unfold outcome parseCompileUnit
  rw [bind_ok hposition]
  cases hread : readUnitHeader c with
  | ok h c' => exact absurd (readUnitHeader_ok hread) (hno h)
  | error e c' =>
    obtain rfl := onlyUndefined_readUnitHeader _ _ _ hread
    rw [bind_error hread]

/-- Spans that are not empty, each starting where the one before ends, from `first` to
`last`. -/
def Covers (first last : ℕ) : List Span → Prop
  | [] => first = last
  | span :: spans => span.first = first ∧ first < span.last ∧ span.last ≤ last ∧
      Covers span.last last spans

def Settled (first last : ℕ) : Except Failure (List UnitData) → Prop
  | .ok units => Covers first last (units.map UnitData.data)
  | .error (.raised _) => True
  | .error _ => False

/-- The section is parsed in finitely many turns. -/
def UnitsLaw (img : Image) (first last : ℕ) : Prop :=
  ∃ fuel, Settled first last (outcome (parseCompileUnits fuel) ⟨img, first, last⟩)

/-- Where the header of a unit is looked for, starting from `first`. -/
inductive UnitStart (img : Image) (last : ℕ) : ℕ → ℕ → Prop where
  | first (p : ℕ) : UnitStart img last p p
  | next {p q : ℕ} {h : UnitHeader} (hp : p < last) (hat : BytesAt img p h.bytes)
      (hh : h.Accepted) (hrest : UnitStart img last (p + h.length) q) : UnitStart img last p q

/-- A header can be read, and when it is accepted its unit is not empty and ends in the
section. -/
def UnitFits (img : Image) (last p : ℕ) : Prop :=
  ∃ h : UnitHeader, BytesAt img p h.bytes ∧
    (h.Accepted → h.size ≠ 0xfffffffc#32 ∧ p + h.length ≤ last)

section Walk

variable {img : Image} {last p : ℕ} {h : UnitHeader}

theorem UnitHeader.length_eq_zero_iff : h.length = 0 ↔ h.size = 0xfffffffc#32 := by
  unfold length
  rw [← BitVec.toNat_inj]
  simp only [BitVec.toNat_add, BitVec.toNat_ofNat]
  have := h.size.isLt
  omega

theorem parseCompileUnits_done (hp : last ≤ p) (fuel : ℕ) :
    outcome (parseCompileUnits (fuel + 1)) ⟨img, p, last⟩ = .ok [] := by
  have hfinished : finished ⟨img, p, last⟩ = .ok true ⟨img, p, last⟩ := by
    change EStateM.Result.ok (decide (last ≤ p)) _ = _
    rw [decide_eq_true hp]
  unfold outcome parseCompileUnits
  rw [bind_ok hfinished]
  rfl

theorem parseCompileUnits_turn (hp : p < last) (fuel : ℕ) :
    outcome (parseCompileUnits (fuel + 1)) ⟨img, p, last⟩ =
      match outcome parseCompileUnit ⟨img, p, last⟩ with
      | .error e => .error e
      | .ok unit => (outcome (parseCompileUnits fuel)
          ⟨img, p + (unit.data.last - unit.data.first), last⟩).map (unit :: ·) := by
  have hfinished : finished ⟨img, p, last⟩ = .ok false ⟨img, p, last⟩ := by
    change EStateM.Result.ok (decide (last ≤ p)) _ = _
    rw [decide_eq_false (by omega)]
  rw [outcome, parseCompileUnits, bind_ok hfinished, if_neg (by decide), bind_ok (get_eq _)]
  cases outcome parseCompileUnit ⟨img, p, last⟩ with
  | error e => rfl
  | ok unit =>
    rw [bind_ok (ofExcept_ok _ _)]
    have hskip : skip (unit.data.last - unit.data.first) ⟨img, p, last⟩ =
        .ok () ⟨img, p + (unit.data.last - unit.data.first), last⟩ := rfl
    rw [bind_ok hskip]
    dsimp only
    unfold outcome
    cases hrest : parseCompileUnits fuel ⟨img, p + (unit.data.last - unit.data.first), last⟩ with
    | ok units c => rw [bind_ok hrest]; rfl
    | error e c => rw [bind_error hrest]; rfl

theorem parseCompileUnits_accepted (hp : p < last) (hat : BytesAt img p h.bytes)
    (hh : h.Accepted) (fuel : ℕ) :
    outcome (parseCompileUnits (fuel + 1)) ⟨img, p, last⟩ =
      (outcome (parseCompileUnits fuel) ⟨img, p + h.length, last⟩).map
        (⟨⟨p, p + h.length⟩, h.abbrevOffset⟩ :: ·) := by
  have hunit : outcome parseCompileUnit ⟨img, p, last⟩ = h.result p := outcome_parseCompileUnit hat
  rw [parseCompileUnits_turn hp, hunit, UnitHeader.result_of_accepted hh]
  simp only [Nat.add_sub_cancel_left]

theorem settled_cons {unit : UnitData} {first last : ℕ} {x : Except Failure (List UnitData)}
    (hunit : unit.data.first = first) (hlt : first < unit.data.last)
    (hle : unit.data.last ≤ last) (hx : Settled unit.data.last last x) :
    Settled first last (x.map (unit :: ·)) := by
  cases x with
  | ok units => exact ⟨hunit, hlt, hle, hx⟩
  | error e => cases e <;> exact hx

theorem parseCompileUnits_stuck (hp : p < last) (hat : BytesAt img p h.bytes) (hh : h.Accepted)
    (hzero : h.length = 0) (fuel : ℕ) :
    outcome (parseCompileUnits fuel) ⟨img, p, last⟩ = .error .exhausted := by
  induction fuel with
  | zero => rfl
  | succ fuel ih =>
    rw [parseCompileUnits_accepted hp hat hh, hzero, Nat.add_zero, ih]
    rfl

theorem settled_of_fits : ∀ {n p : ℕ}, p ≤ last → last - p ≤ n →
    (∀ q, UnitStart img last p q → q < last → UnitFits img last q) →
    Settled p last (outcome (parseCompileUnits (n + 1)) ⟨img, p, last⟩) := by
  intro n
  induction n with
  | zero =>
    intro p hp hn _
    obtain rfl : p = last := by omega
    rw [parseCompileUnits_done le_rfl]
    rfl
  | succ n ih =>
    intro p hp hn hfits
    obtain rfl | hlt := hp.eq_or_lt
    · rw [parseCompileUnits_done le_rfl]
      rfl
    · obtain ⟨h, hat, hend⟩ := hfits p (.first p) hlt
      by_cases hh : h.Accepted
      · obtain ⟨hsize, hle⟩ := hend hh
        have hpos : 0 < h.length := Nat.pos_of_ne_zero fun h0 => hsize (h.length_eq_zero_iff.mp h0)
        rw [parseCompileUnits_accepted hlt hat hh]
        refine settled_cons rfl (by simpa using hpos) hle (ih hle (by simp only; omega) ?_)
        exact fun q hq => hfits q (.next hlt hat hh hq)
      · obtain ⟨what, hraised⟩ := UnitHeader.result_of_not_accepted hh p
        rw [parseCompileUnits_turn hlt, outcome_parseCompileUnit (c := ⟨img, p, last⟩) hat]
        rw [hraised]
        trivial

theorem rest_of_settled (hp : p < last) (hat : BytesAt img p h.bytes) (hh : h.Accepted) {fuel : ℕ}
    (hs : Settled p last (outcome (parseCompileUnits (fuel + 1)) ⟨img, p, last⟩)) :
    h.size ≠ 0xfffffffc#32 ∧ p + h.length ≤ last ∧
      Settled (p + h.length) last
        (outcome (parseCompileUnits fuel) ⟨img, p + h.length, last⟩) := by
  have hzero : h.size ≠ 0xfffffffc#32 := by
    intro hsize
    rw [parseCompileUnits_stuck hp hat hh (h.length_eq_zero_iff.mpr hsize)] at hs
    exact hs
  rw [parseCompileUnits_accepted hp hat hh] at hs
  refine ⟨hzero, ?_⟩
  cases hrest : outcome (parseCompileUnits fuel) ⟨img, p + h.length, last⟩ with
  | ok units =>
    rw [hrest] at hs
    exact ⟨hs.2.2.1, hs.2.2.2⟩
  | error e =>
    rw [hrest] at hs
    have hle : p + h.length ≤ last := by
      by_contra hgt
      cases fuel with
      | zero =>
        cases hrest
        exact hs
      | succ fuel =>
        rw [parseCompileUnits_done (by omega)] at hrest
        cases hrest
    refine ⟨hle, ?_⟩
    cases e <;> exact hs

theorem fits_of_settled : ∀ {fuel p q : ℕ},
    Settled p last (outcome (parseCompileUnits fuel) ⟨img, p, last⟩) →
    UnitStart img last p q → q < last → UnitFits img last q := by
  -- by induction on the turns: each of them takes one unit, or ends the loop
  intro fuel
  induction fuel with
  | zero => exact fun hs => hs.elim
  | succ fuel ih =>
    intro p q hs hstart hq
    cases hstart with
    | first =>
      by_cases hread : ∃ h : UnitHeader, BytesAt img p h.bytes
      · obtain ⟨h, hat⟩ := hread
        refine ⟨h, hat, fun hh => ?_⟩
        obtain ⟨hsize, hle, -⟩ := rest_of_settled hq hat hh hs
        exact ⟨hsize, hle⟩
      · rw [parseCompileUnits_turn hq, outcome_parseCompileUnit_unreadable
          (c := ⟨img, p, last⟩) (not_exists.mp hread)] at hs
        exact hs.elim
    | next hp hat hh hrest => exact ih (rest_of_settled hp hat hh hs).2.2 hrest hq

end Walk

/-- The units of a section are parsed in finitely many turns and cover it, or an error is
raised, if and only if every unit met has a readable header and, when that is accepted, is
not empty and ends in the section. -/
theorem unitsLaw_iff (img : Image) (first size : ℕ) :
    UnitsLaw img first (first + size) ↔
      ∀ p, UnitStart img (first + size) first p → p < first + size →
        UnitFits img (first + size) p := by
  constructor
  · rintro ⟨fuel, hs⟩ p hstart hp
    exact fits_of_settled hs hstart hp
  · exact fun h => ⟨size + 1, settled_of_fits (by omega) (by omega) h⟩

def wrappingHeader : UnitHeader := ⟨0xfffffffc#32, 4#16, 0#32, 8#8⟩

theorem unitsLaw_not_for_all : ¬ ∀ (img : Image) (first size : ℕ),
    UnitsLaw img first (first + size) := by
  intro h
  have hat : BytesAt (Image.ofList wrappingHeader.bytes) 0 wrappingHeader.bytes :=
    bytesAt_ofList fun i _ => by rw [Nat.zero_add]
  obtain ⟨fuel, hs⟩ := h (Image.ofList wrappingHeader.bytes) 0 11
  have hstuck : outcome (parseCompileUnits fuel) ⟨_, 0, 0 + 11⟩ = .error .exhausted :=
    parseCompileUnits_stuck (by decide) hat (by decide) (by decide) fuel
  rw [hstuck] at hs
  exact hs

end KDebugger.Dwarf
