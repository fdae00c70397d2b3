import KDebugger.Dwarf.LineLookup
import KDebugger.Dwarf.RangeList

namespace KDebugger.Dwarf

open ByteStream Exec Iterators

def dwAtHighPc : BitVec 64 := 0x12

def Attr.asRangeList (dw : DwarfInfo) (a : Attr) : Except Failure RangeList :=
  match dw.getSectionContents ".debug_ranges" with
  | none => .error .undefined
  | some debugRanges => do
    let offset ← a.asSectionOffset dw
    let root ← dw.root a.cu
    let hasLowPc ← root.contains dwAtLowPc
    let baseAddress ←
      if hasLowPc then do
        let lowPc ← root.attrOf dwAtLowPc
        lowPc.asAddress dw
      else pure {}
    pure ⟨⟨debugRanges.first + offset.toNat, debugRanges.last⟩, baseAddress⟩

namespace Die

/-- `(*this)[DW_AT_ranges].as_range_list()`. -/
def rangeList (dw : DwarfInfo) (d : Die) : Except Failure RangeList := do
  let a ← d.attrOf dwAtRanges
  a.asRangeList dw

def firstRangeLow (dw : DwarfInfo) (d : Die) : Except Failure FileAddr := do
  let ranges ← d.rangeList dw
  let firstEntry ← ranges.begin dw
  pure firstEntry.current.low

def lowPc (dw : DwarfInfo) (d : Die) : Except Failure FileAddr := dw.lowPc (firstRangeLow dw) d

/-- `high_pc`: the end of the last range, or the attribute, an address or an offset from
`low_pc`. -/
def highPc (dw : DwarfInfo) (d : Die) : Except Failure FileAddr := do
  if ← d.contains dwAtRanges then
    let ranges ← d.rangeList dw
    let it ← ranges.begin dw
    let last ← toLast RangeIterator.value (RangeIterator.increment dw) (dw.image.size + 1) it
    pure last.current.high
  else if ← d.contains dwAtHighPc then do
    let a ← d.attrOf dwAtHighPc
    if a.form = Form.addr.code then a.asAddress dw
    else do
      let low ← d.lowPc dw
      let offset ← a.asInt dw
      pure (low.add offset)
  else .error (.raised "DIE does not have High PC")

def containsAddress (dw : DwarfInfo) (d : Die) (address : FileAddr) : Except Failure Bool :=
  if d.cu = none then .error .undefined
  else if address.elf ≠ some dw.elf then .ok false
  else do
    if ← d.contains dwAtRanges then
      let ranges ← d.rangeList dw
      ranges.contains dw address
    else if ← d.contains dwAtLowPc then do
      let low ← d.lowPc dw
      if ← low.le address then
        let high ← d.highPc dw
        address.lt high
      else pure false
    else pure false

/-- The addresses of the DIE lie between `low_pc` and `high_pc`. -/
def Bounded (dw : DwarfInfo) (d : Die) : Prop :=
  ∀ address : BitVec 64, d.containsAddress dw ⟨some dw.elf, address⟩ = .ok true →
    ∃ low high, d.lowPc dw = .ok low ∧ d.highPc dw = .ok high ∧
      low.le ⟨some dw.elf, address⟩ = .ok true ∧ FileAddr.lt ⟨some dw.elf, address⟩ high = .ok true

def Says (dw : DwarfInfo) (d : Die) : Option (List (BitVec 64 × BitVec 64)) → Prop
  | none => d.contains dwAtRanges = .ok false ∧ d.contains dwAtLowPc = .ok true ∧
      d.contains dwAtHighPc = .ok true
  | some rs => d.contains dwAtRanges = .ok true ∧ rs ≠ [] ∧ ∃ l items, d.rangeList dw = .ok l ∧
      BytesAt dw.image l.data.first (rangeBytes items) ∧ rs = ranges l.baseAddress.addr items

/-- No range that is not empty starts before the first or ends after the last. -/
def Spanned (rs : List (BitVec 64 × BitVec 64)) : Prop :=
  ∀ first ∈ rs.head?, ∀ last ∈ rs.getLast?, ∀ r ∈ rs, r.1 < r.2 → first.1 ≤ r.1 ∧ r.2 ≤ last.2

end Die

section Bounds

variable {dw : DwarfInfo} {d : Die}

theorem cu_ne_none {attrName : BitVec 64} {a : Attr} (h : d.attrOf attrName = .ok a) :
    d.cu ≠ none := by
  intro hnone
  unfold Die.attrOf at h
  rw [hnone] at h
  cases hentry : d.abbrevEntry <;> simp [hentry] at h

theorem bounded_of_attributes (hranges : d.contains dwAtRanges = .ok false)
    (hlowPc : d.contains dwAtLowPc = .ok true) : d.Bounded dw := by
  intro address hcontains
  unfold Die.containsAddress at hcontains
  by_cases hcu : d.cu = none
  · rw [if_pos hcu] at hcontains
    cases hcontains
  rw [if_neg hcu, if_neg (not_not.mpr rfl), hranges, hlowPc] at hcontains
  cases hlow : d.lowPc dw with
  | error e => simp [hlow, bind, Except.bind] at hcontains
  | ok low =>
    cases hle : low.le ⟨some dw.elf, address⟩ with
    | error e => simp [hlow, hle, bind, Except.bind] at hcontains
    | ok below =>
      cases hhigh : d.highPc dw with
      | error e =>
        cases below <;> simp [hlow, hle, hhigh, bind, Except.bind, pure, Except.pure] at hcontains
      | ok high =>
        cases below with
        | false => simp [hlow, hle, bind, Except.bind, pure, Except.pure] at hcontains
        | true =>
          simp only [hlow, hle, hhigh, bind, Except.bind] at hcontains
          exact ⟨low, high, rfl, rfl, hle, hcontains⟩

theorem ranges_say {rs : List (BitVec 64 × BitVec 64)} {first last : BitVec 64 × BitVec 64}
    (h : d.Says dw (some rs)) (hfirst : rs.head? = some first) (hlast : rs.getLast? = some last) :
    d.lowPc dw = .ok ⟨some dw.elf, first.1⟩ ∧ d.highPc dw = .ok ⟨some dw.elf, last.2⟩ ∧
      ∀ address : BitVec 64, d.containsAddress dw ⟨some dw.elf, address⟩ =
        .ok (decide (∃ r ∈ rs, r.1 ≤ address ∧ address < r.2)) := by
  -- `low_pc` takes the first range, `high_pc` the last, `contains_address` all of them
  obtain ⟨hranges, hne, l, items, hlist, hat, rfl⟩ := h
  obtain ⟨it, hbegin, hwalk⟩ := walks_begin hat
  have hmeant : (l.meant dw items).getLast? = some (entryOf dw.elf last) := by
    rw [RangeList.meant, List.getLast?_map, hlast]
    rfl
  obtain ⟨j, htoLast, hj⟩ := hwalk.toLast hmeant (length_meant_lt hat).le
  have hlastEntry : j.current = entryOf dw.elf last := by
    obtain ⟨p, -, hcurrent⟩ := Option.map_eq_some_iff.mp hj
    exact hcurrent
  have hfirstEntry : it.current = entryOf dw.elf first := by
    obtain ⟨rest, hcons⟩ := List.head?_eq_some_iff.mp hfirst
    rw [RangeList.meant, hcons, List.map_cons] at hwalk
    cases hwalk with
    | more hvalue hnext hrest =>
      obtain ⟨p, -, hcurrent⟩ := Option.map_eq_some_iff.mp hvalue
      exact hcurrent
  have hcu : d.cu ≠ none := by
    unfold Die.rangeList at hlist
    cases hattr : d.attrOf dwAtRanges with
    | error e => simp [hattr, bind, Except.bind] at hlist
    | ok a => exact cu_ne_none hattr
  refine ⟨?_, ?_, fun address => ?_⟩
  · simp only [Die.lowPc, DwarfInfo.lowPc, hranges, Die.firstRangeLow, hlist, hbegin, hfirstEntry,
      bind, Except.bind]
    rfl
  · simp only [Die.highPc, hranges, hlist, hbegin, htoLast, hlastEntry, bind, Except.bind]
    rfl
  · unfold Die.containsAddress
    rw [if_neg hcu, if_neg (not_not.mpr rfl), hranges]
    simp only [hlist, bind, Except.bind]
    exact contains_eq hat address

theorem forall_range_iff (rs : List (BitVec 64 × BitVec 64)) (low high : BitVec 64) :
    (∀ address : BitVec 64, (∃ r ∈ rs, r.1 ≤ address ∧ address < r.2) →
      low ≤ address ∧ address < high) ↔ ∀ r ∈ rs, r.1 < r.2 → low ≤ r.1 ∧ r.2 ≤ high := by
  constructor
  · intro h r hr hlt
    have hstart := h r.1 ⟨r, hr, BitVec.le_refl _, hlt⟩
    have hend := h (r.2 - 1#64) ⟨r, hr, by bv_omega, by bv_omega⟩
    exact ⟨hstart.1, by bv_omega⟩
  · rintro h address ⟨r, hr, hlow, hhigh⟩
    obtain ⟨hstart, hend⟩ := h r hr (by bv_omega)
    exact ⟨by bv_omega, by bv_omega⟩

theorem bounded_ranges_iff {rs : List (BitVec 64 × BitVec 64)} (h : d.Says dw (some rs)) :
    d.Bounded dw ↔ Die.Spanned rs := by
  have hne := h.2.1
  obtain ⟨first, hfirst⟩ := Option.isSome_iff_exists.mp (List.isSome_head?.mpr hne)
  have hlast := List.getLast?_eq_some_getLast hne
  obtain ⟨hlow, hhigh, hcontains⟩ := ranges_say h hfirst hlast
  have hspanned : Die.Spanned rs ↔ ∀ r ∈ rs, r.1 < r.2 → first.1 ≤ r.1 ∧ r.2 ≤ (rs.getLast hne).2 := by
    simp [Die.Spanned, hfirst, hlast]
  rw [hspanned, ← forall_range_iff]
  have hle : ∀ a b : BitVec 64,
      FileAddr.le ⟨some dw.elf, a⟩ ⟨some dw.elf, b⟩ = .ok true ↔ a ≤ b := by simp [FileAddr.le]
  have hlt : ∀ a b : BitVec 64,
      FileAddr.lt ⟨some dw.elf, a⟩ ⟨some dw.elf, b⟩ = .ok true ↔ a < b := by simp [FileAddr.lt]
  refine forall_congr' fun address => ?_
  rw [hcontains address, Except.ok.injEq, decide_eq_true_iff]
  refine imp_congr_right fun _ => ⟨?_, ?_⟩
  · rintro ⟨low, high, hlow', hhigh', hbelow, habove⟩
    cases hlow.symm.trans hlow'
    cases hhigh.symm.trans hhigh'
    exact ⟨(hle _ _).mp hbelow, (hlt _ _).mp habove⟩
  · rintro ⟨hbelow, habove⟩
    exact ⟨_, _, hlow, hhigh, (hle _ _).mpr hbelow, (hlt _ _).mpr habove⟩

/-- The two bounds hold of every address of the DIE exactly when its ranges, if it has any,
lie between the start of the first and the end of the last. -/
theorem bounded_iff {said : Option (List (BitVec 64 × BitVec 64))} (h : d.Says dw said) :
    d.Bounded dw ↔ ∀ rs, said = some rs → Die.Spanned rs := by
  cases said with
  | none => exact iff_of_true (bounded_of_attributes h.1 h.2.1) (fun rs hrs => by cases hrs)
  | some rs => simp [bounded_ranges_iff h]

end Bounds

section Instances

private def unitOfRanges : CompileUnit where
  data := ⟨0, 16⟩
  abbrevTable := [⟨1#64, dwTagSubprogram, false, [⟨dwAtRanges, Form.secOffset.code⟩]⟩]

private def fileOfUnit (items : List RangeItem) : DwarfInfo where
  elf := 0
  image := .ofList (List.replicate 11 0#8 ++ 1#8 :: List.replicate 4 0#8 ++ rangeBytes items)
  getSectionContents _ := some ⟨16, 16 + (rangeBytes items).length⟩
  compileUnits := [unitOfRanges]

private def dieOfRanges : Die where
  pos := some 11
  cu := some unitOfRanges
  abbrevEntry := unitOfRanges.abbrevTable.head?
  attrLocs := [12]
  next := 16

private def fourRanges : List RangeItem :=
  [.range 0x1000#64 0x1800#64 (by decide) (by decide),
    .range 0x2400#64 0x2600#64 (by decide) (by decide),
    .range 0x2000#64 0x2200#64 (by decide) (by decide),
    .range 0x2800#64 0x3000#64 (by decide) (by decide)]

private def twoRanges : List RangeItem :=
  [.range 0x2000#64 0x3000#64 (by decide) (by decide),
    .range 0x1000#64 0x1800#64 (by decide) (by decide)]

private theorem dieOfRanges_says_four :
    dieOfRanges.Says (fileOfUnit fourRanges) (some (ranges 0#64 fourRanges)) := by
  refine ⟨rfl, by decide, ⟨⟨16, 96⟩, {}⟩, fourRanges, by decide +kernel, ?_, rfl⟩
  exact bytesAt_ofList_append (List.replicate 11 0#8 ++ 1#8 :: List.replicate 4 0#8)
    (rangeBytes fourRanges) []

private theorem fourRanges_spanned : Die.Spanned (ranges 0#64 fourRanges) := by
  intro first hfirst last hlast
  cases hfirst
  cases hlast
  have hall : (ranges 0#64 fourRanges).all
      fun r => r.1 < r.2 → 0x1000#64 ≤ r.1 ∧ r.2 ≤ 0x3000#64 := by
    decide +kernel
  exact fun r hr => of_decide_eq_true (List.all_eq_true.mp hall r hr)

private theorem dieOfRanges_says_two :
    dieOfRanges.Says (fileOfUnit twoRanges) (some (ranges 0#64 twoRanges)) := by
  refine ⟨rfl, by decide, ⟨⟨16, 64⟩, {}⟩, twoRanges, by decide +kernel, ?_, rfl⟩
  exact bytesAt_ofList_append (List.replicate 11 0#8 ++ 1#8 :: List.replicate 4 0#8)
    (rangeBytes twoRanges) []

/-- Ranges out of order, between the first and the last. -/
theorem bounded_iff_four : dieOfRanges.Bounded (fileOfUnit fourRanges) := by
  refine (bounded_iff dieOfRanges_says_four).mpr fun rs hrs => ?_
  cases hrs
  exact fourRanges_spanned

/-- The address 0x1000 is in the second range, and `low_pc` is 0x2000. -/
theorem bounded_not_for_all : ¬ ∀ (dw : DwarfInfo) (d : Die) said, d.Says dw said → d.Bounded dw := by
  intro h
  have hspanned := (bounded_ranges_iff dieOfRanges_says_two).mp
    (h _ _ _ dieOfRanges_says_two) (0x2000#64, 0x3000#64) rfl (0x1000#64, 0x1800#64) rfl
    (0x1000#64, 0x1800#64) (by decide) (by decide)
  exact absurd hspanned.1 (by decide)

end Instances
end KDebugger.Dwarf
