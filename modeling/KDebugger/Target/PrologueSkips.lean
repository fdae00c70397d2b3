import KDebugger.Target.Files
import KDebugger.Dwarf.LineHeader
import Mathlib.Data.List.Basic

namespace KDebugger

open Exec Dwarf

theorem Dwarf.LineTable.entryFrom_next {dw : DwarfInfo} {t : LineTable} {a : FileAddr} :
    ∀ {n : ℕ} {prev it row next : LineIterator}, t.increment dw prev = .ok it →
      t.entryFrom dw a n prev it = .ok row → t.increment dw row = .ok next →
      a.lt next.machine.current.address = .ok true := by
  intro n
  induction n with
  | zero =>
    intro prev it row next _ hrow _
    cases hrow
  | succ n ih =>
    intro prev it row next hstep hrow hnext
    rw [entryFrom] at hrow
    split_ifs at hrow with hend
    · -- the end has no row after it
      cases hrow
      unfold increment at hnext
      rw [hend] at hnext
      cases hnext
    obtain ⟨below, hbelow, hrow⟩ := except_bind_eq_ok.mp hrow
    have hlater : (t.increment dw it >>= fun next => t.entryFrom dw a n it next) = .ok row →
        a.lt next.machine.current.address = .ok true := by
      intro hlater
      obtain ⟨next', hnext', hlater⟩ := except_bind_eq_ok.mp hlater
      exact ih hnext' hlater hnext
    cases below with
    | false => exact hlater hrow
    | true =>
      obtain ⟨above, habove, hrow⟩ := except_bind_eq_ok.mp hrow
      beta_reduce at hrow
      split_ifs at hrow with hfound
      · cases hrow
        obtain rfl : it = next := Except.ok.inj (hstep.symm.trans hnext)
        simp only [Bool.true_and, Bool.and_eq_true] at hfound
        rw [habove, hfound.1]
      · exact hlater hrow

theorem Dwarf.LineTable.getEntryByAddress_next {dw : DwarfInfo} {t : LineTable} {a : FileAddr}
    {row next : LineIterator} (hrow : t.getEntryByAddress dw a = .ok row)
    (hnext : t.increment dw row = .ok next) : a.lt next.machine.current.address = .ok true := by
  unfold getEntryByAddress at hrow
  obtain ⟨prev, -, hrow⟩ := except_bind_eq_ok.mp hrow
  split_ifs at hrow with hend
  · cases hrow
    unfold increment at hnext
    rw [hend] at hnext
    cases hnext
  · obtain ⟨it, hit, hrow⟩ := except_bind_eq_ok.mp hrow
    exact entryFrom_next hit hrow hnext

namespace Files

variable {f : Files} {e : TableEntry} {v : VirtAddr}

def rowAddress (e : TableEntry) : FileAddr := e.iterator.machine.current.address

/-- The row is at the `low_pc` of a function of its unit, one that is not inlined and is
alone on the inline stack there. -/
structure StartsFunction (f : Files) (e : TableEntry) (die : Die) : Prop where
  alone : f.inlineStackAtAddress (rowAddress e) = .ok [die]
  concrete : ∃ t, tag die = .ok t ∧ t ≠ dwTagInlinedSubroutine
  table : ∃ cu, die.cu = some cu ∧ (f.dwarf e.elf).lines cu = .ok e.table
  low : f.lowPc (e.elf, die) = .ok (rowAddress e)

/-- What the breakpoints on a line and on a function do about a row: at the start of a
function the site is where the function has its own, and elsewhere it is at the row. -/
structure SitesAgree (f : Files) (e : TableEntry) : Prop where
  atFunction : ∀ die v, f.StartsFunction e die → f.functionAddress (e.elf, die) = .ok v →
    f.entryAddress e = .ok v
  elsewhere : (¬ ∃ die, f.StartsFunction e die) →
    f.entryAddress e = f.elves.toVirtAddr (rowAddress e)

/-- The row after `it` loads where the row of the entry does. -/
def NextAlike (f : Files) (e : TableEntry) (it : LineIterator) : Prop :=
  ∃ next, e.table.increment (f.dwarf e.elf) it = .ok next ∧
    f.elves.toVirtAddr next.machine.current.address = f.elves.toVirtAddr (rowAddress e)

/-- Of a stack of two the entries have no code attributes, or the second one starts
elsewhere, or the next row is where the row is. -/
def StaysAt (f : Files) (e : TableEntry) (outer inner : Die) : Prop :=
  (inner.contains dwAtRanges = .ok false ∧ outer.contains dwAtLowPc = .ok false) ∨
  ((inner.contains dwAtRanges = .ok true ∨
      inner.contains dwAtRanges = .ok false ∧ outer.contains dwAtLowPc = .ok true) ∧
    ∃ low, f.lowPc (e.elf, inner) = .ok low ∧
      (low = rowAddress e → f.NextAlike e e.iterator))

theorem toVirtAddr_of_lt {a b : FileAddr} (hload : f.elves.toVirtAddr a = .ok v)
    (h : a.lt b = .ok true) : ∃ w, f.elves.toVirtAddr b = .ok w := by
  unfold FileAddr.lt at h
  split_ifs at h with hfile
  unfold Elves.toVirtAddr at hload ⊢
  rw [← hfile]
  cases hid : a.elf with
  | none =>
    rw [hid] at hload
    cases hload
  | some id =>
    rw [hid] at hload
    cases hx : f.elves[id]? with
    | none =>
      simp only [hx] at hload
      cases hload
    | some x =>
      simp only [hx]
      exact ⟨_, rfl⟩

theorem entryAddress_eq {st : List Die} {skip : Bool}
    (hst : f.inlineStackAtAddress (rowAddress e) = .ok st)
    (hskip : f.shouldSkipPrologue e.elf st (rowAddress e) = .ok skip) :
    f.entryAddress e =
      ((if skip then e.table.increment (f.dwarf e.elf) e.iterator else .ok e.iterator) >>= fun it =>
        f.elves.toVirtAddr it.machine.current.address) := by
  unfold entryAddress
  change (f.inlineStackAtAddress (rowAddress e) >>= _) = _
  rw [hst]
  change (f.shouldSkipPrologue e.elf st (rowAddress e) >>= _) = _
  rw [hskip]
  cases skip <;> rfl

theorem entryAddress_of_length {st : List Die} (hst : f.inlineStackAtAddress (rowAddress e) = .ok st)
    (hlength : st.length ≠ 2) : f.entryAddress e = f.elves.toVirtAddr (rowAddress e) := by
  have hskip : f.shouldSkipPrologue e.elf st (rowAddress e) = .ok false := by
    match st, hlength with
    | [], _ => rfl
    | [_], _ => rfl
    | _ :: _ :: _ :: _, _ => rfl
  exact entryAddress_eq hst hskip

def codeTest (outer inner : Die) : Except Failure Bool := do
  if ← inner.contains dwAtRanges then pure true else outer.contains dwAtLowPc

theorem codeTest_eq_ok {outer inner : Die} {code : Bool} :
    codeTest outer inner = .ok code ↔ inner.contains dwAtRanges = .ok true ∧ code = true ∨
      inner.contains dwAtRanges = .ok false ∧ outer.contains dwAtLowPc = .ok code := by
  unfold codeTest
  cases inner.contains dwAtRanges with
  | error what => simp [bind, Except.bind]
  | ok ranges => cases ranges <;> simp [bind, Except.bind, pure, Except.pure, eq_comm]

theorem shouldSkipPrologue_two (outer inner : Die) (address : FileAddr) :
    f.shouldSkipPrologue e.elf [outer, inner] address = (do
      if ← codeTest outer inner then do
        let low ← f.lowPc (e.elf, inner)
        pure (decide (low = address))
      else pure false) := by
  cases hranges : inner.contains dwAtRanges with
  | error what =>
    simp only [shouldSkipPrologue, codeTest, hranges]
    rfl
  | ok ranges =>
    simp only [shouldSkipPrologue, codeTest, hranges]
    cases ranges <;> rfl

theorem entryAddress_two {outer inner : Die} (hload : f.elves.toVirtAddr (rowAddress e) = .ok v)
    (hst : f.inlineStackAtAddress (rowAddress e) = .ok [outer, inner]) :
    f.entryAddress e = .ok v ↔ f.StaysAt e outer inner := by
  -- the cases are those of the two tests on the stack
  have hstays : f.StaysAt e outer inner ↔ codeTest outer inner = .ok false ∨
      codeTest outer inner = .ok true ∧ ∃ low, f.lowPc (e.elf, inner) = .ok low ∧
        (low = rowAddress e → f.NextAlike e e.iterator) := by
    rw [codeTest_eq_ok, codeTest_eq_ok, StaysAt]
    simp
  have hskip := shouldSkipPrologue_two (f := f) (e := e) outer inner (rowAddress e)
  have herror {what : Failure}
      (h : f.shouldSkipPrologue e.elf [outer, inner] (rowAddress e) = .error what) :
      f.entryAddress e = .error what := by
    unfold entryAddress
    change (f.inlineStackAtAddress (rowAddress e) >>= _) = _
    rw [hst]
    change (f.shouldSkipPrologue e.elf [outer, inner] (rowAddress e) >>= _) = _
    rw [h]
    rfl
  rw [hstays]
  cases hcode : codeTest outer inner with
  | error what =>
    rw [hcode] at hskip
    rw [herror hskip]
    simp
  | ok code =>
    rw [hcode] at hskip
    cases code with
    | false =>
      rw [entryAddress_eq hst hskip]
      exact iff_of_true hload (.inl rfl)
    | true =>
      cases hlow : f.lowPc (e.elf, inner) with
      | error what =>
        rw [hlow] at hskip
        rw [herror hskip]
        simp
      | ok low =>
        rw [hlow] at hskip
        rw [entryAddress_eq hst hskip]
        by_cases hstart : low = rowAddress e
        · unfold NextAlike
          simp only [hstart, hload, decide_true, if_true]
          rw [except_bind_eq_ok]
          simp
        · simp only [hstart, decide_false]
          exact iff_of_true hload (.inr ⟨trivial, low, rfl, fun h => absurd h hstart⟩)

theorem functionAddress_eq_ok {die : Die} (h : f.StartsFunction e die) :
    f.functionAddress (e.elf, die) = .ok v ↔ ∃ row next,
      e.table.getEntryByAddress (f.dwarf e.elf) (rowAddress e) = .ok row ∧
      e.table.increment (f.dwarf e.elf) row = .ok next ∧
      f.elves.toVirtAddr next.machine.current.address = .ok v := by
  obtain ⟨t, ht, htag⟩ := h.concrete
  obtain ⟨cu, hcu, hlines⟩ := h.table
  unfold functionAddress rowAfterLowPc
  simp only [ht, hcu, hlines, h.low, bind, Except.bind, if_neg htag]
  cases hrow : e.table.getEntryByAddress (f.dwarf e.elf) (rowAddress e) with
  | error what => simp
  | ok row =>
    cases hnext : e.table.increment (f.dwarf e.elf) row with
    | error what => simp [hnext]
    | ok next => simp [hnext, pure, Except.pure]

/-- The sites agree exactly when no function starts at the row, or the row after it loads at
the same address, and where none starts, the stack is not one of two that moves the row. -/
theorem sitesAgree_iff (hload : f.elves.toVirtAddr (rowAddress e) = .ok v) :
    f.SitesAgree e ↔
      (∀ die, f.StartsFunction e die → ∀ row next,
        e.table.getEntryByAddress (f.dwarf e.elf) (rowAddress e) = .ok row →
        e.table.increment (f.dwarf e.elf) row = .ok next →
        f.elves.toVirtAddr next.machine.current.address = f.elves.toVirtAddr (rowAddress e)) ∧
      ((¬ ∃ die, f.StartsFunction e die) → ∃ st, f.inlineStackAtAddress (rowAddress e) = .ok st ∧
        ∀ outer inner, st = [outer, inner] → f.StaysAt e outer inner) := by
  constructor
  · intro h
    constructor
    · intro die hdie row next hrow hnext
      have hown := entryAddress_of_length hdie.alone (by simp)
      obtain ⟨w, hw⟩ := toVirtAddr_of_lt hload (LineTable.getEntryByAddress_next hrow hnext)
      have hsite := h.atFunction die w hdie ((functionAddress_eq_ok hdie).mpr ⟨row, next, hrow, hnext, hw⟩)
      rw [hw, ← hsite, hown]
    · intro hnone
      have hown := h.elsewhere hnone
      cases hst : f.inlineStackAtAddress (rowAddress e) with
      | error what =>
        -- without a stack there is no site
        have hfails : f.entryAddress e = .error what := by
          unfold entryAddress
          change (f.inlineStackAtAddress (rowAddress e) >>= _) = _
          rw [hst]
          rfl
        rw [hfails, hload] at hown
        cases hown
      | ok st =>
        refine ⟨st, rfl, ?_⟩
        rintro outer inner rfl
        exact (entryAddress_two hload hst).mp (hown.trans hload)
  · intro ⟨hfunction, hline⟩
    constructor
    · intro die w hdie hsite
      obtain ⟨row, next, hrow, hnext, hw⟩ := (functionAddress_eq_ok hdie).mp hsite
      rw [entryAddress_of_length hdie.alone (by simp), ← hfunction die hdie row next hrow hnext, hw]
    · intro hnone
      obtain ⟨st, hst, hstays⟩ := hline hnone
      by_cases htwo : ∃ outer inner, st = [outer, inner]
      · obtain ⟨outer, inner, rfl⟩ := htwo
        rw [hload]
        exact (entryAddress_two hload hst).mpr (hstays outer inner rfl)
      · apply entryAddress_of_length hst
        intro hlength
        obtain ⟨outer, inner, h⟩ := List.length_eq_two.mp hlength
        exact htwo ⟨outer, inner, h⟩

theorem not_sitesAgree_of_startsFunction {die : Die} {row next : LineIterator} {id : ElfId}
    {x : LoadedElf} (hdie : f.StartsFunction e die)
    (hrow : e.table.getEntryByAddress (f.dwarf e.elf) (rowAddress e) = .ok row)
    (hnext : e.table.increment (f.dwarf e.elf) row = .ok next)
    (hid : (rowAddress e).elf = some id) (hx : f.elves[id]? = some x)
    (hin : (x.sectionContaining (rowAddress e).addr).isSome)
    (hin' : (x.sectionContaining next.machine.current.address.addr).isSome) :
    ¬ f.SitesAgree e := by
  intro h
  have habove := LineTable.getEntryByAddress_next hrow hnext
  unfold FileAddr.lt at habove
  split_ifs at habove with hfile
  have hlt : (rowAddress e).addr < next.machine.current.address.addr := by simpa using habove
  have hload : f.elves.toVirtAddr (rowAddress e) = .ok ((rowAddress e).addr + x.loadBias) := by
    simp [Elves.toVirtAddr, hid, hx, hin]
  have hload' : f.elves.toVirtAddr next.machine.current.address =
      .ok (next.machine.current.address.addr + x.loadBias) := by
    simp [Elves.toVirtAddr, ← hfile, hid, hx, hin']
  have hsite := h.atFunction die _ hdie ((functionAddress_eq_ok hdie).mpr ⟨row, next, hrow, hnext, hload'⟩)
  rw [entryAddress_of_length hdie.alone (by simp), hload, Except.ok.injEq, BitVec.add_left_inj] at hsite
  rw [hsite] at hlt
  exact absurd hlt (by simp)

open SmallLineTable

/-- A function at the first of the two rows, with its code in a range list. -/
def oneSubprogram : Die where
  cu := some unit
  abbrevEntry := some ⟨2#64, dwTagSubprogram, false, [⟨dwAtRanges, Form.secOffset.code⟩]⟩
  next := 18

def oneSection : LoadedElf where
  loadBias := 0x400000#64
  sectionHeaders := [{ addr := 0x1000#64, size := 0x2000#64 }]

def twoRows (stack : List Die) : Files where
  elves := [oneSection]
  elf := some 0
  dwarf _ := info good
  depth := 1
  firstRangeLow _ _ := .ok ⟨some 0, 0x1000#64⟩
  inlineStackAtAddress _ := .ok stack
  lineEntries _ _ := .ok []

def goodTable : LineTable := (source good (by decide)).table

theorem lines_goodTable : (info good).lines unit = .ok goodTable := by
  unfold DwarfInfo.lines
  rw [parseLineTable_eq (source good (by decide))]
  rfl

theorem begin_goodTable : ∃ it, goodTable.begin (info good) [] = .ok it ∧
    it.machine.current.address = ⟨some 0, 0x1000#64⟩ := ⟨_, rfl, rfl⟩

theorem getEntryByAddress_goodTable : ∃ row next,
    goodTable.getEntryByAddress (info good) ⟨some 0, 0x1000#64⟩ = .ok row ∧
    goodTable.increment (info good) row = .ok next ∧
    next.machine.current.address = ⟨some 0, 0x103f#64⟩ := ⟨_, _, rfl, rfl, rfl⟩

def inlinedAtStart : Die where
  cu := some unit
  abbrevEntry := some ⟨3#64, dwTagInlinedSubroutine, false, [⟨dwAtRanges, Form.secOffset.code⟩]⟩
  next := 18

/-- The second row, in the middle of an inlined subroutine, is left where it is. -/
theorem sitesAgree_inlined : ∃ row it,
    goodTable.getEntryByAddress (info good) ⟨some 0, 0x1000#64⟩ = .ok row ∧
    goodTable.increment (info good) row = .ok it ∧
    (twoRows [oneSubprogram, inlinedAtStart]).SitesAgree
      { elf := 0, table := goodTable, iterator := it } := by
  obtain ⟨row, it, hrow, hit, haddr⟩ := getEntryByAddress_goodTable
  let f := twoRows [oneSubprogram, inlinedAtStart]
  let e : TableEntry := { elf := 0, table := goodTable, iterator := it }
  have hload : f.elves.toVirtAddr (rowAddress e) = .ok 0x40103f#64 := by
    rw [rowAddress, haddr]
    rfl
  have halone (die : Die) : ¬ f.StartsFunction e die := fun h => by
    cases h.alone
  have hstays : f.StaysAt e oneSubprogram inlinedAtStart := by
    refine .inr ⟨.inl rfl, ⟨some 0, 0x1000#64⟩, rfl, fun hlow => ?_⟩
    rw [rowAddress, haddr] at hlow
    exact absurd hlow (by decide)
  refine ⟨row, it, hrow, hit, (sitesAgree_iff hload).mpr ⟨?_, fun _ => ?_⟩⟩
  · exact fun die h => absurd h (halone die)
  · refine ⟨[oneSubprogram, inlinedAtStart], rfl, fun outer inner h => ?_⟩
    cases h
    exact hstays

/-- The site for the first row of the function stays there, and the one for the function
goes to the second row. -/
theorem sitesAgree_not_for_all : ¬ ∀ (f : Files) (e : TableEntry) (v : VirtAddr),
    f.elves.toVirtAddr (rowAddress e) = .ok v → f.SitesAgree e := by
  intro h
  obtain ⟨it, -, haddr⟩ := begin_goodTable
  obtain ⟨row, next, hrow, hnext, hat⟩ := getEntryByAddress_goodTable
  let f := twoRows [oneSubprogram]
  let e : TableEntry := { elf := 0, table := goodTable, iterator := it }
  have hload : f.elves.toVirtAddr (rowAddress e) = .ok 0x401000#64 := by
    rw [rowAddress, haddr]
    rfl
  have hstarts : f.StartsFunction e oneSubprogram :=
    ⟨rfl, ⟨_, rfl, by decide⟩, ⟨unit, rfl, lines_goodTable⟩, congrArg Except.ok haddr.symm⟩
  have hin : (oneSection.sectionContaining (rowAddress e).addr).isSome := by
    rw [rowAddress, haddr]
    decide
  have hin' : (oneSection.sectionContaining next.machine.current.address.addr).isSome := by
    rw [hat]
    decide
  have hrow' : e.table.getEntryByAddress (f.dwarf e.elf) (rowAddress e) = .ok row := by
    rw [rowAddress, haddr]
    exact hrow
  have hid : (rowAddress e).elf = some 0 := by rw [rowAddress, haddr]
  exact not_sitesAgree_of_startsFunction hstarts hrow' hnext hid rfl hin hin' (h f e _ hload)

end Files
end KDebugger
