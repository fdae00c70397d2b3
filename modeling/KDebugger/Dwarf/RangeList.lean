import KDebugger.Dwarf.CursorSpec
import KDebugger.Dwarf.Die
import KDebugger.Iterators

namespace KDebugger.Dwarf

open ByteStream Exec Cur Iterators

/-- `range_list::entry`. -/
structure RangeEntry where
  low : FileAddr := {}
  high : FileAddr := {}
deriving DecidableEq, Repr

def RangeEntry.contains (e : RangeEntry) (addr : FileAddr) : Except Failure Bool := do
  if ← e.low.le addr then addr.lt e.high else pure false

structure RangeList where
  data : Span
  baseAddress : FileAddr
deriving DecidableEq, Repr

/-- `range_list::iterator`. -/
structure RangeIterator where
  data : Span
  baseAddress : FileAddr
  pos : Option ℕ
  current : RangeEntry := {}
deriving DecidableEq, Repr

namespace RangeIterator

def baseAddressFlag : BitVec 64 := BitVec.allOnes 64

/-- The loop of `operator ++`; every turn takes sixteen bytes, which bounds it. -/
def advance (elf : ElfId) : ℕ → RangeIterator → Reader RangeIterator
  | 0, _ => throw .exhausted
  | fuel + 1, it => do
    let low ← u64
    let high ← u64
    let current : RangeEntry := ⟨⟨some elf, low⟩, ⟨some elf, high⟩⟩
    if current.low.addr = baseAddressFlag then
      advance elf fuel { it with baseAddress := current.high, current }
    else if current.low.addr = 0#64 ∧ current.high.addr = 0#64 then
      pure { it with pos := none, current }
    else
      let p ← position
      pure { it with
        pos := some p
        current :=
          ⟨current.low.add it.baseAddress.addr, current.high.add it.baseAddress.addr⟩ }

/-- `operator ++`. -/
def increment (dw : DwarfInfo) (it : RangeIterator) : Except Failure RangeIterator :=
  match it.pos with
  | none => .error .undefined
  | some p => outcome (advance dw.elf (dw.image.size + 1) it) ⟨dw.image, p, it.data.last⟩

/-- What the iterator stands on; it equals `end()` when its position is null. -/
def value (it : RangeIterator) : Option RangeEntry := it.pos.map fun _ => it.current

end RangeIterator

namespace RangeList

def begin (dw : DwarfInfo) (l : RangeList) : Except Failure RangeIterator :=
  RangeIterator.increment dw ⟨l.data, l.baseAddress, some l.data.first, {}⟩

/-- The entries from `begin()` to `end()`. -/
def entries (dw : DwarfInfo) (l : RangeList) : Except Failure (List RangeEntry) := do
  let it ← l.begin dw
  collect RangeIterator.value (RangeIterator.increment dw) (dw.image.size + 1) it

def contains (dw : DwarfInfo) (l : RangeList) (address : FileAddr) : Except Failure Bool := do
  let it ← l.begin dw
  anyOf RangeIterator.value (RangeIterator.increment dw) (fun e => e.contains address)
    (dw.image.size + 1) it

end RangeList

/-- An item of a range list. -/
inductive RangeItem where
  | range (low high : BitVec 64) (hlow : low ≠ RangeIterator.baseAddressFlag)
      (hzero : ¬ (low = 0#64 ∧ high = 0#64))
  | base (address : BitVec 64)

def pairBytes (low high : BitVec 64) : List Byte := leBytes 8 low.toNat ++ leBytes 8 high.toNat

def RangeItem.bytes : RangeItem → List Byte
  | range low high _ _ => pairBytes low high
  | base address => pairBytes RangeIterator.baseAddressFlag address

def rangeBytes (items : List RangeItem) : List Byte :=
  items.flatMap RangeItem.bytes ++ pairBytes 0#64 0#64

def ranges : BitVec 64 → List RangeItem → List (BitVec 64 × BitVec 64)
  | _, [] => []
  | base, .range low high _ _ :: items => (low + base, high + base) :: ranges base items
  | _, .base address :: items => ranges address items

def entryOf (elf : ElfId) (r : BitVec 64 × BitVec 64) : RangeEntry :=
  ⟨⟨some elf, r.1⟩, ⟨some elf, r.2⟩⟩

theorem ranges_length_le (base : BitVec 64) (items : List RangeItem) :
    (ranges base items).length ≤ items.length := by
  induction items generalizing base with
  | nil => exact le_rfl
  | cons item items ih =>
    cases item with
    | range low high hlow hzero =>
      rw [ranges, List.length_cons, List.length_cons]
      exact Nat.succ_le_succ (ih base)
    | base address =>
      rw [ranges, List.length_cons]
      exact (ih address).trans (Nat.le_succ _)

section Walking

variable {dw : DwarfInfo}

open RangeIterator

theorem advance_at {elf : ElfId} {fuel : ℕ} {it : RangeIterator} {low high : BitVec 64} {c : Cursor}
    (hat : BytesAt c.image c.pos (pairBytes low high)) :
    advance elf (fuel + 1) it c =
      (if low = baseAddressFlag then
        advance elf fuel
          { it with baseAddress := ⟨some elf, high⟩, current := entryOf elf (low, high) }
      else if low = 0#64 ∧ high = 0#64 then
        pure { it with pos := none, current := entryOf elf (low, high) }
      else do
        let p ← position
        pure { it with
          pos := some p
          current := entryOf elf (low + it.baseAddress.addr, high + it.baseAddress.addr) })
        (c.advance 16) := by
  rw [pairBytes, bytesAt_append, leBytes_length] at hat
  have hlow : u64 c = .ok low (c.advance 8) := fixedInt_at hat.1
  have hhigh : u64 (c.advance 8) = .ok high (c.advance 16) := fixedInt_at hat.2
  rw [advance, bind_ok hlow, bind_ok hhigh]
  rfl

theorem rangeBytes_cons (item : RangeItem) (items : List RangeItem) :
    rangeBytes (item :: items) = item.bytes ++ rangeBytes items := by
  simp [rangeBytes]

theorem length_itemBytes (item : RangeItem) : item.bytes.length = 16 := by
  cases item <;> simp [RangeItem.bytes, pairBytes]

theorem length_lt_rangeBytes (items : List RangeItem) :
    items.length < (rangeBytes items).length := by
  induction items with
  | nil => simp [rangeBytes, pairBytes]
  | cons item items ih =>
    rw [rangeBytes_cons, List.length_append, length_itemBytes, List.length_cons]
    omega

theorem length_le_image {items : List RangeItem} {p : ℕ}
    (hat : BytesAt dw.image p (rangeBytes items)) : items.length < dw.image.size + 1 := by
  have hlt := length_lt_rangeBytes items
  have hend := hat.end_le_size (List.ne_nil_of_length_pos (by omega))
  omega

/-- Before encoded items, the next entry is the first of the ranges they stand for, and so
on to the end. -/
theorem walks_advance (items : List RangeItem) :
    ∀ (fuel p : ℕ) (it : RangeIterator), items.length < fuel →
      BytesAt dw.image p (rangeBytes items) →
      ∃ it', outcome (advance dw.elf fuel it) ⟨dw.image, p, it.data.last⟩ = .ok it' ∧
        Walks value (increment dw) it' ((ranges it.baseAddress.addr items).map (entryOf dw.elf)) := by
  -- by induction on the items; an item with a base address is not stood on
  induction items with
  | nil =>
    intro fuel p it hfuel hat
    obtain ⟨fuel, rfl⟩ : ∃ k, fuel = k + 1 := ⟨fuel - 1, by omega⟩
    refine ⟨{ it with pos := none, current := entryOf dw.elf (0#64, 0#64) }, ?_, .done rfl⟩
    unfold outcome
    have hpair : BytesAt dw.image p (pairBytes 0#64 0#64) := hat
    rw [advance_at hpair, if_neg (by decide), if_pos ⟨rfl, rfl⟩]
    rfl
  | cons item items ih =>
    intro fuel p it hfuel hat
    obtain ⟨fuel, rfl⟩ : ∃ k, fuel = k + 1 := ⟨fuel - 1, by omega⟩
    rw [List.length_cons] at hfuel
    rw [rangeBytes_cons, bytesAt_append, length_itemBytes] at hat
    obtain ⟨hitem, hrest⟩ := hat
    cases item with
    | base address =>
      obtain ⟨it', hnext, hwalk⟩ := ih fuel (p + 16)
        { it with
          baseAddress := ⟨some dw.elf, address⟩
          current := entryOf dw.elf (baseAddressFlag, address) } (by omega) hrest
      refine ⟨it', ?_, hwalk⟩
      rw [← hnext]
      unfold outcome
      rw [advance_at hitem, if_pos rfl]
      rfl
    | range low high hlow hzero =>
      let it' : RangeIterator := { it with
        pos := some (p + 16)
        current := entryOf dw.elf (low + it.baseAddress.addr, high + it.baseAddress.addr) }
      obtain ⟨it'', hnext, hwalk⟩ := ih (dw.image.size + 1) (p + 16) it'
        (length_le_image hrest) hrest
      refine ⟨it', ?_, .more rfl hnext hwalk⟩
      unfold outcome
      rw [advance_at hitem, if_neg hlow, if_neg hzero]
      rfl

end Walking

variable {dw : DwarfInfo} {l : RangeList} {items : List RangeItem}

/-- The entries that the items stand for. -/
def RangeList.meant (dw : DwarfInfo) (l : RangeList) (items : List RangeItem) : List RangeEntry :=
  (ranges l.baseAddress.addr items).map (entryOf dw.elf)

theorem walks_begin (h : BytesAt dw.image l.data.first (rangeBytes items)) :
    ∃ it, l.begin dw = .ok it ∧
      Walks RangeIterator.value (RangeIterator.increment dw) it (l.meant dw items) :=
  walks_advance items _ _ ⟨l.data, l.baseAddress, some l.data.first, {}⟩ (length_le_image h) h

theorem length_meant_lt (h : BytesAt dw.image l.data.first (rangeBytes items)) :
    (l.meant dw items).length < dw.image.size + 1 := by
  have hle := ranges_length_le l.baseAddress.addr items
  have hlt := length_le_image h
  rw [RangeList.meant, List.length_map]
  omega

theorem contains_entryOf {elf : ElfId} (r : BitVec 64 × BitVec 64) (address : BitVec 64) :
    (entryOf elf r).contains ⟨some elf, address⟩ =
      .ok (decide (r.1 ≤ address) && decide (address < r.2)) := by
  have hlow : (entryOf elf r).low.le ⟨some elf, address⟩ = .ok (decide (r.1 ≤ address)) := if_pos rfl
  have hhigh : FileAddr.lt ⟨some elf, address⟩ (entryOf elf r).high = .ok (decide (address < r.2)) :=
    if_pos rfl
  unfold RangeEntry.contains
  rw [hlow, hhigh]
  cases decide (r.1 ≤ address) <;> rfl

theorem entries_eq (h : BytesAt dw.image l.data.first (rangeBytes items)) :
    l.entries dw = .ok (l.meant dw items) := by
  obtain ⟨it, hbegin, hwalk⟩ := walks_begin h
  rw [RangeList.entries, hbegin]
  exact hwalk.collect (length_meant_lt h)

theorem contains_eq (h : BytesAt dw.image l.data.first (rangeBytes items)) (address : BitVec 64) :
    l.contains dw ⟨some dw.elf, address⟩ =
      .ok (decide (∃ r ∈ ranges l.baseAddress.addr items, r.1 ≤ address ∧ address < r.2)) := by
  obtain ⟨it, hbegin, hwalk⟩ := walks_begin h
  have hpoint : ∀ e ∈ l.meant dw items, e.contains ⟨some dw.elf, address⟩ =
      .ok (decide (e.low.addr ≤ address) && decide (address < e.high.addr)) := by
    intro e he
    obtain ⟨r, -, rfl⟩ := List.mem_map.mp he
    exact contains_entryOf r address
  rw [RangeList.contains, hbegin]
  refine (hwalk.anyOf hpoint (length_meant_lt h)).trans
    (congrArg Except.ok (Bool.eq_iff_iff.mpr ?_))
  simp only [RangeList.meant, List.any_map, List.any_eq_true, Function.comp_apply,
    Bool.and_eq_true, decide_eq_true_iff]
  rfl

/-- Iterating gives one entry per range, in order, each with the base in force at its place;
an address of the file is contained exactly if it lies in one of the entries. -/
theorem rangeList_iterates (h : BytesAt dw.image l.data.first (rangeBytes items)) :
    l.entries dw = .ok ((ranges l.baseAddress.addr items).map (entryOf dw.elf)) ∧
      ∀ address : BitVec 64, l.contains dw ⟨some dw.elf, address⟩ =
        .ok (decide (∃ r ∈ ranges l.baseAddress.addr items, r.1 ≤ address ∧ address < r.2)) :=
  ⟨entries_eq h, contains_eq h⟩

def rebasedItems : List RangeItem :=
  [.range 0x12341234#64 0x12341236#64 (by decide) (by decide), .base 0x32#64,
    .range 0x12341234#64 0x12341236#64 (by decide) (by decide)]

def fileOfRanges (items : List RangeItem) : DwarfInfo where
  elf := 0
  image := .ofList (rangeBytes items)
  getSectionContents _ := none
  compileUnits := []

theorem bytesAt_fileOfRanges (items : List RangeItem) :
    BytesAt (fileOfRanges items).image 0 (rangeBytes items) :=
  bytesAt_ofList fun i _ => by rw [Nat.zero_add]

theorem rangeList_iterates_rebased :
    RangeList.entries (fileOfRanges rebasedItems) ⟨⟨0, 64⟩, {}⟩ =
        .ok ((ranges 0#64 rebasedItems).map (entryOf 0)) ∧
      ∀ address : BitVec 64,
        RangeList.contains (fileOfRanges rebasedItems) ⟨⟨0, 64⟩, {}⟩ ⟨some 0, address⟩ =
          .ok (decide (∃ r ∈ ranges 0#64 rebasedItems, r.1 ≤ address ∧ address < r.2)) :=
  rangeList_iterates (bytesAt_fileOfRanges rebasedItems)

example : ranges 0#64 rebasedItems =
    [(0x12341234#64, 0x12341236#64), (0x12341266#64, 0x12341268#64)] := by decide

end KDebugger.Dwarf
