import KDebugger.Dwarf.LineLookup
import KDebugger.Iterators

namespace KDebugger.Dwarf

open Iterators

namespace LineIterator

/-- What the iterator stands on; it equals `end()` when its position is null. -/
def value (it : LineIterator) : Option Entry := it.pos.map fun _ => it.machine.current

theorem value_eq_none {it : LineIterator} : it.value = none ↔ it.pos = none := by
  simp [value]

theorem value_eq_some {it : LineIterator} {e : Entry} :
    it.value = some e ↔ it.pos.isSome ∧ it.machine.current = e := by
  cases hpos : it.pos <;> simp [value, hpos]

end LineIterator

/-- The rows an iterator of the table yields until the end. -/
abbrev LineTable.Walks (dw : DwarfInfo) (t : LineTable) : LineIterator → List Entry → Prop :=
  Iterators.Walks LineIterator.value (t.increment dw)

theorem rowsFrom_eq_collect (dw : DwarfInfo) (t : LineTable) (n : ℕ) (it : LineIterator) :
    t.rowsFrom dw n it = Iterators.collect LineIterator.value (t.increment dw) n it := by
  induction n generalizing it with
  | zero => rfl
  | succ n ih =>
    rw [LineTable.rowsFrom, Iterators.collect]
    cases hpos : it.pos with
    | none => rw [LineIterator.value_eq_none.mpr hpos]
    | some p =>
      have hvalue : it.value = some it.machine.current :=
        LineIterator.value_eq_some.mpr ⟨by simp [hpos], rfl⟩
      rw [hvalue]
      exact bind_congr fun it' => by rw [ih]

theorem walks_of_rowsFrom {dw : DwarfInfo} {t : LineTable} {n : ℕ} {it : LineIterator}
    {rows : List Entry} (h : t.rowsFrom dw n it = .ok rows) :
    t.Walks dw it rows ∧ rows.length < n := by
  rw [rowsFrom_eq_collect] at h
  exact Iterators.walks_of_collect h

/-- The rows from the first on that starts at or below an address, is no end of a sequence,
and is followed by a row above the address. -/
def rowsAt (a : BitVec 64) : List Entry → List Entry
  | p :: q :: rows =>
    if p.address.addr ≤ a ∧ a < q.address.addr ∧ p.endSequence = false then p :: q :: rows
    else rowsAt a (q :: rows)
  | _ => []

section Loop

variable {dw : DwarfInfo} {t : LineTable} {elf : Option ElfId}

theorem entryFrom_turn (a : BitVec 64) {prev it : LineIterator} {n : ℕ} (hpos : it.pos.isSome)
    (hprev : prev.machine.current.address.elf = elf) (hit : it.machine.current.address.elf = elf) :
    t.entryFrom dw ⟨elf, a⟩ (n + 1) prev it =
      if prev.machine.current.address.addr ≤ a ∧ a < it.machine.current.address.addr ∧
        prev.machine.current.endSequence = false then .ok prev
      else (t.increment dw it).bind (t.entryFrom dw ⟨elf, a⟩ n it) := by
  have hnone : ¬ it.pos = none := by
    intro h
    simp [h] at hpos
  rw [LineTable.entryFrom, if_neg hnone]
  simp only [FileAddr.le, FileAddr.lt, hprev, hit, if_true, bind, Except.bind, pure, Except.pure]
  by_cases hlow : prev.machine.current.address.addr ≤ a <;>
    by_cases hhigh : a < it.machine.current.address.addr <;>
      cases prev.machine.current.endSequence <;> simp [hlow, hhigh]

theorem entryFrom_walks (a : BitVec 64) {prev it : LineIterator} {p : Entry} {rows : List Entry}
    (hvalue : prev.value = some p) (hnext : t.increment dw prev = .ok it)
    (hwalk : t.Walks dw it rows) (hfile : ∀ r ∈ p :: rows, r.address.elf = elf) {n : ℕ}
    (hn : rows.length < n) :
    ∃ found, t.entryFrom dw ⟨elf, a⟩ n prev it = .ok found ∧
      t.Walks dw found (rowsAt a (p :: rows)) := by
  induction rows generalizing prev it p n with
  | nil =>
    obtain ⟨n, rfl⟩ : ∃ k, n = k + 1 := ⟨n - 1, by omega⟩
    cases hwalk with
    | done hend =>
      exact ⟨it, by rw [LineTable.entryFrom, if_pos (LineIterator.value_eq_none.mp hend)],
        .done hend⟩
  | cons q rows ih =>
    obtain ⟨n, rfl⟩ : ∃ k, n = k + 1 := ⟨n - 1, by omega⟩
    rw [List.length_cons] at hn
    have hwhole := hwalk
    cases hwalk with
    | @more _ it' _ _ hit hstep hrest =>
      obtain ⟨-, hcurrent⟩ := LineIterator.value_eq_some.mp hvalue
      obtain ⟨hpos, hrow⟩ := LineIterator.value_eq_some.mp hit
      rw [entryFrom_turn a hpos (hcurrent.symm ▸ hfile p List.mem_cons_self)
        (hrow.symm ▸ hfile q (by simp)), hcurrent, hrow, rowsAt]
      split_ifs with hmatch
      · exact ⟨prev, rfl, .more hvalue hnext hwhole⟩
      · have hshort : rows.length < n := by omega
        obtain ⟨found, hfound, hrows⟩ := ih hit hstep hrest
          (fun r hr => hfile r (List.mem_cons_of_mem p hr)) hshort
        exact ⟨found, by rw [hstep]; exact hfound, hrows⟩

theorem getEntryByAddress_walks (a : BitVec 64) {rows : List Entry} (hrows : t.rows dw = .ok rows)
    (hfile : ∀ r ∈ rows, r.address.elf = elf) :
    ∃ found, t.getEntryByAddress dw ⟨elf, a⟩ = .ok found ∧
      t.Walks dw found (rowsAt a rows) := by
  unfold LineTable.rows at hrows
  cases hbegin : t.begin dw t.fileNames with
  | error e => simp [hbegin, bind, Except.bind] at hrows
  | ok first =>
    simp only [hbegin, bind, Except.bind] at hrows
    obtain ⟨hwalk, hlength⟩ := walks_of_rowsFrom hrows
    have hwhole := hwalk
    unfold LineTable.getEntryByAddress
    simp only [hbegin, bind, Except.bind]
    cases hwalk with
    | done hend =>
      rw [if_pos (LineIterator.value_eq_none.mp hend)]
      exact ⟨first, rfl, .done hend⟩
    | more hvalue hnext hrest =>
      obtain ⟨hpos, -⟩ := LineIterator.value_eq_some.mp hvalue
      have hnone : ¬ first.pos = none := by
        intro h
        simp [h] at hpos
      rw [if_neg hnone, hnext]
      exact entryFrom_walks a hvalue hnext hrest hfile (by simp at hlength; omega)

end Loop

/-- Rows of one file with non-decreasing addresses, the last of which ends the sequence. -/
structure RowSequence (elf : Option ElfId) where
  body : List Entry
  closing : Entry
  opened : ∀ r ∈ body, r.endSequence = false
  closed : closing.endSequence = true
  sorted : (body ++ [closing]).Pairwise fun r r' => r.address.addr ≤ r'.address.addr
  file : ∀ r ∈ body ++ [closing], r.address.elf = elf

namespace RowSequence

variable {elf : Option ElfId}

def rows (s : RowSequence elf) : List Entry := s.body ++ [s.closing]

def first (s : RowSequence elf) : Entry := s.body.headD s.closing

/-- The address lies between the first row and the end of the sequence. -/
def Contains (s : RowSequence elf) (a : BitVec 64) : Prop :=
  s.first.address.addr ≤ a ∧ a < s.closing.address.addr

def tail (s : RowSequence elf) (r : Entry) (body : List Entry) (h : s.body = r :: body) :
    RowSequence elf where
  body := body
  closing := s.closing
  opened r' hr' := s.opened r' (h ▸ List.mem_cons_of_mem r hr')
  closed := s.closed
  sorted := by
    have hsorted := s.sorted
    rw [h, List.cons_append] at hsorted
    exact hsorted.of_cons
  file r' hr' := s.file r' (by rw [h, List.cons_append]; exact List.mem_cons_of_mem r hr')

theorem rows_tail {s : RowSequence elf} {r : Entry} {body : List Entry} (h : s.body = r :: body) :
    s.rows = r :: (s.tail r body h).rows := by
  simp [rows, tail, h]

theorem first_le (s : RowSequence elf) {r : Entry} (hr : r ∈ s.rows) :
    s.first.address.addr ≤ r.address.addr := by
  have hsorted := s.sorted
  unfold first
  unfold rows at hr
  cases hbody : s.body with
  | nil =>
    rw [hbody] at hr
    obtain rfl : r = s.closing := by simpa using hr
    exact BitVec.le_refl _
  | cons q body =>
    rw [hbody] at hr hsorted
    rw [List.headD_cons]
    rcases List.mem_cons.mp hr with rfl | hr
    · exact BitVec.le_refl _
    · exact (List.pairwise_cons.mp hsorted).1 r hr

/-- The last row of a sequence at or below an address, with the rows after it. -/
structure LastBelow (s : RowSequence elf) (a : BitVec 64) (row : Entry) (after : List Entry) :
    Prop where
  rows : ∃ before, s.rows = before ++ row :: after
  below : row.address.addr ≤ a
  above : ∀ r ∈ after, a < r.address.addr
  opened : row.endSequence = false

end RowSequence

theorem rowsAt_ended {a : BitVec 64} {p : Entry} (hp : p.endSequence = true) (rows : List Entry) :
    rowsAt a (p :: rows) = rowsAt a rows := by
  cases rows with
  | nil => rfl
  | cons q rows => rw [rowsAt, if_neg (by simp [hp])]

theorem rowsAt_sequence {elf : Option ElfId} (a : BitVec 64) (s : RowSequence elf)
    (rest : List Entry) :
    (s.Contains a → ∃ row after, s.LastBelow a row after ∧
      rowsAt a (s.rows ++ rest) = row :: after ++ rest) ∧
    (¬ s.Contains a → rowsAt a (s.rows ++ rest) = rowsAt a rest) := by
  -- by induction on the rows of the sequence, which do not go down
  induction hbody : s.body generalizing s with
  | nil =>
    have hrows : s.rows = [s.closing] := by simp [RowSequence.rows, hbody]
    have hfirst : s.first = s.closing := by simp [RowSequence.first, hbody]
    constructor
    · rintro ⟨hlow, hhigh⟩
      rw [hfirst] at hlow
      exact absurd hhigh (BitVec.not_lt.mpr hlow)
    · intro _
      rw [hrows]
      exact rowsAt_ended s.closed rest
  | cons r body ih =>
    have hrows := RowSequence.rows_tail hbody
    have hfirst : s.first = r := by simp [RowSequence.first, hbody]
    obtain ⟨hin, hout⟩ := ih (s.tail r body hbody) rfl
    generalize hs' : s.tail r body hbody = s' at hrows hin hout
    have hclosing : s'.closing = s.closing := by
      rw [← hs']
      rfl
    have hnext : r.address.addr ≤ s'.first.address.addr := by
      rw [← hfirst]
      refine s.first_le ?_
      rw [hrows, RowSequence.first]
      cases hbody' : s'.body <;> simp [RowSequence.rows, hbody']
    have hlast : s'.first.address.addr ≤ s.closing.address.addr := by
      rw [← hclosing]
      exact s'.first_le (by simp [RowSequence.rows])
    obtain ⟨more, hmore⟩ : ∃ more, s'.rows = s'.first :: more := by
      rw [RowSequence.first, RowSequence.rows]
      cases s'.body with
      | nil => exact ⟨[], rfl⟩
      | cons q body => exact ⟨body ++ [s'.closing], rfl⟩
    have hopened : r.endSequence = false := s.opened r (by simp [hbody])
    have hturn : rowsAt a (s.rows ++ rest) =
        if r.address.addr ≤ a ∧ a < s'.first.address.addr then s.rows ++ rest
        else rowsAt a (s'.rows ++ rest) := by
      rw [hrows, hmore, List.cons_append, List.cons_append, rowsAt]
      simp only [hopened, and_true]
    by_cases hmatch : r.address.addr ≤ a ∧ a < s'.first.address.addr
    · rw [hturn, if_pos hmatch]
      have hcontains : s.Contains a :=
        ⟨hfirst ▸ hmatch.1, Nat.lt_of_lt_of_le hmatch.2 hlast⟩
      refine ⟨fun _ => ⟨r, s'.rows, ⟨⟨[], hrows⟩, hmatch.1, ?_, hopened⟩, ?_⟩,
        fun h => absurd hcontains h⟩
      · intro q hq
        exact Nat.lt_of_lt_of_le hmatch.2 (s'.first_le hq)
      · rw [hrows]
    · rw [hturn, if_neg hmatch]
      have hsame : s.Contains a ↔ s'.Contains a := by
        simp only [RowSequence.Contains, hfirst, hclosing]
        constructor
        · rintro ⟨hlow, hhigh⟩
          exact ⟨BitVec.not_lt.mp fun h => hmatch ⟨hlow, h⟩, hhigh⟩
        · rintro ⟨hlow, hhigh⟩
          exact ⟨BitVec.le_trans hnext hlow, hhigh⟩
      rw [hsame]
      refine ⟨fun h => ?_, hout⟩
      obtain ⟨row, after, ⟨⟨before, hsplit⟩, hbelow, habove, hopen⟩, hat⟩ := hin h
      refine ⟨row, after, ⟨⟨r :: before, ?_⟩, hbelow, habove, hopen⟩, hat⟩
      rw [hrows, hsplit, List.cons_append]

def rowsOf {elf : Option ElfId} (sequences : List (RowSequence elf)) : List Entry :=
  sequences.flatMap RowSequence.rows

theorem rowsAt_earlier {elf : Option ElfId} {a : BitVec 64} {earlier : List (RowSequence elf)}
    (hearlier : ∀ s ∈ earlier, ¬ s.Contains a) (rest : List Entry) :
    rowsAt a (rowsOf earlier ++ rest) = rowsAt a rest := by
  induction earlier with
  | nil => rfl
  | cons s earlier ih =>
    rw [rowsOf, List.flatMap_cons, List.append_assoc,
      (rowsAt_sequence a s _).2 (hearlier s List.mem_cons_self)]
    exact ih fun s' hs' => hearlier s' (List.mem_cons_of_mem s hs')

/-- In a table of sequences with disjoint ranges the lookup ends at the last row at or below
the address in the sequence that contains it, and at the end when none does. -/
theorem getEntryByAddress_sequences {dw : DwarfInfo} {t : LineTable} {elf : Option ElfId}
    {sequences : List (RowSequence elf)} (hrows : t.rows dw = .ok (rowsOf sequences))
    (hdisjoint : sequences.Pairwise fun s s' => ∀ a, s.Contains a → ¬ s'.Contains a)
    (a : BitVec 64) :
    ∃ found, t.getEntryByAddress dw ⟨elf, a⟩ = .ok found ∧
      (∀ earlier s later, sequences = earlier ++ s :: later → s.Contains a →
        ∃ row after, s.LastBelow a row after ∧ found.value = some row ∧
          t.Walks dw found (row :: after ++ rowsOf later)) ∧
      ((∀ s ∈ sequences, ¬ s.Contains a) → found.value = none) := by
  have hfile : ∀ r ∈ rowsOf sequences, r.address.elf = elf := by
    intro r hr
    obtain ⟨s, -, hr⟩ := List.mem_flatMap.mp hr
    exact s.file r hr
  obtain ⟨found, hfound, hwalk⟩ := getEntryByAddress_walks a hrows hfile
  refine ⟨found, hfound, ?_, ?_⟩
  · rintro earlier s later rfl hs
    have hearlier : ∀ s' ∈ earlier, ¬ s'.Contains a := by
      intro s' hs' h
      exact (List.pairwise_append.mp hdisjoint).2.2 s' hs' s List.mem_cons_self a h hs
    obtain ⟨row, after, hlast, hat⟩ := (rowsAt_sequence a s (rowsOf later)).1 hs
    have hall : rowsOf (earlier ++ s :: later) = rowsOf earlier ++ (s.rows ++ rowsOf later) := by
      simp [rowsOf]
    rw [hall, rowsAt_earlier hearlier, hat] at hwalk
    refine ⟨row, after, hlast, ?_, hwalk⟩
    cases hwalk with
    | more hvalue _ _ => exact hvalue
  · intro hnone
    have hat := rowsAt_earlier hnone []
    rw [List.append_nil] at hat
    rw [hat] at hwalk
    cases hwalk with
    | done hend => exact hend

namespace TwoSequences

/-- A sequence of two rows from an address on, sixteen bytes long. -/
def program (high : Byte) : List Byte :=
  [0x00#8, 0x09#8, 0x02#8, 0x00#8, high, 0x00#8, 0x00#8, 0x00#8, 0x00#8, 0x00#8, 0x00#8,
    0x01#8, 0x02#8, 0x10#8, 0x00#8, 0x01#8, 0x01#8]

def dw : DwarfInfo where
  elf := 0
  image := .ofList (program 0x20#8 ++ program 0x10#8)
  getSectionContents _ := none
  compileUnits := []

def table : LineTable where
  data := ⟨0, 34⟩
  cu := ⟨⟨0, 0⟩, []⟩
  defaultIsStmt := true
  lineBase := 251#8
  lineRange := 14#8
  opcodeBase := 13#8
  includeDirectories := []
  fileNames := [⟨[0x61#8], 0#64, 0#64⟩]

def row (a : BitVec 64) : Entry := { address := ⟨some 0, a⟩, isStmt := true, fileEntry := some 0#64 }

def sequence (a : BitVec 64) (h : a ≤ a + 16#64) : RowSequence (some 0) where
  body := [row a]
  closing := { row (a + 16#64) with endSequence := true }
  opened := by simp [row]
  closed := rfl
  sorted := by simpa [row] using h
  file := by simp [row]

def sequences : List (RowSequence (some 0)) :=
  [sequence 0x2000#64 (by decide), sequence 0x1000#64 (by decide)]

theorem rows_eq : table.rows dw = .ok (rowsOf sequences) := by decide +kernel

theorem disjoint : sequences.Pairwise fun s s' => ∀ a, s.Contains a → ¬ s'.Contains a := by
  refine List.pairwise_pair.mpr ?_
  rintro a ⟨hlow, -⟩ ⟨-, hhigh⟩
  exact absurd (Nat.lt_of_le_of_lt hlow hhigh) (by decide)

end TwoSequences

/-- An address in the second of two sequences, which lies below the first. -/
theorem getEntryByAddress_sequences_second :
    ∃ found, TwoSequences.table.getEntryByAddress TwoSequences.dw ⟨some 0, 0x1008#64⟩ = .ok found ∧
      found.value = some (TwoSequences.row 0x1000#64) := by
  obtain ⟨found, hfound, hin, -⟩ := getEntryByAddress_sequences TwoSequences.rows_eq
    TwoSequences.disjoint 0x1008#64
  refine ⟨found, hfound, ?_⟩
  obtain ⟨row, after, ⟨⟨before, hrows⟩, hbelow, -, hopened⟩, hvalue, -⟩ :=
    hin [_] _ [] rfl ⟨by decide, by decide⟩
  rw [hvalue]
  have hmem : row ∈ (TwoSequences.sequence 0x1000#64 (by decide)).rows := by
    rw [hrows]
    simp
  simp only [RowSequence.rows, TwoSequences.sequence, List.cons_append, List.nil_append,
    List.mem_cons, List.not_mem_nil, or_false] at hmem
  rcases hmem with rfl | rfl
  · rfl
  · cases hopened

end KDebugger.Dwarf
