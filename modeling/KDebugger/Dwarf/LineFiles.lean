import KDebugger.Dwarf.LineArea
import KDebugger.Dwarf.LineSequences
import KDebugger.Paths

namespace KDebugger

namespace Path

/-- `is_absolute`: the path has a root directory. -/
def isAbsolute (p : Path) : Bool := p.head? == some root

def endsIn (lhs rhs : Path) : Bool :=
  if lhs.length < rhs.length then false
  else lhs.drop (lhs.length - rhs.length) == rhs

theorem endsIn_iff {lhs rhs : Path} : endsIn lhs rhs = true ↔ rhs <:+ lhs := by
  unfold endsIn
  split_ifs with hlength
  · refine iff_of_false id fun hsuffix => ?_
    exact absurd hsuffix.length_le (by omega)
  · rw [beq_iff_eq, List.suffix_iff_eq_drop]
    exact eq_comm

/-- The path designates the file: it is the file's path, or the end of it when it is
relative. -/
def Designates (p file : Path) : Prop := if p.isAbsolute then file = p else p <:+ file

instance (p file : Path) : Decidable (p.Designates file) := by
  unfold Designates
  infer_instance

end Path

namespace Dwarf

open ByteStream Exec Iterators

namespace LineIterator

/-- The iterator while it is not `end()`. -/
def here (it : LineIterator) : Option LineIterator := it.pos.map fun _ => it

/-- `file_entry`, which is formed without looking whether the element exists. -/
def file (it : LineIterator) : Option File :=
  it.machine.current.fileEntry.bind fun i => it.machine.fileNames[i.toNat]?

def OfFile (path : KDebugger.Path) (it : LineIterator) : Prop :=
  ∃ f ∈ it.file, path.Designates (.ofText f.path)

instance (path : KDebugger.Path) : DecidablePred (OfFile path) := fun it =>
  inferInstanceAs (Decidable (∃ f ∈ it.file, _))

def line (it : LineIterator) : BitVec 64 := it.machine.current.line

end LineIterator

namespace LineTable

def entriesFrom (dw : DwarfInfo) (t : LineTable) (path : KDebugger.Path) :
    ℕ → LineIterator → Except Failure (List LineIterator)
  | 0, _ => .error .exhausted
  | n + 1, it =>
    if it.pos = none then .ok []
    else
      match it.file with
      | none => .error .undefined
      | some f => do
        let entryPath := KDebugger.Path.ofText f.path
        -- the line is not looked at
        let found := (path.isAbsolute && entryPath == path) ||
          (!path.isAbsolute && entryPath.endsIn path)
        let next ← t.increment dw it
        let entries ← entriesFrom dw t path n next
        pure (if found then it :: entries else entries)

/-- `get_entries_by_line`; the second parameter is not used. -/
def getEntriesByLine (dw : DwarfInfo) (t : LineTable) (path : KDebugger.Path) (_size : BitVec 64) :
    Except Failure (List LineIterator) := do
  let it ← t.begin dw t.fileNames
  t.entriesFrom dw path (dw.image.size + 2) it

def Traversal (dw : DwarfInfo) (t : LineTable) (its : List LineIterator) : Prop :=
  ∃ first, t.begin dw t.fileNames = .ok first ∧
    Iterators.Walks LineIterator.here (t.increment dw) first its

end LineTable

section Entries

variable {dw : DwarfInfo} {t : LineTable}

theorem here_eq_some {it it' : LineIterator} (h : it.here = some it') :
    it' = it ∧ ∃ p, it.pos = some p := by
  obtain ⟨p, hp, rfl⟩ := Option.map_eq_some_iff.mp h
  exact ⟨rfl, p, hp⟩

theorem length_walk {it : LineIterator} {its : List LineIterator}
    (h : Iterators.Walks LineIterator.here (t.increment dw) it its) :
    ∀ p ∈ it.pos, its.length ≤ dw.image.size - p + 1 := by
  induction h with
  | done hend =>
    intro p hp
    simp [LineIterator.here, Option.mem_def.mp hp] at hend
  | @more it next _ its hvalue hnext hrest ih =>
    intro p hp
    obtain ⟨p', hp', hcase⟩ := increment_takes hnext
    obtain rfl : p' = p := Option.some.inj (hp'.symm.trans hp)
    rcases hcase with ⟨-, rfl⟩ | ⟨-, hsize, m', c', hlt, rfl, -⟩
    · cases hrest with
      | done _ => simp
      | more hvalue' _ _ => simp [LineIterator.here] at hvalue'
    · have hlength := ih c'.pos rfl
      rw [List.length_cons]
      omega

theorem found_iff {path entryPath : KDebugger.Path} :
    ((path.isAbsolute && entryPath == path) || (!path.isAbsolute && entryPath.endsIn path)) = true ↔
      path.Designates entryPath := by
  unfold KDebugger.Path.Designates
  cases habs : path.isAbsolute with
  | true => simp
  | false => simp [KDebugger.Path.endsIn_iff]

theorem entriesFrom_walks (path : KDebugger.Path) {it : LineIterator} {its : List LineIterator}
    (h : Iterators.Walks LineIterator.here (t.increment dw) it its) {n : ℕ}
    (hn : its.length < n) :
    t.entriesFrom dw path n it =
      if ∀ it' ∈ its, it'.file.isSome then .ok (its.filter (LineIterator.OfFile path ·))
      else .error .undefined := by
  induction h generalizing n with
  | @done it hend =>
    obtain ⟨n, rfl⟩ : ∃ k, n = k + 1 := ⟨n - 1, by omega⟩
    have hpos : it.pos = none := by simpa [LineIterator.here] using hend
    rw [LineTable.entriesFrom, if_pos hpos]
    simp
  | @more it next here its hvalue hnext hrest ih =>
    obtain ⟨n, rfl⟩ : ∃ k, n = k + 1 := ⟨n - 1, by omega⟩
    obtain ⟨rfl, p, hp⟩ := here_eq_some hvalue
    have hloop := ih (Nat.lt_of_succ_lt_succ hn)
    rw [LineTable.entriesFrom, if_neg (by simp [hp])]
    cases hfile : here.file with
    | none => simp [hfile]
    | some f =>
      simp only [hnext, hloop, bind, Except.bind, List.forall_mem_cons, hfile, Option.isSome_some,
        true_and]
      have hkept : LineIterator.OfFile path here ↔ path.Designates (.ofText f.path) := by
        simp [LineIterator.OfFile, hfile]
      by_cases hall : ∀ it' ∈ its, it'.file.isSome
      · rw [if_pos hall, if_pos hall]
        simp only [found_iff, ← hkept]
        by_cases hof : LineIterator.OfFile path here <;> simp [hof, pure, Except.pure]
      · rw [if_neg hall, if_neg hall]

/-- The rows returned are those of the file and the line exactly when every row has a file and
all the rows of the file are of that line. -/
theorem getEntriesByLine_iff {its : List LineIterator} (h : t.Traversal dw its)
    (path : KDebugger.Path) (line : BitVec 64) :
    t.getEntriesByLine dw path line =
        .ok (its.filter fun it => it.line = line ∧ it.OfFile path) ↔
      ∀ it ∈ its, it.file.isSome ∧ (it.OfFile path → it.line = line) := by
  obtain ⟨first, hbegin, hwalk⟩ := h
  have hlength : its.length < dw.image.size + 2 := by
    cases hpos : first.pos with
    | none =>
      cases hwalk with
      | done _ => simp
      | more hvalue _ _ => simp [LineIterator.here, hpos] at hvalue
    | some p =>
      have := length_walk hwalk p hpos
      omega
  unfold LineTable.getEntriesByLine
  simp only [hbegin, bind, Except.bind, entriesFrom_walks path hwalk hlength]
  by_cases hall : ∀ it ∈ its, it.file.isSome
  · rw [if_pos hall, Except.ok.injEq]
    constructor
    · intro heq it hit
      refine ⟨hall it hit, fun hof => ?_⟩
      have hmem : it ∈ its.filter (LineIterator.OfFile path ·) := by simp [hit, hof]
      rw [heq] at hmem
      simp only [List.mem_filter, decide_eq_true_eq] at hmem
      exact hmem.2.1
    · intro hline
      refine List.filter_congr fun it hit => ?_
      have := (hline it hit).2
      simp only [decide_eq_decide]
      tauto
  · rw [if_neg hall]
    refine iff_of_false (fun h => nomatch h) fun h => hall fun it hit => (h it hit).1

end Entries

namespace TwoSequences

def traversed : Except Failure (List LineIterator) := do
  let first ← table.begin dw table.fileNames
  collect LineIterator.here (table.increment dw) 5 first

def iterators : List LineIterator := traversed.toOption.getD []

theorem traversal : table.Traversal dw iterators := by
  have htraversed : traversed = .ok iterators := by rfl
  unfold traversed at htraversed
  cases hbegin : table.begin dw table.fileNames with
  | error e => simp [hbegin, bind, Except.bind] at htraversed
  | ok first =>
    simp only [hbegin, bind, Except.bind] at htraversed
    exact ⟨first, hbegin, (walks_of_collect htraversed).1⟩

end TwoSequences

theorem getEntriesByLine_iff_firstLine :
    TwoSequences.table.getEntriesByLine TwoSequences.dw [[0x61#8]] 1#64 =
      .ok (TwoSequences.iterators.filter fun it => it.line = 1#64 ∧ it.OfFile [[0x61#8]]) :=
  (getEntriesByLine_iff TwoSequences.traversal [[0x61#8]] 1#64).mpr (by decide +kernel)

theorem getEntriesByLine_not_for_all : ¬ ∀ (dw : DwarfInfo) (t : LineTable) (its : List LineIterator),
    t.Traversal dw its → ∀ (path : KDebugger.Path) (line : BitVec 64),
      t.getEntriesByLine dw path line =
        .ok (its.filter fun it => it.line = line ∧ it.OfFile path) := by
  intro h
  have hnone := h TwoSequences.dw TwoSequences.table _ TwoSequences.traversal [[0x61#8]] 2#64
  have hfour : (TwoSequences.table.getEntriesByLine TwoSequences.dw [[0x61#8]] 2#64).map List.length =
      .ok 4 := by decide +kernel
  rw [hnone] at hfour
  exact absurd hfour (by decide +kernel)

end Dwarf
end KDebugger
