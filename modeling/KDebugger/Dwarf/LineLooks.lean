import KDebugger.Dwarf.LineFiles
import KDebugger.Dwarf.LineHeader

namespace KDebugger.Dwarf

open ByteStream Exec

abbrev Looking := EStateM Failure (List File)

def LineIterator.withFiles (it : LineIterator) (files : List File) : LineIterator :=
  { it with machine := { it.machine with fileNames := files } }

namespace LineTable

/-- The files after the loop of `++`, whichever way it ends. -/
def filesAfter (dw : DwarfInfo) (t : LineTable) : ℕ → LineMachine → Cursor → List File
  | 0, m, _ => m.fileNames
  | n + 1, m, c =>
    match t.executeInstruction dw m c with
    | .error _ _ => m.fileNames
    | .ok (emitted, m') c' => if emitted then m'.fileNames else filesAfter dw t n m' c'

/-- `++` on the list of the table. -/
def advance (dw : DwarfInfo) (t : LineTable) (it : LineIterator) : Looking LineIterator :=
  fun files =>
    match t.increment dw (it.withFiles files) with
    | .ok it' => .ok it' it'.machine.fileNames
    | .error e =>
      match it.pos with
      | none => .error e files
      | some p => .error e (t.filesAfter dw (dw.image.size + 1) (it.withFiles files).machine
          ⟨dw.image, p, t.data.last⟩)

/-- `begin()` on the list of the table. -/
def start (dw : DwarfInfo) (t : LineTable) : Looking LineIterator :=
  t.advance dw ⟨⟨{}, t.initial, []⟩, some t.data.first⟩

/-- A loop from an iterator on; `visit` goes on with the left values and stops at the right. -/
def scan {σ ρ : Type} (dw : DwarfInfo) (t : LineTable)
    (visit : σ → LineIterator → Except Failure (σ ⊕ ρ)) (finish : σ → ρ) :
    ℕ → σ → LineIterator → Looking ρ
  | 0, _, _ => throw .exhausted
  | n + 1, s, it =>
    if it.pos = none then pure (finish s)
    else do
      match ← ofExcept (visit s it) with
      | .inr r => pure r
      | .inl s' => do
        let next ← t.advance dw it
        scan dw t visit finish n s' next

def visitRow (rows : List Entry) (it : LineIterator) : Except Failure (List Entry ⊕ List Entry) :=
  .ok (.inl (rows ++ [it.machine.current]))

def traverse (dw : DwarfInfo) (t : LineTable) : Looking (List Entry) := do
  let it ← t.start dw
  t.scan dw visitRow id (dw.image.size + 2) [] it

def visitSome : ℕ → LineIterator → Except Failure (ℕ ⊕ Unit)
  | 0, _ => .ok (.inr ())
  | steps + 1, _ => .ok (.inl steps)

def traverseSome (dw : DwarfInfo) (t : LineTable) (steps : ℕ) : Looking Unit := do
  let it ← t.start dw
  t.scan dw visitSome (fun _ => ()) (dw.image.size + 2) steps it

/-- A turn of `get_entry_by_address`, whose `prev` is a copy. -/
def visitAddress (address : FileAddr) :
    Option LineIterator → LineIterator → Except Failure (Option LineIterator ⊕ Option LineIterator)
  | none, it => .ok (.inl (some it))
  | some prev, it => do
    let below ← prev.machine.current.address.le address
    let above ← if below then address.lt it.machine.current.address else .ok false
    if below && above && !prev.machine.current.endSequence then pure (.inr (some prev))
    else pure (.inl (some it))

/-- `get_entry_by_address`; no iterator stands for `end()`. -/
def lookByAddress (dw : DwarfInfo) (t : LineTable) (address : FileAddr) :
    Looking (Option LineIterator) := do
  let it ← t.start dw
  t.scan dw (visitAddress address) (fun _ => none) (dw.image.size + 3) none it

def visitLine (path : KDebugger.Path) (entries : List LineIterator) (it : LineIterator) :
    Except Failure (List LineIterator ⊕ List LineIterator) :=
  match it.file with
  | none => .error .undefined
  | some f =>
    let entryPath := KDebugger.Path.ofText f.path
    let found := (path.isAbsolute && entryPath == path) ||
      (!path.isAbsolute && entryPath.endsIn path)
    .ok (.inl (if found then entries ++ [it] else entries))

/-- `get_entries_by_line`. -/
def lookByLine (dw : DwarfInfo) (t : LineTable) (path : KDebugger.Path) (_size : BitVec 64) :
    Looking (List LineIterator) := do
  let it ← t.start dw
  t.scan dw (visitLine path) id (dw.image.size + 2) [] it

end LineTable

/-- The ways to look at a table. -/
inductive Look where
  | traversal
  | partialTraversal (steps : ℕ)
  | entryByAddress (address : FileAddr)
  | entriesByLine (path : KDebugger.Path) (line : BitVec 64)

def Look.exec (dw : DwarfInfo) (t : LineTable) : Look → Looking Unit
  | traversal => do
    let _ ← t.traverse dw
  | partialTraversal steps => t.traverseSome dw steps
  | entryByAddress address => do
    let _ ← t.lookByAddress dw address
  | entriesByLine path line => do
    let _ ← t.lookByLine dw path line

/-- However the table was looked at before, a complete traversal yields the rows of the first
one, and from then on the files are those of the header and each defined one once. -/
def OnlyLooks (dw : DwarfInfo) (t : LineTable) : Prop :=
  ∀ (before : List Look) (rows : List Entry),
    outcome (t.traverse dw) (runAll (Look.exec dw t) t.fileNames before) = .ok rows →
      outcome (t.traverse dw) t.fileNames = .ok rows ∧
      ∀ as, Area dw t t.data.first as true → ∀ later : List Look,
        runAll (Look.exec dw t) t.fileNames (before ++ .traversal :: later) =
          t.fileNames ++ as.filterMap Act.defined

section Iterations

variable {dw : DwarfInfo} {t : LineTable}

theorem advance_ok {it it' : LineIterator} (h : t.increment dw it = .ok it') :
    t.advance dw it it.machine.fileNames = .ok it' it'.machine.fileNames := by
  have hself : it.withFiles it.machine.fileNames = it := rfl
  rw [LineTable.advance, hself, h]

theorem advance_error {it : LineIterator} {e : Failure} (h : t.increment dw it = .error e) :
    ∃ files, t.advance dw it it.machine.fileNames = .error e files := by
  have hself : it.withFiles it.machine.fileNames = it := rfl
  rw [LineTable.advance, hself, h]
  cases it.pos with
  | none => exact ⟨_, rfl⟩
  | some p => exact ⟨_, rfl⟩

theorem scan_turn {σ ρ : Type} (visit : σ → LineIterator → Except Failure (σ ⊕ ρ)) (finish : σ → ρ)
    (n : ℕ) (s : σ) (it : LineIterator) :
    outcome (t.scan dw visit finish (n + 1) s it) it.machine.fileNames =
      if it.pos = none then .ok (finish s)
      else (do
        match ← visit s it with
        | .inr r => pure r
        | .inl s' => do
          let next ← t.increment dw it
          outcome (t.scan dw visit finish n s' next) next.machine.fileNames) := by
  rw [LineTable.scan]
  split_ifs with hpos
  · rfl
  · cases hvisit : visit s it with
    | error e => 
      unfold outcome
      rw [bind_error (ofExcept_error _ _)]
      rfl
    | ok next =>
      unfold outcome
      rw [bind_ok (ofExcept_ok _ _)]
      cases next with
      | inr r => rfl
      | inl s' =>
        cases hnext : t.increment dw it with
        | ok it' =>
          dsimp only
          rw [bind_ok (advance_ok hnext)]
          rfl
        | error e =>
          obtain ⟨files, hfiles⟩ := advance_error hnext
          dsimp only
          rw [bind_error hfiles]
          rfl

theorem outcome_start {ρ : Type} (k : LineIterator → Looking ρ) :
    outcome (t.start dw >>= k) t.fileNames = (do
      let it ← t.begin dw t.fileNames
      outcome (k it) it.machine.fileNames) := by
  let it₀ : LineIterator := ⟨⟨{}, t.initial, t.fileNames⟩, some t.data.first⟩
  have hstart : t.start dw t.fileNames = t.advance dw it₀ it₀.machine.fileNames := rfl
  have hbegin : t.begin dw t.fileNames = t.increment dw it₀ := rfl
  rw [hbegin]
  cases hnext : t.increment dw it₀ with
  | ok it' =>
    have hok := advance_ok hnext
    rw [← hstart] at hok
    unfold outcome
    rw [bind_ok hok]
    rfl
  | error e =>
    obtain ⟨files, herror⟩ := advance_error hnext
    rw [← hstart] at herror
    unfold outcome
    rw [bind_error herror]
    rfl

theorem outcome_traverse : outcome (t.traverse dw) t.fileNames = t.rows dw := by
  have hloop : ∀ (n : ℕ) (rows : List Entry) (it : LineIterator),
      outcome (t.scan dw LineTable.visitRow id n rows it) it.machine.fileNames =
        (t.rowsFrom dw n it).map (rows ++ ·) := by
    intro n
    induction n with
    | zero => exact fun _ _ => rfl
    | succ n ih =>
      intro rows it
      rw [scan_turn, LineTable.rowsFrom]
      cases hpos : it.pos with
      | none => simp [Except.map]
      | some p =>
        simp only [reduceCtorEq, if_false, LineTable.visitRow]
        cases hnext : t.increment dw it with
        | error e => rfl
        | ok it' =>
          simp only [bind, Except.bind, ih]
          cases t.rowsFrom dw n it' <;> simp [Except.map, pure, Except.pure]
  rw [LineTable.traverse, outcome_start, LineTable.rows]
  congr 1
  funext it
  rw [hloop]
  cases t.rowsFrom dw (dw.image.size + 2) it <;> simp [Except.map]

theorem outcome_lookByLine (path : KDebugger.Path) (line : BitVec 64) :
    outcome (t.lookByLine dw path line) t.fileNames = t.getEntriesByLine dw path line := by
  have hloop : ∀ (n : ℕ) (entries : List LineIterator) (it : LineIterator),
      outcome (t.scan dw (LineTable.visitLine path) id n entries it) it.machine.fileNames =
        (t.entriesFrom dw path n it).map (entries ++ ·) := by
    intro n
    induction n with
    | zero => exact fun _ _ => rfl
    | succ n ih =>
      intro entries it
      rw [scan_turn, LineTable.entriesFrom]
      cases hpos : it.pos with
      | none => simp [Except.map]
      | some p =>
        simp only [reduceCtorEq, if_false, LineTable.visitLine]
        cases hfile : it.file with
        | none => rfl
        | some f =>
          cases hnext : t.increment dw it with
          | error e => rfl
          | ok it' =>
            simp only [bind, Except.bind, ih]
            cases t.entriesFrom dw path n it' with
            | error e => rfl
            | ok rest =>
              simp only [Except.map, pure, Except.pure]
              split_ifs <;> simp
  rw [LineTable.lookByLine, outcome_start, LineTable.getEntriesByLine]
  congr 1
  funext it
  rw [hloop]
  cases t.entriesFrom dw path (dw.image.size + 2) it <;> simp [Except.map]

theorem outcome_lookByAddress (address : FileAddr) :
    outcome (t.lookByAddress dw address) t.fileNames =
      (t.getEntryByAddress dw address).map LineIterator.here := by
  have hloop : ∀ (n : ℕ) (prev it : LineIterator), prev.pos.isSome →
      outcome (t.scan dw (LineTable.visitAddress address) (fun _ => none) n (some prev) it)
        it.machine.fileNames = (t.entryFrom dw address n prev it).map LineIterator.here := by
    intro n
    induction n with
    | zero => exact fun _ _ _ => rfl
    | succ n ih =>
      intro prev it hprev
      rw [scan_turn, LineTable.entryFrom]
      cases hpos : it.pos with
      | none => simp [Except.map, LineIterator.here, hpos]
      | some p =>
        simp only [reduceCtorEq, if_false, LineTable.visitAddress]
        have hgo : (t.increment dw it).bind (fun next =>
            outcome (t.scan dw (LineTable.visitAddress address) (fun _ => none) n (some it) next)
              next.machine.fileNames) =
            ((t.increment dw it).bind (t.entryFrom dw address n it)).map LineIterator.here := by
          cases t.increment dw it with
          | error e => rfl
          | ok next => exact ih it next (by simp [hpos])
        have hhere : prev.here = some prev := by
          obtain ⟨q, hq⟩ := Option.isSome_iff_exists.mp hprev
          simp [LineIterator.here, hq]
        cases prev.machine.current.address.le address with
        | error e => rfl
        | ok below =>
          cases below with
          | false => exact hgo
          | true =>
            simp only [bind, Except.bind, if_true]
            cases address.lt it.machine.current.address with
            | error e => rfl
            | ok above =>
              dsimp only
              split_ifs
              · simp [pure, Except.pure, Except.map, hhere]
              · exact hgo
  rw [LineTable.lookByAddress, outcome_start, LineTable.getEntryByAddress]
  cases t.begin dw t.fileNames with
  | error e => rfl
  | ok first =>
    simp only [bind, Except.bind]
    rw [scan_turn]
    cases hpos : first.pos with
    | none => simp [Except.map, LineIterator.here, hpos, pure, Except.pure]
    | some p =>
      simp only [reduceCtorEq, if_false, LineTable.visitAddress, bind, Except.bind]
      cases hnext : t.increment dw first with
      | error e => rfl
      | ok it => exact hloop _ first it (by simp [hpos])

/-- Two iterators on the same row, whatever the files are. -/
def SameRow (it it' : LineIterator) : Prop :=
  it.pos = it'.pos ∧ it.machine.current = it'.machine.current ∧
    it.machine.registers = it'.machine.registers

/-- Two machines that differ in their files only. -/
def SameRegisters (m m' : LineMachine) : Prop :=
  m.current = m'.current ∧ m.registers = m'.registers

theorem effect_same {m m' : LineMachine} (h : SameRegisters m m') (a : Act) :
    (a.effect dw t m).1 = (a.effect dw t m').1 ∧
      SameRegisters (a.effect dw t m).2 (a.effect dw t m').2 := by
  obtain ⟨current, registers, files⟩ := m
  obtain ⟨current', registers', files'⟩ := m'
  obtain ⟨rfl, rfl⟩ := h
  cases a <;> exact ⟨rfl, rfl, rfl⟩

theorem executeUntilRow_same {n : ℕ} : ∀ {m m' : LineMachine} {c : Cursor}, SameRegisters m m' →
    match t.executeUntilRow dw n m c, t.executeUntilRow dw n m' c with
    | .ok m₁ c₁, .ok m₂ c₂ => SameRegisters m₁ m₂ ∧ c₁ = c₂
    | .error e₁ _, .error e₂ _ => e₁ = e₂
    | _, _ => False := by
  induction n with
  | zero => exact fun _ => rfl
  | succ n ih =>
    intro m m' c h
    cases hdecode : t.decode dw c with
    | error e c₁ =>
      have hinstr (m : LineMachine) : t.executeInstruction dw m c = .error e c₁ := by
        rw [LineTable.executeInstruction_eq, bind_error hdecode]
      rw [executeUntilRow_error (hinstr m), executeUntilRow_error (hinstr m')]
    | ok a c₁ =>
      have hinstr (m : LineMachine) :
          t.executeInstruction dw m c = .ok (a.effect dw t m) c₁ := by
        rw [LineTable.executeInstruction_eq, bind_ok hdecode]
        rfl
      obtain ⟨hemits, hsame⟩ := @effect_same dw t m m' h a
      rw [executeUntilRow_turn (hinstr m), executeUntilRow_turn (hinstr m'), hemits]
      split_ifs
      · exact ⟨hsame, rfl⟩
      · exact ih hsame

theorem advance_same {it it' : LineIterator} (h : SameRow it it') :
    MatchesUpTo (fun _ _ => True) SameRow (t.advance dw it) (t.advance dw it') := by
  intro files files' _
  obtain ⟨⟨current, registers, _⟩, pos⟩ := it
  obtain ⟨⟨current', registers', _⟩, pos'⟩ := it'
  obtain ⟨rfl, rfl, rfl⟩ := h
  unfold LineTable.advance LineTable.increment LineIterator.withFiles
  cases pos with
  | none => exact ⟨rfl, trivial⟩
  | some p =>
    dsimp only
    by_cases hlast : p = t.data.last
    · simp only [if_pos hlast]
      exact ⟨⟨rfl, rfl, rfl⟩, trivial⟩
    · simp only [if_neg hlast]
      have hloop := @executeUntilRow_same dw t (dw.image.size + 1) ⟨current, registers, files⟩
        ⟨current, registers, files'⟩ ⟨dw.image, p, t.data.last⟩ ⟨rfl, rfl⟩
      split at hloop
      · next m₁ c₁ m₂ c₂ h₁ h₂ =>
        obtain ⟨⟨hcurrent, hregisters⟩, rfl⟩ := hloop
        rw [h₁, h₂]
        refine ⟨⟨rfl, ?_, hregisters⟩, trivial⟩
        simp only [LineMachine.withFileEntry, hcurrent]
      · next e₁ c₁ e₂ c₂ h₁ h₂ =>
        rw [h₁, h₂]
        exact ⟨hloop, trivial⟩
      · exact hloop.elim

theorem scanRows_same (n : ℕ) : ∀ (rows : List Entry) {it it' : LineIterator}, SameRow it it' →
    MatchesUpTo (fun _ _ => True) Eq (t.scan dw LineTable.visitRow id n rows it)
      (t.scan dw LineTable.visitRow id n rows it') := by
  induction n with
  | zero => exact fun _ _ _ _ _ _ _ => ⟨rfl, trivial⟩
  | succ n ih =>
    intro rows it it' h
    obtain ⟨hpos, hcurrent, -⟩ := id h
    unfold LineTable.scan
    rw [← hpos]
    split_ifs
    · exact MatchesUpTo.pure rfl
    · have hvisit : LineTable.visitRow rows it' = LineTable.visitRow rows it := by
        rw [LineTable.visitRow, LineTable.visitRow, hcurrent]
      rw [hvisit]
      refine MatchesUpTo.ofExcept_bind fun next hnext => ?_
      obtain rfl : .inl (rows ++ [it.machine.current]) = next := Except.ok.inj hnext
      exact (advance_same h).bind fun a b hab => ih _ hab

theorem traverse_same (files files' : List File) :
    outcome (t.traverse dw) files = outcome (t.traverse dw) files' := by
  have h : MatchesUpTo (fun _ _ => True) Eq (t.traverse dw) (t.traverse dw) :=
    (@advance_same dw t _ _ ⟨rfl, rfl, rfl⟩).bind fun _ _ hab => scanRows_same _ _ hab
  have hends := h files files' trivial
  unfold outcome
  split at hends
  · next hs ht =>
    rw [hs, ht, hends.1]
  · next hs ht =>
    rw [hs, ht, hends.1]
  · exact hends.elim

theorem Area.pos_le {p : ℕ} {as : List Act} {whole : Bool} (h : Area dw t p as whole) :
    p ≤ t.data.last := by
  by_cases hp : p = t.data.last
  · exact hp.le
  · exact (h.pos_lt hp).le

theorem Area.eq_nil {as : List Act} {whole : Bool} (h : Area dw t t.data.last as whole) :
    as = [] := by
  generalize hp : t.data.last = p at h
  cases h with
  | done => rfl
  | refused _ _ _ => rfl
  | step hat hencodes hfits _ _ =>
    have hlength := List.length_pos_iff.mpr (encodes_ne_nil hencodes)
    omega

theorem advance_of_area {it : LineIterator} {p : ℕ} {as : List Act} (hpos : it.pos = some p)
    (h : Area dw t p as true) (files : List File) :
    ∃ it' executed rest, as = executed ++ rest ∧
      t.advance dw it files = .ok it' (files ++ executed.filterMap Act.defined) ∧
      (it'.pos = none → rest = []) ∧
      ∀ p' ∈ it'.pos, p < p' ∧ p < dw.image.size ∧ Area dw t p' rest true := by
  obtain ⟨m, pos⟩ := it
  obtain rfl : pos = some p := hpos
  unfold LineTable.advance LineTable.increment LineIterator.withFiles
  dsimp only
  by_cases hlast : p = t.data.last
  · subst hlast
    obtain rfl := h.eq_nil
    refine ⟨⟨⟨m.current, m.registers, files⟩, none⟩, [], [], rfl, ?_, fun _ => rfl,
      fun _ hp => nomatch hp⟩
    rw [if_pos rfl, List.filterMap_nil, List.append_nil]
  · have hrow := h.executeUntilRow hlast (n := dw.image.size + 1) (by omega)
      ⟨m.current, m.registers, files⟩
    simp only [if_neg hlast]
    cases hloop : t.executeUntilRow dw (dw.image.size + 1) ⟨m.current, m.registers, files⟩
        ⟨dw.image, p, t.data.last⟩ with
    | error e c' =>
      rw [hloop] at hrow
      cases hrow.2
    | ok m' c' =>
      rw [hloop] at hrow
      obtain ⟨⟨executed, rest, rfl, harea, hfiles⟩, -, honward⟩ := hrow
      obtain ⟨hsize, -⟩ := executeUntilRow_takes hloop
      refine ⟨⟨m'.withFileEntry, some c'.pos⟩, executed, rest, rfl, ?_, (fun h => nomatch h), ?_⟩
      · change EStateM.Result.ok _ m'.fileNames = _
        rw [hfiles]
      · rintro _ ⟨⟩
        exact ⟨honward, hsize, harea⟩

theorem scanRows_of_area (n : ℕ) : ∀ (rows : List Entry) {it : LineIterator} {p : ℕ}
    {as : List Act} (files : List File), it.pos = some p → Area dw t p as true →
      dw.image.size - p + 1 < n →
      ∃ rows', t.scan dw LineTable.visitRow id n rows it files =
        .ok rows' (files ++ as.filterMap Act.defined) := by
  induction n with
  | zero =>
    intro _ _ _ _ _ _ _ hn
    exact absurd hn (Nat.not_lt_zero _)
  | succ n ih =>
    intro rows it p as files hpos h hn
    obtain ⟨it', executed, rest, rfl, hnext, hend, hmore⟩ := advance_of_area hpos h files
    rw [LineTable.scan, if_neg (by simp [hpos]), LineTable.visitRow, bind_ok (ofExcept_ok _ _)]
    dsimp only
    rw [bind_ok hnext, List.filterMap_append, ← List.append_assoc]
    cases hpos' : it'.pos with
    | none =>
      rw [hend hpos']
      obtain ⟨n, rfl⟩ : ∃ k, n = k + 1 := ⟨n - 1, by omega⟩
      rw [LineTable.scan, if_pos hpos', List.filterMap_nil, List.append_nil]
      exact ⟨_, rfl⟩
    | some p' =>
      obtain ⟨hlt, hsize, hrest⟩ := hmore p' hpos'
      exact ih _ _ hpos' hrest (by omega)

theorem traverse_of_area {as : List Act} (h : Area dw t t.data.first as true) (files : List File) :
    ∃ rows, t.traverse dw files = .ok rows (files ++ as.filterMap Act.defined) := by
  have hpos : (⟨⟨{}, t.initial, []⟩, some t.data.first⟩ : LineIterator).pos = some t.data.first :=
    rfl
  obtain ⟨it, executed, rest, rfl, hnext, hend, hmore⟩ := advance_of_area hpos h files
  have hstart : t.start dw files = .ok it (files ++ executed.filterMap Act.defined) := hnext
  rw [LineTable.traverse, bind_ok hstart, List.filterMap_append, ← List.append_assoc]
  cases hpos : it.pos with
  | none =>
    rw [hend hpos, LineTable.scan, if_pos hpos, List.filterMap_nil, List.append_nil]
    exact ⟨_, rfl⟩
  | some p =>
    obtain ⟨hlt, hsize, hrest⟩ := hmore p hpos
    exact scanRows_of_area _ _ _ hpos hrest (by omega)

/-- What is left of the area is whole and defines no file. -/
def Quiet (dw : DwarfInfo) (t : LineTable) (it : LineIterator) : Prop :=
  ∀ p ∈ it.pos, ∃ as, Area dw t p as true ∧ ∀ a ∈ as, a.defined = none

theorem filterMap_defined {as : List Act} (h : ∀ a ∈ as, a.defined = none) :
    as.filterMap Act.defined = [] := List.filterMap_eq_nil_iff.mpr h

theorem Quiet.advance {it : LineIterator} {p : ℕ} (hpos : it.pos = some p) (h : Quiet dw t it)
    (files : List File) : ∃ it', t.advance dw it files = .ok it' files ∧ Quiet dw t it' := by
  obtain ⟨as, harea, hdefined⟩ := h p hpos
  obtain ⟨it', executed, rest, rfl, hnext, -, hmore⟩ := advance_of_area hpos harea files
  have hexecuted : ∀ a ∈ executed, a.defined = none := fun a ha =>
    hdefined a (List.mem_append_left rest ha)
  rw [filterMap_defined hexecuted, List.append_nil] at hnext
  refine ⟨it', hnext, fun p' hp' => ⟨rest, (hmore p' hp').2.2, fun a ha => ?_⟩⟩
  exact hdefined a (List.mem_append_right executed ha)

theorem Quiet.scan {σ ρ : Type} (visit : σ → LineIterator → Except Failure (σ ⊕ ρ))
    (finish : σ → ρ) (n : ℕ) : ∀ (s : σ) {it : LineIterator} (files : List File), Quiet dw t it →
      after (t.scan dw visit finish n s it) files = files := by
  induction n with
  | zero => exact fun _ _ _ _ => rfl
  | succ n ih =>
    intro s it files h
    rw [LineTable.scan]
    cases hpos : it.pos with
    | none => rfl
    | some p =>
      rw [if_neg (by simp)]
      refine unchanged.bind_at (unchanged.ofExcept _ files) fun next files' hvisit => ?_
      obtain ⟨-, rfl⟩ := ofExcept_eq_ok.mp hvisit
      cases next with
      | inr r => rfl
      | inl s' =>
        obtain ⟨it', hnext, hquiet⟩ := h.advance hpos files'
        dsimp only
        rw [after_bind_ok hnext]
        exact ih s' files' hquiet

theorem Quiet.exec {as : List Act} (h : Area dw t t.data.first as true)
    (hdefined : ∀ a ∈ as, a.defined = none) (look : Look) (files : List File) :
    after (look.exec dw t) files = files := by
  have hquiet : Quiet dw t ⟨⟨{}, t.initial, []⟩, some t.data.first⟩ := by
    rintro _ ⟨⟩
    exact ⟨as, h, hdefined⟩
  obtain ⟨it, hnext, hit⟩ := hquiet.advance rfl files
  have hstart : t.start dw files = .ok it files := hnext
  have hloop {σ ρ : Type} (visit : σ → LineIterator → Except Failure (σ ⊕ ρ)) (finish : σ → ρ)
      (n : ℕ) (s : σ) :
      after (t.start dw >>= fun it => t.scan dw visit finish n s it) files = files := by
    rw [after_bind_ok hstart]
    exact hit.scan visit finish n s files
  have hvalue {ρ : Type} (p : Looking ρ) (hp : after p files = files) :
      after (do let _ ← p; pure ()) files = files :=
    unchanged.bind_at hp fun _ _ _ => rfl
  cases look with
  | traversal => exact hvalue _ (hloop _ _ _ _)
  | partialTraversal steps => exact hloop _ _ _ _
  | entryByAddress address => exact hvalue _ (hloop _ _ _ _)
  | entriesByLine path line => exact hvalue _ (hloop _ _ _ _)

theorem area_of_walk {it : LineIterator} {rows : List Entry} (h : t.Walks dw it rows) :
    ∀ p ∈ it.pos, ∃ as, Area dw t p as true := by
  induction h with
  | done hend =>
    intro p hp
    rw [LineIterator.value_eq_none.mp hend] at hp
    cases hp
  | @more it next _ _ hvalue hnext hrest ih =>
    intro p hp
    obtain ⟨p', hp', hcase⟩ := increment_takes hnext
    obtain rfl : p' = p := Option.some.inj (hp'.symm.trans hp)
    rcases hcase with ⟨rfl, -⟩ | ⟨-, -, m', c', -, rfl, hloop⟩
    · exact ⟨[], .done⟩
    · obtain ⟨rest, harea⟩ := ih c'.pos rfl
      exact area_of_row hloop harea.pos_le harea

theorem area_of_rows {rows : List Entry} (h : t.rows dw = .ok rows) :
    ∃ as, Area dw t t.data.first as true := by
  unfold LineTable.rows at h
  cases hbegin : t.begin dw t.fileNames with
  | error e => simp [hbegin, bind, Except.bind] at h
  | ok first =>
    simp only [hbegin, bind, Except.bind] at h
    have hwalk : t.Walks dw ⟨⟨{}, t.initial, t.fileNames⟩, some t.data.first⟩ ({} :: rows) :=
      .more rfl hbegin (walks_of_rowsFrom h).1
    exact area_of_walk hwalk _ rfl

/-- Looking at a table leaves it as it is exactly when its program defines no file, or cannot
be traversed to its end. -/
theorem onlyLooks_iff (dw : DwarfInfo) (t : LineTable) :
    OnlyLooks dw t ↔ ∀ as, Area dw t t.data.first as true → ∀ a ∈ as, a.defined = none := by
  -- executed again, a `DW_LNE_define_file` adds its file again
  constructor
  · intro h as harea
    obtain ⟨rows, hrows⟩ := traverse_of_area harea t.fileNames
    have hfirst : outcome (t.traverse dw) (runAll (Look.exec dw t) t.fileNames []) = .ok rows := by
      rw [runAll_nil, outcome, hrows]
    obtain ⟨-, hfiles⟩ := h [] rows hfirst
    have htwice := hfiles as harea [.traversal]
    have hexec (files : List File) :
        after (Look.exec dw t .traversal) files = files ++ as.filterMap Act.defined := by
      obtain ⟨rows, hrows⟩ := traverse_of_area harea files
      exact after_bind_ok hrows
    simp only [List.nil_append, runAll_cons, runAll_nil, hexec] at htwice
    exact List.filterMap_eq_nil_iff.mp (List.append_right_eq_self.mp htwice)
  · intro h before rows hrows
    have hsame : outcome (t.traverse dw) t.fileNames = .ok rows :=
      (traverse_same _ _).trans hrows
    obtain ⟨as, harea⟩ := area_of_rows (outcome_traverse.symm.trans hsame)
    have hexec : ∀ looks : List Look, runAll (Look.exec dw t) t.fileNames looks = t.fileNames := by
      intro looks
      induction looks with
      | nil => rfl
      | cons look looks ih =>
        rw [runAll_cons, Quiet.exec harea (h as harea)]
        exact ih
    refine ⟨hsame, fun as' harea' later => ?_⟩
    rw [hexec, filterMap_defined (h as' harea'), List.append_nil]

end Iterations

namespace SmallLineTable

def defining : List LineInstr :=
  [.defineFile (.small 6) ⟨[0x62#8], .small 0, .small 0, .small 0, by decide, by decide⟩ (by decide),
    .endSequence (.small 1) endLength]

def definingTable : LineTable where
  data := ⟨22 + header.body.length, 22 + header.body.length + (programBytes defining).length⟩
  cu := unit
  defaultIsStmt := true
  lineBase := 251#8
  lineRange := 14#8
  opcodeBase := 13#8
  includeDirectories := []
  fileNames := []

theorem traversed : ∃ rows, definingTable.rows (info defining) = .ok rows := by
  have h : (definingTable.rows (info defining)).isOk = true := by decide +kernel
  cases hrows : definingTable.rows (info defining) with
  | ok rows => exact ⟨rows, rfl⟩
  | error e =>
    rw [hrows] at h
    cases h

end SmallLineTable

theorem onlyLooks_not_for_all : ¬ ∀ (dw : DwarfInfo) (t : LineTable), OnlyLooks dw t := by
  intro h
  obtain ⟨rows, hrows⟩ := SmallLineTable.traversed
  obtain ⟨as, harea⟩ := area_of_rows hrows
  obtain ⟨-, hfiles⟩ := h _ _ [] rows (outcome_traverse.trans hrows)
  have hsame := (hfiles as harea []).trans (hfiles as harea [.traversal]).symm
  exact absurd hsame (by decide +kernel)

end KDebugger.Dwarf
