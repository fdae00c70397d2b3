import KDebugger.Dwarf.LineCode

namespace KDebugger.Dwarf

open ByteStream Leb128 Exec Cur

/-- From a position to the end the area is made of these instructions, the last of which
emits a row; or they come before one that is refused, and are not the whole of it. -/
inductive Area (dw : DwarfInfo) (t : LineTable) : ℕ → List Act → Bool → Prop where
  | done : Area dw t t.data.last [] true
  | refused {p : ℕ} {bs : List Byte} (hp : p < t.data.last) (hat : BytesAt dw.image p bs)
      (h : LineTable.Refused dw t bs) : Area dw t p [] false
  | step {p : ℕ} {bs : List Byte} {a : Act} {as : List Act} {whole : Bool}
      (hat : BytesAt dw.image p bs) (h : LineTable.Encodes dw t bs a)
      (hfits : p + bs.length ≤ t.data.last)
      (hlast : a.emits = false → p + bs.length ≠ t.data.last)
      (hrest : Area dw t (p + bs.length) as whole) : Area dw t p (a :: as) whole

/-- The instructions that `++` executes from a position on start at these positions. -/
inductive Executes (dw : DwarfInfo) (t : LineTable) : LineMachine → ℕ → ℕ → Prop where
  | here {m : LineMachine} {p : ℕ} : Executes dw t m p p
  | next {m m' : LineMachine} {p q : ℕ} {c' : Cursor}
      (h : t.executeInstruction dw m ⟨dw.image, p, t.data.last⟩ = .ok (false, m') c')
      (hrest : Executes dw t m' c'.pos q) : Executes dw t m p q

/-- `++` executes no instruction that starts outside the area; it ends with a row after an
instruction that ends in the area, at `end()`, or with an exception. -/
structure StaysInside (dw : DwarfInfo) (t : LineTable) (it : LineIterator) (p : ℕ) : Prop where
  starts : p ≠ t.data.last → ∀ q, Executes dw t it.machine p q → q < t.data.last
  ends : match t.increment dw it with
    | .ok it' => ∀ p' ∈ it'.pos, p' ≤ t.data.last
    | .error e => LineTable.IsException e

/-- The iterators of a table: as constructed, after `++`, and with the files that other
iterators have added. -/
inductive Reached (dw : DwarfInfo) (t : LineTable) : LineIterator → Prop where
  | constructed : Reached dw t ⟨⟨{}, t.initial, t.fileNames⟩, some t.data.first⟩
  | incremented {it it' : LineIterator} (h : Reached dw t it)
      (hnext : t.increment dw it = .ok it') : Reached dw t it'
  | shared {it : LineIterator} (h : Reached dw t it) (fileNames : List File) :
      Reached dw t { it with machine.fileNames := fileNames }

section Execution

variable {dw : DwarfInfo} {t : LineTable}

theorem encodes_ne_nil {bs : List Byte} {a : Act} (h : LineTable.Encodes dw t bs a) : bs ≠ [] := by
  cases h <;> simp

theorem executeInstruction_of_encodes {m : LineMachine} {p : ℕ} {bs : List Byte} {a : Act}
    (hat : BytesAt dw.image p bs) (h : LineTable.Encodes dw t bs a)
    (hfits : p + bs.length ≤ t.data.last) :
    t.executeInstruction dw m ⟨dw.image, p, t.data.last⟩ =
      .ok (a.effect dw t m) ⟨dw.image, p + bs.length, t.data.last⟩ := by
  have hdecode := LineTable.format_decode.reads h ⟨dw.image, p, t.data.last⟩ hat hfits
  rw [LineTable.executeInstruction_eq, bind_ok hdecode]
  rfl

theorem executeInstruction_of_refused {m : LineMachine} {p : ℕ} {bs : List Byte}
    (hat : BytesAt dw.image p bs) (h : LineTable.Refused dw t bs) :
    ∃ e c', t.executeInstruction dw m ⟨dw.image, p, t.data.last⟩ = .error e c' ∧
      LineTable.IsException e := by
  obtain ⟨e, c', hdecode, he⟩ := h.raises (c := ⟨dw.image, p, t.data.last⟩) hat
  refine ⟨e, c', ?_, he⟩
  rw [LineTable.executeInstruction_eq, bind_error hdecode]

theorem encodes_of_executeInstruction {m : LineMachine} {p : ℕ} {r : Bool × LineMachine}
    {c' : Cursor} (h : t.executeInstruction dw m ⟨dw.image, p, t.data.last⟩ = .ok r c')
    (hstop : c'.pos ≤ t.data.last) :
    ∃ bs a, BytesAt dw.image p bs ∧ LineTable.Encodes dw t bs a ∧ r = a.effect dw t m ∧
      c' = ⟨dw.image, p + bs.length, t.data.last⟩ := by
  rw [LineTable.executeInstruction_eq] at h
  obtain ⟨a, c₁, hdecode, h⟩ := bind_eq_ok.mp h
  cases h
  obtain ⟨bs, hbs, hat, rfl⟩ := LineTable.format_decode.spelled hdecode hstop
  exact ⟨bs, a, hat, hbs, rfl, rfl⟩

theorem refused_of_executeInstruction {m : LineMachine} {p : ℕ} {e : Failure} {c' : Cursor}
    (h : t.executeInstruction dw m ⟨dw.image, p, t.data.last⟩ = .error e c')
    (he : LineTable.IsException e) : ∃ bs, LineTable.Refused dw t bs ∧ BytesAt dw.image p bs := by
  rw [LineTable.executeInstruction_eq] at h
  cases hdecode : t.decode dw ⟨dw.image, p, t.data.last⟩ with
  | ok a c₁ =>
    rw [bind_ok hdecode] at h
    cases h
  | error e' c₁ =>
    rw [bind_error hdecode] at h
    cases h
    exact LineTable.refused_of_raises hdecode he

theorem executeUntilRow_turn {m : LineMachine} {r : Bool × LineMachine} {c c' : Cursor} {n : ℕ}
    (h : t.executeInstruction dw m c = .ok r c') : t.executeUntilRow dw (n + 1) m c =
      if r.1 then .ok r.2 c' else t.executeUntilRow dw n r.2 c' := by
  obtain ⟨emitted, m'⟩ := r
  rw [LineTable.executeUntilRow, bind_ok h]
  cases emitted <;> rfl

/-- The loop from a position on gets to a row: these instructions are executed, the last
one emits it, and the rest of the area is left. -/
structure RowOf (dw : DwarfInfo) (t : LineTable) (m : LineMachine) (p : ℕ) (as : List Act)
    (whole : Bool) (m' : LineMachine) (c' : Cursor) : Prop where
  split : ∃ executed rest, as = executed ++ rest ∧ Area dw t c'.pos rest whole ∧
    m'.fileNames = m.fileNames ++ executed.filterMap Act.defined
  fits : c'.pos ≤ t.data.last
  onward : p < c'.pos

theorem pos_lt_size {p : ℕ} {bs : List Byte} (hat : BytesAt dw.image p bs) (hbs : bs ≠ []) :
    p < dw.image.size := by
  obtain ⟨b, bs, rfl⟩ := List.exists_cons_of_ne_nil hbs
  exact hat.pos_lt_size

theorem refused_ne_nil {bs : List Byte} (h : LineTable.Refused dw t bs) : bs ≠ [] := by
  cases h <;> simp

theorem defined_cons (a : Act) (as : List Act) :
    (a :: as).filterMap Act.defined = a.defined.toList ++ as.filterMap Act.defined := by
  rw [List.filterMap_cons]
  cases a.defined <;> rfl

theorem Area.executeUntilRow {p : ℕ} {as : List Act} {whole : Bool} (h : Area dw t p as whole) :
    p ≠ t.data.last → ∀ {n : ℕ}, dw.image.size < p + n → ∀ m : LineMachine,
    match t.executeUntilRow dw n m ⟨dw.image, p, t.data.last⟩ with
    | .ok m' c' => RowOf dw t m p as whole m' c'
    | .error e _ => LineTable.IsException e ∧ whole = false := by
  induction h with
  | done => exact fun hp => absurd rfl hp
  | @refused p bs hp hat h =>
    intro _ n hn m
    have hsize := pos_lt_size hat (refused_ne_nil h)
    obtain ⟨n, rfl⟩ : ∃ k, n = k + 1 := ⟨n - 1, by omega⟩
    obtain ⟨e, c', hexec, he⟩ := executeInstruction_of_refused (m := m) hat h
    rw [LineTable.executeUntilRow, bind_error hexec]
    exact ⟨he, rfl⟩
  | @step p bs a as whole hat h hfits hlast hrest ih =>
    intro _ n hn m
    have hbs := encodes_ne_nil h
    have hlength := List.length_pos_iff.mpr hbs
    have hsize := pos_lt_size hat hbs
    obtain ⟨n, rfl⟩ : ∃ k, n = k + 1 := ⟨n - 1, by omega⟩
    have hexec := executeInstruction_of_encodes (m := m) hat h hfits
    have hemits := a.effect_emits dw t m
    have hfiles := a.effect_fileNames dw t m
    rw [executeUntilRow_turn hexec, hemits]
    cases hrow : a.emits with
    | true =>
      rw [if_pos rfl]
      have hdefined : [a].filterMap Act.defined = a.defined.toList := by simp [defined_cons]
      exact ⟨⟨[a], as, rfl, hrest, hdefined ▸ hfiles⟩, hfits, Nat.lt_add_of_pos_right hlength⟩
    | false =>
      -- the loop goes on, and the area does too
      rw [if_neg Bool.false_ne_true]
      have hloop := ih (hlast hrow) (n := n) (by omega) (a.effect dw t m).2
      split at hloop
      · obtain ⟨⟨executed, rest, rfl, harea, hdefined⟩, hfits', honward⟩ := hloop
        refine ⟨⟨a :: executed, rest, rfl, harea, ?_⟩, hfits', by omega⟩
        rw [hdefined, hfiles, defined_cons, List.append_assoc]
      · exact hloop

theorem Area.pos_lt {p : ℕ} {as : List Act} {whole : Bool} (h : Area dw t p as whole)
    (hp : p ≠ t.data.last) : p < t.data.last := by
  cases h with
  | done => exact absurd rfl hp
  | refused hp' _ _ => exact hp'
  | step hat h hfits _ _ =>
    have hlength := List.length_pos_iff.mpr (encodes_ne_nil h)
    omega

theorem Area.starts {m : LineMachine} {p q : ℕ} (hexec : Executes dw t m p q) :
    ∀ {as : List Act} {whole : Bool}, Area dw t p as whole → p ≠ t.data.last →
      q < t.data.last := by
  induction hexec with
  | here => exact fun h hp => h.pos_lt hp
  | @next m m' p q c' hinstr hrest ih =>
    intro as whole h hp
    cases h with
    | done => exact absurd rfl hp
    | refused _ hat hrefused =>
      obtain ⟨e, c₁, herror, -⟩ := executeInstruction_of_refused (m := m) hat hrefused
      rw [hinstr] at herror
      cases herror
    | @step _ bs a as _ hat hencodes hfits hlast harea =>
      have hok := executeInstruction_of_encodes (m := m) hat hencodes hfits
      rw [hinstr] at hok
      obtain ⟨heffect, rfl⟩ := EStateM.Result.ok.inj hok
      have hemits := a.effect_emits dw t m
      rw [← heffect] at hemits
      exact ih harea (hlast hemits.symm)

/-- The area an iterator of the table is before, when there is one. -/
def Before (dw : DwarfInfo) (t : LineTable) (whole : Bool) (it : LineIterator) : Prop :=
  ∀ p ∈ it.pos, ∃ as, Area dw t p as whole

theorem Area.increment {p : ℕ} {as : List Act} {whole : Bool} (h : Area dw t p as whole)
    {m : LineMachine} :
    match t.increment dw ⟨m, some p⟩ with
    | .ok it' => Before dw t whole it' ∧ ∀ p' ∈ it'.pos, p' ≤ t.data.last
    | .error e => LineTable.IsException e ∧ whole = false := by
  by_cases hp : p = t.data.last
  · rw [LineTable.increment]
    simp only [if_pos hp]
    exact ⟨fun _ hp' => (nomatch hp'), fun _ hp' => (nomatch hp')⟩
  · have hrow := h.executeUntilRow hp (n := dw.image.size + 1) (by omega) m
    rw [LineTable.increment]
    simp only [if_neg hp]
    cases hloop : t.executeUntilRow dw (dw.image.size + 1) m ⟨dw.image, p, t.data.last⟩ with
    | error e c' =>
      rw [hloop] at hrow
      exact hrow
    | ok m' c' =>
      rw [hloop] at hrow
      obtain ⟨⟨executed, rest, -, harea, -⟩, hfits, -⟩ := hrow
      constructor
      · rintro p' ⟨⟩
        exact ⟨rest, harea⟩
      · rintro p' ⟨⟩
        exact hfits

theorem Area.staysInside {p : ℕ} {as : List Act} {whole : Bool} (h : Area dw t p as whole)
    (m : LineMachine) : StaysInside dw t ⟨m, some p⟩ p where
  starts hp q hq := Area.starts hq h hp
  ends := by
    have hnext := h.increment (m := m)
    split at hnext
    · exact hnext.2
    · exact hnext.1

theorem Reached.before {as : List Act} {whole : Bool} (h : Area dw t t.data.first as whole)
    {it : LineIterator} (hit : Reached dw t it) : Before dw t whole it := by
  induction hit with
  | constructed =>
    rintro p ⟨⟩
    exact ⟨as, h⟩
  | @incremented it it' _ hnext ih =>
    obtain ⟨m, pos⟩ := it
    cases pos with
    | none => simp [LineTable.increment] at hnext
    | some p =>
      obtain ⟨as', harea⟩ := ih p rfl
      have hstep := harea.increment (m := m)
      rw [hnext] at hstep
      exact hstep.1
  | shared _ _ ih => exact ih

theorem decode_takes {c c' : Cursor} {a : Act} (h : t.decode dw c = .ok a c') :
    c.pos < c.image.size ∧ c.pos < c'.pos ∧ c'.image = c.image ∧ c'.stop = c.stop := by
  obtain ⟨opcode, c₁, hopcode, h⟩ := bind_eq_ok.mp h
  obtain ⟨hread, rfl⟩ := u8_ok hopcode
  obtain ⟨himage, hstop, hpos⟩ := (LineTable.format_afterOpcode opcode).onward.ok h
  have hsize : BytesAt c.image c.pos [opcode] := ⟨hread, trivial⟩
  exact ⟨hsize.pos_lt_size, hpos, himage, hstop⟩

theorem executeUntilRow_takes {n : ℕ} : ∀ {m m' : LineMachine} {c c' : Cursor},
    t.executeUntilRow dw n m c = .ok m' c' →
      c.pos < c.image.size ∧ c.pos < c'.pos ∧ c'.image = c.image ∧ c'.stop = c.stop := by
  induction n with
  | zero =>
    intro m m' c c' h
    cases h
  | succ n ih =>
    intro m m' c c' h
    obtain ⟨r, c₁, hinstr, -⟩ := bind_eq_ok.mp h
    have hdecode := hinstr
    rw [LineTable.executeInstruction_eq] at hdecode
    obtain ⟨a, c₂, hdecode, heffect⟩ := bind_eq_ok.mp hdecode
    cases heffect
    obtain ⟨hsize, hpos, himage, hstop⟩ := decode_takes hdecode
    rw [executeUntilRow_turn hinstr] at h
    split_ifs at h
    · cases h
      exact ⟨hsize, hpos, himage, hstop⟩
    · obtain ⟨-, hpos', himage', hstop'⟩ := ih h
      exact ⟨hsize, hpos.trans hpos', himage'.trans himage, hstop'.trans hstop⟩

theorem increment_takes {it it' : LineIterator} (h : t.increment dw it = .ok it') :
    ∃ p, it.pos = some p ∧ (p = t.data.last ∧ it' = { it with pos := none } ∨
      p ≠ t.data.last ∧ p < dw.image.size ∧ ∃ m' c', p < c'.pos ∧ it' = ⟨m'.withFileEntry, some c'.pos⟩ ∧
        t.executeUntilRow dw (dw.image.size + 1) it.machine ⟨dw.image, p, t.data.last⟩ =
          .ok m' c') := by
  unfold LineTable.increment at h
  cases hpos : it.pos with
  | none => simp [hpos] at h
  | some p =>
    refine ⟨p, rfl, ?_⟩
    simp only [hpos] at h
    split_ifs at h with hlast
    · exact .inl ⟨hlast, (Except.ok.inj h).symm⟩
    · cases hloop : t.executeUntilRow dw (dw.image.size + 1) it.machine
          ⟨dw.image, p, t.data.last⟩ with
      | error e c' => simp [hloop] at h
      | ok m' c' =>
        simp only [hloop, Except.ok.injEq] at h
        obtain ⟨hsize, hlt, -⟩ := executeUntilRow_takes hloop
        exact .inr ⟨hlast, hsize, m', c', hlt, h.symm, rfl⟩

theorem area_of_row {n : ℕ} : ∀ {m m' : LineMachine} {p : ℕ} {c' : Cursor} {rest : List Act}
    {whole : Bool}, t.executeUntilRow dw n m ⟨dw.image, p, t.data.last⟩ = .ok m' c' →
      c'.pos ≤ t.data.last → Area dw t c'.pos rest whole → ∃ as, Area dw t p as whole := by
  induction n with
  | zero =>
    intro m m' p c' rest whole h
    cases h
  | succ n ih =>
    intro m m' p c' rest whole h hstop hrest
    obtain ⟨r, c₁, hinstr, -⟩ := bind_eq_ok.mp h
    rw [executeUntilRow_turn hinstr] at h
    split_ifs at h with hemitted
    · cases h
      obtain ⟨bs, a, hat, hencodes, rfl, rfl⟩ := encodes_of_executeInstruction hinstr hstop
      rw [a.effect_emits] at hemitted
      exact ⟨a :: rest, .step hat hencodes hstop (fun h => by simp [h] at hemitted) hrest⟩
    · obtain ⟨-, hlt, -⟩ := executeUntilRow_takes h
      have hinside : c₁.pos < t.data.last := hlt.trans_le hstop
      obtain ⟨bs, a, hat, hencodes, -, rfl⟩ := encodes_of_executeInstruction hinstr hinside.le
      obtain ⟨as, harea⟩ := ih h hstop hrest
      exact ⟨a :: as, .step hat hencodes hinside.le (fun _ => hinside.ne) harea⟩

theorem executeUntilRow_error {m : LineMachine} {e : Failure} {c c' : Cursor} {n : ℕ}
    (h : t.executeInstruction dw m c = .error e c') :
    t.executeUntilRow dw (n + 1) m c = .error e c' := by
  rw [LineTable.executeUntilRow, bind_error h]

theorem area_of_exception {n : ℕ} : ∀ {m : LineMachine} {p : ℕ} {e : Failure} {c' : Cursor},
    t.executeUntilRow dw n m ⟨dw.image, p, t.data.last⟩ = .error e c' →
      LineTable.IsException e → (∀ q, Executes dw t m p q → q < t.data.last) →
      ∃ as, Area dw t p as false := by
  -- the instructions before the refused one are whole
  induction n with
  | zero =>
    intro m p e c' h he
    cases h
    exact he.elim
  | succ n ih =>
    intro m p e c' h he hstarts
    cases hinstr : t.executeInstruction dw m ⟨dw.image, p, t.data.last⟩ with
    | error e' c₁ =>
      rw [executeUntilRow_error hinstr] at h
      cases h
      obtain ⟨bs, hrefused, hat⟩ := refused_of_executeInstruction hinstr he
      exact ⟨[], .refused (hstarts p .here) hat hrefused⟩
    | ok r c₁ =>
      rw [executeUntilRow_turn hinstr] at h
      obtain ⟨emitted, m'⟩ := r
      cases emitted with
      | true => cases h
      | false =>
        have hnext := hstarts c₁.pos (.next hinstr .here)
        obtain ⟨bs, a, hat, hencodes, -, rfl⟩ := encodes_of_executeInstruction hinstr hnext.le
        obtain ⟨as, harea⟩ := ih h he fun q hq => hstarts q (.next hinstr hq)
        exact ⟨a :: as, .step hat hencodes hnext.le (fun _ => hnext.ne) harea⟩

theorem area_of_staysInside
    (h : ∀ it p, Reached dw t it → it.pos = some p → StaysInside dw t it p) (k : ℕ) :
    ∀ {it : LineIterator} {p : ℕ}, Reached dw t it → it.pos = some p → p ≤ t.data.last →
      t.data.last - p ≤ k → ∃ as whole, Area dw t p as whole := by
  -- where the loop stays inside, the bytes that it has executed are whole instructions
  induction k with
  | zero =>
    intro it p _ _ hle hk
    obtain rfl : p = t.data.last := by omega
    exact ⟨[], true, .done⟩
  | succ k ih =>
    intro it p hit hpos hle hk
    by_cases hlast : p = t.data.last
    · subst hlast
      exact ⟨[], true, .done⟩
    obtain ⟨hstarts, hends⟩ := h it p hit hpos
    have hnext : t.increment dw it =
        match t.executeUntilRow dw (dw.image.size + 1) it.machine ⟨dw.image, p, t.data.last⟩ with
        | .ok m c => .ok ⟨m.withFileEntry, some c.pos⟩
        | .error e _ => .error e := by
      unfold LineTable.increment
      rewrite [hpos]
      exact if_neg hlast
    cases hloop : t.executeUntilRow dw (dw.image.size + 1) it.machine
        ⟨dw.image, p, t.data.last⟩ with
    | error e c' =>
      rw [hloop] at hnext
      rw [hnext] at hends
      obtain ⟨as, harea⟩ := area_of_exception hloop hends (hstarts hlast)
      exact ⟨as, false, harea⟩
    | ok m' c' =>
      rw [hloop] at hnext
      rw [hnext] at hends
      have hstop : c'.pos ≤ t.data.last := hends c'.pos rfl
      obtain ⟨-, hlt, -⟩ := executeUntilRow_takes hloop
      have hlt : p < c'.pos := hlt
      obtain ⟨rest, whole, hrest⟩ := ih (.incremented hit hnext) rfl hstop (by omega)
      obtain ⟨as, harea⟩ := area_of_row hloop hstop hrest
      exact ⟨as, whole, harea⟩

/-- Every `++` stays inside the program area exactly when the area is made of whole
instructions up to its end, the last of which emits a row, or up to one that is refused. -/
theorem staysInside_iff (dw : DwarfInfo) (t : LineTable) :
    (∀ it p, Reached dw t it → it.pos = some p → StaysInside dw t it p) ↔
      ∃ as whole, Area dw t t.data.first as whole := by
  constructor
  · intro h
    have hdata : t.data.first ≤ t.data.last := by
      by_cases hlast : t.data.first = t.data.last
      · exact hlast.le
      · exact ((h _ _ .constructed rfl).starts hlast _ .here).le
    exact area_of_staysInside h _ .constructed rfl hdata (Nat.le_refl _)
  · rintro ⟨as, whole, h⟩ it p hit hpos
    obtain ⟨as', harea⟩ := hit.before h p hpos
    obtain ⟨m, pos⟩ := it
    obtain rfl : pos = some p := hpos
    exact harea.staysInside m

/-- A single `DW_LNS_negate_stmt` is followed by an instruction past the area. -/
theorem staysInside_not_for_all : ¬ ∀ (dw : DwarfInfo) (t : LineTable) (it : LineIterator) (p : ℕ),
    Reached dw t it → it.pos = some p → StaysInside dw t it p := by
  intro h
  let dw : DwarfInfo := ⟨0, .ofList [StandardOp.negateStmt.code], fun _ => none, []⟩
  let t : LineTable := ⟨⟨0, 1⟩, ⟨⟨0, 0⟩, []⟩, true, 251#8, 14#8, 13#8, [], []⟩
  have hnext := (h dw t _ 0 .constructed rfl).starts (by decide) 1
  exact absurd (hnext (.next rfl .here)) (by decide)

end Execution

end KDebugger.Dwarf
