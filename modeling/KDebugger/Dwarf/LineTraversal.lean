import KDebugger.Dwarf.LineProgram

namespace KDebugger.Dwarf

open ByteStream Leb128 Exec Cur

def programBytes (P : List LineInstr) : List Byte := P.flatMap LineInstr.bytes

/-- The last instruction is an end of sequence. -/
def Closed : List LineInstr → Prop
  | [] => False
  | i :: P => (P = [] ∧ i.isEnd) ∨ Closed P

theorem Closed.ne_nil {P : List LineInstr} (h : Closed P) : P ≠ [] := by
  rintro rfl
  exact h

theorem closed_append (P : List LineInstr) {len : Uleb} (h : len.value = 1) :
    Closed (P ++ [.endSequence len h]) := by
  induction P with
  | nil => exact .inl ⟨rfl, rfl⟩
  | cons i P ih => exact .inr ih

/-- No instruction sets the instruction set architecture. -/
def NoIsa (P : List LineInstr) : Prop := ∀ i ∈ P, ∀ u, i ≠ .setIsa u

theorem LineInstr.bytes_ne_nil (i : LineInstr) : i.bytes ≠ [] := by
  cases i <;> simp [LineInstr.bytes, LineInstr.extended]

theorem length_le_programBytes (P : List LineInstr) : P.length ≤ (programBytes P).length := by
  induction P with
  | nil => simp
  | cons i P ih =>
    have hi := List.length_pos_iff.mpr i.bytes_ne_nil
    simp only [programBytes, List.flatMap_cons, List.length_append, List.length_cons] at ih ⊢
    omega

/-- The rows the code emits on a program, when it executes all of it. -/
def LineTable.run (dw : DwarfInfo) (t : LineTable) (compilationDir : Path) :
    LineMachine → List LineInstr → Option (List Entry)
  | _, [] => some []
  | m, i :: P =>
    match t.effect dw compilationDir m i with
    | none => none
    | some (true, m') =>
      (t.run dw compilationDir m'.withFileEntry P).map (m'.withFileEntry.current :: ·)
    | some (false, m') => t.run dw compilationDir m' P

section Traversal

variable {dw : DwarfInfo} {t : LineTable} {compilationDir : Path}

/-- The table has a program and the parameters the code relies on. -/
structure Holds (dw : DwarfInfo) (t : LineTable) (compilationDir : Path) (p : ℕ)
    (P : List LineInstr) : Prop where
  base : t.opcodeBase = 13#8
  range : t.lineRange ≠ 0#8
  dir : dw.compilationDir t.cu = .ok compilationDir
  within : ∀ i ∈ P, i.Within t.includeDirectories
  noIsa : NoIsa P
  bytes : BytesAt dw.image p (programBytes P)
  ends : p + (programBytes P).length = t.data.last

theorem Holds.tail {p : ℕ} {i : LineInstr} {P : List LineInstr}
    (h : Holds dw t compilationDir p (i :: P)) :
    Holds dw t compilationDir (p + i.bytes.length) P where
  base := h.base
  range := h.range
  dir := h.dir
  within j hj := h.within j (List.mem_cons_of_mem _ hj)
  noIsa j hj := h.noIsa j (List.mem_cons_of_mem _ hj)
  bytes := by
    have := h.bytes
    simp only [programBytes, List.flatMap_cons, bytesAt_append] at this
    exact this.2
  ends := by
    have := h.ends
    simp only [programBytes, List.flatMap_cons, List.length_append] at this ⊢
    omega

theorem Holds.length_le {p : ℕ} {P : List LineInstr} (h : Holds dw t compilationDir p P) :
    P.length ≤ dw.image.size := by
  cases P with
  | nil => simp
  | cons i P =>
    have hne : programBytes (i :: P) ≠ [] := by
      simp [programBytes, i.bytes_ne_nil]
    have := h.bytes.end_le_size hne
    have := length_le_programBytes (i :: P)
    omega

theorem Holds.head {p : ℕ} {i : LineInstr} {P : List LineInstr} {m : LineMachine}
    {r : Bool × LineMachine} (h : Holds dw t compilationDir p (i :: P))
    (heff : t.effect dw compilationDir m i = some r) :
    t.executeInstruction dw m ⟨dw.image, p, t.data.last⟩ =
      .ok r ⟨dw.image, p + i.bytes.length, t.data.last⟩ := by
  have hbytes := h.bytes
  have hends := h.ends
  simp only [programBytes, List.flatMap_cons, bytesAt_append, List.length_append] at hbytes hends
  exact reads_executeInstruction h.base h.range h.dir (h.within i List.mem_cons_self) heff
    ⟨dw.image, p, t.data.last⟩ hbytes.1 (by change p + _ ≤ t.data.last; omega)

theorem Holds.head_raises {p : ℕ} {i : LineInstr} {P : List LineInstr} {m : LineMachine}
    (h : Holds dw t compilationDir p (i :: P))
    (heff : t.effect dw compilationDir m i = none) :
    ∃ c', t.executeInstruction dw m ⟨dw.image, p, t.data.last⟩ =
      .error (.raised "Unexpected standard opcode") c' := by
  have hbytes := h.bytes
  have hends := h.ends
  simp only [programBytes, List.flatMap_cons, bytesAt_append, List.length_append] at hbytes hends
  exact executeInstruction_raises h.base (h.noIsa i List.mem_cons_self) heff hbytes.1
    (by change p + _ ≤ t.data.last; omega)

/-- The traversal inside `operator ++`, before the row under way is emitted. -/
def LineTable.resume (dw : DwarfInfo) (t : LineTable) (k n : ℕ) (m : LineMachine) (p : ℕ) :
    Except Failure (List Entry) :=
  match t.executeUntilRow dw k m ⟨dw.image, p, t.data.last⟩ with
  | .ok m c => t.rowsFrom dw n ⟨m.withFileEntry, some c.pos⟩
  | .error e _ => .error e

def Yields (x : Except Failure (List Entry)) : Option (List Entry) → Prop
  | some es => x = .ok es
  | none => ∃ e, x = .error e

theorem rowsFrom_last {n : ℕ} {m : LineMachine} :
    t.rowsFrom dw (n + 2) ⟨m, some t.data.last⟩ = .ok [m.current] := by
  simp [LineTable.rowsFrom, LineTable.increment, bind, Except.bind, pure, Except.pure]

theorem rowsFrom_some {n p : ℕ} {m : LineMachine} (hp : p ≠ t.data.last) :
    t.rowsFrom dw (n + 1) ⟨m, some p⟩ =
      (do let rows ← t.resume dw (dw.image.size + 1) n m p; pure (m.current :: rows)) := by
  rw [LineTable.rowsFrom, LineTable.resume]
  simp only [LineTable.increment, if_neg hp]
  cases t.executeUntilRow dw (dw.image.size + 1) m ⟨dw.image, p, t.data.last⟩ <;> rfl

theorem resume_yields (P : List LineInstr) :
    ∀ {k n p : ℕ} {m : LineMachine}, Closed P → Holds dw t compilationDir p P → P.length ≤ k →
      P.length < n → Yields (t.resume dw k n m p) (t.run dw compilationDir m P) := by
  induction P with
  | nil => intro k n p m hc; exact absurd rfl hc.ne_nil
  | cons i P ih =>
    intro k n p m hc h hk hn
    simp only [List.length_cons] at hk hn
    obtain ⟨k, rfl⟩ : ∃ j, k = j + 1 := ⟨k - 1, by omega⟩
    obtain ⟨n, rfl⟩ : ∃ j, n = j + 1 := ⟨n - 1, by omega⟩
    cases heff : t.effect dw compilationDir m i with
    | none =>
      obtain ⟨c', hraise⟩ := h.head_raises heff
      simp only [LineTable.run, heff]
      refine ⟨.raised "Unexpected standard opcode", ?_⟩
      rw [LineTable.resume, LineTable.executeUntilRow, bind_error hraise]
    | some r =>
      obtain ⟨emitted, m'⟩ := r
      have hstep := h.head heff
      cases emitted with
      | false =>
        -- a row is still to come, so the program goes on
        have hP : Closed P := by
          rcases hc with ⟨-, hend⟩ | hP
          · cases i <;> simp [LineInstr.isEnd, LineTable.effect] at hend heff
          · exact hP
        have hrest := ih (m := m') hP h.tail (by omega) (n := n + 1) (by omega) (k := k)
        simp only [LineTable.run, heff]
        rw [LineTable.resume, LineTable.executeUntilRow, bind_ok hstep]
        exact hrest
      | true =>
        have hrow : t.resume dw (k + 1) (n + 1) m p =
            t.rowsFrom dw (n + 1) ⟨m'.withFileEntry, some (p + i.bytes.length)⟩ := by
          rw [LineTable.resume, LineTable.executeUntilRow, bind_ok hstep]
          rfl
        rw [hrow]
        simp only [LineTable.run, heff]
        by_cases hP : Closed P
        · have hlt : p + i.bytes.length ≠ t.data.last := by
            have := h.tail.ends
            have := length_le_programBytes P
            have := List.length_pos_iff.mpr hP.ne_nil
            omega
          have hsize := h.tail.length_le
          have hrest := ih (m := m'.withFileEntry) hP h.tail
            (k := dw.image.size + 1) (by omega) (n := n) (by omega)
          rw [rowsFrom_some hlt]
          cases hrun : t.run dw compilationDir m'.withFileEntry P with
          | none =>
            rw [hrun] at hrest
            obtain ⟨e, he⟩ := hrest
            exact ⟨e, by rw [he]; rfl⟩
          | some es =>
            rw [hrun] at hrest
            have hok : t.resume dw (dw.image.size + 1) n m'.withFileEntry (p + i.bytes.length) =
                .ok es := hrest
            rw [hok]
            rfl
        · have hnil : P = [] := by
            rcases hc with ⟨hnil, -⟩ | hP'
            · exact hnil
            · exact absurd hP' hP
          subst hnil
          have hlast : p + i.bytes.length = t.data.last := by
            simpa [programBytes] using h.ends
          obtain ⟨n, rfl⟩ : ∃ j, n = j + 1 := ⟨n - 1, by omega⟩
          rw [hlast, rowsFrom_last]
          rfl

theorem rows_yields {P : List LineInstr} (hc : Closed P)
    (h : Holds dw t compilationDir t.data.first P) :
    Yields (t.rows dw) (t.run dw compilationDir ⟨{}, t.initial, t.fileNames⟩ P) := by
  have hlt : t.data.first ≠ t.data.last := by
    have := h.ends
    have := length_le_programBytes P
    have := List.length_pos_iff.mpr hc.ne_nil
    omega
  have hsize := h.length_le
  have hresume : t.rows dw =
      t.resume dw (dw.image.size + 1) (dw.image.size + 2) ⟨{}, t.initial, t.fileNames⟩
        t.data.first := by
    rw [LineTable.rows, LineTable.begin, LineTable.resume]
    simp only [LineTable.increment, if_neg hlt]
    cases t.executeUntilRow dw (dw.image.size + 1) ⟨{}, t.initial, t.fileNames⟩
      ⟨dw.image, t.data.first, t.data.last⟩ <;> rfl
  rw [hresume]
  exact resume_yields P hc h (by omega) (by omega)

end Traversal

end KDebugger.Dwarf
