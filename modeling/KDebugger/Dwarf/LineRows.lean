import KDebugger.Dwarf.LineTraversal

namespace KDebugger.Dwarf

open ByteStream Leb128 Exec Cur

/-- An unsigned operand the signed reading gets wrong. -/
def Misread (u : Uleb) : Prop := u.bytes.length = 1 ∧ 64 ≤ u.value

instance : DecidablePred Misread := fun _ => inferInstanceAs (Decidable (_ ∧ _))

theorem slebRead_add (u : Uleb) :
    slebRead u.toLeb + BitVec.ofNat 64 (if Misread u then 128 else 0) = u.unsigned := by
  by_cases h1 : u.bytes.length = 1
  · obtain ⟨b, hb⟩ := List.length_eq_one_iff.mp h1
    have hshape := u.shaped
    rw [hb] at hshape
    have hlt : b.toNat < 128 := hshape
    have hval : u.value = b.toNat := by
      rw [Uleb.value, hb]
      simp only [ulebValue]
      omega
    have hsign : signBit u.bytes = decide (64 ≤ u.value) := by
      rw [signBit, hval, hb]
      simp only [lastByte, List.getLastD_cons, List.getLastD_nil]
      congr 2
      omega
    rw [slebRead, if_pos h1, Leb.unsigned_eq_signed_add, signWeight, h1, hsign]
    by_cases h64 : 64 ≤ u.value <;> simp [Misread, h1, h64]
  · rw [slebRead, if_neg h1, if_neg (fun h => h1 h.1)]
    simp

/-- Along the program no instruction is missing or misdirected, and at every row the
number of misread advances since the last row or set address is a multiple of `2 ^ 57`,
so that their errors of 128 cancel.  `k` is that number so far. -/
def Faithful : ℕ → List LineInstr → Prop
  | _, [] => True
  | k, i :: P =>
    match i with
    | .advanceLine _ | .setFile _ | .setColumn _ => False
    | .advancePc u => Faithful (k + if Misread u then 1 else 0) P
    | .setAddress _ _ _ => Faithful 0 P
    | .copy | .special _ _ | .endSequence _ _ => 2 ^ 57 ∣ k ∧ Faithful 0 P
    | _ => Faithful k P

def LineTable.params (t : LineTable) : LineParams where
  defaultIsStmt := t.defaultIsStmt
  lineBase := t.lineBase.toInt
  lineRange := t.lineRange.toNat

/-- The registers of the code after `k` misread advances: only the address is off. -/
structure Tracks (k : ℕ) (e : Entry) (r : LineRegisters) : Prop where
  row : r.toRow = { e.row with address := e.address.addr + BitVec.ofNat 64 (128 * k) }
  file : r.file = 1#64
  column : r.column = 0#64

/-- After a misdirected `DW_LNS_set_file` the registers disagree for good. -/
structure Diverged (e : Entry) (r : LineRegisters) : Prop where
  file : e.fileIndex = 1#64
  column : r.column = 0#64
  swapped : e.column = r.file

theorem Diverged.row_ne {e : Entry} {r : LineRegisters} (h : Diverged e r) {row row' : Row}
    (hf : row.file = e.fileIndex) (hc : row.column = e.column) (hf' : row'.file = r.file)
    (hc' : row'.column = r.column) : row ≠ row' := by
  rintro rfl
  have h0 : r.file = 0#64 := by rw [← h.swapped, ← hc, hc', h.column]
  have h1 : r.file = 1#64 := by rw [← hf', hf, h.file]
  rw [h0] at h1
  exact absurd h1 (by decide)

theorem address_eq_iff {a : BitVec 64} {k : ℕ} :
    a + BitVec.ofNat 64 (128 * k) = a ↔ 2 ^ 57 ∣ k := by
  rw [BitVec.add_right_eq_self, ← BitVec.toNat_inj, BitVec.toNat_ofNat]
  simp only [BitVec.toNat_ofNat, Nat.zero_mod]
  omega

section Comparison

variable {dw : DwarfInfo} {t : LineTable} {compilationDir : Path}

/-- The code's rows are those of the standard. -/
def Agrees (dw : DwarfInfo) (t : LineTable) (compilationDir : Path) (m : LineMachine)
    (r : LineRegisters) (P : List LineInstr) : Prop :=
  ∃ es, t.run dw compilationDir m P = some es ∧ es.map Entry.row = t.params.run r P

theorem agrees_raise {m : LineMachine} {r : LineRegisters} {i : LineInstr} {P : List LineInstr}
    (heff : t.effect dw compilationDir m i = none) :
    ¬ Agrees dw t compilationDir m r (i :: P) := by
  rintro ⟨es, hrun, -⟩
  simp [LineTable.run, heff] at hrun

theorem agrees_silent {m m' : LineMachine} {r r' : LineRegisters} {i : LineInstr}
    {P : List LineInstr} (heff : t.effect dw compilationDir m i = some (false, m'))
    (hstep : t.params.step r i = (r', none)) :
    Agrees dw t compilationDir m r (i :: P) ↔ Agrees dw t compilationDir m' r' P := by
  simp [Agrees, LineTable.run, LineParams.run, heff, hstep]

theorem agrees_row {m m' : LineMachine} {r r' : LineRegisters} {row : Row} {i : LineInstr}
    {P : List LineInstr} (heff : t.effect dw compilationDir m i = some (true, m'))
    (hstep : t.params.step r i = (r', some row)) :
    Agrees dw t compilationDir m r (i :: P) ↔
      m'.current.row = row ∧ Agrees dw t compilationDir m'.withFileEntry r' P := by
  have hcur : m'.withFileEntry.current.row = m'.current.row := rfl
  simp only [Agrees, LineTable.run, LineParams.run, heff, hstep, Option.map_eq_some_iff]
  constructor
  · rintro ⟨es, ⟨es', hrun, rfl⟩, hrows⟩
    obtain ⟨hhead, htail⟩ := List.cons.inj hrows
    exact ⟨hcur ▸ hhead, es', hrun, htail⟩
  · rintro ⟨hhead, es', hrun, htail⟩
    exact ⟨_, ⟨es', hrun, rfl⟩, by rw [List.map_cons, hcur, hhead, htail]⟩

theorem Diverged.not_agrees (P : List LineInstr) :
    ∀ {m : LineMachine} {r : LineRegisters}, Closed P → NoIsa P → Diverged m.registers r →
      ¬ Agrees dw t compilationDir m r P := by
  induction P with
  | nil => intro m r hc; exact absurd rfl hc.ne_nil
  | cons i P ih =>
    intro m r hc hisa hd
    have hP : i.isEnd = false → Closed P := by
      intro hend
      rcases hc with ⟨-, hend'⟩ | hP
      · simp [hend] at hend'
      · exact hP
    have hisaP : NoIsa P := fun j hj => hisa j (List.mem_cons_of_mem _ hj)
    cases i with
    | advanceLine s => exact agrees_raise rfl
    | setColumn u => exact agrees_raise rfl
    | setIsa u => exact absurd rfl (hisa _ List.mem_cons_self u)
    | copy | special _ _ | endSequence _ _ =>
      rw [agrees_row rfl rfl]
      refine fun h => hd.row_ne ?_ ?_ ?_ ?_ h.1 <;> rfl
    | setFile u =>
      rw [agrees_silent rfl rfl]
      exact ih (hP rfl) hisaP ⟨hd.file, hd.column, rfl⟩
    | advancePc _ | negateStmt | setBasicBlock | constAddPc | fixedAdvancePc _ | setPrologueEnd
    | setEpilogueBegin | setAddress _ _ _ | defineFile _ _ _ | setDiscriminator _ _ _ =>
      rw [agrees_silent rfl rfl]
      exact ih (hP rfl) hisaP ⟨hd.file, hd.column, hd.swapped⟩

theorem Tracks.row_eq_iff {k : ℕ} {e : Entry} {r : LineRegisters} (h : Tracks k e r) :
    e.row = r.toRow ↔ 2 ^ 57 ∣ k := by
  rw [h.row, ← address_eq_iff (a := e.address.addr)]
  constructor
  · intro heq
    exact (congrArg Row.address heq).symm
  · intro heq
    rw [heq]
    rfl

theorem Tracks.cancel {k : ℕ} {e : Entry} {r : LineRegisters} (h : Tracks k e r)
    (hk : 2 ^ 57 ∣ k) : Tracks 0 e r where
  row := by
    rw [h.row, address_eq_iff.mpr hk]
    simp
  file := h.file
  column := h.column

theorem Tracks.afterRow {k : ℕ} {e : Entry} {r : LineRegisters} (h : Tracks k e r) :
    Tracks k e.afterRow (LineParams.append r).1 where
  row := by
    have hrow := h.row
    obtain ⟨row, isa⟩ := r
    simp only at hrow
    subst hrow
    rfl
  file := h.file
  column := h.column

theorem tracks_initial : Tracks 0 t.initial t.params.initial where
  row := rfl
  file := rfl
  column := rfl

theorem Tracks.advance {k : ℕ} {e : Entry} {r : LineRegisters} (h : Tracks k e r) (u : Uleb) :
    Tracks (k + if Misread u then 1 else 0)
      { e with address := e.address.add (slebRead u.toLeb) }
      { r with address := r.address + u.unsigned } where
  row := by
    have hrow := h.row
    have hadd := slebRead_add u
    obtain ⟨row, isa⟩ := r
    simp only at hrow
    subst hrow
    have hcount : BitVec.ofNat 64 (128 * (k + if Misread u then 1 else 0)) =
        BitVec.ofNat 64 (128 * k) + BitVec.ofNat 64 (if Misread u then 128 else 0) := by
      rw [← BitVec.ofNat_add]
      congr 1
      split_ifs <;> omega
    have haddr : e.address.addr + BitVec.ofNat 64 (128 * k) + u.unsigned =
        e.address.addr + slebRead u.toLeb +
          BitVec.ofNat 64 (128 * (k + if Misread u then 1 else 0)) := by
      rw [hcount, ← hadd]
      ac_rfl
    simp only [Entry.row, FileAddr.add_addr, haddr]
  file := h.file
  column := h.column

theorem Tracks.special {k : ℕ} {e : Entry} {r : LineRegisters} (h : Tracks k e r)
    (hbase : t.opcodeBase = 13#8) (op : Byte) :
    Tracks k (t.special op e)
      { r with
        address := r.address + BitVec.ofNat 64 ((op.toNat - 13) / t.params.lineRange)
        line := r.line +
          BitVec.ofInt 64 (t.params.lineBase + ((op.toNat - 13) % t.params.lineRange : ℕ)) } where
  row := by
    have hrow := h.row
    obtain ⟨row, isa⟩ := r
    simp only at hrow
    subst hrow
    simp only [LineTable.special, hbase, LineTable.params, Entry.row, FileAddr.add_addr,
      Row.mk.injEq, and_true, true_and]
    refine ⟨?_, rfl⟩
    rw [BitVec.add_assoc, BitVec.add_assoc, BitVec.add_comm (BitVec.ofNat 64 (128 * k))]
    rfl
  file := h.file
  column := h.column

theorem Tracks.add {k : ℕ} {e : Entry} {r : LineRegisters} (h : Tracks k e r) (n : BitVec 64) :
    Tracks k { e with address := e.address.add n } { r with address := r.address + n } where
  row := by
    have hrow := h.row
    obtain ⟨row, isa⟩ := r
    simp only at hrow
    subst hrow
    have hcomm : e.address.addr + BitVec.ofNat 64 (128 * k) + n =
        e.address.addr + n + BitVec.ofNat 64 (128 * k) := by ac_rfl
    simp only [Entry.row, FileAddr.add_addr, hcomm]
  file := h.file
  column := h.column

theorem Tracks.endSequence {k : ℕ} {e : Entry} {r : LineRegisters} (h : Tracks k e r) :
    Tracks k { e with endSequence := true } { r with endSequence := true } where
  row := by
    have hrow := h.row
    obtain ⟨row, isa⟩ := r
    simp only at hrow
    subst hrow
    rfl
  file := h.file
  column := h.column

/-- While the registers track each other, agreement on the rest of the program is
faithfulness of the rest. -/
theorem agrees_iff (hbase : t.opcodeBase = 13#8) (P : List LineInstr) :
    ∀ {k : ℕ} {m : LineMachine} {r : LineRegisters}, Closed P ∨ P = [] → NoIsa P →
      Tracks k m.registers r → (Agrees dw t compilationDir m r P ↔ Faithful k P) := by
  -- by induction on the program; an address that has gone wrong stays wrong within its sequence
  induction P with
  | nil =>
    intro k m r _ _ _
    exact ⟨fun _ => trivial, fun _ => ⟨[], rfl, rfl⟩⟩
  | cons i P ih =>
    intro k m r hc hisa h
    have hP : Closed P ∨ P = [] := by
      rcases hc with hc | hc
      · rcases hc with ⟨hnil, -⟩ | hP
        · exact .inr hnil
        · exact .inl hP
      · exact absurd hc (by simp)
    have hrest : i.isEnd = false → Closed P := by
      intro hend
      rcases hc with (⟨-, hend'⟩ | hP) | hnil
      · simp [hend] at hend'
      · exact hP
      · simp at hnil
    have hisaP : NoIsa P := fun j hj => hisa j (List.mem_cons_of_mem _ hj)
    cases i with
    | setIsa u => exact absurd rfl (hisa _ List.mem_cons_self u)
    | advanceLine s => exact iff_of_false (agrees_raise rfl) id
    | setColumn u => exact iff_of_false (agrees_raise rfl) id
    | setFile u =>
      rw [agrees_silent rfl rfl]
      have hfile : m.registers.row.file = 1#64 := by
        have := h.file
        rwa [h.row] at this
      exact iff_of_false
        (Diverged.not_agrees P (hrest rfl) hisaP ⟨hfile, h.column, rfl⟩) id
    | copy =>
      refine (agrees_row rfl rfl).trans ((and_congr_left' h.row_eq_iff).trans ?_)
      exact and_congr_right fun hk => ih hP hisaP (h.cancel hk).afterRow
    | special op hop =>
      have hs := h.special hbase op
      refine (agrees_row rfl rfl).trans ((and_congr_left' hs.row_eq_iff).trans ?_)
      exact and_congr_right fun hk => ih hP hisaP (hs.cancel hk).afterRow
    | endSequence len hlen =>
      have hs := h.endSequence
      refine (agrees_row rfl rfl).trans ((and_congr_left' hs.row_eq_iff).trans ?_)
      exact and_congr_right fun _ => ih hP hisaP tracks_initial
    | advancePc u => exact (agrees_silent rfl rfl).trans (ih hP hisaP (h.advance u))
    | setAddress len hlen v =>
      obtain ⟨row, isa⟩ := r
      obtain rfl : row = _ := h.row
      have hs : Tracks 0 { m.registers with address := ⟨some dw.elf, v⟩ }
          (t.params.step ⟨_, isa⟩ (.setAddress len hlen v)).1 :=
        ⟨by simp [LineParams.step, Entry.row], h.file, h.column⟩
      exact (agrees_silent rfl rfl).trans (ih hP hisaP hs)
    | constAddPc =>
      have hs := h.add (BitVec.ofNat 64 ((255 - 13) / t.params.lineRange))
      refine (agrees_silent rfl rfl).trans (ih hP hisaP ?_)
      rw [hbase]
      exact hs
    | fixedAdvancePc v =>
      exact (agrees_silent rfl rfl).trans (ih hP hisaP (h.add (v.setWidth 64)))
    | negateStmt | setBasicBlock | setPrologueEnd | setEpilogueBegin | defineFile _ _ _
    | setDiscriminator _ _ _ =>
      obtain ⟨row, isa⟩ := r
      obtain rfl : row = _ := h.row
      refine (agrees_silent rfl rfl).trans (ih hP hisaP ?_)
      exact ⟨rfl, h.file, h.column⟩

end Comparison

end KDebugger.Dwarf
