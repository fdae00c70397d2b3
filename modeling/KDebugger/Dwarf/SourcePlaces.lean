import KDebugger.Dwarf.AttributeForms
import KDebugger.Dwarf.InlineStack

namespace KDebugger.Dwarf

open ByteStream Exec Iterators

def dwAtDeclFile : BitVec 64 := 0x3a
def dwAtDeclLine : BitVec 64 := 0x3b
def dwAtCallFile : BitVec 64 := 0x58
def dwAtCallLine : BitVec 64 := 0x59

/-- The line tables of the units, with the files that each has by now; a unit without one has
none. -/
abbrev LineTables := CompileUnit → Option LineTable

namespace Die

/-- `(*this)[name].as_int()`. -/
def attrInt (dw : DwarfInfo) (d : Die) (attrName : BitVec 64) : Except Failure (BitVec 64) := do
  let a ← d.attrOf attrName
  a.asInt dw

/-- `file`, by the index into the files of the unit; behind the last of them is nothing. -/
def file (dw : DwarfInfo) (lines : LineTables) (d : Die) : Except Failure (BitVec 64) :=
  -- the attribute is taken without a look whether it is there
  match d.abbrevEntry, d.cu with
  | some entry, some cu => do
    let idx ←
      if entry.tag = dwTagInlinedSubroutine then d.attrInt dw dwAtCallFile
      else d.attrInt dw dwAtDeclFile
    match lines cu with
    | none => .error .undefined
    | some t =>
      if (idx - 1#64).toNat < t.fileNames.length then pure (idx - 1#64) else .error .undefined
  | _, _ => .error .undefined

def line (dw : DwarfInfo) (d : Die) : Except Failure (BitVec 64) :=
  match d.abbrevEntry with
  | none => .error .undefined
  | some entry =>
    if entry.tag = dwTagInlinedSubroutine then d.attrInt dw dwAtCallLine
    else d.attrInt dw dwAtDeclLine

/-- An attribute of that name is there and encodes the constant. -/
def HasConstant (dw : DwarfInfo) (d : Die) (attrName v : BitVec 64) : Prop :=
  ∃ a f bs, d.attrOf attrName = .ok a ∧ a.form = Form.code f ∧ Encodes f (.constant v) bs ∧
    BytesAt dw.image a.location bs ∧ a.location + bs.length ≤ a.cu.data.last

/-- The inlined subroutine is called in the file of that number, which its unit lists from one
on, and on that line. -/
structure RecordsCallSite (dw : DwarfInfo) (lines : LineTables) (d : Die)
    (number line : BitVec 64) : Prop where
  inlined : ∃ entry, d.abbrevEntry = some entry ∧ entry.tag = dwTagInlinedSubroutine
  file : d.HasConstant dw dwAtCallFile number
  listed : ∃ cu t, d.cu = some cu ∧ lines cu = some t ∧
    0 < number.toNat ∧ number.toNat ≤ t.fileNames.length
  line : d.HasConstant dw dwAtCallLine line

end Die

namespace DwarfInfo

def compileUnitContainingAddress (dw : DwarfInfo) (address : FileAddr) :
    Except Failure (Option CompileUnit) :=
  dw.compileUnits.findM? fun cu => do
    let root ← dw.root cu
    root.containsAddress dw address

/-- `line_entry_at_address`; none for an iterator that equals a default one. -/
def lineEntryAtAddress (dw : DwarfInfo) (lines : LineTables) (address : FileAddr) :
    Except Failure (Option Entry) := do
  match ← dw.compileUnitContainingAddress address with
  -- `end()` is returned where no unit contains the address
  | none => pure none
  | some cu =>
    match lines cu with
    | none => .error .undefined
    | some t => do
      let it ← t.getEntryByAddress dw address
      pure (it.pos.map fun _ => it.machine.current)

end DwarfInfo

section Calls

variable {dw : DwarfInfo} {lines : LineTables} {d : Die}

theorem attrInt_of_hasConstant {attrName v : BitVec 64} (h : d.HasConstant dw attrName v) :
    d.attrInt dw attrName = .ok v := by
  obtain ⟨a, f, bs, hattr, hform, hencodes, hat, hstop⟩ := h
  have h8 : f ≠ .ref8 := by
    rintro rfl
    cases hencodes
  have hvalue : a.asInt dw = .ok v := accessed_of_encodes hencodes h8 hform hat hstop
  unfold Die.attrInt
  rw [hattr]
  exact hvalue

variable {number line : BitVec 64}

theorem Die.RecordsCallSite.file_eq (h : d.RecordsCallSite dw lines number line) :
    d.file dw lines = .ok (number - 1#64) := by
  obtain ⟨entry, hentry, htag⟩ := h.inlined
  obtain ⟨cu, t, hcu, ht, hpos, hle⟩ := h.listed
  have hindex : (number - 1#64).toNat < t.fileNames.length := by bv_omega
  unfold Die.file
  rw [hentry, hcu]
  dsimp only
  rw [if_pos htag, attrInt_of_hasConstant h.file]
  change (match lines cu with | none => _ | some t => _) = _
  rw [ht]
  exact if_pos hindex

theorem Die.RecordsCallSite.line_eq (h : d.RecordsCallSite dw lines number line) :
    d.line dw = .ok line := by
  obtain ⟨entry, hentry, htag⟩ := h.inlined
  unfold Die.line
  rw [hentry]
  dsimp only
  rw [if_pos htag, attrInt_of_hasConstant h.line]

end Calls

section Containing

variable {dw : DwarfInfo} {address : FileAddr}

theorem elf_eq_of_le {a b : FileAddr} {r : Bool} (h : a.le b = .ok r) : a.elf = b.elf := by
  unfold FileAddr.le at h
  split_ifs at h with helf
  exact helf

theorem lowPc_of_containsAddress {d : Die} (h : d.containsAddress dw address = .ok true) :
    ∃ low, d.lowPc dw = .ok low ∧ low.elf = some dw.elf := by
  unfold Die.containsAddress at h
  split_ifs at h with hcu helf
  · cases h
  obtain ⟨hasRanges, hranges, h₁⟩ := except_bind_eq_ok.mp h
  cases hasRanges with
  | true =>
    rw [if_pos rfl] at h₁
    obtain ⟨l, hlist, h₂⟩ := except_bind_eq_ok.mp h₁
    obtain ⟨it, hbegin, hany⟩ := except_bind_eq_ok.mp h₂
    have hlow : d.lowPc dw = .ok it.current.low := by
      simp only [Die.lowPc, DwarfInfo.lowPc, hranges, Die.firstRangeLow, hlist, hbegin, bind,
        Except.bind]
      rfl
    refine ⟨_, hlow, ?_⟩
    -- the first range is compared with the address, whatever comes of it
    rw [anyOf] at hany
    cases hvalue : it.value with
    | none =>
      rw [hvalue] at hany
      cases hany
    | some e =>
      rw [hvalue] at hany
      obtain ⟨p, -, rfl⟩ := Option.map_eq_some_iff.mp hvalue
      obtain ⟨inRange, hcontains, -⟩ := except_bind_eq_ok.mp hany
      obtain ⟨below, hle, -⟩ := except_bind_eq_ok.mp hcontains
      exact (elf_eq_of_le hle).trans (not_not.mp helf)
  | false =>
    rw [if_neg Bool.false_ne_true] at h₁
    obtain ⟨hasLowPc, -, h₂⟩ := except_bind_eq_ok.mp h₁
    cases hasLowPc with
    | false => cases h₂
    | true =>
      rw [if_pos rfl] at h₂
      obtain ⟨low, hlow, h₃⟩ := except_bind_eq_ok.mp h₂
      obtain ⟨below, hle, -⟩ := except_bind_eq_ok.mp h₃
      exact ⟨low, hlow, (elf_eq_of_le hle).trans (not_not.mp helf)⟩

theorem findM?_eq_some {α : Type} {p : α → Except Failure Bool} {x : α} : ∀ {xs : List α},
    xs.findM? p = .ok (some x) → p x = .ok true := by
  intro xs
  induction xs with
  | nil =>
    intro h
    cases h
  | cons y ys ih =>
    intro h
    obtain ⟨b, hb, hrest⟩ := except_bind_eq_ok.mp h
    cases b with
    | true =>
      cases hrest
      exact hb
    | false => exact ih hrest

theorem inlinedAt_of_inlinedBelow : ∀ {n : ℕ} {last : Die} {inlined : List Die},
    dw.inlinedBelow address n last = .ok inlined → ∀ d ∈ inlined, dw.inlinedAt address d = .ok true := by
  intro n
  induction n with
  | zero =>
    intro last inlined h
    cases h
  | succ n ih =>
    intro last inlined h
    obtain ⟨children, -, h₁⟩ := except_bind_eq_ok.mp h
    obtain ⟨found, hfound, h₂⟩ := except_bind_eq_ok.mp h₁
    cases found with
    | none =>
      cases h₂
      exact fun d hd => absurd hd List.not_mem_nil
    | some child =>
      obtain ⟨rest, hrest, h₃⟩ := except_bind_eq_ok.mp h₂
      cases h₃
      exact List.forall_mem_cons.mpr ⟨findM?_eq_some hfound, ih hrest⟩

theorem inlinedAt_of_inlineStack {order : FunctionIndex → FunctionIndex} {depth : ℕ}
    {m : FunctionIndex} {f : Die} {inlined : List Die}
    (h : outcome (dw.inlineStackAtAddress order depth address) m = .ok (f :: inlined)) :
    ∀ d ∈ inlined, dw.inlinedAt address d = .ok true := by
  obtain ⟨m', hrun⟩ := outcome_eq_ok_iff.mp h
  obtain ⟨found, m₁, -, h₁⟩ := bind_eq_ok.mp hrun
  cases found with
  | none => cases h₁
  | some func =>
    obtain ⟨below, m₂, hbelow, h₂⟩ := bind_eq_ok.mp h₁
    cases h₂
    exact inlinedAt_of_inlinedBelow (ofExcept_eq_ok.mp hbelow).1

theorem lowPc_of_inlinedAt {d : Die} (h : dw.inlinedAt address d = .ok true) :
    ∃ low, d.lowPc dw = .ok low ∧ low.elf = some dw.elf := by
  unfold DwarfInfo.inlinedAt at h
  cases hentry : d.abbrevEntry with
  | none =>
    rw [hentry] at h
    cases h
  | some entry =>
    rw [hentry] at h
    dsimp only at h
    split_ifs at h
    · exact lowPc_of_containsAddress h
    · cases h

end Containing

section Rows

variable {dw : DwarfInfo} {t : LineTable} {address : FileAddr}

theorem elf_of_entryFrom : ∀ {n : ℕ} {prev it found : LineIterator},
    t.entryFrom dw address n prev it = .ok found → found.pos ≠ none →
      found.machine.current.address.elf = address.elf := by
  intro n
  induction n with
  | zero =>
    intro prev it found h
    cases h
  | succ n ih =>
    intro prev it found h hpos
    rw [LineTable.entryFrom] at h
    split_ifs at h with hend
    · cases h
      exact absurd hend hpos
    · obtain ⟨below, hle, h₁⟩ := except_bind_eq_ok.mp h
      obtain ⟨above, h₂⟩ : ∃ above, (if below && above && !prev.machine.current.endSequence then
          pure prev
        else do
          let next ← t.increment dw it
          t.entryFrom dw address n it next) = .ok found := by
        cases below with
        | true =>
          obtain ⟨above, -, h₂⟩ := except_bind_eq_ok.mp h₁
          exact ⟨above, h₂⟩
        | false => exact ⟨false, h₁⟩
      split_ifs at h₂
      · cases h₂
        exact elf_eq_of_le hle
      · obtain ⟨next, -, hrest⟩ := except_bind_eq_ok.mp h₂
        exact ih hrest hpos

theorem elf_of_lineEntry {lines : LineTables} {entry : Entry}
    (h : dw.lineEntryAtAddress lines address = .ok (some entry)) :
    entry.address.elf = address.elf := by
  obtain ⟨found, -, h₁⟩ := except_bind_eq_ok.mp h
  cases found with
  | none => cases h₁
  | some cu =>
    dsimp only at h₁
    cases hlines : lines cu with
    | none =>
      rw [hlines] at h₁
      cases h₁
    | some t =>
      rw [hlines] at h₁
      obtain ⟨it, hit, h₂⟩ := except_bind_eq_ok.mp h₁
      obtain ⟨p, hpos, rfl⟩ := Option.map_eq_some_iff.mp (Except.ok.inj h₂)
      obtain ⟨prev, -, h₃⟩ := except_bind_eq_ok.mp hit
      split_ifs at h₃ with hend
      · cases h₃
        rw [hend] at hpos
        cases hpos
      · obtain ⟨next, -, hrest⟩ := except_bind_eq_ok.mp h₃
        refine elf_of_entryFrom hrest ?_
        rw [hpos]
        exact Option.some_ne_none p

end Rows
end KDebugger.Dwarf
