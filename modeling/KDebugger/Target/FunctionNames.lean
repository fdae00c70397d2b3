import KDebugger.Dwarf.InlineStack
import KDebugger.Dwarf.PartialIndex
import KDebugger.ElfLookup
import KDebugger.Paths
import KDebugger.SectionTable
import KDebugger.SymbolMap

namespace KDebugger

open ByteStream Dwarf Dwarf.Cur Exec

def sttFunc : BitVec 8 := 2#8

def Symbol.type (s : Symbol) : BitVec 8 := s.info &&& 0xf#8

def stringSection (headers : List SectionHeader) (m : SectionMap) : Option SectionHeader :=
  match getSection headers m (text ".strtab") with
  | some x => some x
  | none => getSection headers m (text ".dynstr")

def getString (img : Image) (headers : List SectionHeader) (m : SectionMap) (index : BitVec 32) :
    Except Failure (List Byte) :=
  match stringSection headers m with
  | none => .ok []
  | some table =>
    match cString img (img.size + 1) (table.offset.toNat + index.toNat) with
    | none => .error .undefined
    | some s => .ok s

/-- `elf`, with all that a function is looked up in. -/
structure ObjectFile where
  path : Path
  loadBias : VirtAddr
  /-- `m_Data` -/
  image : Image
  sectionHeaders : List SectionHeader
  sectionMap : SectionMap
  /-- `m_SymbolTable` -/
  symbols : List Symbol
  dwarf : DwarfInfo

namespace ObjectFile

def loaded (obj : ObjectFile) : LoadedElf where
  loadBias := obj.loadBias
  sectionHeaders := obj.sectionHeaders.map fun x => ⟨x.addr, x.size, x.flags⟩

/-- `path().filename().string()`, of at most one element. -/
def filename (obj : ObjectFile) : List Byte := obj.path.filename.flatten

def string (obj : ObjectFile) (index : BitVec 32) : Except Failure (List Byte) :=
  getString obj.image obj.sectionHeaders obj.sectionMap index

/-- `get_symbol_containing_address`, of the file at `id`. -/
def symbolAt (obj : ObjectFile) (id : ElfId) (a : FileAddr) : Except Failure (Option Symbol) :=
  symbolContaining id (symbolAddrMap obj.symbols) a

def symbolName (obj : ObjectFile) (id : ElfId) (a : FileAddr) : Except Failure (List Byte) := do
  match ← obj.symbolAt id a with
  | some elfFunc => if elfFunc.type = sttFunc then obj.string elfFunc.name else pure []
  | none => pure []

end ObjectFile

abbrev FunctionIndexes := ElfId → FunctionIndex

def onIndex {α : Type} (id : ElfId) (p : EStateM Failure FunctionIndex α) :
    EStateM Failure FunctionIndexes α := fun m =>
  match p (m id) with
  | .ok a m' => .ok a (Function.update m id m')
  | .error e m' => .error e (Function.update m id m')

def backquote : Byte := 0x60#8

def functionNameAtAddress (files : List ObjectFile) (order : FunctionIndex → FunctionIndex)
    (depth : ℕ) (address : VirtAddr) : EStateM Failure FunctionIndexes (List Byte) := do
  let fileAddress := Elves.toFileAddr (files.map ObjectFile.loaded) address
  -- a member of the file is called whether there is a file or not
  match fileAddress.elf.bind fun id => (files[id]?).map fun obj => (id, obj) with
  | none => throw .undefined
  | some (id, obj) => do
    let func ← onIndex id (obj.dwarf.functionContainingAddress order depth fileAddress)
    let name ← ofExcept <|
      match func with
      | none => .ok none
      | some d => obj.dwarf.name depth d
    let funcName ← ofExcept <|
      match name with
      | some s => .ok s
      | none => obj.symbolName id fileAddress
    if funcName.isEmpty then return obj.filename ++ backquote :: funcName
    return []

/-- The index after any calls that need it, whether they raised or not. -/
inductive Indexed (dw : DwarfInfo) : FunctionIndex → Prop where
  | start : Indexed dw []
  | call {n : ℕ} {m : FunctionIndex} (h : Indexed dw m) : Indexed dw (after (dw.index n) m)

structure FunctionOver (dw : DwarfInfo) (a : FileAddr) (d : Die) : Prop where
  there : InUnits dw d
  subprogram : ∃ entry, d.abbrevEntry = some entry ∧ entry.tag = dwTagSubprogram
  contains : d.containsAddress dw a = .ok true

namespace ObjectFile

def FunctionNamed (obj : ObjectFile) (a : FileAddr) (s : List Byte) : Prop :=
  ∃ d n, FunctionOver obj.dwarf a d ∧ obj.dwarf.name n d = .ok (some s)

def SymbolNamed (obj : ObjectFile) (a : FileAddr) (s : List Byte) : Prop :=
  ∃ x ∈ obj.symbols, x.mapped ∧ x.type = sttFunc ∧ x.Contains a.addr ∧ obj.string x.name = .ok s

/-- The name for an address in the file: of a DWARF function if one there has a name, and else
of a function symbol. -/
def Named (obj : ObjectFile) (a : FileAddr) (s : List Byte) : Prop :=
  obj.FunctionNamed a s ∨ (∀ t, ¬ obj.FunctionNamed a t) ∧ obj.SymbolNamed a s

end ObjectFile

def FileAt (files : List ObjectFile) (v : VirtAddr) (id : ElfId) (obj : ObjectFile) : Prop :=
  Elves.elfContaining (files.map ObjectFile.loaded) v = some id ∧ files[id]? = some obj

def ObjectFile.addrOf (obj : ObjectFile) (id : ElfId) (v : VirtAddr) : FileAddr :=
  ⟨some id, v - obj.loadBias⟩

/-- What is to be returned for an address. -/
inductive Answer (files : List ObjectFile) (v : VirtAddr) : List Byte → Prop where
  | named {id : ElfId} {obj : ObjectFile} {s : List Byte} (hobj : FileAt files v id obj)
      (h : obj.Named (obj.addrOf id v) s) : Answer files v (obj.filename ++ backquote :: s)
  | nameless {id : ElfId} {obj : ObjectFile} (hobj : FileAt files v id obj)
      (h : ∀ s, ¬ obj.Named (obj.addrOf id v) s) : Answer files v []
  | outside (h : Elves.elfContaining (files.map ObjectFile.loaded) v = none) : Answer files v []

/-- The call returns, and what it is to return. -/
def AnswersRight (files : List ObjectFile) (order : FunctionIndex → FunctionIndex) (n : ℕ)
    (v : VirtAddr) (m : FunctionIndexes) : Prop :=
  ∃ r, outcome (functionNameAtAddress files order n v) m = .ok r ∧ Answer files v r

namespace ObjectFile

/-- The function that is found has the name, or none; or no function is found. -/
def FindsFunction (obj : ObjectFile) (order : FunctionIndex → FunctionIndex) (n : ℕ) (a : FileAddr)
    (m : FunctionIndex) (r : Option (List Byte)) : Prop :=
  ∃ func, outcome (obj.dwarf.functionContainingAddress order n a) m = .ok func ∧
    match func with
    | none => r = none
    | some d => obj.dwarf.name n d = .ok r

def FindsSymbol (obj : ObjectFile) (id : ElfId) (a : FileAddr) (x : Symbol) (s : List Byte) : Prop :=
  obj.symbolAt id a = .ok (some x) ∧ x.type = sttFunc ∧ obj.string x.name = .ok s

/-- The name the lookups come to, which is empty where they find nothing. -/
inductive Finds (obj : ObjectFile) (order : FunctionIndex → FunctionIndex) (n : ℕ) (id : ElfId)
    (a : FileAddr) (m : FunctionIndex) : List Byte → Prop where
  | function {s : List Byte} (h : obj.FindsFunction order n a m (some s)) :
      Finds obj order n id a m s
  | symbol {x : Symbol} {s : List Byte} (h : obj.FindsFunction order n a m none)
      (hx : obj.FindsSymbol id a x s) : Finds obj order n id a m s
  | nothing {r : Option Symbol} (h : obj.FindsFunction order n a m none)
      (hr : obj.symbolAt id a = .ok r) (hno : ∀ x, r = some x → x.type ≠ sttFunc) :
      Finds obj order n id a m []

end ObjectFile

section Lookups

variable {dw : DwarfInfo} {order : FunctionIndex → FunctionIndex} {n : ℕ} {a : FileAddr}
  {m : FunctionIndex}

theorem Indexed.entries (h : Indexed dw m) : ∀ x ∈ m, ∃ d, InUnits dw d ∧ d.key = some x.2 := by
  induction h with
  | start => exact fun x hx => absurd hx List.not_mem_nil
  | @call n m _ ih =>
    by_cases hm : m = []
    · have hafter : after (dw.index n) [] = dw.emplaced (dw.trace n).functions := by
        unfold after
        rw [index_trace]
        cases dw.failure (dw.trace n) <;> rfl
      rw [hm, hafter]
      intro x hx
      obtain ⟨y, hy, hentry⟩ := mem_emplaced hx
      exact ⟨y.2, (function_of_trace hy).1, (entryOf_ok hentry).1⟩
    · have hafter : after (dw.index n) m = m := by
        unfold after
        rw [index_again n hm]
      rw [hafter]
      exact ih

theorem functionAt_sound {e : IndexEntry} {d : Die} (h : dw.functionAt a e = .ok (some d)) :
    dw.parseDieAt e.cu e.pos = .ok d ∧ d.containsAddress dw a = .ok true ∧
      ∃ entry, d.abbrevEntry = some entry ∧ entry.tag = dwTagSubprogram := by
  unfold DwarfInfo.functionAt at h
  obtain ⟨d', hparse, h⟩ := except_bind_eq_ok.mp h
  obtain ⟨contains, hcontains, h⟩ := except_bind_eq_ok.mp h
  cases contains with
  | false => cases h
  | true =>
    cases hentry : d'.abbrevEntry with
    | none =>
      simp only [hentry] at h
      cases h
    | some entry =>
      simp only [hentry] at h
      by_cases htag : entry.tag = dwTagSubprogram
      · obtain rfl : d' = d := by simpa [htag, pure, Except.pure] using h
        exact ⟨hparse, hcontains, entry, hentry, htag⟩
      · simp [htag, pure, Except.pure] at h

theorem exists_of_findSomeM? {α β : Type} {f : α → Except Failure (Option β)} {b : β} :
    ∀ {l : List α}, l.findSomeM? f = .ok (some b) → ∃ x ∈ l, f x = .ok (some b) := by
  intro l
  induction l with
  | nil => exact fun h => nomatch h
  | cons x l ih =>
    intro h
    rw [List.findSomeM?_cons] at h
    obtain ⟨r, hr, h⟩ := except_bind_eq_ok.mp h
    cases r with
    | none =>
      obtain ⟨y, hy, hfound⟩ := ih h
      exact ⟨y, List.mem_cons_of_mem x hy, hfound⟩
    | some c =>
      cases h
      exact ⟨x, List.mem_cons_self, hr⟩

theorem functionOver_of_found (hm : Indexed dw m) (horder : ∀ m, (order m).Perm m) {d : Die}
    (h : outcome (dw.functionContainingAddress order n a) m = .ok (some d)) :
    FunctionOver dw a d := by
  obtain ⟨m', hfound⟩ := outcome_eq_ok_iff.mp h
  unfold DwarfInfo.functionContainingAddress at hfound
  obtain ⟨_, m₁, hindex, hfound⟩ := bind_eq_ok.mp hfound
  have hm₁ : Indexed dw m₁ := by
    have hcall := hm.call (n := n)
    unfold after at hcall
    rwa [hindex] at hcall
  rw [bind_ok (get_eq m₁)] at hfound
  obtain ⟨x, hx, hat⟩ := exists_of_findSomeM? (ofExcept_eq_ok.mp hfound).1
  obtain ⟨hparse, hcontains, hsubprogram⟩ := functionAt_sound hat
  obtain ⟨d', hin, hkey⟩ := hm₁.entries x ((horder m₁).mem_iff.mp hx)
  obtain rfl := Except.ok.inj (hparse.symm.trans (parse_of_key hin.parsed hkey))
  exact ⟨hin, hsubprogram, hcontains⟩

end Lookups

def ObjectFile.answer (obj : ObjectFile) (s : List Byte) : List Byte :=
  if s.isEmpty then obj.filename ++ backquote :: s else []

section Calls

variable {files : List ObjectFile} {order : FunctionIndex → FunctionIndex} {n : ℕ} {v : VirtAddr}
  {m : FunctionIndexes} {id : ElfId} {obj : ObjectFile}

theorem outcome_onIndex_bind {α β : Type} {p : EStateM Failure FunctionIndex α}
    {f : α → EStateM Failure FunctionIndexes β} {g : α → Except Failure β}
    (hf : ∀ x m', outcome (f x) m' = g x) :
    outcome (onIndex id p >>= f) m = outcome p (m id) >>= g := by
  cases hp : p (m id) with
  | error e m' =>
    have hon : onIndex id p m = .error e (Function.update m id m') := by
      unfold onIndex
      rw [hp]
    rw [outcome_bind_error hon]
    unfold outcome
    rw [hp]
    rfl
  | ok x m' =>
    have hon : onIndex id p m = .ok x (Function.update m id m') := by
      unfold onIndex
      rw [hp]
    rw [outcome_bind_ok hon, hf]
    unfold outcome
    rw [hp]
    rfl

theorem fileAt_addr (h : FileAt files v id obj) :
    Elves.toFileAddr (files.map ObjectFile.loaded) v = obj.addrOf id v := by
  have hloaded : (files.map ObjectFile.loaded)[id]? = some obj.loaded := by
    rw [List.getElem?_map, h.2]
    rfl
  exact Elves.toFileAddr_of_some h.1 hloaded

theorem outcome_outside (h : Elves.elfContaining (files.map ObjectFile.loaded) v = none) :
    outcome (functionNameAtAddress files order n v) m = .error .undefined := by
  unfold functionNameAtAddress
  rw [Elves.toFileAddr_of_none h]
  rfl

theorem outcome_inside (h : FileAt files v id obj) :
    outcome (functionNameAtAddress files order n v) m =
      outcome (obj.dwarf.functionContainingAddress order n (obj.addrOf id v)) (m id) >>= fun func =>
        (match func with
          | none => .ok none
          | some d => obj.dwarf.name n d) >>= fun name =>
        (match name with
          | some s => .ok s
          | none => obj.symbolName id (obj.addrOf id v)) >>= fun s => .ok (obj.answer s) := by
  have hfile : ((obj.addrOf id v).elf.bind fun i => (files[i]?).map fun o => (i, o)) =
      some (id, obj) := by
    simp [ObjectFile.addrOf, h.2]
  unfold functionNameAtAddress
  rw [fileAt_addr h]
  dsimp only
  rw [hfile]
  dsimp only
  apply outcome_onIndex_bind
  intro func m'
  rw [outcome_ofExcept_bind]
  congr 1
  funext name
  rw [outcome_ofExcept_bind]
  congr 1
  funext s
  unfold ObjectFile.answer
  split_ifs <;> rfl

theorem symbolName_ok {a : FileAddr} {s : List Byte} : obj.symbolName id a = .ok s ↔
    (∃ x, obj.FindsSymbol id a x s) ∨
      s = [] ∧ ∃ r, obj.symbolAt id a = .ok r ∧ ∀ x, r = some x → x.type ≠ sttFunc := by
  unfold ObjectFile.symbolName ObjectFile.FindsSymbol
  cases hfound : obj.symbolAt id a with
  | error e => simp [bind, Except.bind]
  | ok r =>
    cases r with
    | none => simp [bind, Except.bind, pure, Except.pure, eq_comm]
    | some x =>
      by_cases htype : x.type = sttFunc
      · simp [bind, Except.bind, htype]
      · simp only [bind, Except.bind, pure, Except.pure, htype, if_false, Except.ok.injEq]
        constructor
        · rintro rfl
          exact .inr ⟨rfl, some x, rfl, fun y hy => Option.some.inj hy ▸ htype⟩
        · rintro (⟨y, hy, hfunc, -⟩ | ⟨rfl, -⟩)
          · exact absurd (Option.some.inj hy ▸ hfunc) htype
          · rfl

theorem returns_iff (h : FileAt files v id obj) {r : List Byte} :
    outcome (functionNameAtAddress files order n v) m = .ok r ↔
      ∃ s, obj.Finds order n id (obj.addrOf id v) (m id) s ∧ r = obj.answer s := by
  rw [outcome_inside h]
  constructor
  · intro hr
    obtain ⟨func, hfunc, hr⟩ := except_bind_eq_ok.mp hr
    obtain ⟨name, hname, hr⟩ := except_bind_eq_ok.mp hr
    obtain ⟨s, hs, hr⟩ := except_bind_eq_ok.mp hr
    have hfinds : obj.FindsFunction order n (obj.addrOf id v) (m id) name := by
      refine ⟨func, hfunc, ?_⟩
      cases func with
      | none => exact (Except.ok.inj hname).symm
      | some d => exact hname
    refine ⟨s, ?_, (Except.ok.inj hr).symm⟩
    cases name with
    | some t =>
      obtain rfl := Except.ok.inj hs
      exact .function hfinds
    | none =>
      obtain ⟨x, hx⟩ | ⟨rfl, r, hfound, hno⟩ := symbolName_ok.mp hs
      · exact .symbol hfinds hx
      · exact .nothing hfinds hfound hno
  · rintro ⟨s, hs, rfl⟩
    obtain ⟨name, ⟨func, hfunc, hname⟩, hrest⟩ :
        ∃ name, obj.FindsFunction order n (obj.addrOf id v) (m id) name ∧
          ((match name with
            | some s => .ok s
            | none => obj.symbolName id (obj.addrOf id v)) : Except Failure (List Byte)) = .ok s := by
      cases hs with
      | function h => exact ⟨some s, h, rfl⟩
      | symbol h hx => exact ⟨none, h, symbolName_ok.mpr (.inl ⟨_, hx⟩)⟩
      | nothing h hr hno => exact ⟨none, h, symbolName_ok.mpr (.inr ⟨rfl, _, hr, hno⟩)⟩
    refine except_bind_eq_ok.mpr ⟨func, hfunc, ?_⟩
    refine except_bind_eq_ok.mpr ⟨name, ?_, ?_⟩
    · cases func with
      | none => exact congrArg Except.ok hname.symm
      | some d => exact hname
    · exact except_bind_eq_ok.mpr ⟨s, hrest, rfl⟩

theorem exists_fileAt (h : Elves.elfContaining (files.map ObjectFile.loaded) v = some id) :
    ∃ obj, FileAt files v id obj := by
  obtain ⟨⟨e, he, -⟩, -⟩ := Elves.elfContaining_eq_some.mp h
  rw [List.getElem?_map] at he
  cases hobj : files[id]? with
  | none =>
    rw [hobj] at he
    cases he
  | some obj => exact ⟨obj, h, hobj⟩

theorem FileAt.unique {id' : ElfId} {obj' : ObjectFile} (h : FileAt files v id obj)
    (h' : FileAt files v id' obj') : id' = id ∧ obj' = obj := by
  obtain rfl := Option.some.inj (h'.1.symm.trans h.1)
  exact ⟨rfl, Option.some.inj (h'.2.symm.trans h.2)⟩

theorem answer_iff (h : FileAt files v id obj) {r : List Byte} : Answer files v r ↔
    (∃ s, obj.Named (obj.addrOf id v) s ∧ r = obj.filename ++ backquote :: s) ∨
      (∀ s, ¬ obj.Named (obj.addrOf id v) s) ∧ r = [] := by
  constructor
  · intro hr
    cases hr with
    | @named id' obj' s hobj hnamed =>
      obtain ⟨rfl, rfl⟩ := h.unique hobj
      exact .inl ⟨s, hnamed, rfl⟩
    | nameless hobj hno =>
      obtain ⟨rfl, rfl⟩ := h.unique hobj
      exact .inr ⟨hno, rfl⟩
    | outside hnone => cases hnone.symm.trans h.1
  · rintro (⟨s, hnamed, rfl⟩ | ⟨hno, rfl⟩)
    · exact .named h hnamed
    · exact .nameless h hno

theorem functionNamed_of_finds {a : FileAddr} {l : FunctionIndex} {s : List Byte}
    (hl : Indexed obj.dwarf l) (horder : ∀ m, (order m).Perm m)
    (h : obj.FindsFunction order n a l (some s)) : obj.FunctionNamed a s := by
  obtain ⟨func, hfunc, hname⟩ := h
  cases func with
  | none => cases hname
  | some d => exact ⟨d, n, functionOver_of_found hl horder hfunc, hname⟩

/-- No DWARF function with a name is over the address, and the symbol that is found is a function
of size 0 with a name. -/
def ObjectFile.OnlySizeless (obj : ObjectFile) (order : FunctionIndex → FunctionIndex) (n : ℕ)
    (id : ElfId) (a : FileAddr) (l : FunctionIndex) : Prop :=
  (∀ s, ¬ obj.Named a s) ∧ obj.FindsFunction order n a l none ∧
    ∃ x s, x.size = 0#64 ∧ s ≠ [] ∧ obj.FindsSymbol id a x s

theorem symbolNamed_of_finds {a : FileAddr} {x : Symbol} {s : List Byte}
    (h : obj.FindsSymbol id a x s) (hsize : x.size ≠ 0#64) : obj.SymbolNamed a s := by
  obtain ⟨hfound, htype, hstring⟩ := h
  obtain ⟨hx, hmapped, hvalue⟩ := symbolContaining_sound hfound
  refine ⟨x, hx, hmapped, htype, ?_, hstring⟩
  rw [← hvalue]
  exact Symbol.contains_value hsize

/-- The answer is right exactly where the name to be returned is empty and an empty one is found,
and where there is none and the one that is found is of a symbol without a size. -/
theorem answersRight_iff (files : List ObjectFile) (order : FunctionIndex → FunctionIndex) (n : ℕ)
    (v : VirtAddr) (m : FunctionIndexes) (horder : ∀ l, (order l).Perm l)
    (hm : ∀ id obj, files[id]? = some obj → Indexed obj.dwarf (m id)) :
    AnswersRight files order n v m ↔ ∃ id obj, FileAt files v id obj ∧
      (obj.Named (obj.addrOf id v) [] ∧ obj.Finds order n id (obj.addrOf id v) (m id) [] ∨
        obj.OnlySizeless order n id (obj.addrOf id v) (m id)) := by
  constructor
  · rintro ⟨r, hr, hanswer⟩
    cases hfile : Elves.elfContaining (files.map ObjectFile.loaded) v with
    | none =>
      rw [outcome_outside hfile] at hr
      cases hr
    | some id =>
      obtain ⟨obj, hobj⟩ := exists_fileAt hfile
      refine ⟨id, obj, hobj, ?_⟩
      obtain ⟨s, hs, rfl⟩ := (returns_iff hobj).mp hr
      have hindexed := hm id obj hobj.2
      by_cases hempty : s = []
      · obtain rfl := hempty
        left
        obtain ⟨t, hnamed, heq⟩ | ⟨-, heq⟩ := (answer_iff hobj).mp hanswer
        · obtain rfl : [] = t := by simpa [ObjectFile.answer] using heq
          exact ⟨hnamed, hs⟩
        · simp [ObjectFile.answer] at heq
      · right
        have hnothing : obj.answer s = [] := by simp [ObjectFile.answer, hempty]
        have hno : ∀ t, ¬ obj.Named (obj.addrOf id v) t := by
          obtain ⟨t, -, heq⟩ | ⟨hno, -⟩ := (answer_iff hobj).mp hanswer
          · simp [hnothing] at heq
          · exact hno
        cases hs with
        | function h => exact absurd (.inl (functionNamed_of_finds hindexed horder h)) (hno s)
        | nothing => exact absurd rfl hempty
        | @symbol x s h hx =>
          refine ⟨hno, h, x, s, ?_, hempty, hx⟩
          by_contra hsize
          have hsymbol := symbolNamed_of_finds hx hsize
          exact hno s (.inr ⟨fun t ht => hno t (.inl ht), hsymbol⟩)
  · rintro ⟨id, obj, hobj, ⟨hnamed, hfinds⟩ | ⟨hno, hfunction, x, s, -, hs, hx⟩⟩
    · exact ⟨_, (returns_iff hobj).mpr ⟨[], hfinds, rfl⟩, .named hobj hnamed⟩
    · refine ⟨[], (returns_iff hobj).mpr ⟨s, .symbol hfunction hx, ?_⟩, .nameless hobj hno⟩
      simp [ObjectFile.answer, hs]

end Calls

/-- `/a.out` with the function `main`, of a size, and without DWARF. -/
def mainFile (size : BitVec 64) : ObjectFile where
  path := [Path.root, text "a.out"]
  loadBias := 0x400000#64
  image := Image.ofList (0#8 :: text "main" ++ [0#8])
  sectionHeaders :=
    [⟨0#32, 1#32, 6#64, 0x1000#64, 0#64, 16#64, 0#32, 0#32, 16#64, 0#64⟩,
      ⟨0#32, 3#32, 0#64, 0#64, 0#64, 6#64, 0#32, 0#32, 1#64, 0#64⟩]
  sectionMap name := if name = text ".strtab" then some 1 else none
  symbols := [⟨1#32, 2#8, 0x1000#64, size⟩]
  dwarf :=
    { elf := 0
      image := Image.ofList []
      getSectionContents := fun _ => none
      compileUnits := [] }

theorem fileAt_main (size : BitVec 64) : FileAt [mainFile size] 0x401000#64 0 (mainFile size) := by
  refine ⟨?_, rfl⟩
  change Elves.elfContaining
    [⟨0x400000#64, [⟨0x1000#64, 16#64, 6#64⟩, ⟨0#64, 6#64, 0#64⟩], []⟩] 0x401000#64 = some 0
  decide

theorem not_functionNamed_main (size : BitVec 64) (a : FileAddr) (s : List Byte) :
    ¬ (mainFile size).FunctionNamed a s := by
  rintro ⟨d, n, hover, -⟩
  have hnone : ∀ d, ¬ InUnits (mainFile size).dwarf d := by
    intro d h
    induction h with
    | root hcu _ => exact List.not_mem_nil hcu
    | child _ _ ih => exact ih
  exact hnone d hover.there

/-- The symbol of a function without a size is found, and its name is left out. -/
theorem answersRight_iff_sizeless :
    AnswersRight [mainFile 0#64] id 1 0x401000#64 fun _ => [] := by
  refine (answersRight_iff _ id 1 _ _ (fun l => .refl l) fun _ _ _ => .start).mpr
    ⟨0, _, fileAt_main 0#64, .inr ⟨?_, ⟨none, rfl, rfl⟩, ⟨1#32, 2#8, 0x1000#64, 0#64⟩, text "main",
      rfl, by decide, ?_⟩⟩
  · rintro s (hfunction | ⟨-, x, hx, -, -, hcontains, -⟩)
    · exact not_functionNamed_main _ _ s hfunction
    · obtain rfl := List.mem_singleton.mp hx
      exact absurd hcontains (by decide)
  · exact ⟨by decide, by decide, by decide⟩

/-- Nothing is returned for the first address of `main`. -/
theorem answersRight_not_for_all : ¬ ∀ (files : List ObjectFile)
    (order : FunctionIndex → FunctionIndex) (n : ℕ) (v : VirtAddr) (m : FunctionIndexes),
    (∀ l, (order l).Perm l) → (∀ id obj, files[id]? = some obj → Indexed obj.dwarf (m id)) →
      AnswersRight files order n v m := by
  intro h
  obtain ⟨r, hr, hanswer⟩ := h [mainFile 16#64] id 1 0x401000#64 (fun _ => []) (fun l => .refl l)
    fun _ _ _ => .start
  have hempty : outcome (functionNameAtAddress [mainFile 16#64] id 1 0x401000#64) (fun _ => []) =
      .ok [] := by
    decide
  obtain rfl := Except.ok.inj (hempty.symm.trans hr)
  have hsymbol : (mainFile 16#64).SymbolNamed ((mainFile 16#64).addrOf 0 0x401000#64) (text "main") :=
    ⟨⟨1#32, 2#8, 0x1000#64, 16#64⟩, List.mem_singleton_self _, by decide, by decide, by decide,
      by decide⟩
  obtain ⟨s, -, heq⟩ | ⟨hno, -⟩ := (answer_iff (fileAt_main 16#64)).mp hanswer
  · simp at heq
  · exact hno _ (.inr ⟨not_functionNamed_main _ _, hsymbol⟩)

end KDebugger
