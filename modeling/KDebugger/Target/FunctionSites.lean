import KDebugger.Process.BreakpointRuns
import KDebugger.Target.Pointers
import Mathlib.Data.List.Forall2

namespace KDebugger.Target

open Dwarf Exec

def DieFound (f : Files) (name : List Byte) (x : ElfId × Die) : Prop :=
  x.1 < f.elves.length ∧ ∃ ds, f.dwarfFunctions x.1 name = .ok ds ∧ x.2 ∈ ds

/-- A symbol of this value has the name in a file without a DIE of that name. -/
def SymbolFound (f : Files) (name : List Byte) (e : LoadedElf) (value : BitVec 64) : Prop :=
  ∃ id, f.elves[id]? = some e ∧ f.dwarfFunctions id name = .ok [] ∧ value ∈ e.symbolsByName name

/-- The load address of a DIE that is found: of its `low_pc` where it is inlined, else of
the row after. -/
def DieAt (f : Files) (name : List Byte) (address : VirtAddr) : Prop :=
  ∃ x, DieFound f name x ∧ f.functionAddress x = .ok address

/-- Where a function should have its sites. -/
def Expected (f : Files) (name : List Byte) (address : VirtAddr) : Prop :=
  DieAt f name address ∨
    ∃ e value, SymbolFound f name e value ∧ address = value + e.loadBias

/-- One site at each of these addresses, and no others. -/
def SitesExactly (t : Target) (b : Breakpoint) (S : VirtAddr → Prop) : Prop :=
  ∃ addresses : List VirtAddr, List.Forall₂ t.PointsTo b.sites addresses ∧ addresses.Nodup ∧
    ∀ a, a ∈ addresses ↔ S a

/-- Symbols count only beside a DIE, and `m_Elf` gives them no other addresses than their
own files do. -/
structure SymbolsAgree (f : Files) (name : List Byte) : Prop where
  beside : ∀ e value, SymbolFound f name e value → ∃ x, DieFound f name x
  covered : ∀ e value, SymbolFound f name e value → DieAt f name (value + e.loadBias) ∨
    ∃ e' value', SymbolFound f name e' value' ∧
      f.symbolAddress (f.elf, value') = .ok (value + e.loadBias)
  strays : ∀ e value address, SymbolFound f name e value →
    f.symbolAddress (f.elf, value) = .ok address → DieAt f name address ∨
      ∃ e' value', SymbolFound f name e' value' ∧ address = value' + e'.loadBias

/-- The DIEs found in the `n` files from `first` on. -/
def DieFrom (f : Files) (name : List Byte) (first n id : ℕ) (d : Die) : Prop :=
  first ≤ id ∧ id < first + n ∧ ∃ ds, f.dwarfFunctions id name = .ok ds ∧ d ∈ ds

/-- The symbols found in these files, the first of which is at `first`. -/
def SymbolFrom (f : Files) (name : List Byte) (first : ℕ) (elves : List LoadedElf)
    (value : BitVec 64) : Prop :=
  ∃ (i : ℕ) (e : LoadedElf), elves[i]? = some e ∧ f.dwarfFunctions (first + i) name = .ok [] ∧
    value ∈ e.symbolsByName name

variable {f : Files} {name : List Byte}

theorem dieFrom_succ {first n : ℕ} {ds : List Die} (hds : f.dwarfFunctions first name = .ok ds)
    (id : ℕ) (d : Die) :
    DieFrom f name first (n + 1) id d ↔ (id = first ∧ d ∈ ds) ∨ DieFrom f name (first + 1) n id d := by
  constructor
  · rintro ⟨hle, hlt, ds', hds', hmem⟩
    by_cases hfirst : id = first
    · left
      rw [hfirst, hds] at hds'
      exact ⟨hfirst, Except.ok.inj hds' ▸ hmem⟩
    · exact .inr ⟨by omega, by omega, ds', hds', hmem⟩
  · rintro (⟨rfl, hmem⟩ | ⟨hle, hlt, hrest⟩)
    · exact ⟨le_rfl, by omega, ds, hds, hmem⟩
    · exact ⟨by omega, by omega, hrest⟩

theorem symbolFrom_cons {first : ℕ} {ds : List Die} (hds : f.dwarfFunctions first name = .ok ds)
    (e : LoadedElf) (elves : List LoadedElf) (value : BitVec 64) :
    SymbolFrom f name first (e :: elves) value ↔
      (ds = [] ∧ value ∈ e.symbolsByName name) ∨ SymbolFrom f name (first + 1) elves value := by
  constructor
  · rintro ⟨i, e', he', hnone, hvalue⟩
    cases i with
    | zero =>
      left
      obtain rfl : e = e' := Option.some.inj he'
      rw [Nat.add_zero, hds] at hnone
      exact ⟨Except.ok.inj hnone, hvalue⟩
    | succ i =>
      right
      rw [← Nat.add_assoc, Nat.add_right_comm] at hnone
      exact ⟨i, e', he', hnone, hvalue⟩
  · rintro (⟨rfl, hvalue⟩ | ⟨i, e', he', hnone, hvalue⟩)
    · exact ⟨0, e, rfl, hds, hvalue⟩
    · rw [Nat.add_right_comm, Nat.add_assoc] at hnone
      exact ⟨i + 1, e', he', hnone, hvalue⟩

theorem findFunctionsFrom_mem :
    ∀ {elves : List LoadedElf} {first : ElfId} {result found : FoundFunctions},
      f.findFunctionsFrom name first elves result = .ok found →
      (∀ x, x ∈ found.dwarfFunctions ↔
        x ∈ result.dwarfFunctions ∨ DieFrom f name first elves.length x.1 x.2) ∧
      ∀ sym, sym ∈ found.elfFunctions ↔
        sym ∈ result.elfFunctions ∨ (sym.1 = f.elf ∧ SymbolFrom f name first elves sym.2) := by
  -- the symbols are gone through inside the loop over the DIEs
  intro elves
  induction elves with
  | nil =>
    intro first result found h
    obtain rfl : result = found := Except.ok.inj h
    refine ⟨fun x => ⟨.inl, ?_⟩, fun sym => ⟨.inl, ?_⟩⟩
    · rintro (hx | ⟨hle, hlt, -⟩)
      · exact hx
      · exact absurd hlt (by simpa using hle)
    · rintro (hsym | ⟨-, i, e, he, -⟩)
      · exact hsym
      · simp at he
  | cons e elves ih =>
    intro first result found h
    unfold Files.findFunctionsFrom at h
    cases hds : f.dwarfFunctions first name with
    | error err =>
      rw [hds] at h
      cases h
    | ok ds =>
      rw [hds] at h
      obtain ⟨hdies, hsyms⟩ := ih h
      refine ⟨fun x => ?_, fun sym => ?_⟩
      · rw [hdies, List.length_cons, dieFrom_succ hds, ← or_assoc]
        refine or_congr_left ?_
        cases ds with
        | nil => simp
        | cons d ds =>
          obtain ⟨id, d'⟩ := x
          simp [and_or_left, and_comm, eq_comm]
      · rw [hsyms, symbolFrom_cons hds, and_or_left, ← or_assoc]
        refine or_congr_left ?_
        cases ds with
        | nil =>
          obtain ⟨id, value⟩ := sym
          simp [and_comm, eq_comm]
        | cons d ds => simp

theorem findFunctions_mem {found : FoundFunctions} (h : f.findFunctions name = .ok found) :
    (∀ x, x ∈ found.dwarfFunctions ↔ DieFound f name x) ∧
      ∀ sym, sym ∈ found.elfFunctions ↔
        sym.1 = f.elf ∧ ∃ e, SymbolFound f name e sym.2 := by
  obtain ⟨hdies, hsyms⟩ := findFunctionsFrom_mem h
  refine ⟨fun x => ?_, fun sym => ?_⟩
  · rw [hdies]
    simp [DieFrom, DieFound]
  · rw [hsyms]
    simp only [List.not_mem_nil, false_or, SymbolFrom, SymbolFound, Nat.zero_add]
    exact and_congr_right fun _ => exists_comm

/-- The pointers are sound, and the sites of the breakpoint are exactly at these addresses. -/
structure Resolved (r : Resolving) (S : VirtAddr → Prop) : Prop where
  tracked : r.target.Tracked
  sites : SitesExactly r.target r.this S

theorem Resolved.congr {r : Resolving} {S S' : VirtAddr → Prop} (h : Resolved r S)
    (heq : ∀ a, S a ↔ S' a) : Resolved r S' := by
  obtain ⟨htracked, addresses, hpoints, hnodup, hmem⟩ := h
  exact ⟨htracked, addresses, hpoints, hnodup, fun a => (hmem a).trans (heq a)⟩

def pushed (r : Resolving) (address : VirtAddr) : Resolving where
  target := r.target.withSite
    (r.target.newSite (some r.this.object) address r.this.isHardware r.this.isInternal)
  this := { r.this with sites := r.this.sites ++ [r.target.objects] }

theorem addSite_ok {r r' : Resolving} {address : VirtAddr} {u : Unit}
    (h : addSite address r = .ok u r') :
    SameSites (pushed r address).target r'.target ∧ r'.this = (pushed r address).this := by
  obtain ⟨r₀, r₁, hget, h₁⟩ := bind_eq_ok.mp h
  cases hget
  obtain ⟨object, r₂, hcreate, h₂⟩ := bind_eq_ok.mp h₁
  obtain ⟨t, hmade, rfl⟩ := onTarget_ok hcreate
  rw [createBreakpointSite_eq] at hmade
  split_ifs at hmade
  cases hmade
  obtain ⟨_, r₃, hmodify, h₃⟩ := bind_eq_ok.mp h₂
  cases hmodify
  split_ifs at h₃ with henabled
  · obtain ⟨t', henable, rfl⟩ := onTarget_ok h₃
    exact ⟨(within_enableSite _).ok henable, rfl⟩
  · cases h₃
    exact ⟨sameSites.refl _, rfl⟩

theorem Resolved.addSite {r r' : Resolving} {S : VirtAddr → Prop} (h : Resolved r S)
    {address : VirtAddr} {u : Unit} (hnew : ¬ S address) (hok : addSite address r = .ok u r') :
    Resolved r' fun a => S a ∨ a = address := by
  obtain ⟨htracked, addresses, hpoints, hnodup, hmem⟩ := h
  obtain ⟨hsame, hthis⟩ := addSite_ok hok
  let site := r.target.newSite (some r.this.object) address r.this.isHardware r.this.isInternal
  refine ⟨(htracked.withSite site).same hsame, addresses ++ [address], ?_, ?_, fun a => ?_⟩
  · rw [hthis]
    refine List.rel_append (hpoints.imp fun object a hp => ?_) (.cons ?_ .nil)
    · obtain ⟨site', hp, haddress⟩ := hp
      exact PointsTo.same ⟨site', hp.withSite site, haddress⟩ hsame
    · exact PointsTo.same ⟨site, htracked.points_new site, rfl⟩ hsame
  · refine List.nodup_append.mpr ⟨hnodup, by simp, ?_⟩
    rintro a ha b hb rfl
    obtain rfl : a = address := by simpa using hb
    exact hnew ((hmem a).mp ha)
  · simp [hmem]

theorem Resolved.resolveAt {r r' : Resolving} {S : VirtAddr → Prop} (h : Resolved r S)
    {address : VirtAddr} {u : Unit} (hok : resolveAt address r = .ok u r') :
    Resolved r' fun a => S a ∨ a = address := by
  obtain ⟨addresses, hpoints, -, hmem⟩ := h.sites
  obtain ⟨r₀, r₁, hget, h₁⟩ := bind_eq_ok.mp hok
  cases hget
  obtain ⟨there, r₂, hcontains, h₂⟩ := bind_eq_ok.mp h₁
  obtain ⟨t, hlooked, rfl⟩ := onTarget_ok hcontains
  rw [containsAddress_eq h.tracked address hpoints] at hlooked
  cases hlooked
  split_ifs at h₂ with hthere
  · cases h₂
    have hold : S address := (hmem address).mp (of_decide_eq_true hthere)
    refine h.congr fun a => ⟨.inl, ?_⟩
    rintro (ha | rfl)
    · exact ha
    · exact hold
  · obtain ⟨_, r₃, htake, h₃⟩ := bind_eq_ok.mp h₂
    cases htake
    have hnew : ¬ S address := fun hold => hthere (decide_eq_true ((hmem address).mpr hold))
    have htaken : Resolved { r with
        this := { r.this with nextSiteId := r.this.nextSiteId + 1#32 } } S := ⟨h.tracked, h.sites⟩
    exact htaken.addSite hnew h₃

theorem Resolved.forM {ι : Type} {step : ι → ResolvingM Unit} (adds : ι → VirtAddr → Prop)
    (hstep : ∀ i r r' S, Resolved r S → step i r = .ok () r' →
      Resolved r' fun a => S a ∨ adds i a) :
    ∀ (l : List ι) {r r' : Resolving} {S : VirtAddr → Prop}, Resolved r S →
      l.forM step r = .ok () r' → Resolved r' fun a => S a ∨ ∃ i ∈ l, adds i a := by
  intro l
  induction l with
  | nil =>
    intro r r' S h hok
    cases hok
    exact h.congr fun a => by simp
  | cons i l ih =>
    intro r r' S h hok
    obtain ⟨_, r₁, hi, hl⟩ := bind_eq_ok.mp hok
    exact (ih (hstep i r r₁ S h hi) hl).congr fun a => by simp [or_assoc]

theorem Resolved.resolveSymbol {sym : Option ElfId × BitVec 64} {r r' : Resolving}
    {S : VirtAddr → Prop} (h : Resolved r S) (hok : resolveSymbol f sym r = .ok () r') :
    Resolved r' fun a => S a ∨ f.symbolAddress sym = .ok a := by
  obtain ⟨address, r₁, hvalue, h₁⟩ := bind_eq_ok.mp hok
  obtain ⟨haddress, rfl⟩ := ofExcept_eq_ok.mp hvalue
  refine (h.resolveAt h₁).congr fun a => ?_
  rw [haddress, Except.ok.injEq, eq_comm]

theorem lowPc_of_skipped {x : ElfId × Die} (hcode : Files.hasCode x.2 = .ok false) :
    f.lowPc x = .error (.raised "DIE does not have low PC") := by
  unfold Files.hasCode at hcode
  unfold Files.lowPc DwarfInfo.lowPc
  cases hlow : x.2.contains dwAtLowPc with
  | error e =>
    rw [hlow] at hcode
    cases hcode
  | ok low =>
    rw [hlow] at hcode
    cases low with
    | true => cases hcode
    | false =>
      have hranges : x.2.contains dwAtRanges = .ok false := hcode
      rw [hranges]
      rfl

theorem functionAddress_of_skipped {x : ElfId × Die} (hcode : Files.hasCode x.2 = .ok false)
    (address : VirtAddr) : f.functionAddress x ≠ .ok address := by
  have hlow := lowPc_of_skipped (f := f) hcode
  unfold Files.functionAddress
  cases Files.tag x.2 with
  | error e => exact nofun
  | ok t =>
    have hrow : ∀ a, f.rowAfterLowPc x ≠ .ok a := by
      intro a
      unfold Files.rowAfterLowPc
      cases x.2.cu with
      | none => exact nofun
      | some cu =>
        dsimp only
        rw [hlow]
        cases (f.dwarf x.1).lines cu with
        | error e => exact nofun
        | ok lines => exact nofun
    change (if t = dwTagInlinedSubroutine then f.lowPc x >>= f.elves.toVirtAddr
      else f.rowAfterLowPc x >>= f.elves.toVirtAddr) ≠ .ok address
    split_ifs
    · rw [hlow]
      exact nofun
    · cases h : f.rowAfterLowPc x with
      | error e => exact nofun
      | ok a => exact absurd h (hrow a)

theorem Resolved.resolveDie {elfFunctions : List (Option ElfId × BitVec 64)} {x : ElfId × Die}
    {r r' : Resolving} {S : VirtAddr → Prop} (h : Resolved r S)
    (hok : resolveDie f elfFunctions x r = .ok () r') :
    Resolved r' fun a => S a ∨ f.functionAddress x = .ok a ∨
      ∃ sym ∈ elfFunctions, f.symbolAddress sym = .ok a := by
  obtain ⟨code, r₁, hvalue, h₁⟩ := bind_eq_ok.mp hok
  obtain ⟨hcode, rfl⟩ := ofExcept_eq_ok.mp hvalue
  have hafter : ∃ r₂, Resolved r₂ (fun a => S a ∨ f.functionAddress x = .ok a) ∧
      elfFunctions.forM (Target.resolveSymbol f) r₂ = .ok () r' := by
    cases code with
    | true =>
      obtain ⟨address, r₂, hvalue', h₂⟩ := bind_eq_ok.mp h₁
      obtain ⟨haddress, rfl⟩ := ofExcept_eq_ok.mp hvalue'
      obtain ⟨_, r₃, hat, hsyms⟩ := bind_eq_ok.mp h₂
      refine ⟨r₃, (h.resolveAt hat).congr fun a => ?_, hsyms⟩
      rw [haddress, Except.ok.injEq, eq_comm]
    | false => exact ⟨r₁, h.congr fun a => by simp [functionAddress_of_skipped hcode a], h₁⟩
  obtain ⟨r₂, hdie, hsyms⟩ := hafter
  have hall : Resolved r' fun a => (S a ∨ f.functionAddress x = .ok a) ∨
      ∃ sym ∈ elfFunctions, f.symbolAddress sym = .ok a :=
    Resolved.forM (fun sym a => f.symbolAddress sym = .ok a)
      (fun sym _ _ _ hr => hr.resolveSymbol) elfFunctions hdie hsyms
  exact hall.congr fun a => or_assoc

/-- Where `function_breakpoint::resolve` puts its sites. -/
def Placed (f : Files) (name : List Byte) (address : VirtAddr) : Prop :=
  DieAt f name address ∨ (∃ x, DieFound f name x) ∧
    ∃ e value, SymbolFound f name e value ∧ f.symbolAddress (f.elf, value) = .ok address

theorem resolve_function {t : Target} {b : Breakpoint} (hkind : b.kind = .function name) :
    resolve ⟨t, b⟩ = resolveFunction name ⟨t, b⟩ := by
  unfold resolve
  rw [bind_ok (get_eq _), hkind]

theorem resolve_placed {t : Target} {b : Breakpoint} {r : Resolving} (ht : t.Tracked)
    (hb : b.sites = []) (hkind : b.kind = .function name) (hok : resolve ⟨t, b⟩ = .ok () r) :
    Resolved r (Placed t.files name) := by
  have hstart : Resolved ⟨t, b⟩ fun _ => False :=
    ⟨ht, [], by rw [hb]; exact .nil, .nil, fun a => by simp⟩
  rw [resolve_function hkind] at hok
  unfold resolveFunction at hok
  rw [bind_ok (get_eq _)] at hok
  obtain ⟨found, r₁, hvalue, hloop⟩ := bind_eq_ok.mp hok
  obtain ⟨hfound, rfl⟩ := ofExcept_eq_ok.mp hvalue
  obtain ⟨hdies, hsyms⟩ := findFunctions_mem hfound
  have hall := Resolved.forM
    (fun x a => t.files.functionAddress x = .ok a ∨
      ∃ sym ∈ found.elfFunctions, t.files.symbolAddress sym = .ok a)
    (fun x _ _ _ hr => hr.resolveDie) found.dwarfFunctions hstart hloop
  refine hall.congr fun a => ?_
  constructor
  · rintro (hnone | ⟨x, hx, haddress | ⟨⟨id, value⟩, hsym, haddress⟩⟩)
    · exact hnone.elim
    · exact .inl ⟨x, (hdies x).mp hx, haddress⟩
    · obtain ⟨rfl, e, hsymbol⟩ := (hsyms _).mp hsym
      exact .inr ⟨⟨x, (hdies x).mp hx⟩, e, value, hsymbol, haddress⟩
  · rintro (⟨x, hx, haddress⟩ | ⟨⟨x, hx⟩, e, value, hsymbol, haddress⟩)
    · exact .inr ⟨x, (hdies x).mpr hx, .inl haddress⟩
    · exact .inr ⟨x, (hdies x).mpr hx, .inr
        ⟨(t.files.elf, value), (hsyms _).mpr ⟨rfl, e, hsymbol⟩, haddress⟩⟩

theorem placed_expected :
    (∀ a, Placed f name a ↔ Expected f name a) ↔ SymbolsAgree f name := by
  constructor
  · intro h
    have hplaced : ∀ e value, SymbolFound f name e value →
        Placed f name (value + e.loadBias) :=
      fun e value hsymbol => (h _).mpr (.inr ⟨e, value, hsymbol, rfl⟩)
    have hbeside : ∀ e value, SymbolFound f name e value → ∃ x, DieFound f name x := by
      intro e value hsymbol
      obtain ⟨x, hx, -⟩ | ⟨hdie, -⟩ := hplaced e value hsymbol
      · exact ⟨x, hx⟩
      · exact hdie
    refine ⟨hbeside, fun e value hsymbol => ?_, fun e value address hsymbol haddress => ?_⟩
    · exact (hplaced e value hsymbol).imp_right And.right
    · exact (h address).mp (.inr ⟨hbeside e value hsymbol, e, value, hsymbol, haddress⟩)
  · intro h a
    constructor
    · rintro (hdie | ⟨-, e, value, hsymbol, haddress⟩)
      · exact .inl hdie
      · exact h.strays e value a hsymbol haddress
    · rintro (hdie | ⟨e, value, hsymbol, rfl⟩)
      · exact .inl hdie
      · exact (h.covered e value hsymbol).imp_right fun hother => ⟨h.beside e value hsymbol, hother⟩

theorem pointsTo_unique {t : Target} (ht : t.Tracked) {objects : List ℕ}
    {addresses addresses' : List VirtAddr} (h : List.Forall₂ t.PointsTo objects addresses)
    (h' : List.Forall₂ t.PointsTo objects addresses') : addresses = addresses' := by
  induction h generalizing addresses' with
  | nil =>
    cases h'
    rfl
  | cons hfirst _ ih =>
    obtain _ | ⟨hfirst', hrest'⟩ := h'
    obtain ⟨site, hsite, rfl⟩ := hfirst
    obtain ⟨site', hsite', rfl⟩ := hfirst'
    rw [ht.unique hsite hsite', ih hrest']

theorem SitesExactly.unique {t : Target} {b : Breakpoint} {S S' : VirtAddr → Prop}
    (ht : t.Tracked) (h : SitesExactly t b S) (h' : SitesExactly t b S') (a : VirtAddr) :
    S a ↔ S' a := by
  obtain ⟨addresses, hpoints, -, hmem⟩ := h
  obtain ⟨addresses', hpoints', -, hmem'⟩ := h'
  rw [← hmem, ← hmem', pointsTo_unique ht hpoints hpoints']

theorem functionSites_iff {t : Target} {b : Breakpoint} {r : Resolving} {name : List Byte}
    (ht : t.Tracked) (hb : b.sites = []) (hkind : b.kind = .function name)
    (hok : resolve ⟨t, b⟩ = .ok () r) :
    SitesExactly r.target r.this (Expected t.files name) ↔ SymbolsAgree t.files name := by
  have h := resolve_placed ht hb hkind hok
  rw [← placed_expected]
  constructor
  · exact fun hexpected => h.sites.unique h.tracked hexpected
  · exact fun hsame => (h.congr hsame).sites

/-- A program and a library, both without DWARF; the library has a symbol `f`. -/
def stripped : Files where
  elves := [
    { loadBias := 0x400000#64, sectionHeaders := [{ addr := 0x1000#64, size := 0x2000#64 }] },
    { loadBias := 0x7f0000#64, sectionHeaders := [{ addr := 0x1000#64, size := 0x2000#64 }],
      symbols := [([0x66#8], 0x1100#64)] }]
  elf := some 0
  dwarf id := ⟨id, .ofList [], fun _ => none, []⟩
  depth := 1
  firstRangeLow _ _ := .error .outOfRange
  inlineStackAtAddress _ := .ok []
  lineEntries _ _ := .ok []

def stoppedTarget (files : Files) : Target where
  process := Process.untouched
  uninitialisedId _ := 0#32
  files := files

def onF : Breakpoint where
  object := 0
  id := 1#32
  isHardware := false
  isInternal := false
  kind := .function [0x66#8]

theorem stoppedTarget_tracked (files : Files) : (stoppedTarget files).Tracked :=
  ⟨rfl, .nil, nofun⟩

theorem functionSites_stripped :
    SitesExactly (stoppedTarget stripped) onF (Expected stripped [0x66#8]) ↔
      SymbolsAgree stripped [0x66#8] :=
  functionSites_iff (b := onF) (r := ⟨stoppedTarget stripped, onF⟩)
    (stoppedTarget_tracked stripped) rfl rfl rfl

theorem functionSites_not_for_all : ¬ ∀ (t : Target) (b : Breakpoint) (r : Resolving)
    (name : List Byte), t.Tracked → b.sites = [] → b.kind = .function name →
    resolve ⟨t, b⟩ = .ok () r → SitesExactly r.target r.this (Expected t.files name) := by
  intro h
  obtain ⟨addresses, hpoints, -, hmem⟩ := h (stoppedTarget stripped) onF
    ⟨stoppedTarget stripped, onF⟩ [0x66#8] (stoppedTarget_tracked stripped) rfl rfl rfl
  obtain rfl : addresses = [] := by
    cases hpoints
    rfl
  have hexpected : Expected stripped [0x66#8] 0x7f1100#64 :=
    .inr ⟨_, 0x1100#64, ⟨1, rfl, rfl, by decide⟩, rfl⟩
  exact absurd ((hmem _).mpr hexpected) (List.not_mem_nil)

end KDebugger.Target
