import KDebugger.Target.LinkMapReads
import KDebugger.Target.ResolvingTwice

namespace KDebugger.Loading

open Exec

def LinkEntry.path (x : LinkEntry) : Path := Path.ofText x.name

/-- Only the program itself has no name. -/
def LinkEntry.Named (x : LinkEntry) : Prop := x.name ≠ []

instance (x : LinkEntry) : Decidable x.Named := inferInstanceAs (Decidable (_ ≠ _))

def kernelVdso : Path := Path.ofText dumpName

def assumedVdso : Path := Path.ofText vdsoName

/-- A file at `p` is that of an entry: of the vdso by its file name, else by its path. -/
def FileOf (entry p : Path) : Prop := if entry = kernelVdso then p.filename = kernelVdso else p = entry

instance (entry p : Path) : Decidable (FileOf entry p) := by
  unfold FileOf
  infer_instance

def filesFor (elves : List ElfFile) (entry : Path) : List ElfFile :=
  elves.filter fun f => FileOf entry f.path

/-- Every named entry has exactly one file, and that is loaded at its address. -/
def OneFileEach (entries : List LinkEntry) (elves : List ElfFile) : Prop :=
  ∀ x ∈ entries, x.Named → ∃ f, filesFor elves x.path = [f] ∧ f.elf.loadBias = x.addr

variable {D : Type} {H : Host D} {s s' : Loading D}

/-- After a call there is one file each, and another call adds and raises nothing. -/
def ReloadsRight (H : Host D) (s : Loading D) (entries : List LinkEntry) : Prop :=
  ∀ fuel, entries.length < fuel → ∃ s', reloadDynamicLibraries H fuel s = .ok () s' ∧
    OneFileEach entries s'.elves ∧ (LinkMap s' entries →
      ∃ s'', reloadDynamicLibraries H fuel s' = .ok () s'' ∧ s''.elves = s'.elves)

/-- The collection after an entry that can be loaded. -/
def grow (H : Host D) (disk : D) (elves : List ElfFile) (x : LinkEntry) : List ElfFile :=
  if x.name.isEmpty || (getElfByPath elves x.path).isSome then elves
  else
    match construct H disk x.path with
    | .ok elf => elves ++ [⟨x.path, { elf with loadBias := x.addr }⟩]
    | .error _ => elves

def grown (H : Host D) (disk : D) (elves : List ElfFile) (entries : List LinkEntry) :
    List ElfFile := entries.foldl (grow H disk) elves

/-- A file of the entry is there, or can be made. -/
def Loads (H : Host D) (disk : D) (elves : List ElfFile) (x : LinkEntry) : Prop :=
  (∃ f ∈ elves, f.path = x.path) ∨
    (x.path ≠ assumedVdso ∧ ∃ elf, construct H disk x.path = .ok elf)

theorem getElfByPath_isSome {elves : List ElfFile} {path : Path} :
    (getElfByPath elves path).isSome = true ↔ ∃ f ∈ elves, f.path = path := by
  simp [getElfByPath, List.find?_isSome]

theorem getElfByFilename_isSome {elves : List ElfFile} {name : Path} :
    (getElfByFilename elves name).isSome = true ↔ ∃ f ∈ elves, f.path.filename = name := by
  simp [getElfByFilename, List.find?_isSome]

/-- An entry without a name, or with a file of its path, adds nothing. -/
theorem grow_of_there {disk : D} {elves : List ElfFile} {x : LinkEntry}
    (h : x.Named → ∃ f ∈ elves, f.path = x.path) : grow H disk elves x = elves := by
  unfold grow
  by_cases hnamed : x.Named
  · rw [getElfByPath_isSome.mpr (h hnamed), Bool.or_true]
    rfl
  · rw [not_not.mp hnamed]
    rfl

theorem grow_of_new {disk : D} {elves : List ElfFile} {x : LinkEntry} {elf : LoadedElf}
    (hnamed : x.Named) (hnew : ¬ ∃ f ∈ elves, f.path = x.path)
    (hmade : construct H disk x.path = .ok elf) :
    grow H disk elves x = elves ++ [⟨x.path, { elf with loadBias := x.addr }⟩] := by
  have hempty : x.name.isEmpty = false := List.isEmpty_eq_false_iff.mpr hnamed
  have hnone : (getElfByPath elves x.path).isSome = false := by
    rw [← Bool.not_eq_true, getElfByPath_isSome]
    exact hnew
  unfold grow
  rw [hempty, hnone, hmade]
  rfl

theorem turn_of_loads {x : LinkEntry} (hshort : x.Short)
    (hloads : x.Named → Loads H s.disk s.elves x) :
    turn H x s = .ok () { s with elves := grow H s.disk s.elves x } := by
  unfold turn
  rw [if_pos hshort, bind_ok (ofExcept_ok () s)]
  unfold loadEntry
  by_cases hnamed : x.Named
  · have hempty : x.name.isEmpty = false := List.isEmpty_eq_false_iff.mpr hnamed
    rw [hempty, if_neg Bool.false_ne_true]
    unfold loadNamed
    rw [bind_ok (get_eq s)]
    change (if Option.isSome (if x.path = assumedVdso then getElfByFilename s.elves x.path
      else getElfByPath s.elves x.path) = true then _ else _ : LoadingM D Unit) s = _
    by_cases hthere : ∃ f ∈ s.elves, f.path = x.path
    · have hfound : Option.isSome (if x.path = assumedVdso then getElfByFilename s.elves x.path
          else getElfByPath s.elves x.path) = true := by
        split_ifs with hassumed
        · obtain ⟨f, hf, hpath⟩ := hthere
          refine getElfByFilename_isSome.mpr ⟨f, hf, ?_⟩
          rw [hpath, hassumed]
          decide
        · exact getElfByPath_isSome.mpr hthere
      rw [if_pos hfound, grow_of_there fun _ => hthere]
      rfl
    · obtain ⟨hassumed, elf, hmade⟩ := (hloads hnamed).resolve_left hthere
      rw [if_neg hassumed, if_neg fun h => hthere (getElfByPath_isSome.mp h),
        grow_of_new hnamed hthere hmade]
      change (if x.path = assumedVdso then _ else pure x.path >>= fun path => push H path x.addr :
        LoadingM D Unit) s = _
      rw [if_neg hassumed]
      change push H x.path x.addr s = _
      unfold push
      rw [bind_ok (get_eq s), hmade, bind_ok (ofExcept_ok elf s)]
      rfl
  · have hempty : x.name = [] := not_not.mp hnamed
    rw [grow_of_there fun h => absurd h hnamed, hempty]
    rfl

theorem push_ok {path : Path} {address : VirtAddr} {u : Unit} (h : push H path address s = .ok u s') :
    ∃ elf, construct H s.disk path = .ok elf ∧
      s' = { s with elves := s.elves ++ [⟨path, { elf with loadBias := address }⟩] } := by
  unfold push at h
  rw [bind_ok (get_eq s)] at h
  obtain ⟨elf, s₁, hmade, h₁⟩ := bind_eq_ok.mp h
  obtain ⟨hmade, rfl⟩ := ofExcept_eq_ok.mp hmade
  cases h₁
  exact ⟨elf, hmade, rfl⟩

theorem returns_dumpVdso (address : VirtAddr) :
    Returns (fun path => path.filename = [dumpName]) (dumpVdso H address) :=
  .of_rest fun directory => .of_rest fun _ => .of_rest fun _ => .of_rest fun _ => .of_rest fun _ =>
    .pure (directory.filename_append (by decide) (by decide))

/-- A turn that returns found a file of the entry, or pushed one: under the path of the
entry or, where that is the assumed one, under the path of a dump. -/
theorem turn_ok {x : LinkEntry} {u : Unit} (h : turn H x s = .ok u s') : x.Short ∧
    (s' = s ∨ ∃ path elf, s'.elves = s.elves ++ [⟨path, elf⟩] ∧ path ≠ assumedVdso) ∧
    (x.Named → x.path ≠ assumedVdso → Loads H s.disk s.elves x) := by
  unfold turn at h
  obtain ⟨_, s₀, hchecked, h₁⟩ := bind_eq_ok.mp h
  obtain ⟨hcheck, rfl⟩ := ofExcept_eq_ok.mp hchecked
  have hshort : x.Short := by
    by_contra hlong
    rw [if_neg hlong] at hcheck
    cases hcheck
  refine ⟨hshort, ?_⟩
  unfold loadEntry at h₁
  split_ifs at h₁ with hempty
  · cases h₁
    have hunnamed : ¬ x.Named := not_not.mpr (List.isEmpty_iff.mp hempty)
    exact ⟨.inl rfl, fun hnamed => absurd hnamed hunnamed⟩
  · unfold loadNamed at h₁
    rw [bind_ok (get_eq s₀)] at h₁
    change (if Option.isSome (if x.path = assumedVdso then getElfByFilename s₀.elves x.path
      else getElfByPath s₀.elves x.path) = true then pure ()
      else if x.path = assumedVdso then dumpVdso H x.addr >>= fun path => push H path x.addr
      else push H x.path x.addr : LoadingM D Unit) s₀ = _ at h₁
    by_cases hassumed : x.path = assumedVdso
    · simp only [if_pos hassumed] at h₁
      refine ⟨?_, fun _ hnot => absurd hassumed hnot⟩
      split_ifs at h₁ with hfound
      · cases h₁
        exact .inl rfl
      · obtain ⟨path, s₁, hdump, hpush⟩ := bind_eq_ok.mp h₁
        obtain ⟨elf, -, rfl⟩ := push_ok hpush
        have hdisk : OnlyDisk s₀ s₁ := (within_dumpVdso x.addr).ok hdump
        have hname : path.filename = [dumpName] := returns_dumpVdso x.addr _ _ _ hdump
        refine .inr ⟨path, { elf with loadBias := x.addr }, ?_, ?_⟩
        · rw [hdisk]
        · rintro rfl
          exact absurd hname (by decide)
    · simp only [if_neg hassumed] at h₁
      split_ifs at h₁ with hfound
      · cases h₁
        exact ⟨.inl rfl, fun _ _ => .inl (getElfByPath_isSome.mp hfound)⟩
      · obtain ⟨elf, hmade, rfl⟩ := push_ok h₁
        exact ⟨.inr ⟨x.path, { elf with loadBias := x.addr }, rfl, hassumed⟩,
          fun _ _ => .inr ⟨hassumed, elf, hmade⟩⟩

theorem forM_turn_added : ∀ {entries : List LinkEntry} {s s' : Loading D} {u : Unit},
    entries.forM (turn H) s = .ok u s' →
    ∃ added, s'.elves = s.elves ++ added ∧ ∀ g ∈ added, g.path ≠ assumedVdso := by
  intro entries
  induction entries with
  | nil =>
    intro s s' u h
    cases h
    exact ⟨[], (List.append_nil _).symm, by simp⟩
  | cons x entries ih =>
    intro s s' u h
    obtain ⟨_, s₁, hturn, hrest⟩ := bind_eq_ok.mp h
    obtain ⟨added, hadded, hpaths⟩ := ih hrest
    obtain ⟨-, hpushed, -⟩ := turn_ok hturn
    obtain rfl | ⟨path, elf, hone, hpath⟩ := hpushed
    · exact ⟨added, hadded, hpaths⟩
    · refine ⟨⟨path, elf⟩ :: added, ?_, List.forall_mem_cons.mpr ⟨hpath, hpaths⟩⟩
      rw [hadded, hone, List.append_assoc]
      rfl

theorem mem_grow {disk : D} {elves : List ElfFile} (x : LinkEntry) {f : ElfFile} (hf : f ∈ elves) :
    f ∈ grow H disk elves x := by
  unfold grow
  split_ifs
  · exact hf
  · cases construct H disk x.path with
    | ok elf => exact List.mem_append_left _ hf
    | error e => exact hf

theorem Loads.mono {disk : D} {elves : List ElfFile} {y : LinkEntry} (h : Loads H disk elves y)
    (x : LinkEntry) : Loads H disk (grow H disk elves x) y := by
  obtain ⟨f, hf, hpath⟩ | hmade := h
  · exact .inl ⟨f, mem_grow x hf, hpath⟩
  · exact .inr hmade

theorem Loads.of_grow {disk : D} {elves : List ElfFile} {x y : LinkEntry}
    (hx : x.Named → Loads H disk elves x) (hy : Loads H disk (grow H disk elves x) y) :
    Loads H disk elves y := by
  obtain ⟨f, hf, hpath⟩ | hmade := hy
  · by_cases hthere : ∃ f ∈ elves, f.path = x.path
    · rw [grow_of_there fun _ => hthere] at hf
      exact .inl ⟨f, hf, hpath⟩
    · by_cases hnamed : x.Named
      · obtain ⟨hassumed, elf, hmade⟩ := (hx hnamed).resolve_left hthere
        rw [grow_of_new hnamed hthere hmade] at hf
        obtain hf | hf := List.mem_append.mp hf
        · exact .inl ⟨f, hf, hpath⟩
        · obtain rfl := List.mem_singleton.mp hf
          exact .inr ⟨hpath ▸ hassumed, elf, hpath ▸ hmade⟩
      · rw [grow_of_there fun h => absurd h hnamed] at hf
        exact .inl ⟨f, hf, hpath⟩
  · exact .inr hmade

theorem forM_turn_of_loads : ∀ {entries : List LinkEntry} {s : Loading D},
    (∀ x ∈ entries, x.Short ∧ (x.Named → Loads H s.disk s.elves x)) →
    entries.forM (turn H) s = .ok () { s with elves := grown H s.disk s.elves entries } := by
  intro entries
  induction entries with
  | nil => exact fun _ => rfl
  | cons x entries ih =>
    intro s h
    obtain ⟨⟨hshort, hloads⟩, hrest⟩ := List.forall_mem_cons.mp h
    exact (bind_ok (turn_of_loads hshort hloads)).trans
      (ih fun y hy => ⟨(hrest y hy).1, fun hnamed => ((hrest y hy).2 hnamed).mono x⟩)

/-- Where the entries under the assumed name have their files before, a loop that returns
has loaded all entries, and the collection is as it should be. -/
theorem forM_turn_ok : ∀ {entries : List LinkEntry} {s s' : Loading D} {u : Unit},
    entries.forM (turn H) s = .ok u s' →
    (∀ x ∈ entries, x.Named → x.path = assumedVdso → ∃ f ∈ s.elves, f.path = x.path) →
    s' = { s with elves := grown H s.disk s.elves entries } ∧
      ∀ x ∈ entries, x.Short ∧ (x.Named → Loads H s.disk s.elves x) := by
  intro entries
  induction entries with
  | nil =>
    intro s s' u h _
    cases h
    exact ⟨rfl, by simp⟩
  | cons x entries ih =>
    intro s s' u h hassumed
    obtain ⟨_, s₁, hturn, hrest⟩ := bind_eq_ok.mp h
    obtain ⟨hhere, hlater⟩ := List.forall_mem_cons.mp hassumed
    obtain ⟨hshort, -, hloads⟩ := turn_ok hturn
    have hx : x.Named → Loads H s.disk s.elves x := by
      intro hnamed
      by_cases hpath : x.path = assumedVdso
      · exact .inl (hhere hnamed hpath)
      · exact hloads hnamed hpath
    rw [turn_of_loads hshort hx] at hturn
    cases hturn
    obtain ⟨hend, hall⟩ := ih hrest fun y hy hnamed hpath => by
      obtain ⟨f, hf, hsame⟩ := hlater y hy hnamed hpath
      exact ⟨f, mem_grow x hf, hsame⟩
    refine ⟨hend, List.forall_mem_cons.mpr ⟨⟨hshort, hx⟩, fun y hy => ?_⟩⟩
    exact ⟨(hall y hy).1, fun hnamed => ((hall y hy).2 hnamed).of_grow hx⟩

/-- New paths, each of an entry and loaded at its address, until every entry has one. -/
structure GrownBy (elves : List ElfFile) (entries : List LinkEntry) (added : List ElfFile) :
    Prop where
  nodup : (added.map ElfFile.path).Nodup
  new : ∀ g ∈ added, ¬ ∃ f ∈ elves, f.path = g.path
  origin : ∀ g ∈ added, ∃ y ∈ entries, y.Named ∧ g.path = y.path ∧ g.elf.loadBias = y.addr
  all : ∀ x ∈ entries, x.Named → ∃ f ∈ elves ++ added, f.path = x.path

theorem grown_spec {disk : D} : ∀ {entries : List LinkEntry} {elves : List ElfFile},
    (∀ x ∈ entries, x.Named → Loads H disk elves x) →
    ∃ added, grown H disk elves entries = elves ++ added ∧ GrownBy elves entries added := by
  -- a path that is there already adds nothing
  intro entries
  induction entries with
  | nil => exact fun {elves} _ => ⟨[], (List.append_nil elves).symm, by simp, by simp, by simp, by simp⟩
  | cons x entries ih =>
    intro elves h
    obtain ⟨hx, hrest⟩ := List.forall_mem_cons.mp h
    obtain ⟨added, hgrown, hby⟩ := ih fun y hy hnamed => (hrest y hy hnamed).mono x
    have hfold : grown H disk elves (x :: entries) = grow H disk elves x ++ added := hgrown
    by_cases hthere : x.Named → ∃ f ∈ elves, f.path = x.path
    · rw [grow_of_there hthere] at hfold hby
      refine ⟨added, hfold, hby.nodup, hby.new, fun g hg => ?_, List.forall_mem_cons.mpr ⟨?_, hby.all⟩⟩
      · obtain ⟨y, hy, horigin⟩ := hby.origin g hg
        exact ⟨y, List.mem_cons_of_mem _ hy, horigin⟩
      · intro hnamed
        obtain ⟨f, hf, hpath⟩ := hthere hnamed
        exact ⟨f, List.mem_append_left _ hf, hpath⟩
    · obtain ⟨hnamed, hthere⟩ := Classical.not_imp.mp hthere
      obtain ⟨-, elf, hmade⟩ := (hx hnamed).resolve_left hthere
      let made : ElfFile := ⟨x.path, { elf with loadBias := x.addr }⟩
      rw [grow_of_new hnamed hthere hmade] at hfold hby
      refine ⟨made :: added, by rw [hfold, List.append_assoc]; rfl, ?_, ?_, ?_, ?_⟩
      · refine List.nodup_cons.mpr ⟨fun hmem => ?_, hby.nodup⟩
        obtain ⟨g, hg, hpath⟩ := List.mem_map.mp hmem
        exact hby.new g hg ⟨made, by simp [made], hpath.symm⟩
      · refine List.forall_mem_cons.mpr ⟨hthere, fun g hg => ?_⟩
        rintro ⟨f, hf, hpath⟩
        exact hby.new g hg ⟨f, List.mem_append_left _ hf, hpath⟩
      · refine List.forall_mem_cons.mpr ⟨⟨x, List.mem_cons_self, hnamed, rfl, rfl⟩, fun g hg => ?_⟩
        obtain ⟨y, hy, horigin⟩ := hby.origin g hg
        exact ⟨y, List.mem_cons_of_mem _ hy, horigin⟩
      · refine List.forall_mem_cons.mpr ⟨fun _ => ⟨made, by simp, rfl⟩, fun y hy hnamed' => ?_⟩
        obtain ⟨f, hf, hpath⟩ := hby.all y hy hnamed'
        exact ⟨f, by simpa [made] using hf, hpath⟩

theorem grown_of_there {disk : D} {elves : List ElfFile} : ∀ {entries : List LinkEntry},
    (∀ x ∈ entries, x.Named → ∃ f ∈ elves, f.path = x.path) →
    grown H disk elves entries = elves := by
  intro entries
  induction entries with
  | nil => exact fun _ => rfl
  | cons x entries ih =>
    intro h
    obtain ⟨hx, hrest⟩ := List.forall_mem_cons.mp h
    change grown H disk (grow H disk elves x) entries = elves
    rw [grow_of_there hx]
    exact ih hrest

theorem fileOf_self (p : Path) : FileOf p p := by
  unfold FileOf
  split_ifs with hvdso
  · rw [hvdso]
    decide
  · rfl

/-- The entry has its one file before and no other entry adds one; or it has none, its path
is not the assumed one, its file can be made, and every entry that would add one is of the
same path and address. -/
def Fits (H : Host D) (disk : D) (elves : List ElfFile) (entries : List LinkEntry)
    (x : LinkEntry) : Prop :=
  (∃ f, filesFor elves x.path = [f] ∧ f.elf.loadBias = x.addr ∧
    ∀ y ∈ entries, y.Named → FileOf x.path y.path → y.path = f.path) ∨
  (filesFor elves x.path = [] ∧ x.path ≠ assumedVdso ∧ (∃ elf, construct H disk x.path = .ok elf) ∧
    ∀ y ∈ entries, y.Named → FileOf x.path y.path → y.path = x.path ∧ y.addr = x.addr)

theorem mem_filesFor {elves : List ElfFile} {entry : Path} {f : ElfFile} :
    f ∈ filesFor elves entry ↔ f ∈ elves ∧ FileOf entry f.path := by
  simp [filesFor]

theorem Fits.loads {disk : D} {elves : List ElfFile} {entries : List LinkEntry} {x : LinkEntry}
    (h : Fits H disk elves entries x) (hx : x ∈ entries) (hnamed : x.Named) :
    Loads H disk elves x := by
  obtain ⟨f, hone, -, hsame⟩ | ⟨-, hassumed, hmade, -⟩ := h
  · have hf : f ∈ elves := (mem_filesFor.mp (hone ▸ List.mem_singleton_self f)).1
    exact .inl ⟨f, hf, (hsame x hx hnamed (fileOf_self _)).symm⟩
  · exact .inr ⟨hassumed, hmade⟩

section OneFile

variable {disk : D} {elves added : List ElfFile} {entries : List LinkEntry} {x : LinkEntry}

theorem filesFor_append (elves added : List ElfFile) (entry : Path) :
    filesFor (elves ++ added) entry = filesFor elves entry ++ filesFor added entry :=
  List.filter_append ..

theorem eq_singleton {α : Type} {l : List α} {a : α} (hnodup : l.Nodup) (hmem : a ∈ l)
    (hall : ∀ b ∈ l, b = a) : l = [a] := by
  have hrep : l = List.replicate l.length a := List.eq_replicate_of_mem hall
  have hle : l.length ≤ 1 := List.nodup_replicate.mp (by rwa [← hrep])
  have hone : l.length = 1 := Nat.le_antisymm hle (List.length_pos_of_mem hmem)
  rw [hrep, hone]
  rfl

theorem eq_of_mem_added (h : GrownBy elves entries added) {g g' : ElfFile} (hg : g ∈ added)
    (hg' : g' ∈ added) (hpath : g'.path = g.path) : g' = g :=
  List.inj_on_of_nodup_map h.nodup hg' hg hpath

theorem Fits.oneFile (h : GrownBy elves entries added) (hx : x ∈ entries) (hnamed : x.Named)
    (hfits : Fits H disk elves entries x) :
    ∃ f, filesFor (elves ++ added) x.path = [f] ∧ f.elf.loadBias = x.addr := by
  rw [filesFor_append]
  obtain ⟨f, hone, haddr, hsame⟩ | ⟨hnone, -, -, hsame⟩ := hfits
  · have hadded : filesFor added x.path = [] := by
      refine List.eq_nil_iff_forall_not_mem.mpr fun g hg => ?_
      obtain ⟨hg, hof⟩ := mem_filesFor.mp hg
      obtain ⟨y, hy, hyn, hpath, -⟩ := h.origin g hg
      have hf : f ∈ elves := (mem_filesFor.mp (hone ▸ List.mem_singleton_self f)).1
      exact h.new g hg ⟨f, hf, by rw [hpath, hsame y hy hyn (hpath ▸ hof)]⟩
    exact ⟨f, by rw [hone, hadded]; rfl, haddr⟩
  · obtain ⟨f, hf, hpath⟩ := h.all x hx hnamed
    have hf : f ∈ added := by
      obtain hf | hf := List.mem_append.mp hf
      · have hmem : f ∈ filesFor elves x.path := mem_filesFor.mpr ⟨hf, hpath ▸ fileOf_self _⟩
        rw [hnone] at hmem
        cases hmem
      · exact hf
    obtain ⟨y, hy, hyn, hypath, haddr⟩ := h.origin f hf
    have hyx : FileOf x.path y.path := by
      rw [← hypath, hpath]
      exact fileOf_self _
    refine ⟨f, ?_, haddr.trans (hsame y hy hyn hyx).2⟩
    rw [hnone, List.nil_append]
    -- every file of the entry among the added ones is `f`, which occurs once
    have hall : ∀ g ∈ filesFor added x.path, g = f := by
      intro g hg
      obtain ⟨hg, hof⟩ := mem_filesFor.mp hg
      obtain ⟨z, hz, hzn, hzpath, -⟩ := h.origin g hg
      exact eq_of_mem_added h hf hg (by rw [hzpath, (hsame z hz hzn (hzpath ▸ hof)).1, hpath])
    have hnodup : (filesFor added x.path).Nodup :=
      (List.Nodup.of_map _ h.nodup).sublist List.filter_sublist
    have hmem : f ∈ filesFor added x.path := mem_filesFor.mpr ⟨hf, hpath ▸ fileOf_self _⟩
    exact eq_singleton hnodup hmem hall

theorem fits_of_oneFile (h : GrownBy elves entries added) (hx : x ∈ entries) (hnamed : x.Named)
    (hloads : Loads H disk elves x) (hall : OneFileEach entries (elves ++ added)) :
    Fits H disk elves entries x := by
  obtain ⟨g, hone, haddr⟩ := hall x hx hnamed
  have hpathOf {y : LinkEntry} (hy : y ∈ entries) (hyn : y.Named) (hof : FileOf x.path y.path) :
      y.path = g.path := by
    obtain ⟨f, hf, hpath⟩ := h.all y hy hyn
    have hmem : f ∈ filesFor (elves ++ added) x.path := mem_filesFor.mpr ⟨hf, hpath ▸ hof⟩
    rw [hone] at hmem
    rw [← List.mem_singleton.mp hmem, hpath]
  have hsplit := hone
  rw [filesFor_append, List.append_eq_singleton_iff] at hsplit
  obtain ⟨hnone, -⟩ | ⟨hold, -⟩ := hsplit
  · have hmade : x.path ≠ assumedVdso ∧ ∃ elf, construct H disk x.path = .ok elf := by
      refine hloads.resolve_left ?_
      rintro ⟨f, hf, hpath⟩
      have hmem : f ∈ filesFor elves x.path := mem_filesFor.mpr ⟨hf, hpath ▸ fileOf_self _⟩
      rw [hnone] at hmem
      cases hmem
    refine .inr ⟨hnone, hmade.1, hmade.2, fun y hy hyn hof => ?_⟩
    have hpath : y.path = x.path := (hpathOf hy hyn hof).trans (hpathOf hx hnamed (fileOf_self _)).symm
    obtain ⟨g', hone', haddr'⟩ := hall y hy hyn
    rw [hpath, hone] at hone'
    obtain rfl : g = g' := List.singleton_inj.mp hone'
    exact ⟨hpath, haddr'.symm.trans haddr⟩
  · exact .inl ⟨g, hold, haddr, fun y hy hyn hof => hpathOf hy hyn hof⟩

end OneFile

/-- The names can be read, every named entry fits, and the breakpoints can be resolved in the
files that are loaded then. -/
structure Reloadable (H : Host D) (s : Loading D) (entries : List LinkEntry) : Prop where
  short : ∀ x ∈ entries, x.Short
  fits : ∀ x ∈ entries, x.Named → Fits H s.disk s.elves entries x
  resolves : ∃ t', Target.reloadDynamicLibraries (filesOf H (grown H s.disk s.elves entries))
    s.target = .ok () t'

theorem resolveBreakpoints_ok {t : Target}
    (h : Target.reloadDynamicLibraries (filesOf H s.elves) s.target = .ok () t) :
    resolveBreakpoints H s = .ok () { s with target := t } := by
  unfold resolveBreakpoints
  rw [bind_ok (get_eq s)]
  unfold onTarget
  rw [h]

theorem resolveBreakpoints_eq_ok (h : resolveBreakpoints H s = .ok () s') :
    ∃ t, Target.reloadDynamicLibraries (filesOf H s.elves) s.target = .ok () t ∧
      s' = { s with target := t } := by
  unfold resolveBreakpoints at h
  rw [bind_ok (get_eq s)] at h
  unfold onTarget at h
  cases hresolve : Target.reloadDynamicLibraries (filesOf H s.elves) s.target with
  | ok u t =>
    rw [hresolve] at h
    cases h
    exact ⟨t, rfl, rfl⟩
  | error e t =>
    rw [hresolve] at h
    cases h

theorem reload_again {entries : List LinkEntry} (hmap : LinkMap s entries)
    (hshort : ∀ x ∈ entries, x.Short)
    (hthere : ∀ x ∈ entries, x.Named → ∃ f ∈ s.elves, f.path = x.path)
    (hresolved : Target.reloadDynamicLibraries (filesOf H s.elves) s.target = .ok () s.target)
    {fuel : ℕ} (hfuel : entries.length < fuel) : reloadDynamicLibraries H fuel s = .ok () s := by
  have hloop : entries.forM (turn H) s =
      .ok () { s with elves := grown H s.disk s.elves entries } :=
    forM_turn_of_loads fun x hx => ⟨hshort x hx, fun hnamed => .inl (hthere x hx hnamed)⟩
  rw [grown_of_there hthere] at hloop
  rw [reloadDynamicLibraries_eq hmap hfuel, bind_ok hloop]
  exact resolveBreakpoints_ok hresolved

theorem Reloadable.reloadsRight {entries : List LinkEntry} (hmap : LinkMap s entries)
    (ht : s.target.Tracked) (h : Reloadable H s entries) : ReloadsRight H s entries := by
  intro fuel hfuel
  have hloads (x : LinkEntry) (hx : x ∈ entries) (hnamed : x.Named) : Loads H s.disk s.elves x :=
    (h.fits x hx hnamed).loads hx hnamed
  obtain ⟨added, hgrown, hby⟩ := grown_spec hloads
  obtain ⟨t, ht'⟩ := h.resolves
  let s₁ : Loading D := { s with elves := grown H s.disk s.elves entries }
  have hloop : entries.forM (turn H) s = .ok () s₁ :=
    forM_turn_of_loads fun x hx => ⟨h.short x hx, hloads x hx⟩
  have hresolve : resolveBreakpoints H s₁ = .ok () { s₁ with target := t } :=
    resolveBreakpoints_ok ht'
  refine ⟨{ s₁ with target := t }, ?_, fun x hx hnamed => ?_, fun hmap' => ⟨_, ?_, rfl⟩⟩
  · rw [reloadDynamicLibraries_eq hmap hfuel, bind_ok hloop]
    exact hresolve
  · change ∃ f, filesFor (grown H s.disk s.elves entries) x.path = [f] ∧ _
    rw [hgrown]
    exact (h.fits x hx hnamed).oneFile hby hx hnamed
  · refine reload_again hmap' h.short (fun x hx hnamed => ?_)
      (Target.reloadDynamicLibraries_twice ht ht') hfuel
    change ∃ f ∈ grown H s.disk s.elves entries, _
    rw [hgrown]
    exact hby.all x hx hnamed

theorem assumedVdso_ne : assumedVdso ≠ kernelVdso := by decide

theorem ReloadsRight.reloadable {entries : List LinkEntry} (hmap : LinkMap s entries)
    (h : ReloadsRight H s entries) : Reloadable H s entries := by
  obtain ⟨s', hreload, hone, -⟩ := h (entries.length + 1) (Nat.lt_succ_self _)
  rw [reloadDynamicLibraries_eq hmap (Nat.lt_succ_self _)] at hreload
  obtain ⟨_, s₁, hloop, hresolve⟩ := bind_eq_ok.mp hreload
  obtain ⟨t, hresolved, rfl⟩ := resolveBreakpoints_eq_ok hresolve
  obtain ⟨added, hadded, hpaths⟩ := forM_turn_added hloop
  have hassumed : ∀ x ∈ entries, x.Named → x.path = assumedVdso → ∃ f ∈ s.elves, f.path = x.path := by
    intro x hx hnamed hpath
    obtain ⟨f, hf, -⟩ := hone x hx hnamed
    have hmem : f ∈ s₁.elves ∧ FileOf x.path f.path :=
      mem_filesFor.mp (hf ▸ List.mem_singleton_self f)
    have hsame : f.path = x.path := by
      have hof := hmem.2
      unfold FileOf at hof
      rwa [if_neg (hpath ▸ assumedVdso_ne)] at hof
    rw [hadded] at hmem
    obtain hold | hnew := List.mem_append.mp hmem.1
    · exact ⟨f, hold, hsame⟩
    · exact absurd (hsame.trans hpath) (hpaths f hnew)
  obtain ⟨rfl, hall⟩ := forM_turn_ok hloop hassumed
  obtain ⟨added, hgrown, hby⟩ := grown_spec fun x hx => (hall x hx).2
  refine ⟨fun x hx => (hall x hx).1, fun x hx hnamed => ?_, t, hresolved⟩
  refine fits_of_oneFile hby hx hnamed ((hall x hx).2 hnamed) ?_
  rw [← hgrown]
  exact hone

/-- `reload_dynamic_libraries` does right by a link map if and only if its entries fit. -/
theorem reloadsRight_iff {entries : List LinkEntry} (hmap : LinkMap s entries)
    (ht : s.target.Tracked) : ReloadsRight H s entries ↔ Reloadable H s entries :=
  ⟨ReloadsRight.reloadable hmap, Reloadable.reloadsRight hmap ht⟩

def oneLibrary : Host Unit where
  contents _ path := if path = Path.ofText (text "/a.so") then some [0x7f#8] else none
  parse _ := .ok { loadBias := 0#64, sectionHeaders := [] }
  makeDirectory _ := none
  write disk _ _ := disk
  lookups _ := Target.stripped

/-- The link map of a program and an entry with this name at 0x7000. -/
def mapped (name : List Byte) : Memory where
  byte a :=
    if a = 0x1009#64 then 0x20#8
    else if a = 0x2009#64 then 0x30#8
    else if a = 0x2019#64 then 0x21#8
    else if a = 0x2101#64 then 0x70#8
    else if a = 0x2108#64 then 0x01#8
    else if a = 0x2109#64 then 0x30#8
    else if 0x3001 ≤ a.toNat then (name[a.toNat - 0x3001]?).getD 0#8
    else 0#8
  mapped _ := true

def linking (name : List Byte) : Loading Unit where
  target :=
    { Target.stoppedTarget Target.stripped with
      process := { (Target.stoppedTarget Target.stripped).process with memory := mapped name } }
  elves := [⟨Path.ofText (text "/main"), { loadBias := 0#64, sectionHeaders := [] }⟩]
  disk := ()
  rendezvous := 0x1000#64

def linked (name : List Byte) : List LinkEntry := [⟨[], 0#64⟩, ⟨name, 0x7000#64⟩]

theorem linkMap_linking {name : List Byte} (hnoNul : 0#8 ∉ name)
    (hspelled : (mapped name).bytes 0x3001#64 (name.length + 1) = name ++ [0#8])
    (hwords : [0x1008#64, 0x2000#64, 0x2008#64, 0x2018#64, 0x2100#64, 0x2108#64, 0x2118#64].map
      (mapped name).word =
        [0x2000#64, 0#64, 0x3000#64, 0x2100#64, 0x7000#64, 0x3001#64, 0#64]) :
    LinkMap (linking name) (linked name) := by
  have hall (a : VirtAddr) (n : ℕ) : (mapped name).isMapped a n = true :=
    Memory.isMapped_of_all (fun _ => rfl) a n
  simp only [List.map_cons, List.map_nil, List.cons.injEq, and_true] at hwords
  obtain ⟨hhead, haddr, hname, hnext, haddr', hname', hnext'⟩ := hwords
  refine ⟨fun _ _ _ => rfl, (by decide : 0x1000#64 ≠ 0#64), hall _ _, ?_⟩
  change ChainAt (mapped name) ((mapped name).word 0x1008#64) (linked name)
  rw [hhead]
  refine ⟨by decide, hall _ _, haddr, ?_, ?_⟩
  · change TextAt (mapped name) ((mapped name).word 0x2008#64) []
    rw [hname]
    exact ⟨by simp, hall _ _, rfl⟩
  · change ChainAt (mapped name) ((mapped name).word 0x2018#64) [⟨name, 0x7000#64⟩]
    rw [hnext]
    refine ⟨by decide, hall _ _, haddr', ?_, hnext'⟩
    change TextAt (mapped name) ((mapped name).word 0x2108#64) name
    rw [hname']
    exact ⟨hnoNul, hall _ _, hspelled⟩

theorem linking_tracked (name : List Byte) : (linking name).target.Tracked := ⟨rfl, .nil, nofun⟩

theorem reloadsRight_iff_library :
    ReloadsRight oneLibrary (linking (text "/a.so")) (linked (text "/a.so")) := by
  refine (reloadsRight_iff (linkMap_linking (by decide) (by decide) (by decide))
    (linking_tracked _)).mpr ⟨by decide, ?_, _, rfl⟩
  refine List.forall_mem_cons.mpr ⟨fun hnamed => absurd rfl hnamed, ?_⟩
  refine List.forall_mem_singleton.mpr fun _ => .inr ⟨by decide, by decide, ⟨_, rfl⟩, ?_⟩
  refine List.forall_mem_cons.mpr ⟨fun hnamed => absurd rfl hnamed, ?_⟩
  exact List.forall_mem_singleton.mpr fun _ _ => ⟨rfl, rfl⟩

/-- The vdso under the name the kernel gives it: there is no such file. -/
theorem reloadsRight_not_for_all : ¬ ∀ (H : Host Unit) (s : Loading Unit)
    (entries : List LinkEntry), LinkMap s entries → s.target.Tracked → ReloadsRight H s entries := by
  intro h
  have hmap : LinkMap (linking dumpName) (linked dumpName) :=
    linkMap_linking (by decide) (by decide) (by decide)
  have hfits := ((h oneLibrary _ _ hmap (linking_tracked _)).reloadable hmap).fits
    ⟨dumpName, 0x7000#64⟩ (by simp [linked]) (by decide)
  obtain ⟨f, hone, -⟩ | ⟨-, -, ⟨elf, hmade⟩, -⟩ := hfits
  · have hnone : filesFor (linking dumpName).elves (Path.ofText dumpName) = [] := by decide
    change filesFor (linking dumpName).elves (Path.ofText dumpName) = [f] at hone
    rw [hnone] at hone
    cases hone
  · cases hmade

end KDebugger.Loading
