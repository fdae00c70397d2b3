import KDebugger.Target.FunctionSites

namespace KDebugger.Target

open Dwarf Exec StoppointCollection

/-- What the turn for one DIE looks up: its own address and then the symbols. -/
def dieLoads (f : Files) (elfFunctions : List (Option ElfId × BitVec 64)) (x : ElfId × Die) :
    List (Except Failure VirtAddr) :=
  (match Files.hasCode x.2 with
    | .error e => [.error e]
    | .ok true => [f.functionAddress x]
    | .ok false => []) ++ elfFunctions.map f.symbolAddress

/-- The load addresses that a breakpoint asks for, in this order; the first that cannot be
computed ends them. -/
def loads (f : Files) : BreakpointKind → List (Except Failure VirtAddr)
  | .address address => [.ok address]
  | .function functionName =>
    match f.findFunctions functionName with
    | .error e => [.error e]
    | .ok found => found.dwarfFunctions.flatMap (dieLoads f found.elfFunctions)
  | .line file line =>
    match f.lineEntries file line with
    | .error e => [.error e]
    | .ok entries => entries.map f.entryAddress

def resolveLoad (x : Except Failure VirtAddr) : ResolvingM Unit := do
  let loadAddress ← ofExcept x
  resolveAt loadAddress

theorem forM_flatMap {ι κ σ : Type} (g : ι → List κ) (p : κ → EStateM Failure σ PUnit)
    (l : List ι) : (l.flatMap g).forM p = l.forM fun i => (g i).forM p := by
  simp only [List.forM_eq_forM]
  induction l with
  | nil => rfl
  | cons i l ih => rw [List.flatMap_cons, List.forM_append, List.forM_cons, ih]

theorem forM_map {ι κ σ : Type} (g : ι → κ) (p : κ → EStateM Failure σ PUnit) (l : List ι) :
    (l.map g).forM p = l.forM fun i => p (g i) := by
  simp only [List.forM_eq_forM, List.forM_map]

theorem resolveDie_eq (f : Files) (elfFunctions : List (Option ElfId × BitVec 64))
    (x : ElfId × Die) :
    resolveDie f elfFunctions x = (dieLoads f elfFunctions x).forM resolveLoad := by
  have hsyms : (elfFunctions.map f.symbolAddress).forM resolveLoad =
      elfFunctions.forM (resolveSymbol f) := forM_map _ _ _
  unfold resolveDie dieLoads
  cases Files.hasCode x.2 with
  | error e => rfl
  | ok code =>
    cases code with
    | true =>
      change _ = (resolveLoad (f.functionAddress x) >>= fun _ =>
        (elfFunctions.map f.symbolAddress).forM resolveLoad)
      rw [hsyms]
      unfold resolveLoad
      rw [bind_assoc]
      rfl
    | false => exact hsyms.symm

theorem resolve_eq {t : Target} {b : Breakpoint} (hkind : ∀ address, b.kind ≠ .address address) :
    resolve ⟨t, b⟩ = (loads t.files b.kind).forM resolveLoad ⟨t, b⟩ := by
  unfold resolve loads
  rw [bind_ok (get_eq _)]
  cases hb : b.kind with
  | address address => exact absurd hb (hkind address)
  | function functionName =>
    change resolveFunction functionName ⟨t, b⟩ = _
    unfold resolveFunction
    rw [bind_ok (get_eq _)]
    dsimp only
    cases t.files.findFunctions functionName with
    | error e => rfl
    | ok found =>
      rw [bind_ok (ofExcept_ok _ _)]
      dsimp only
      rw [forM_flatMap, funext (resolveDie_eq t.files found.elfFunctions)]
  | line file line =>
    change resolveLine file line ⟨t, b⟩ = _
    unfold resolveLine
    rw [bind_ok (get_eq _)]
    dsimp only
    cases t.files.lineEntries file line with
    | error e => rfl
    | ok entries =>
      rw [bind_ok (ofExcept_ok _ _)]
      dsimp only
      rw [forM_map]
      rfl

/-- While the breakpoint is disabled, sites are only added at the end. -/
structure Adds (r r' : Resolving) : Prop where
  disabled : r'.this.isEnabled = false
  breakpoints : r'.target.breakpoints = r.target.breakpoints
  sites : r.target.process.breakpointSites <+: r'.target.process.breakpointSites

theorem adds : Frame fun r r' => r.this.isEnabled = false → Adds r r' where
  refl _ h := ⟨h, rfl, List.prefix_rfl⟩
  trans h h' hr := by
    have h₁ := h hr
    have h₂ := h' h₁.disabled
    exact ⟨h₂.disabled, h₂.breakpoints.trans h₁.breakpoints, h₁.sites.trans h₂.sites⟩

/-- A failure that is the debugger's own. -/
abbrev OnlyMarks (t t' : Target) : Prop := t' = { t with usedDestroyed := t'.usedDestroyed }

theorem onlyMarks : Frame OnlyMarks where
  refl _ := rfl
  trans h h' := by
    unfold OnlyMarks at *
    rw [h', h]

theorem marks_siteOf (object : ℕ) : Within OnlyMarks (siteOf object) := by
  refine onlyMarks.bind (fun t => ?_) fun i t => ?_
  · unfold siteIndex
    rw [after_bind_ok (get_eq t)]
    cases t.siteObjects.idxOf? object with
    | some i => exact onlyMarks.refl t
    | none => rfl
  · rw [after_onProcess]
    unfold Process.siteAt
    rw [after_bind_ok (get_eq _)]
    cases t.process.breakpointSites[i]? <;> rfl

theorem marks_containsAddress (address : VirtAddr) (objects : List ℕ) :
    Within OnlyMarks (containsAddress address objects) := by
  induction objects with
  | nil => exact onlyMarks.pure _
  | cons object objects ih =>
    exact onlyMarks.bind (marks_siteOf object) fun site => within_ite (onlyMarks.pure _) ih

theorem addSite_eq {r : Resolving} (hdisabled : r.this.isEnabled = false) (address : VirtAddr) :
    addSite address r =
      if StoppointCollection.containsAddress r.target.process.breakpointSites address then
        .error (.raised (Process.siteExists (some r.this.object) ++ toString address.toNat)) r
      else .ok () (pushed r address) := by
  unfold addSite
  rw [bind_ok (get_eq r)]
  have hcreate := createBreakpointSite_eq (t := r.target) (some r.this.object) address
    r.this.isHardware r.this.isInternal
  by_cases hthere :
      StoppointCollection.containsAddress r.target.process.breakpointSites address = true
  · rw [if_pos hthere] at hcreate ⊢
    refine bind_error ?_
    unfold onTarget
    rw [hcreate]
  · rw [if_neg hthere] at hcreate ⊢
    let site := r.target.newSite (some r.this.object) address r.this.isHardware r.this.isInternal
    have hadded : onTarget (createBreakpointSite (some r.this.object) address r.this.isHardware
        r.this.isInternal) r =
          .ok r.target.objects { r with target := r.target.withSite site } := by
      unfold onTarget
      rw [hcreate]
    refine (bind_ok hadded).trans ?_
    rewrite [hdisabled]
    rfl

theorem adds_addSite (address : VirtAddr) :
    Within (fun r r' => r.this.isEnabled = false → Adds r r') (addSite address) := by
  intro r hdisabled
  unfold after
  rw [addSite_eq hdisabled]
  split_ifs
  · exact adds.refl r hdisabled
  · exact ⟨hdisabled, rfl, List.prefix_append _ _⟩

theorem adds_resolveAt (address : VirtAddr) :
    Within (fun r r' => r.this.isEnabled = false → Adds r r') (resolveAt address) := by
  refine adds.bind adds.get fun r₀ => adds.bind (fun r hdisabled => ?_) fun there => ?_
  · have hmarks := marks_containsAddress address r₀.this.sites r.target
    rw [after_onTarget]
    exact ⟨hdisabled, by rw [hmarks], by rewrite [hmarks]; exact List.prefix_rfl⟩
  · refine within_ite (adds.pure _) (adds.bind (fun r hdisabled => ?_) fun _ => adds_addSite address)
    exact ⟨hdisabled, rfl, List.prefix_rfl⟩

theorem adds_resolveLoad (x : Except Failure VirtAddr) :
    Within (fun r r' => r.this.isEnabled = false → Adds r r') (resolveLoad x) :=
  adds.bind (adds.ofExcept x) adds_resolveAt

theorem resolveAt_first {r : Resolving} (hempty : r.this.sites = [])
    (hdisabled : r.this.isEnabled = false) (address : VirtAddr) :
    (StoppointCollection.containsAddress r.target.process.breakpointSites address = true ∧
      ∃ e r', resolveAt address r = .error e r' ∧ r'.target = r.target) ∨
    (StoppointCollection.containsAddress r.target.process.breakpointSites address = false ∧
      ∃ r', resolveAt address r = .ok () r' ∧ r'.this.isEnabled = false ∧
        r'.target.breakpoints = r.target.breakpoints ∧
        r'.target.process.breakpointSites.length =
          r.target.process.breakpointSites.length + 1) := by
  let r₁ : Resolving := { r with this := { r.this with nextSiteId := r.this.nextSiteId + 1#32 } }
  have hadd : resolveAt address r = addSite address r₁ := by
    unfold resolveAt
    rw [bind_ok (get_eq r), hempty]
    rfl
  rw [hadd, addSite_eq (r := r₁) hdisabled]
  cases hthere : StoppointCollection.containsAddress r.target.process.breakpointSites address with
  | true => exact .inl ⟨rfl, _, r₁, rfl, rfl⟩
  | false => exact .inr ⟨rfl, pushed r₁ address, rfl, hdisabled, rfl, List.length_append⟩

/-- `l` is asked for, and the loop fails. -/
theorem forM_failed {l : List (Except Failure VirtAddr)} {r r' : Resolving} {e : Failure}
    (hempty : r.this.sites = []) (hdisabled : r.this.isEnabled = false)
    (hfail : l.forM resolveLoad r = .error e r') :
    r'.target.breakpoints = r.target.breakpoints ∧
      (r'.target.process.breakpointSites = r.target.process.breakpointSites ↔
        ∀ a, l.head? = some (.ok a) →
          StoppointCollection.containsAddress r.target.process.breakpointSites a = true) := by
  cases l with
  | nil => cases hfail
  | cons x l =>
    change (resolveLoad x >>= fun _ => l.forM resolveLoad) r = _ at hfail
    cases x with
    | error e' =>
      cases hfail
      exact ⟨rfl, iff_of_true rfl (by simp)⟩
    | ok address =>
      obtain ⟨hthere, e', r₁, hfirst, hsame⟩ | ⟨hnew, r₁, hfirst, hdisabled₁, hbreakpoints, hlength⟩ :=
        resolveAt_first hempty hdisabled address
      · have hload : resolveLoad (.ok address) r = .error e' r₁ := hfirst
        rw [bind_error hload] at hfail
        cases hfail
        refine ⟨by rw [hsame], iff_of_true (by rw [hsame]) fun a ha => ?_⟩
        obtain rfl : address = a := by simpa using ha
        exact hthere
      · have hload : resolveLoad (.ok address) r = .ok () r₁ := hfirst
        rw [bind_ok hload] at hfail
        have hadds := adds.forM adds_resolveLoad l r₁ hdisabled₁
        unfold after at hadds
        rw [hfail] at hadds
        refine ⟨hadds.breakpoints.trans hbreakpoints, iff_of_false (fun hsame => ?_) fun h => ?_⟩
        · have := hadds.sites.length_le
          rw [hlength, hsame] at this
          omega
        · rw [h address rfl] at hnew
          cases hnew

theorem resolve_address {t : Target} {b : Breakpoint} {address : VirtAddr} (hempty : b.sites = [])
    (hkind : b.kind = .address address) : resolve ⟨t, b⟩ = addSite address ⟨t, b⟩ := by
  unfold resolve
  rw [bind_ok (get_eq _), hkind]
  change resolveAddress address ⟨t, b⟩ = _
  unfold resolveAddress
  rw [bind_ok (get_eq _), hempty]
  rfl

theorem resolve_failed {t : Target} {b : Breakpoint} {r' : Resolving} {e : Failure}
    (hempty : b.sites = []) (hdisabled : b.isEnabled = false)
    (hfail : resolve ⟨t, b⟩ = .error e r') :
    r'.target.breakpoints = t.breakpoints ∧
      (r'.target.process.breakpointSites = t.process.breakpointSites ↔
        ∀ a, (loads t.files b.kind).head? = some (.ok a) →
          StoppointCollection.containsAddress t.process.breakpointSites a = true) := by
  by_cases hkind : ∃ address, b.kind = .address address
  · obtain ⟨address, hkind⟩ := hkind
    rw [resolve_address hempty hkind, addSite_eq (r := ⟨t, b⟩) hdisabled] at hfail
    split_ifs at hfail with hthere
    cases hfail
    refine ⟨rfl, iff_of_true rfl fun a ha => ?_⟩
    rw [hkind] at ha
    obtain rfl : address = a := by simpa [loads] using ha
    exact hthere
  · rw [resolve_eq fun address h => hkind ⟨address, h⟩] at hfail
    exact forM_failed hempty hdisabled hfail

/-- The sites and the breakpoints are those from before, and no site belongs to the
breakpoint that was not created. -/
structure Undone (t t' : Target) : Prop where
  sites : t'.process.breakpointSites = t.process.breakpointSites
  breakpoints : t'.breakpoints = t.breakpoints
  parents : ∀ site ∈ t'.process.breakpointSites, site.parent ≠ some t.objects

/-- What the constructor of a new breakpoint starts from. -/
def constructing (t : Target) (kind : BreakpointKind) (hardware internal : Bool) : Resolving where
  target := { t with
    objects := t.objects + 1
    lastBreakpointId := if internal then t.lastBreakpointId else t.lastBreakpointId + 1#32 }
  this :=
    { object := t.objects
      id := if internal then -1#32 else t.lastBreakpointId + 1#32
      isHardware := hardware
      isInternal := internal
      kind := kind }

theorem createBreakpoint_eq (t : Target) (kind : BreakpointKind) (hardware internal : Bool) :
    createBreakpoint kind hardware internal t =
      match resolve (constructing t kind hardware internal) with
      | .ok _ r => .ok () { r.target with breakpoints := r.target.breakpoints ++ [r.this] }
      | .error e r => .error e r.target := by
  cases internal <;> rfl

/-- A creation that fails is undone exactly when its first address was not free. -/
theorem failedCreation_iff {t t' : Target} {kind : BreakpointKind} {hardware internal : Bool}
    {e : Failure} (hfresh : ∀ site ∈ t.process.breakpointSites, site.parent ≠ some t.objects)
    (hfail : createBreakpoint kind hardware internal t = .error e t') :
    Undone t t' ↔ ∀ a, (loads t.files kind).head? = some (.ok a) →
      StoppointCollection.containsAddress t.process.breakpointSites a = true := by
  -- the sites that were handed over before stay in the process
  rw [createBreakpoint_eq] at hfail
  cases hresolve : resolve (constructing t kind hardware internal) with
  | ok a r =>
    rw [hresolve] at hfail
    cases hfail
  | error e' r =>
    rw [hresolve] at hfail
    cases hfail
    obtain ⟨hbreakpoints, hsites⟩ := resolve_failed rfl rfl hresolve
    constructor
    · exact fun h => hsites.mp h.sites
    · intro h
      have hsame := hsites.mpr h
      exact ⟨hsame, hbreakpoints, by rw [hsame]; exact hfresh⟩

def rowAt (address : BitVec 64) : TableEntry where
  elf := 0
  table := ⟨⟨0, 0⟩, ⟨⟨0, 0⟩, []⟩, true, 0#8, 1#8, 10#8, [], []⟩
  iterator := ⟨⟨{ address := ⟨some 0, address⟩ }, {}, []⟩, some 0⟩

def twoRows : Files :=
  { stripped with lineEntries := fun _ _ => .ok [rowAt 0x1100#64, rowAt 0x1200#64] }

def secondTaken : Target :=
  let t := stoppedTarget twoRows
  t.withSite (t.newSite none 0x401200#64 false false)

theorem createBreakpoint_secondTaken :
    ∃ e t', createBreakpoint (.line [] 1) false false secondTaken = .error e t' ∧
      t'.process.breakpointSites.length = 2 := ⟨_, _, rfl, rfl⟩

theorem failedCreation_secondTaken :
    ∃ e t', createBreakpoint (.line [] 1) false false secondTaken = .error e t' ∧
      (Undone secondTaken t' ↔ ∀ a, (loads twoRows (.line [] 1)).head? = some (.ok a) →
        StoppointCollection.containsAddress secondTaken.process.breakpointSites a = true) := by
  obtain ⟨e, t', hfail, -⟩ := createBreakpoint_secondTaken
  exact ⟨e, t', hfail, failedCreation_iff (by decide) hfail⟩

/-- The site at the first row stays when the second is refused. -/
theorem failedCreation_not_for_all : ¬ ∀ (t t' : Target) (kind : BreakpointKind)
    (hardware internal : Bool) (e : Failure),
    (∀ site ∈ t.process.breakpointSites, site.parent ≠ some t.objects) →
    createBreakpoint kind hardware internal t = .error e t' → Undone t t' := by
  intro h
  obtain ⟨e, t', hfail, hlength⟩ := createBreakpoint_secondTaken
  have hsites := (h secondTaken t' _ _ _ e (by decide) hfail).sites
  rw [hsites] at hlength
  exact absurd hlength (by decide)

end KDebugger.Target
