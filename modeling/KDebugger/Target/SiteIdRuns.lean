import KDebugger.Target.SiteIds

namespace KDebugger.Target

open Exec StoppointCollection

variable {t t' : Target} {passed : List (ℕ × BitVec 32)}

inductive SiteCommand where
  /-- `create_breakpoint_site` without a parent -/
  | createSite (address : VirtAddr) (hardware internal : Bool)
  | createBreakpoint (kind : BreakpointKind) (hardware internal : Bool)
  /-- `resolve` of one breakpoint, with the files that are loaded then -/
  | resolve (files : Files) (i : ℕ)
  | enable (i : ℕ)
  | disable (i : ℕ)
  | removeSiteById (id : BitVec 32)
  | removeSiteByAddress (address : VirtAddr)
  | removeBreakpoint (id : BitVec 32)

def execSiteCommand : SiteCommand → TargetM Unit
  | .createSite address hardware internal => do
    let _ ← createBreakpointSite none address hardware internal
    pure ()
  | .createBreakpoint kind hardware internal => createBreakpoint kind hardware internal
  | .resolve files i => do
    modify fun t => { t with files }
    resolveAgain i
  | .enable i => enableBreakpoint i
  | .disable i => disableBreakpoint i
  | .removeSiteById id => removeSiteById id
  | .removeSiteByAddress address => removeSiteByAddress address
  | .removeBreakpoint id => removeBreakpointById id

/-- The sites that a command makes for breakpoints, with the ids passed for them. -/
def passedIds (t : Target) : SiteCommand → List (ℕ × BitVec 32)
  | .createBreakpoint kind hardware internal =>
    passedByResolve (constructing t kind hardware internal)
  | .resolve files i =>
    match t.breakpoints[i]? with
    | none => []
    | some b => passedByResolve ⟨{ t with files }, b⟩
  | _ => []

def passedInRun : Target → List SiteCommand → List (ℕ × BitVec 32)
  | _, [] => []
  | t, c :: cs => passedIds t c ++ passedInRun (after (execSiteCommand c) t) cs

/-- No breakpoint points to the site at this position. -/
def Unheld (t : Target) (i : ℕ) : Prop :=
  ∀ object, t.siteObjects[i]? = some object → ∀ b ∈ t.breakpoints, object ∉ b.sites

/-- What a new site finds in its memory is the id it should have, and no pointer is left to
a site that is removed. -/
def IdsHappen (t : Target) : SiteCommand → Prop
  | .createSite address _ internal => internal = false →
    StoppointCollection.containsAddress t.process.breakpointSites address = false →
      ∀ site ∈ t.process.breakpointSites, site.id ≠ t.uninitialisedId t.objects
  | .createBreakpoint kind hardware internal => ResolveHolds (constructing t kind hardware internal)
  | .resolve files i => ∀ b, t.breakpoints[i]? = some b → ResolveHolds ⟨{ t with files }, b⟩
  | .removeSiteById id => ∀ i, findById t.process.breakpointSites id = some i → Unheld t i
  | .removeSiteByAddress address =>
    ∀ i, findByAddress t.process.breakpointSites address = some i → Unheld t i
  | .enable _ | .disable _ | .removeBreakpoint _ => True

/-- Ids name sites: in the collection of a breakpoint, and those without a parent in that of
the process. -/
structure IdsRight (t : Target) (passed : List (ℕ × BitVec 32)) : Prop where
  own : ∀ b ∈ t.breakpoints, b.sites.Pairwise fun object object' =>
    ∀ site site', t.Points object site → t.Points object' site' → site.id ≠ site'.id
  ownFound : ∀ b ∈ t.breakpoints, ∀ object ∈ b.sites, ∀ site, t.Points object site →
    siteById site.id b.sites t = .ok object t
  free : ((t.process.breakpointSites.filter fun site =>
    site.parent = none ∧ site.isInternal = false).map BreakpointSite.id).Nodup
  freeFound : ∀ i site, t.process.breakpointSites[i]? = some site → site.parent = none →
    site.isInternal = false → Process.siteById site.id t.process = .ok i t.process
  passed : ∀ object site, t.Points object site → site.parent ≠ none →
    (object, site.id) ∈ passed ∧ ∀ id, (object, id) ∈ passed → id = site.id

/-- The invariant of runs. -/
structure AllIds (t : Target) (passed : List (ℕ × BitVec 32)) : Prop extends IdsKept t passed where
  own : ∀ b ∈ t.breakpoints, OwnIds t b

theorem AllIds.same (h : AllIds t passed) (hsame : SameSites t t') : AllIds t' passed where
  toIdsKept := h.toIdsKept.same hsame
  own := by
    rw [hsame.keeps.breakpoints]
    exact fun b hb => (h.own b hb).keeps hsame.keeps

theorem IdsKept.moved (h : IdsKept t passed) (hprocess : t'.process = t.process)
    (hsiteObjects : t'.siteObjects = t.siteObjects) (hobjects : t.objects ≤ t'.objects)
    (hmemory : t'.uninitialisedId = t.uninitialisedId) : IdsKept t' passed := by
  have hpoints : ∀ object site, t'.Points object site ↔ t.Points object site := by
    intro object site
    unfold Points
    rw [hprocess, hsiteObjects]
  refine ⟨⟨?_, ?_, ?_⟩, ?_, ?_, ?_, ?_⟩
  · rw [hprocess, hsiteObjects]
    exact h.tracked.parallel
  · rw [hsiteObjects]
    exact h.tracked.nodup
  · rw [hsiteObjects]
    exact fun object hobject => (h.tracked.fresh object hobject).trans_le hobjects
  · simp only [hpoints, hmemory]
    exact h.ids
  · rw [hprocess]
    exact h.free
  · simp only [hpoints]
    exact h.noted
  · rw [hmemory]
    exact h.held

theorem OwnIds.congr {b b' : Breakpoint} (h : OwnIds t b) (hobjects : t'.siteObjects = t.siteObjects)
    (hmemory : t'.uninitialisedId = t.uninitialisedId) (hsites : b'.sites = b.sites)
    (hnext : b'.nextSiteId = b.nextSiteId) (hkind : b'.kind = b.kind) : OwnIds t' b' where
  live := by
    rw [hsites, hobjects]
    exact h.live
  distinct := by
    rw [hsites, hmemory]
    exact h.distinct
  below := by
    rw [hsites, hmemory, hnext, hkind]
    exact h.below
  single := by
    rw [hsites, hkind]
    exact h.single

theorem allIds_createSite (h : AllIds t passed) {address : VirtAddr} {hardware internal : Bool}
    (hnew : IdsHappen t (.createSite address hardware internal)) :
    AllIds (after (execSiteCommand (.createSite address hardware internal)) t) passed := by
  have hcreate := createBreakpointSite_eq (t := t) none address hardware internal
  unfold execSiteCommand
  split_ifs at hcreate with hthere
  · rw [after_bind_error hcreate]
    exact h
  · rw [after_bind_ok hcreate]
    let site := t.newSite none address hardware internal
    have hfree : site.parent = none → site.isInternal = false →
        ∀ old ∈ t.process.breakpointSites, old.id ≠ site.id :=
      fun _ hinternal old hold => hnew hinternal (by simpa using hthere) old hold
    have hnoted : site.parent ≠ none → (t.objects, site.id) ∈ ([] : List (ℕ × BitVec 32)) :=
      fun hno => absurd rfl hno
    have hkept := h.toIdsKept.withSite rfl hfree hnoted (by simp)
    rw [List.append_nil] at hkept
    exact ⟨hkept, fun b hb => (h.own b hb).keeps (keeps_withSite t _)⟩

theorem allIds_createBreakpoint (h : AllIds t passed) {kind : BreakpointKind}
    {hardware internal : Bool} (hholds : ResolveHolds (constructing t kind hardware internal)) :
    AllIds (after (createBreakpoint kind hardware internal) t)
      (passed ++ passedByResolve (constructing t kind hardware internal)) := by
  let r := constructing t kind hardware internal
  have hstart : IdsKept r.target passed := h.toIdsKept.moved rfl rfl (Nat.le_succ _) rfl
  have hkeeps : Keeps t r.target := ⟨rfl, List.prefix_rfl, rfl⟩
  have hthis : OwnIds r.target r.this := ⟨nofun, .nil, nofun, fun _ _ => Nat.zero_le _⟩
  have hresolve := ids_resolve hstart hthis hholds
  have hothers : ∀ b ∈ (after resolve r).target.breakpoints, OwnIds (after resolve r).target b := by
    rw [hresolve.keeps.breakpoints]
    exact fun b hb => ((h.own b hb).keeps hkeeps).keeps hresolve.keeps
  have hcreate := createBreakpoint_eq t kind hardware internal
  cases hr : resolve r with
  | error e r' =>
    rw [show resolve (constructing t kind hardware internal) = _ from hr] at hcreate
    rw [after, hr] at hresolve hothers
    rw [after, hcreate]
    exact ⟨hresolve.kept, hothers⟩
  | ok _ r' =>
    rw [show resolve (constructing t kind hardware internal) = _ from hr] at hcreate
    rw [after, hr] at hresolve hothers
    rw [after, hcreate]
    refine ⟨hresolve.kept.moved rfl rfl le_rfl rfl, ?_⟩
    refine List.forall_mem_append.mpr ⟨fun b hb => (hothers b hb).congr rfl rfl rfl rfl rfl, ?_⟩
    rw [List.forall_mem_singleton]
    exact hresolve.own.congr rfl rfl rfl rfl rfl

theorem allIds_resolve (h : AllIds t passed) {files : Files} {i : ℕ}
    (hholds : IdsHappen t (.resolve files i)) :
    AllIds (after (execSiteCommand (.resolve files i)) t) (passed ++ passedIds t (.resolve files i)) := by
  let t₁ : Target := { t with files }
  change AllIds (after (resolveAgain i) t₁) _
  have hstart : IdsKept t₁ passed := h.toIdsKept.moved rfl rfl le_rfl rfl
  cases hi : t.breakpoints[i]? with
  | none =>
    have hpassed : passedIds t (.resolve files i) = [] := by simp only [passedIds, hi]
    have hnone : after (resolveAgain i) t₁ = t₁ := by
      unfold after resolveAgain
      simp only [t₁, hi]
    rw [hnone, hpassed, List.append_nil]
    exact ⟨hstart, fun b hb => (h.own b hb).congr rfl rfl rfl rfl rfl⟩
  | some b =>
    have hpassed : passedIds t (.resolve files i) = passedByResolve ⟨t₁, b⟩ := by
      simp only [passedIds, hi, t₁]
    have hown : OwnIds t₁ b := (h.own b (List.mem_of_getElem? hi)).congr rfl rfl rfl rfl rfl
    have hresolve := ids_resolve (r := ⟨t₁, b⟩) hstart hown (hholds b hi)
    rw [after_resolveAgain (t := t₁) hi, hpassed]
    refine ⟨hresolve.kept.moved rfl rfl le_rfl rfl, fun b' hb' => ?_⟩
    obtain hold | rfl := List.mem_or_eq_of_mem_set hb'
    · rw [hresolve.keeps.breakpoints] at hold
      have hold₁ : OwnIds t₁ b' := (h.own b' hold).congr rfl rfl rfl rfl rfl
      exact (hold₁.keeps hresolve.keeps).congr rfl rfl rfl rfl rfl
    · exact hresolve.own.congr rfl rfl rfl rfl rfl

theorem within_disableSite (object : ℕ) : Within SameSites (disableSite object) :=
  sameSites.bind (within_siteIndex object) fun i =>
    within_onProcess fun s => (Process.within_disableSite i s).places

/-- The body of `enable` and of `disable`. -/
theorem allIds_allSites {act : ℕ → TargetM Unit} (hact : ∀ object, Within SameSites (act object))
    (enabled : Bool) (i : ℕ) (h : AllIds t passed) : AllIds (after (do
      modifyBreakpoint i fun b => { b with isEnabled := enabled }
      let b ← breakpointAt i
      b.sites.forM act) t) passed := by
  let t₁ := after (modifyBreakpoint i fun b => { b with isEnabled := enabled }) t
  have hstart : AllIds t₁ passed := by
    refine ⟨h.toIdsKept.moved rfl rfl le_rfl rfl, fun b hb => ?_⟩
    obtain ⟨j, hj⟩ := List.getElem?_of_mem hb
    change (t.breakpoints.modify i _)[j]? = some b at hj
    rw [List.getElem?_modify] at hj
    obtain ⟨old, hold, rfl⟩ := Option.map_eq_some_iff.mp hj
    have hown := h.own old (List.mem_of_getElem? hold)
    split_ifs <;> exact hown.congr rfl rfl rfl rfl rfl
  change AllIds (after (do
    let b ← breakpointAt i
    b.sites.forM act) t₁) passed
  obtain hnone | ⟨b, -, hb⟩ := breakpointAt_cases i t₁
  · rw [after_bind_error hnone]
    exact hstart
  · rw [after_bind_ok hb]
    exact hstart.same (sameSites.forM hact b.sites t₁)

theorem allIds_erased (h : AllIds t passed) {i : ℕ} (hunheld : Unheld t i) :
    AllIds (t.erased i) passed where
  tracked := by
    refine ⟨?_, h.tracked.nodup.eraseIdx i, fun object ho => ?_⟩
    · change (t.siteObjects.eraseIdx i).length = (t.process.breakpointSites.eraseIdx i).length
      rw [List.length_eraseIdx, List.length_eraseIdx, h.tracked.parallel]
    · exact h.tracked.fresh object (List.mem_of_mem_eraseIdx ho)
  ids object site hp := h.ids object site (points_erased hp)
  free := h.free.sublist (List.eraseIdx_sublist _ _)
  noted object site hp := h.noted object site (points_erased hp)
  held := h.held
  own b hb := by
    have hown := h.own b hb
    refine ⟨fun object hobject => ?_, hown.distinct, hown.below, hown.single⟩
    obtain ⟨j, hj⟩ := List.getElem?_of_mem (hown.live object hobject)
    refine List.mem_eraseIdx_iff_getElem?.mpr ⟨j, ?_, hj⟩
    rintro rfl
    exact hunheld object hj b hb hobject

theorem allIds_removeSiteById (h : AllIds t passed) {id : BitVec 32}
    (hunheld : IdsHappen t (.removeSiteById id)) : AllIds (after (removeSiteById id) t) passed := by
  obtain hstays | ⟨i, t₁, hfind, hstays, herased⟩ := removeSiteById_cases id t
  · exact h.same hstays.sameSites
  · rw [herased]
    apply allIds_erased (h.same hstays.sameSites)
    have hthere := hunheld i hfind
    rw [hstays.same]
    exact hthere

theorem allIds_removeSiteByAddress (h : AllIds t passed) {address : VirtAddr}
    (hunheld : IdsHappen t (.removeSiteByAddress address)) :
    AllIds (after (removeSiteByAddress address) t) passed := by
  cases hfind : findByAddress t.process.breakpointSites address with
  | none =>
    have hprocess : Process.removeSiteByAddress address t.process = .error .undefined t.process := by
      unfold Process.removeSiteByAddress
      rw [bind_ok (get_eq _), hfind]
      rfl
    have hnothing : onProcess (Process.removeSiteByAddress address) t = .error .undefined t := by
      unfold onProcess
      rw [hprocess]
    unfold removeSiteByAddress
    rw [after_bind_ok (get_eq t), after_bind_error hnothing]
    exact h
  | some i =>
    unfold after
    rw [removeSiteByAddress_eq hfind]
    exact allIds_erased h (hunheld i hfind)

theorem allIds_removeBreakpoint (h : AllIds t passed) (id : BitVec 32) :
    AllIds (after (removeBreakpointById id) t) passed := by
  -- its sites stay, and keep their ids
  unfold removeBreakpointById
  rw [after_bind_ok (get_eq t)]
  cases t.findBreakpoint id with
  | none => exact h
  | some i =>
    have hdisabled : AllIds (after (disableBreakpoint i) t) passed :=
      allIds_allSites within_disableSite false i h
    cases hok : disableBreakpoint i t with
    | error e t' =>
      rw [after, hok] at hdisabled
      rw [after_bind_error hok]
      exact hdisabled
    | ok _ t' =>
      rw [after, hok] at hdisabled
      rw [after_bind_ok hok]
      refine ⟨hdisabled.toIdsKept.moved rfl rfl le_rfl rfl, fun b hb => ?_⟩
      exact (hdisabled.own b (List.mem_of_mem_eraseIdx hb)).congr rfl rfl rfl rfl rfl

theorem allIds_step (h : AllIds t passed) {c : SiteCommand} (hhappen : IdsHappen t c) :
    AllIds (after (execSiteCommand c) t) (passed ++ passedIds t c) := by
  cases c with
  | createBreakpoint kind hardware internal => exact allIds_createBreakpoint h hhappen
  | resolve files i => exact allIds_resolve h hhappen
  | createSite address hardware internal =>
    exact (List.append_nil passed).symm ▸ allIds_createSite h hhappen
  | enable i => exact (List.append_nil passed).symm ▸ allIds_allSites within_enableSite true i h
  | disable i => exact (List.append_nil passed).symm ▸ allIds_allSites within_disableSite false i h
  | removeSiteById id => exact (List.append_nil passed).symm ▸ allIds_removeSiteById h hhappen
  | removeSiteByAddress address =>
    exact (List.append_nil passed).symm ▸ allIds_removeSiteByAddress h hhappen
  | removeBreakpoint id => exact (List.append_nil passed).symm ▸ allIds_removeBreakpoint h id

theorem allIds_run : ∀ {cs : List SiteCommand} {t : Target} {passed : List (ℕ × BitVec 32)},
    AllIds t passed → AllSteps execSiteCommand IdsHappen t cs →
      AllIds (runAll execSiteCommand t cs) (passed ++ passedInRun t cs) := by
  intro cs
  induction cs with
  | nil => exact fun h _ => by simpa [passedInRun] using h
  | cons c cs ih =>
    intro t passed h hsteps
    have hrest := ih (allIds_step h hsteps.1) hsteps.2
    rwa [List.append_assoc] at hrest

theorem OwnIds.pairwise {b : Breakpoint} (h : IdsKept t passed) (hown : OwnIds t b) :
    b.sites.Pairwise fun object object' =>
      ∀ site site', t.Points object site → t.Points object' site' → site.id ≠ site'.id := by
  have hpairs := List.pairwise_map.mp hown.distinct
  refine hpairs.imp fun hne site site' hp hp' => ?_
  rw [h.ids _ _ hp, h.ids _ _ hp']
  exact hne

/-- `get_by_id` in a collection of live sites with different ids. -/
theorem siteById_eq (h : IdsKept t passed) : ∀ {objects : List ℕ},
    (∀ object ∈ objects, object ∈ t.siteObjects) → (objects.map t.uninitialisedId).Nodup →
      ∀ object ∈ objects, ∀ site, t.Points object site →
        siteById site.id objects t = .ok object t := by
  intro objects
  induction objects with
  | nil => exact fun _ _ object hno => absurd hno List.not_mem_nil
  | cons first objects ih =>
    intro hlive hdistinct object hobject site hp
    obtain ⟨hfirst, hrest⟩ := List.forall_mem_cons.mp hlive
    rw [List.map_cons, List.nodup_cons] at hdistinct
    obtain ⟨i, hi⟩ := List.getElem?_of_mem hfirst
    have hlt : i < t.process.breakpointSites.length :=
      h.tracked.parallel ▸ (List.getElem?_eq_some_iff.mp hi).1
    have hpfirst : t.Points first t.process.breakpointSites[i] :=
      ⟨i, hi, List.getElem?_eq_getElem hlt⟩
    unfold siteById
    rw [bind_ok (siteOf_eq h.tracked hpfirst), h.ids _ _ hpfirst, h.ids _ _ hp]
    obtain rfl | hin := List.mem_cons.mp hobject
    · rw [if_pos rfl]
      rfl
    · have hne : t.uninitialisedId first ≠ t.uninitialisedId object := by
        intro heq
        exact hdistinct.1 (heq ▸ List.mem_map_of_mem hin)
      rw [if_neg hne, ← h.ids _ _ hp]
      exact ih hrest hdistinct.2 object hin site hp

theorem IdsKept.found (h : IdsKept t passed) {i : ℕ} {site : BreakpointSite}
    (hi : t.process.breakpointSites[i]? = some site) (hparent : site.parent = none)
    (hinternal : site.isInternal = false) :
    Process.siteById site.id t.process = .ok i t.process := by
  obtain ⟨hlt, rfl⟩ := List.getElem?_eq_some_iff.mp hi
  have hfind : findById t.process.breakpointSites t.process.breakpointSites[i].id = some i := by
    unfold findById
    rw [List.findIdx?_eq_some_iff_getElem]
    refine ⟨hlt, beq_self_eq_true _, fun j hj => ?_⟩
    have hne := List.pairwise_iff_getElem.mp h.free j i (by omega) hlt hj hparent hinternal
    simpa [Stoppoint.id] using hne
  unfold Process.siteById
  rw [bind_ok (get_eq _), hfind]
  rfl

theorem AllIds.right (h : AllIds t passed) : IdsRight t passed where
  own b hb := (h.own b hb).pairwise h.toIdsKept
  ownFound b hb := siteById_eq h.toIdsKept (h.own b hb).live (h.own b hb).distinct
  free := by
    rw [List.Nodup, List.pairwise_map, List.pairwise_filter]
    refine h.free.imp fun hne _ hfree => ?_
    obtain ⟨hparent, hinternal⟩ := of_decide_eq_true hfree
    exact hne hparent hinternal
  freeFound i site := h.toIdsKept.found
  passed object site hp hparent := by
    refine ⟨h.noted object site hp hparent, fun id hid => ?_⟩
    rw [h.ids object site hp]
    exact (h.held _ hid).symm

theorem idsRight_of_run (t : Target) (hsites : t.process.breakpointSites = [])
    (hobjects : t.siteObjects = []) (hbreakpoints : t.breakpoints = []) (cs : List SiteCommand)
    (hcs : AllSteps execSiteCommand IdsHappen t cs) :
    IdsRight (runAll execSiteCommand t cs) (passedInRun t cs) := by
  have hpoints : ∀ object site, ¬ t.Points object site := by
    rintro object site ⟨i, hi, -⟩
    simp [hobjects] at hi
  have hstart : AllIds t [] := by
    refine ⟨⟨⟨by rw [hobjects, hsites]; rfl, by simp [hobjects], by simp [hobjects]⟩, ?_, ?_, ?_, ?_⟩, ?_⟩
    · exact fun object site hp => absurd hp (hpoints object site)
    · simp [hsites]
    · exact fun object site hp => absurd hp (hpoints object site)
    · simp
    · simp [hbreakpoints]
  exact (allIds_run hstart hcs).right

/-- The memory of new objects happens to hold the right numbers; the third object is the
breakpoint of `twoSites` and the fourth its site. -/
def luckyMemory : Target :=
  { stoppedTarget stripped with uninitialisedId := fun o => if o = 3 then 1#32 else BitVec.ofNat 32 (o + 1) }

def twoSites : List SiteCommand :=
  [.createSite 0x1000#64 false false, .createSite 0x2000#64 false false,
    .createBreakpoint (.address 0x3000#64) false false, .removeSiteById 2#32]

theorem idsRight_twoSites :
    IdsRight (runAll execSiteCommand luckyMemory twoSites) (passedInRun luckyMemory twoSites) := by
  refine idsRight_of_run luckyMemory rfl rfl rfl twoSites ⟨?_, ?_, ?_, ?_, trivial⟩
  · exact fun _ _ site hsite => absurd hsite List.not_mem_nil
  · intro _ _
    decide
  · exact fun _ _ => rfl
  · intro i hi object hobject b hb
    obtain rfl : 1 = i := Option.some.inj hi
    obtain rfl : 1 = object := Option.some.inj hobject
    obtain rfl := List.mem_singleton.mp hb
    decide

/-- Memory that holds zeros, and two sites. -/
theorem idsRight_not_for_all : ¬ ∀ (t : Target) (cs : List SiteCommand),
    t.process.breakpointSites = [] → t.siteObjects = [] → t.breakpoints = [] →
    IdsRight (runAll execSiteCommand t cs) (passedInRun t cs) := by
  intro h
  have hfree := (h (stoppedTarget stripped)
    [.createSite 0x1000#64 false false, .createSite 0x2000#64 false false] rfl rfl rfl).free
  exact absurd hfree (by decide)

end KDebugger.Target
