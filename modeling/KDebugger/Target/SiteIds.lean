import KDebugger.Target.LinkedSteps
import KDebugger.Target.ResolvedSites

namespace KDebugger.Target

open Exec StoppointCollection

variable {t t' : Target} {passed : List (ℕ × BitVec 32)}

def passedBy (p : ResolvingM Unit) (r : Resolving) : List (ℕ × BitVec 32) :=
  if r.target.objects < (after p r).target.objects then
    [(r.target.objects, r.this.nextSiteId)]
  else []

def passedByLoads : List (Except Failure VirtAddr) → Resolving → List (ℕ × BitVec 32)
  | [], _ => []
  | x :: l, r =>
    passedBy (resolveLoad x) r ++
      match resolveLoad x r with
      | .ok _ r' => passedByLoads l r'
      | .error _ _ => []

/-- The sites that `resolve` makes. -/
def passedByResolve (r : Resolving) : List (ℕ × BitVec 32) :=
  match r.this.kind with
  | .address address => passedBy (resolveAddress address) r
  | kind => passedByLoads (loads r.target.files kind) r

/-- A site is made at the address, and its memory holds the id that is passed. -/
def HoldsPassed (r : Resolving) (address : VirtAddr) : Prop :=
  StoppointCollection.containsAddress r.target.process.breakpointSites address = false →
    r.target.uninitialisedId r.target.objects = r.this.nextSiteId

/-- The same for an address that is looked up, where the counter must not wrap round. -/
def TurnHolds (r : Resolving) (x : Except Failure VirtAddr) : Prop :=
  ∀ address, x = .ok address → (∀ object ∈ r.this.sites, ¬ r.target.PointsTo object address) →
    r.this.nextSiteId ≠ BitVec.allOnes 32 ∧ HoldsPassed r address

/-- All sites that `resolve` makes hold the ids that it passes. -/
def ResolveHolds (r : Resolving) : Prop :=
  match r.this.kind with
  | .address address => r.this.sites = [] → HoldsPassed r address
  | kind => LoopSteps resolveLoad TurnHolds r (loads r.target.files kind)

/-- The ids of the sites a breakpoint holds: all different, and below the counter. -/
structure OwnIds (t : Target) (b : Breakpoint) : Prop where
  live : ∀ object ∈ b.sites, object ∈ t.siteObjects
  distinct : (b.sites.map t.uninitialisedId).Nodup
  below : (∀ address, b.kind ≠ .address address) → ∀ object ∈ b.sites,
    (t.uninitialisedId object).toNat < b.nextSiteId.toNat
  single : ∀ address, b.kind = .address address → b.sites.length ≤ 1

/-- The ids of all sites are what their memory held, and the passed ones are among them. -/
structure IdsKept (t : Target) (passed : List (ℕ × BitVec 32)) : Prop where
  tracked : t.Tracked
  ids : ∀ object site, t.Points object site → site.id = t.uninitialisedId object
  free : t.process.breakpointSites.Pairwise fun site' site =>
    site.parent = none → site.isInternal = false → site'.id ≠ site.id
  noted : ∀ object site, t.Points object site → site.parent ≠ none → (object, site.id) ∈ passed
  held : ∀ x ∈ passed, t.uninitialisedId x.1 = x.2

/-- No site goes away, and the breakpoints are the same. -/
structure Keeps (t t' : Target) : Prop where
  uninitialisedId : t'.uninitialisedId = t.uninitialisedId
  siteObjects : t.siteObjects <+: t'.siteObjects
  breakpoints : t'.breakpoints = t.breakpoints

theorem keeps : Frame Keeps where
  refl _ := ⟨rfl, List.prefix_rfl, rfl⟩
  trans h h' := ⟨h'.uninitialisedId.trans h.uninitialisedId, h.siteObjects.trans h'.siteObjects,
    h'.breakpoints.trans h.breakpoints⟩

theorem OwnIds.keeps {b : Breakpoint} (h : OwnIds t b) (hkeeps : Keeps t t') : OwnIds t' b where
  live object hobject := hkeeps.siteObjects.subset (h.live object hobject)
  distinct := by
    rw [hkeeps.uninitialisedId]
    exact h.distinct
  below := by
    rw [hkeeps.uninitialisedId]
    exact h.below
  single := h.single

theorem SameSites.symm (h : SameSites t t') : SameSites t' t where
  same := by rw [h.same]
  places := h.places.symm

theorem SameSites.keeps (h : SameSites t t') : Keeps t t' := by
  rw [h.same]
  exact ⟨rfl, List.prefix_rfl, rfl⟩

theorem IdsKept.same (h : IdsKept t passed) (hsame : SameSites t t') : IdsKept t' passed where
  tracked := h.tracked.same hsame
  ids object site hp := by
    obtain ⟨old, hold, hplace⟩ := hp.same hsame.symm
    rw [hsame.keeps.uninitialisedId, ← h.ids object old hold]
    exact (congrArg (·.1) hplace).symm
  free := by
    have hpairs : (t.process.breakpointSites.map Process.place).Pairwise fun x y =>
        y.2.2.2.2 = none → y.2.2.2.1 = false → x.1 ≠ y.1 := List.pairwise_map.mpr h.free
    rw [← hsame.places] at hpairs
    exact List.pairwise_map.mp hpairs
  noted object site hp hparent := by
    obtain ⟨old, hold, hplace⟩ := hp.same hsame.symm
    have hid : old.id = site.id := congrArg (·.1) hplace
    have hsameParent : old.parent = site.parent := congrArg (·.2.2.2.2) hplace
    rw [← hid]
    exact h.noted object old hold (hsameParent ▸ hparent)
  held := by
    rw [hsame.keeps.uninitialisedId]
    exact h.held

theorem keeps_withSite (t : Target) (site : BreakpointSite) : Keeps t (t.withSite site) :=
  ⟨rfl, List.prefix_append _ _, rfl⟩

theorem IdsKept.withSite (h : IdsKept t passed) {site : BreakpointSite}
    {new : List (ℕ × BitVec 32)} (hid : site.id = t.uninitialisedId t.objects)
    (hfree : site.parent = none → site.isInternal = false →
      ∀ old ∈ t.process.breakpointSites, old.id ≠ site.id)
    (hnoted : site.parent ≠ none → (t.objects, site.id) ∈ new)
    (hnew : ∀ x ∈ new, t.uninitialisedId x.1 = x.2) :
    IdsKept (t.withSite site) (passed ++ new) where
  tracked := h.tracked.withSite site
  ids object made hp := by
    obtain hp | ⟨rfl, rfl⟩ := points_withSite h.tracked hp
    · exact h.ids object made hp
    · exact hid
  free := by
    refine List.pairwise_append.mpr ⟨h.free, List.pairwise_singleton _ _, ?_⟩
    rintro old hold made hmade hparent hinternal
    obtain rfl := List.mem_singleton.mp hmade
    exact hfree hparent hinternal old hold
  noted object made hp hparent := by
    obtain hp | ⟨rfl, rfl⟩ := points_withSite h.tracked hp
    · exact List.mem_append_left _ (h.noted object made hp hparent)
    · exact List.mem_append_right _ (hnoted hparent)
  held x hx := by
    obtain hx | hx := List.mem_append.mp hx
    · exact h.held x hx
    · exact hnew x hx

/-- The step has made one site with this id, the last of the breakpoint. -/
structure Made (passed : List (ℕ × BitVec 32)) (r r' : Resolving) (id : BitVec 32) : Prop where
  objects : r'.target.objects = r.target.objects + 1
  memory : r.target.uninitialisedId r.target.objects = id
  kept : IdsKept r'.target (passed ++ [(r.target.objects, id)])
  keeps : Keeps r.target r'.target
  there : r.target.objects ∈ r'.target.siteObjects
  this : r'.this = { r.this with sites := r.this.sites ++ [r.target.objects] }

theorem made_addSite {r : Resolving} {address : VirtAddr} {id : BitVec 32}
    (h : IdsKept r.target passed)
    (hid : StoppointCollection.containsAddress r.target.process.breakpointSites address = false →
      r.target.uninitialisedId r.target.objects = id) :
    after (addSite address) r = r ∨ Made passed r (after (addSite address) r) id := by
  -- the constructor leaves `m_Id` as the memory was
  obtain ⟨-, hsame⟩ | ⟨hnew, hadded⟩ := after_addSite address r
  · exact .inl hsame
  · right
    let site := r.target.newSite (some r.this.object) address r.this.isHardware r.this.isInternal
    have hheld := hid hnew
    have hkept : IdsKept (pushed r address).target (passed ++ [(r.target.objects, id)]) := by
      have hparent : site.parent ≠ none := by simp [site, newSite]
      have hnoted : (r.target.objects, site.id) ∈ [(r.target.objects, id)] :=
        List.mem_singleton.mpr (congrArg (r.target.objects, ·) hheld)
      exact h.withSite rfl (fun hno => absurd hno hparent) (fun _ => hnoted) (by simpa using hheld)
    have hkeeps := keeps_withSite r.target site
    have hthere : r.target.objects ∈ (pushed r address).target.siteObjects :=
      List.mem_append_right _ (List.mem_singleton_self _)
    obtain hadded | hadded := hadded
    · rw [hadded]
      exact ⟨rfl, hheld, hkept, hkeeps, hthere, rfl⟩
    · rw [hadded]
      have henable := within_enableSite r.target.objects (pushed r address).target
      have hobjects : (after (enableSite r.target.objects) (pushed r address).target).objects =
          r.target.objects + 1 := by
        rw [henable.same]
        rfl
      exact ⟨hobjects, hheld, hkept.same henable, keeps.trans hkeeps henable.keeps,
        henable.keeps.siteObjects.subset hthere, rfl⟩

theorem toNat_add_one {n : BitVec 32} (h : n ≠ BitVec.allOnes 32) :
    (n + 1#32).toNat = n.toNat + 1 := by
  have hne : n.toNat ≠ 2 ^ 32 - 1 := fun heq => h (BitVec.eq_of_toNat_eq (by simpa using heq))
  have hlt := n.isLt
  rw [BitVec.toNat_add]
  simp only [BitVec.toNat_ofNat]
  omega

variable {b : Breakpoint}

theorem OwnIds.taken (h : OwnIds t b) (hwrap : b.nextSiteId ≠ BitVec.allOnes 32) :
    OwnIds t { b with nextSiteId := b.nextSiteId + 1#32 } where
  live := h.live
  distinct := h.distinct
  below hkind object hobject := by
    have hbelow := h.below hkind object hobject
    rw [toNat_add_one hwrap]
    exact Nat.lt_succ_of_lt hbelow
  single := h.single

theorem OwnIds.snoc (h : OwnIds t b) (hkind : ∀ address, b.kind ≠ .address address)
    (hkeeps : Keeps t t') {object : ℕ} (hthere : object ∈ t'.siteObjects)
    (hid : t.uninitialisedId object = b.nextSiteId) (hwrap : b.nextSiteId ≠ BitVec.allOnes 32) :
    OwnIds t' { b with nextSiteId := b.nextSiteId + 1#32, sites := b.sites ++ [object] } := by
  have hbelow := h.below hkind
  refine ⟨List.forall_mem_append.mpr ⟨(h.keeps hkeeps).live, by simpa using hthere⟩, ?_, fun _ => ?_,
    fun address hno => absurd hno (hkind address)⟩
  · rw [hkeeps.uninitialisedId]
    refine Splits.nodup_snoc h.distinct fun other hother heq => ?_
    have hlt := hbelow other hother
    rw [heq, hid] at hlt
    exact absurd hlt (lt_irrefl _)
  · rw [hkeeps.uninitialisedId]
    simp only [toNat_add_one hwrap, List.forall_mem_append, List.forall_mem_singleton, hid]
    exact ⟨fun other hother => Nat.lt_succ_of_lt (hbelow other hother), Nat.lt_succ_self _⟩

theorem OwnIds.only (hempty : b.sites = []) {address : VirtAddr} (hkind : b.kind = .address address)
    {object : ℕ} (hthere : object ∈ t'.siteObjects) :
    OwnIds t' { b with sites := b.sites ++ [object] } where
  live := by simpa [hempty] using hthere
  distinct := by simp [hempty]
  below hno := absurd hkind (hno address)
  single _ _ := by simp [hempty]

structure IdsAfter (passed : List (ℕ × BitVec 32)) (r r' : Resolving) : Prop where
  kept : IdsKept r'.target passed
  own : OwnIds r'.target r'.this
  keeps : Keeps r.target r'.target
  kind : r'.this.kind = r.this.kind

theorem after_resolveAt {r : Resolving} (ht : r.target.Tracked)
    (hlive : ∀ object ∈ r.this.sites, object ∈ r.target.siteObjects) (address : VirtAddr) :
    after (resolveAt address) r = r ∨
      (∀ object ∈ r.this.sites, ¬ r.target.PointsTo object address) ∧
        after (resolveAt address) r = after (addSite address) (after takeSiteId r) := by
  have hpoints : ∀ object ∈ r.this.sites, ∃ a, r.target.PointsTo object a := by
    intro object hobject
    obtain ⟨i, hi⟩ := List.getElem?_of_mem (hlive object hobject)
    have hlt : i < r.target.process.breakpointSites.length :=
      ht.parallel ▸ (List.getElem?_eq_some_iff.mp hi).1
    exact ⟨_, _, ⟨i, hi, List.getElem?_eq_getElem hlt⟩, rfl⟩
  obtain ⟨addresses, hall⟩ := exists_forall₂ hpoints
  have hlook : onTarget (containsAddress address r.this.sites) r =
      .ok (decide (address ∈ addresses)) r := by
    unfold onTarget
    rw [containsAddress_eq ht address hall]
  unfold resolveAt
  rw [after_bind_ok (get_eq r), after_bind_ok hlook]
  by_cases hmem : address ∈ addresses
  · rw [if_pos (decide_eq_true hmem)]
    exact .inl rfl
  · rw [if_neg (by simpa using hmem)]
    refine .inr ⟨fun object hobject hthere => hmem ?_, rfl⟩
    obtain ⟨site, hp, rfl⟩ := hthere
    exact mem_addresses ht hp hall hobject

theorem ids_resolveLoad {r : Resolving} (h : IdsKept r.target passed) (hown : OwnIds r.target r.this)
    (hkind : ∀ address, r.this.kind ≠ .address address) {x : Except Failure VirtAddr}
    (hholds : TurnHolds r x) :
    IdsAfter (passed ++ passedBy (resolveLoad x) r) r (after (resolveLoad x) r) := by
  have hnothing : IdsAfter (passed ++ if r.target.objects < r.target.objects then
      [(r.target.objects, r.this.nextSiteId)] else []) r r := by
    rw [if_neg (lt_irrefl _), List.append_nil]
    exact ⟨h, hown, keeps.refl _, rfl⟩
  unfold passedBy
  cases x with
  | error e => exact hnothing
  | ok address =>
    have hload : after (resolveLoad (.ok address)) r = after (resolveAt address) r := rfl
    rw [hload]
    obtain hsame | ⟨hnew, hmade⟩ := after_resolveAt h.tracked hown.live address
    · rw [hsame]
      exact hnothing
    · obtain ⟨hwrap, hheld⟩ := hholds address rfl hnew
      rw [hmade]
      obtain hsame | hmade := made_addSite (r := after takeSiteId r) h hheld
      · rw [hsame]
        change IdsAfter (passed ++ if r.target.objects < r.target.objects then _ else []) r _
        rw [if_neg (lt_irrefl _), List.append_nil]
        exact ⟨h, hown.taken hwrap, keeps.refl _, rfl⟩
      · have hlt : r.target.objects < (after (addSite address) (after takeSiteId r)).target.objects := by
          rw [hmade.objects]
          exact Nat.lt_succ_self _
        rw [if_pos hlt]
        refine ⟨hmade.kept, ?_, hmade.keeps, ?_⟩
        · rw [hmade.this]
          exact hown.snoc hkind hmade.keeps hmade.there hmade.memory hwrap
        · rw [hmade.this]
          rfl

theorem ids_loads : ∀ {l : List (Except Failure VirtAddr)} {r : Resolving}
    {passed : List (ℕ × BitVec 32)}, IdsKept r.target passed → OwnIds r.target r.this →
      (∀ address, r.this.kind ≠ .address address) → LoopSteps resolveLoad TurnHolds r l →
      IdsAfter (passed ++ passedByLoads l r) r (after (l.forM resolveLoad) r) := by
  intro l
  induction l with
  | nil =>
    intro r passed h hown _ _
    change IdsAfter (passed ++ []) r r
    rw [List.append_nil]
    exact ⟨h, hown, keeps.refl _, rfl⟩
  | cons x l ih =>
    intro r passed h hown hkind hsteps
    have hfirst := ids_resolveLoad h hown hkind hsteps.1
    change IdsAfter _ r (after (resolveLoad x >>= fun _ => l.forM resolveLoad) r)
    unfold passedByLoads
    cases hx : resolveLoad x r with
    | error e r' =>
      rw [after_bind_error hx]
      rw [after, hx] at hfirst
      simpa using hfirst
    | ok _ r' =>
      rw [after_bind_ok hx]
      rw [after, hx] at hfirst
      have hkind' : ∀ address, r'.this.kind ≠ .address address := by
        rw [hfirst.kind]
        exact hkind
      have hrest := ih hfirst.kept hfirst.own hkind' (hsteps.2 r' hx)
      rw [List.append_assoc] at hrest
      exact ⟨hrest.kept, hrest.own, keeps.trans hfirst.keeps hrest.keeps,
        hrest.kind.trans hfirst.kind⟩

theorem ids_resolveAddress {r : Resolving} (h : IdsKept r.target passed)
    (hown : OwnIds r.target r.this) {address : VirtAddr} (hkind : r.this.kind = .address address)
    (hholds : r.this.sites = [] → HoldsPassed r address) :
    IdsAfter (passed ++ passedBy (resolveAddress address) r) r (after (resolveAddress address) r) := by
  have hnothing : IdsAfter (passed ++ if r.target.objects < r.target.objects then
      [(r.target.objects, r.this.nextSiteId)] else []) r r := by
    rw [if_neg (lt_irrefl _), List.append_nil]
    exact ⟨h, hown, keeps.refl _, rfl⟩
  unfold passedBy
  cases hsites : r.this.sites with
  | cons object objects =>
    have hsame : after (resolveAddress address) r = r := by
      unfold resolveAddress
      rw [after_bind_ok (get_eq r), hsites]
      rfl
    rw [hsame]
    exact hnothing
  | nil =>
    have hadd : after (resolveAddress address) r = after (addSite address) r := by
      unfold resolveAddress
      rw [after_bind_ok (get_eq r), hsites]
      rfl
    rw [hadd]
    obtain hsame | hmade := made_addSite h (hholds hsites)
    · rw [hsame]
      exact hnothing
    · have hlt : r.target.objects < (after (addSite address) r).target.objects := by
        rw [hmade.objects]
        exact Nat.lt_succ_self _
      rw [if_pos hlt]
      refine ⟨hmade.kept, ?_, hmade.keeps, by rw [hmade.this]⟩
      rw [hmade.this]
      exact OwnIds.only hsites hkind hmade.there

theorem ids_resolve {r : Resolving} (h : IdsKept r.target passed) (hown : OwnIds r.target r.this)
    (hholds : ResolveHolds r) :
    IdsAfter (passed ++ passedByResolve r) r (after resolve r) := by
  unfold ResolveHolds at hholds
  unfold passedByResolve
  cases hkind : r.this.kind with
  | address address =>
    rw [hkind] at hholds
    have hresolve : after resolve r = after (resolveAddress address) r := by
      unfold resolve
      rw [after_bind_ok (get_eq r), hkind]
    rw [hresolve]
    exact ids_resolveAddress h hown hkind hholds
  | function _ | line _ _ =>
    rw [hkind] at hholds
    have hother : ∀ address, r.this.kind ≠ .address address := by simp [hkind]
    have hresolve : after resolve r = after ((loads r.target.files r.this.kind).forM resolveLoad) r := by
      unfold after
      rw [resolve_eq hother]
    rw [hresolve, hkind]
    exact ids_loads h hown hother hholds

end KDebugger.Target
