import KDebugger.Target.Commands
import KDebugger.Target.FailedCreation

namespace KDebugger.Target

open Dwarf Exec StoppointCollection

/-- The breakpoints hold sites of the process, and the sites are theirs or nobody's. -/
structure Linked (t : Target) (breakpoints : List Breakpoint) : Prop where
  tracked : t.Tracked
  distinct : (t.process.breakpointSites.map BreakpointSite.address).Nodup
  held : ∀ b ∈ breakpoints, ∀ object ∈ b.sites,
    ∃ site, t.Points object site ∧ site.parent = some b.object
  parents : ∀ object site, t.Points object site → ∀ parent, site.parent = some parent →
    ∃ b ∈ breakpoints, b.object = parent ∧ object ∈ b.sites
  objects : (breakpoints.map Breakpoint.object).Nodup
  made : ∀ b ∈ breakpoints, b.object < t.objects
  unused : t.usedDestroyed = false

variable {t t' : Target} {bps : List Breakpoint}

/-- The sites stay where they are, and nothing but the process changes. -/
structure Stays (t t' : Target) : Prop where
  same : t' = { t with process := t'.process }
  places : t'.process.breakpointSites.map Process.place =
    t.process.breakpointSites.map Process.place

theorem stays : Frame Stays where
  refl _ := ⟨rfl, rfl⟩
  trans h h' := ⟨by rw [h'.same, h.same], h'.places.trans h.places⟩

theorem Stays.sameSites (h : Stays t t') : SameSites t t' where
  same := by rw [h.same]
  places := h.places

theorem Stays.symm (h : Stays t t') : Stays t' t where
  same := by rw [h.same]
  places := h.places.symm

theorem Linked.stays (h : Linked t bps) (hstays : Stays t t') : Linked t' bps where
  tracked := h.tracked.same hstays.sameSites
  distinct := by
    have hmap := congrArg (List.map (·.2.1)) hstays.places
    rw [List.map_map, List.map_map] at hmap
    have haddress : (fun x : BitVec 32 × VirtAddr × Bool × Bool × Option ℕ => x.2.1) ∘
        Process.place = BreakpointSite.address := rfl
    rw [haddress] at hmap
    rw [hmap]
    exact h.distinct
  held b hb object hobject := by
    obtain ⟨site, hp, hparent⟩ := h.held b hb object hobject
    obtain ⟨site', hp', hplace⟩ := hp.same hstays.sameSites
    exact ⟨site', hp', (congrArg (·.2.2.2.2) hplace).trans hparent⟩
  parents object site hp parent hparent := by
    obtain ⟨site', hp', hplace⟩ := hp.same hstays.symm.sameSites
    exact h.parents object site' hp' parent ((congrArg (·.2.2.2.2) hplace).trans hparent)
  objects := h.objects
  made := by
    rw [hstays.same]
    exact h.made
  unused := by
    rw [hstays.same]
    exact h.unused

/-- The links do not depend on the rest of the target. -/
theorem Linked.moved (h : Linked t bps) (hprocess : t'.process = t.process)
    (hsiteObjects : t'.siteObjects = t.siteObjects) (hobjects : t.objects ≤ t'.objects)
    (hunused : t'.usedDestroyed = t.usedDestroyed) : Linked t' bps := by
  have hpoints : ∀ object site, t'.Points object site ↔ t.Points object site := by
    intro object site
    unfold Points
    rw [hprocess, hsiteObjects]
  refine ⟨⟨?_, ?_, ?_⟩, ?_, ?_, ?_, h.objects, ?_, ?_⟩
  · rw [hprocess, hsiteObjects]
    exact h.tracked.parallel
  · rw [hsiteObjects]
    exact h.tracked.nodup
  · rw [hsiteObjects]
    exact fun object hobject => (h.tracked.fresh object hobject).trans_le hobjects
  · rw [hprocess]
    exact h.distinct
  · simp only [hpoints]
    exact h.held
  · simp only [hpoints]
    exact h.parents
  · exact fun b hb => (h.made b hb).trans_le hobjects
  · rw [hunused]
    exact h.unused

def links (b : Breakpoint) : ℕ × List ℕ := (b.object, b.sites)

theorem Linked.congr {bps' : List Breakpoint} (h : Linked t bps)
    (hlinks : bps'.map links = bps.map links) : Linked t bps' := by
  have hfrom : ∀ {l l' : List Breakpoint}, l'.map links = l.map links → ∀ b' ∈ l', ∃ b ∈ l,
      b.object = b'.object ∧ b.sites = b'.sites := by
    intro l l' hl b' hb'
    obtain ⟨b, hb, hsame⟩ := List.mem_map.mp (hl ▸ List.mem_map_of_mem (f := links) hb')
    exact ⟨b, hb, congrArg Prod.fst hsame, congrArg Prod.snd hsame⟩
  refine ⟨h.tracked, h.distinct, fun b' hb' object hobject => ?_, fun object site hp parent hs => ?_,
    ?_, fun b' hb' => ?_, h.unused⟩
  · obtain ⟨b, hb, hsame, hsites⟩ := hfrom hlinks b' hb'
    rw [← hsame]
    exact h.held b hb object (hsites ▸ hobject)
  · obtain ⟨b, hb, rfl, hobject⟩ := h.parents object site hp parent hs
    obtain ⟨b', hb', hsame, hsites⟩ := hfrom hlinks.symm b hb
    exact ⟨b', hb', hsame, hsites ▸ hobject⟩
  · have hmap := congrArg (List.map Prod.fst) hlinks
    rw [List.map_map, List.map_map] at hmap
    change (bps'.map (Prod.fst ∘ links)).Nodup
    rw [hmap]
    exact h.objects
  · obtain ⟨b, hb, hsame, -⟩ := hfrom hlinks b' hb'
    exact hsame ▸ h.made b hb

theorem points_withSite (ht : t.Tracked) {made : BreakpointSite} {object : ℕ}
    {site : BreakpointSite} (hp : (t.withSite made).Points object site) :
    t.Points object site ∨ (object = t.objects ∧ site = made) := by
  obtain ⟨i, hobject, hsite⟩ := hp
  change (t.siteObjects ++ [t.objects])[i]? = _ at hobject
  change (t.process.breakpointSites ++ [made])[i]? = _ at hsite
  by_cases hi : i < t.siteObjects.length
  · left
    rw [List.getElem?_append_left hi] at hobject
    rw [List.getElem?_append_left (ht.parallel ▸ hi)] at hsite
    exact ⟨i, hobject, hsite⟩
  · right
    rw [List.getElem?_append_right (by omega), List.getElem?_singleton] at hobject
    rw [List.getElem?_append_right (by rw [← ht.parallel]; omega), List.getElem?_singleton] at hsite
    split_ifs at hobject hsite
    exact ⟨(Option.some.inj hobject).symm, (Option.some.inj hsite).symm⟩

/-- A site of one of the breakpoints, or of none of them, is added, and the breakpoints
point to it when it points to them. -/
theorem Linked.withSite {bps' : List Breakpoint} {site : BreakpointSite} (h : Linked t bps)
    (hnew : StoppointCollection.containsAddress t.process.breakpointSites site.address = false)
    (hobjects : bps'.map Breakpoint.object = bps.map Breakpoint.object)
    (hheld : ∀ b' ∈ bps', ∀ object ∈ b'.sites,
      (∃ b ∈ bps, b.object = b'.object ∧ object ∈ b.sites) ∨
        (object = t.objects ∧ site.parent = some b'.object))
    (hkept : ∀ b ∈ bps, ∃ b' ∈ bps', b'.object = b.object ∧ ∀ object ∈ b.sites, object ∈ b'.sites)
    (hparent : ∀ parent, site.parent = some parent →
      ∃ b' ∈ bps', b'.object = parent ∧ t.objects ∈ b'.sites) :
    Linked (t.withSite site) bps' where
  -- the links of all other sites are as they were
  tracked := h.tracked.withSite site
  distinct := by
    change (List.map _ (t.process.breakpointSites ++ [site])).Nodup
    rw [List.map_append]
    refine List.nodup_append.mpr ⟨h.distinct, by simp, ?_⟩
    rintro a ha b hb rfl
    obtain rfl : a = site.address := by simpa using hb
    obtain ⟨old, hold, haddress⟩ := List.mem_map.mp ha
    have hcontains :
        StoppointCollection.containsAddress t.process.breakpointSites site.address = true := by
      unfold StoppointCollection.containsAddress findByAddress
      rw [List.findIdx?_isSome, List.any_eq_true]
      exact ⟨old, hold, by rw [← haddress]; exact beq_self_eq_true _⟩
    rw [hnew] at hcontains
    cases hcontains
  held b' hb' object hobject := by
    obtain ⟨b, hb, hsame, hold⟩ | ⟨rfl, hsite⟩ := hheld b' hb' object hobject
    · obtain ⟨old, hp, hparent'⟩ := h.held b hb object hold
      exact ⟨old, hp.withSite site, by rw [hparent', hsame]⟩
    · exact ⟨site, h.tracked.points_new site, hsite⟩
  parents object old hp parent hold := by
    obtain hp | ⟨rfl, rfl⟩ := points_withSite h.tracked hp
    · obtain ⟨b, hb, rfl, hobject⟩ := h.parents object old hp parent hold
      obtain ⟨b', hb', hsame, hkeeps⟩ := hkept b hb
      exact ⟨b', hb', hsame, hkeeps object hobject⟩
    · exact hparent parent hold
  objects := by
    rw [hobjects]
    exact h.objects
  made b' hb' := by
    have hmem : b'.object ∈ bps.map Breakpoint.object := hobjects ▸ List.mem_map_of_mem hb'
    obtain ⟨b, hb, hsame⟩ := List.mem_map.mp hmem
    have := h.made b hb
    change b'.object < t.objects + 1
    omega
  unused := h.unused

theorem Linked.withOrphan {site : BreakpointSite} (h : Linked t bps)
    (hnew : StoppointCollection.containsAddress t.process.breakpointSites site.address = false)
    (horphan : site.parent = none) : Linked (t.withSite site) bps :=
  h.withSite hnew rfl (fun b hb object hobject => .inl ⟨b, hb, rfl, hobject⟩)
    (fun b hb => ⟨b, hb, rfl, fun _ => id⟩) (fun parent hparent => by rw [horphan] at hparent; cases hparent)

/-- A site of the breakpoint that resolves. -/
theorem Linked.withOwned {l₁ l₂ : List Breakpoint} {b b' : Breakpoint} {site : BreakpointSite}
    (h : Linked t (l₁ ++ b :: l₂))
    (hnew : StoppointCollection.containsAddress t.process.breakpointSites site.address = false)
    (hparent : site.parent = some b.object) (hobject : b'.object = b.object)
    (hsites : b'.sites = b.sites ++ [t.objects]) :
    Linked (t.withSite site) (l₁ ++ b' :: l₂) := by
  have hmem : ∀ {x : Breakpoint}, x ∈ l₁ ∨ x ∈ l₂ → x ∈ l₁ ++ b :: l₂ ∧ x ∈ l₁ ++ b' :: l₂ := by
    intro x hx
    obtain hx | hx := hx <;> simp [hx]
  refine h.withSite hnew (by simp [hobject]) (fun x hx object hheld => ?_) (fun x hx => ?_) ?_
  · have hx' : x = b' ∨ (x ∈ l₁ ∨ x ∈ l₂) := by
      simpa [or_left_comm] using hx
    obtain rfl | hx' := hx'
    · rw [hsites] at hheld
      obtain hold | hlast := List.mem_append.mp hheld
      · exact .inl ⟨b, by simp, hobject.symm, hold⟩
      · exact .inr ⟨by simpa using hlast, by rw [hobject]; exact hparent⟩
    · exact .inl ⟨x, (hmem hx').1, rfl, hheld⟩
  · have hx' : x = b ∨ (x ∈ l₁ ∨ x ∈ l₂) := by
      simpa [or_left_comm] using hx
    obtain rfl | hx' := hx'
    · exact ⟨b', by simp, hobject, fun object hold => by rw [hsites]; simp [hold]⟩
    · exact ⟨x, (hmem hx').2, rfl, fun _ => id⟩
  · intro parent hparent'
    rw [hparent] at hparent'
    obtain rfl : b.object = parent := Option.some.inj hparent'
    exact ⟨b', by simp, hobject, by rw [hsites]; simp⟩

theorem stays_through {p : ℕ → Process.M Unit}
    (hp : ∀ i s, (after (p i) s).breakpointSites.map Process.place =
      s.breakpointSites.map Process.place)
    (ht : t.Tracked) {object : ℕ} {site : BreakpointSite} (hpoints : t.Points object site) :
    Stays t (after (siteIndex object >>= fun i => onProcess (p i)) t) := by
  obtain ⟨i, hindex, -⟩ := siteIndex_eq ht hpoints
  rw [after_bind_ok hindex, after_onProcess]
  exact ⟨rfl, hp i t.process⟩

theorem stays_enableSite (ht : t.Tracked) {object : ℕ} {site : BreakpointSite}
    (hpoints : t.Points object site) : Stays t (after (enableSite object) t) :=
  stays_through (fun i s => (Process.within_enableSite i s).places) ht hpoints

theorem stays_disableSite (ht : t.Tracked) {object : ℕ} {site : BreakpointSite}
    (hpoints : t.Points object site) : Stays t (after (disableSite object) t) :=
  stays_through (fun i s => (Process.within_disableSite i s).places) ht hpoints

/-- Every pointer that leads to a site still does. -/
def StillThere (t t' : Target) : Prop :=
  ∀ object site, t.Points object site →
    ∃ site', t'.Points object site' ∧ Process.place site' = Process.place site

theorem stillThere : Frame StillThere where
  refl _ _ site hp := ⟨site, hp, rfl⟩
  trans h h' object site hp := by
    obtain ⟨site', hp', hplace⟩ := h object site hp
    obtain ⟨site'', hp'', hplace'⟩ := h' object site' hp'
    exact ⟨site'', hp'', hplace'.trans hplace⟩

theorem Stays.stillThere (h : Stays t t') : StillThere t t' := fun _ _ hp => hp.same h.sameSites

/-- What resolving does, the other breakpoints being `l₁` and `l₂`. -/
structure Resolves (l₁ l₂ : List Breakpoint) (r r' : Resolving) : Prop where
  linked : Linked r'.target (l₁ ++ r'.this :: l₂)
  there : StillThere r.target r'.target
  breakpoints : r'.target.breakpoints = r.target.breakpoints
  object : r'.this.object = r.this.object

/-- The links hold afterwards when they hold before. -/
abbrev KeepsLinks (r r' : Resolving) : Prop :=
  ∀ l₁ l₂, Linked r.target (l₁ ++ r.this :: l₂) → Resolves l₁ l₂ r r'

theorem keepsLinks : Frame KeepsLinks where
  refl r _ _ h := ⟨h, stillThere.refl r.target, rfl, rfl⟩
  trans h h' l₁ l₂ hr := by
    have h₁ := h l₁ l₂ hr
    have h₂ := h' l₁ l₂ h₁.linked
    exact ⟨h₂.linked, stillThere.trans h₁.there h₂.there, h₂.breakpoints.trans h₁.breakpoints,
      h₂.object.trans h₁.object⟩

theorem keepsLinks_addSite (address : VirtAddr) : Within KeepsLinks (addSite address) := by
  intro r l₁ l₂ h
  unfold addSite
  rw [after_bind_ok (get_eq r)]
  have hcreate := createBreakpointSite_eq (t := r.target) (some r.this.object) address
    r.this.isHardware r.this.isInternal
  let site := r.target.newSite (some r.this.object) address r.this.isHardware r.this.isInternal
  cases hthere : StoppointCollection.containsAddress r.target.process.breakpointSites address with
  | true =>
    rw [if_pos hthere] at hcreate
    have hrefused : ∃ e, onTarget (createBreakpointSite (some r.this.object) address
        r.this.isHardware r.this.isInternal) r = .error e r := by
      unfold onTarget
      rw [hcreate]
      exact ⟨_, rfl⟩
    obtain ⟨e, hrefused⟩ := hrefused
    rw [after_bind_error hrefused]
    exact keepsLinks.refl r l₁ l₂ h
  | false =>
    rw [if_neg (by rw [hthere]; exact Bool.false_ne_true)] at hcreate
    have hmade : onTarget (createBreakpointSite (some r.this.object) address r.this.isHardware
        r.this.isInternal) r =
          .ok r.target.objects { r with target := r.target.withSite site } := by
      unfold onTarget
      rw [hcreate]
    have hpushed : Resolves l₁ l₂ r (pushed r address) :=
      ⟨h.withOwned hthere rfl rfl rfl, fun _ old hp => ⟨old, hp.withSite site, rfl⟩, rfl, rfl⟩
    rw [after_bind_ok hmade]
    change Resolves l₁ l₂ r (after (if r.this.isEnabled then
      onTarget (enableSite r.target.objects) else pure ()) (pushed r address))
    split_ifs
    · rw [after_onTarget]
      have hstays := stays_enableSite hpushed.linked.tracked (h.tracked.points_new site)
      refine ⟨hpushed.linked.stays hstays, stillThere.trans hpushed.there hstays.stillThere, ?_, rfl⟩
      rw [hstays.same]
      exact hpushed.breakpoints
    · exact hpushed

theorem exists_forall₂ {objects : List ℕ}
    (hsites : ∀ object ∈ objects, ∃ address, t.PointsTo object address) :
    ∃ addresses, List.Forall₂ t.PointsTo objects addresses := by
  induction objects with
  | nil => exact ⟨[], .nil⟩
  | cons object objects ih =>
    obtain ⟨address, haddress⟩ := hsites object List.mem_cons_self
    obtain ⟨addresses, hall⟩ := ih fun o ho => hsites o (List.mem_cons_of_mem _ ho)
    exact ⟨address :: addresses, .cons haddress hall⟩

theorem Linked.forall₂ {l₁ l₂ : List Breakpoint} {b : Breakpoint}
    (h : Linked t (l₁ ++ b :: l₂)) : ∃ addresses, List.Forall₂ t.PointsTo b.sites addresses := by
  apply exists_forall₂
  intro object hobject
  obtain ⟨site, hp, -⟩ := h.held b (by simp) object hobject
  exact ⟨site.address, site, hp, rfl⟩

theorem keepsLinks_resolveAt (address : VirtAddr) : Within KeepsLinks (resolveAt address) := by
  intro r l₁ l₂ h
  obtain ⟨addresses, hall⟩ := h.forall₂
  have hlook : onTarget (containsAddress address r.this.sites) r =
      .ok (decide (address ∈ addresses)) r := by
    unfold onTarget
    rw [containsAddress_eq h.tracked address hall]
  unfold resolveAt
  rw [after_bind_ok (get_eq r), after_bind_ok hlook]
  refine within_ite (keepsLinks.pure _) (keepsLinks.bind ?_ fun _ => keepsLinks_addSite address) r l₁ l₂ h
  intro r' l₁' l₂' h'
  have hlinks : links (after takeSiteId r').this = links r'.this := rfl
  exact ⟨h'.congr (by simp [hlinks]), stillThere.refl _, rfl, rfl⟩

theorem keepsLinks_resolve : Within KeepsLinks resolve := by
  have hload (x : Except Failure VirtAddr) : Within KeepsLinks (resolveLoad x) :=
    keepsLinks.bind (keepsLinks.ofExcept x) keepsLinks_resolveAt
  intro r
  by_cases hkind : ∃ address, r.this.kind = .address address
  · obtain ⟨address, hkind⟩ := hkind
    unfold resolve
    rw [after_bind_ok (get_eq r), hkind]
    refine keepsLinks.bind keepsLinks.get (fun r' => within_ite (keepsLinks_addSite address) ?_) r
    exact keepsLinks.pure _
  · unfold after
    rw [resolve_eq (b := r.this) fun address h => hkind ⟨address, h⟩]
    exact keepsLinks.forM hload _ r

structure Grows (t t' : Target) : Prop where
  linked : Linked t' t'.breakpoints
  there : StillThere t t'

/-- All links hold afterwards when they hold before. -/
abbrev KeepsAll (t t' : Target) : Prop := Linked t t.breakpoints → Grows t t'

theorem keepsAll : Frame KeepsAll where
  refl t h := ⟨h, stillThere.refl t⟩
  trans h h' hlinked := by
    have h₁ := h hlinked
    have h₂ := h' h₁.linked
    exact ⟨h₂.linked, stillThere.trans h₁.there h₂.there⟩

theorem Stays.grows (h : Stays t t') (hlinked : Linked t t.breakpoints) : Grows t t' where
  linked := by
    have hbreakpoints : t'.breakpoints = t.breakpoints := by rw [h.same]
    rw [hbreakpoints]
    exact hlinked.stays h
  there := h.stillThere

theorem keepsAll_onProcess {α : Type} {p : Process.M α}
    (hp : ∀ s, (after p s).breakpointSites.map Process.place =
      s.breakpointSites.map Process.place) : Within KeepsAll (onProcess p) := by
  intro t h
  have hstays : Stays t (after (onProcess p) t) := by
    rw [after_onProcess]
    exact ⟨rfl, hp t.process⟩
  exact hstays.grows h

theorem after_resolveAgain {i : ℕ} {b : Breakpoint} (hi : t.breakpoints[i]? = some b) :
    after (resolveAgain i) t = { (after resolve ⟨t, b⟩).target with
      breakpoints :=
        (after resolve ⟨t, b⟩).target.breakpoints.set i (after resolve ⟨t, b⟩).this } := by
  unfold after resolveAgain
  simp only [hi]
  cases resolve ⟨t, b⟩ <;> rfl

theorem keepsAll_resolveAgain (i : ℕ) : Within KeepsAll (resolveAgain i) := by
  intro t h
  cases hi : t.breakpoints[i]? with
  | none =>
    have hnone : after (resolveAgain i) t = t := by
      unfold after resolveAgain
      simp only [hi]
    rw [hnone]
    exact keepsAll.refl t h
  | some b =>
    obtain ⟨l₁, l₂, hsplit, rfl⟩ := Splits.exists_split hi
    rw [after_resolveAgain hi]
    have hresolves := keepsLinks_resolve ⟨t, b⟩ l₁ l₂ (hsplit ▸ h)
    generalize after resolve ⟨t, b⟩ = r at hresolves
    have hset : r.target.breakpoints.set l₁.length r.this = l₁ ++ r.this :: l₂ := by
      rw [hresolves.breakpoints, hsplit, List.set_append_right _ _ le_rfl, Nat.sub_self]
      rfl
    rw [hset]
    exact ⟨hresolves.linked.moved rfl rfl le_rfl rfl, hresolves.there⟩

theorem keepsAll_reload (files : Files) : Within KeepsAll (reloadDynamicLibraries files) := by
  refine keepsAll.bind (fun t h => ?_) fun _ => keepsAll.bind keepsAll.get fun t =>
    keepsAll.forM keepsAll_resolveAgain _
  exact ⟨h.moved rfl rfl le_rfl rfl, stillThere.refl t⟩

end KDebugger.Target
