import KDebugger.Target.Linked

namespace KDebugger.Target

open Dwarf Exec StoppointCollection

variable {t t' : Target} {bps : List Breakpoint}

/-- No address of a breakpoint is taken, or it stops at the first one. -/
def Clear (t : Target) (kind : BreakpointKind) : Prop :=
  (∀ x ∈ loads t.files kind, ∃ a, x = .ok a ∧
    StoppointCollection.containsAddress t.process.breakpointSites a = false) ∨
  ∀ a, (loads t.files kind).head? = some (.ok a) →
    StoppointCollection.containsAddress t.process.breakpointSites a = true

theorem containsAddress_iff {sites : List BreakpointSite} {a : VirtAddr} :
    StoppointCollection.containsAddress sites a = true ↔ ∃ site ∈ sites, site.address = a := by
  unfold StoppointCollection.containsAddress findByAddress
  rw [List.findIdx?_isSome, List.any_eq_true]
  exact exists_congr fun site => and_congr_right fun _ => beq_iff_eq

theorem Tracked.exists_points (ht : t.Tracked) {site : BreakpointSite}
    (hsite : site ∈ t.process.breakpointSites) : ∃ object, t.Points object site := by
  obtain ⟨i, hi, rfl⟩ := List.mem_iff_getElem.mp hsite
  have hobject : i < t.siteObjects.length := by rw [ht.parallel]; exact hi
  exact ⟨t.siteObjects[i], i, List.getElem?_eq_getElem hobject, List.getElem?_eq_getElem hi⟩

theorem Linked.withBreakpoint {b : Breakpoint} (h : Linked t bps) (hobject : b.object = t.objects)
    (hsites : b.sites = []) :
    Linked { t with objects := t.objects + 1 } (bps ++ [b]) where
  tracked := ⟨h.tracked.parallel, h.tracked.nodup, fun object ho => Nat.lt_succ_of_lt (h.tracked.fresh object ho)⟩
  distinct := h.distinct
  held b' hb' object ho := by
    obtain hb' | hb' := List.mem_append.mp hb'
    · exact h.held b' hb' object ho
    · obtain rfl : b' = b := by simpa using hb'
      rw [hsites] at ho
      cases ho
  parents object site hp parent hs := by
    obtain ⟨b', hb', hrest⟩ := h.parents object site hp parent hs
    exact ⟨b', List.mem_append_left _ hb', hrest⟩
  objects := by
    refine Splits.nodup_snoc h.objects fun b' hb' => ?_
    have := h.made b' hb'
    omega
  made b' hb' := by
    change b'.object < t.objects + 1
    obtain hb' | hb' := List.mem_append.mp hb'
    · have := h.made b' hb'
      omega
    · obtain rfl : b' = b := by simpa using hb'
      omega
  unused := h.unused

theorem Linked.parent_made (h : Linked t bps) {site : BreakpointSite}
    (hsite : site ∈ t.process.breakpointSites) : site.parent ≠ some t.objects := by
  intro hparent
  obtain ⟨object, hp⟩ := h.tracked.exists_points hsite
  obtain ⟨b, hb, hobject, -⟩ := h.parents object site hp _ hparent
  exact absurd (h.made b hb) (by omega)

/-- A breakpoint that no site belongs to goes away. -/
theorem Linked.without {l₁ l₂ : List Breakpoint} {b : Breakpoint} (h : Linked t (l₁ ++ b :: l₂))
    (hfree : ∀ site ∈ t.process.breakpointSites, site.parent ≠ some b.object) :
    Linked t (l₁ ++ l₂) where
  tracked := h.tracked
  distinct := h.distinct
  held := Splits.forall_mem_erase h.held
  parents object site hp parent hs := by
    obtain ⟨b', hb', rfl, hobject⟩ := h.parents object site hp parent hs
    have hne : b' ≠ b := by
      rintro rfl
      obtain ⟨i, -, hsite⟩ := hp
      exact hfree site (List.mem_of_getElem? hsite) hs
    exact ⟨b', by simpa [hne] using hb', rfl, hobject⟩
  objects := Splits.nodup_erase h.objects
  made := Splits.forall_mem_erase h.made
  unused := h.unused

theorem mem_addresses (ht : t.Tracked) {object : ℕ} {site : BreakpointSite}
    (hp : t.Points object site) {objects : List ℕ} {addresses : List VirtAddr}
    (hall : List.Forall₂ t.PointsTo objects addresses) (hmem : object ∈ objects) :
    site.address ∈ addresses := by
  induction hall with
  | nil => cases hmem
  | cons hfirst _ ih =>
    obtain rfl | hmem := List.mem_cons.mp hmem
    · obtain ⟨site', hp', rfl⟩ := hfirst
      rw [ht.unique hp hp']
      exact List.mem_cons_self
    · exact List.mem_cons_of_mem _ (ih hmem)

/-- An address gets a site of the breakpoint, unless a site of another is there. -/
theorem resolveAt_cases {r : Resolving} {l₁ l₂ : List Breakpoint}
    (h : Linked r.target (l₁ ++ r.this :: l₂)) (hdisabled : r.this.isEnabled = false)
    (a : VirtAddr) :
    (∃ r', resolveAt a r = .ok () r' ∧ r'.this.isEnabled = false ∧
      r'.this.object = r.this.object ∧ ∀ site ∈ r'.target.process.breakpointSites,
        site ∈ r.target.process.breakpointSites ∨ site.parent = some r.this.object) ∨
    ∃ site ∈ r.target.process.breakpointSites, site.address = a ∧
      site.parent ≠ some r.this.object := by
  obtain ⟨addresses, hall⟩ := h.forall₂
  have hlook : onTarget (containsAddress a r.this.sites) r = .ok (decide (a ∈ addresses)) r := by
    unfold onTarget
    rw [containsAddress_eq h.tracked a hall]
  unfold resolveAt
  rw [bind_ok (get_eq r), bind_ok hlook]
  by_cases hmem : a ∈ addresses
  · rw [if_pos (decide_eq_true hmem)]
    exact .inl ⟨r, rfl, hdisabled, rfl, fun site hsite => .inl hsite⟩
  · rw [if_neg (by simpa using hmem)]
    let r₁ : Resolving := { r with this := { r.this with nextSiteId := r.this.nextSiteId + 1#32 } }
    change (∃ r', addSite a r₁ = .ok () r' ∧ _) ∨ _
    rw [addSite_eq (r := r₁) hdisabled]
    by_cases hthere :
        StoppointCollection.containsAddress r.target.process.breakpointSites a = true
    · right
      obtain ⟨site, hsite, haddress⟩ := containsAddress_iff.mp hthere
      refine ⟨site, hsite, haddress, fun hparent => hmem ?_⟩
      obtain ⟨object, hp⟩ := h.tracked.exists_points hsite
      obtain ⟨b, hb, hobject, hheld⟩ := h.parents object site hp _ hparent
      have hthis : b = r.this := by
        by_contra hne
        exact Splits.key_ne h.objects b (by simpa [hne] using hb) hobject
      rw [hthis] at hheld
      exact haddress ▸ mem_addresses h.tracked hp hall hheld
    · left
      rw [if_neg hthere]
      refine ⟨_, rfl, hdisabled, rfl, fun site hsite => ?_⟩
      obtain hold | hlast := List.mem_append.mp hsite
      · exact .inl hold
      · obtain rfl := List.mem_singleton.mp hlast
        exact .inr rfl

/-- The addresses of a breakpoint are free, so it gets its sites. -/
theorem forM_succeeds {start : List BreakpointSite} {l₁ l₂ : List Breakpoint} :
    ∀ {l : List (Except Failure VirtAddr)} {r : Resolving},
      Linked r.target (l₁ ++ r.this :: l₂) → r.this.isEnabled = false →
      (∀ x ∈ l, ∃ a, x = .ok a ∧ StoppointCollection.containsAddress start a = false) →
      (∀ site ∈ r.target.process.breakpointSites,
        site ∈ start ∨ site.parent = some r.this.object) →
      ∃ r', l.forM resolveLoad r = .ok () r' := by
  intro l
  induction l with
  | nil => exact fun _ _ _ _ => ⟨_, rfl⟩
  | cons x l ih =>
    intro r h hdisabled hfree hown
    obtain ⟨a, rfl, hnew⟩ := hfree x List.mem_cons_self
    obtain ⟨r', hat, hdisabled', hobject, hsites⟩ | ⟨site, hsite, haddress, hparent⟩ :=
      resolveAt_cases h hdisabled a
    · have hload : resolveLoad (.ok a) r = .ok () r' := hat
      have hlinked := ((keepsLinks_resolveAt a).ok hat l₁ l₂ h).linked
      obtain ⟨r'', hrest⟩ := ih hlinked hdisabled'
        (fun y hy => hfree y (List.mem_cons_of_mem _ hy)) fun site hsite => by
          rw [hobject]
          obtain hold | hparent := hsites site hsite
          · exact hown site hold
          · exact .inr hparent
      exact ⟨r'', (bind_ok hload).trans hrest⟩
    · have hstart := (hown site hsite).resolve_right hparent
      rw [containsAddress_iff.mpr ⟨site, hstart, haddress⟩] at hnew
      cases hnew

theorem resolve_succeeds {r : Resolving} {l₁ l₂ : List Breakpoint}
    (h : Linked r.target (l₁ ++ r.this :: l₂)) (hempty : r.this.sites = [])
    (hdisabled : r.this.isEnabled = false)
    (hfree : ∀ x ∈ loads r.target.files r.this.kind, ∃ a, x = .ok a ∧
      StoppointCollection.containsAddress r.target.process.breakpointSites a = false) :
    ∃ r', resolve r = .ok () r' := by
  by_cases hkind : ∃ address, r.this.kind = .address address
  · obtain ⟨address, hkind⟩ := hkind
    obtain ⟨a, ha, hnew⟩ := hfree (.ok address) (by rw [hkind]; exact List.mem_singleton_self _)
    obtain rfl : address = a := Except.ok.inj ha
    have hadd : resolve r = addSite address r := resolve_address hempty hkind
    rw [hadd, addSite_eq hdisabled, if_neg (by rw [hnew]; exact Bool.false_ne_true)]
    exact ⟨_, rfl⟩
  · have hloads := resolve_eq (b := r.this) (t := r.target) fun address h => hkind ⟨address, h⟩
    change resolve r = _ at hloads
    rw [hloads]
    exact forM_succeeds h hdisabled hfree fun site hsite => .inl hsite

theorem Linked.constructing (h : Linked t t.breakpoints) (kind : BreakpointKind)
    (hardware internal : Bool) :
    Linked (constructing t kind hardware internal).target
      (t.breakpoints ++ [(constructing t kind hardware internal).this]) :=
  (h.withBreakpoint rfl rfl).moved rfl rfl le_rfl rfl

theorem keepsAll_createBreakpoint {kind : BreakpointKind} (hclear : Clear t kind)
    (hardware internal : Bool) : KeepsAll t (after (createBreakpoint kind hardware internal) t) := by
  -- an exception in the constructor takes the breakpoint away, and leaves its sites
  intro h
  let r₀ := constructing t kind hardware internal
  have hstart : Linked r₀.target (t.breakpoints ++ r₀.this :: []) :=
    h.constructing kind hardware internal
  have hresolves := keepsLinks_resolve r₀ t.breakpoints [] hstart
  have hcreate := createBreakpoint_eq t kind hardware internal
  cases hresolve : resolve r₀ with
  | ok _ r =>
    rw [show resolve (constructing t kind hardware internal) = _ from hresolve] at hcreate
    have hkept : Resolves t.breakpoints [] r₀ r := by
      rwa [after, hresolve] at hresolves
    have hbreakpoints : r.target.breakpoints = t.breakpoints := hkept.breakpoints
    rw [after, hcreate]
    refine ⟨?_, hkept.there⟩
    change Linked _ (r.target.breakpoints ++ [r.this])
    rw [hbreakpoints]
    exact hkept.linked.moved rfl rfl le_rfl rfl
  | error e r =>
    rw [show resolve (constructing t kind hardware internal) = _ from hresolve] at hcreate
    have hkept : Resolves t.breakpoints [] r₀ r := by
      rwa [after, hresolve] at hresolves
    have hbreakpoints : r.target.breakpoints = t.breakpoints := hkept.breakpoints
    rw [after, hcreate]
    refine ⟨?_, hkept.there⟩
    change Linked r.target r.target.breakpoints
    rw [hbreakpoints, ← List.append_nil t.breakpoints]
    refine hkept.linked.without fun site hsite => ?_
    rw [hkept.object]
    obtain hfree | htaken := hclear
    · obtain ⟨r', hok⟩ := resolve_succeeds hstart rfl rfl hfree
      rw [hresolve] at hok
      cases hok
    · have hsame := (resolve_failed rfl rfl hresolve).2.mpr htaken
      rw [hsame] at hsite
      exact h.parent_made hsite

theorem Stays.tracked (h : Stays t t') (ht : t.Tracked) : t'.Tracked := ht.same h.sameSites

theorem stays_forM {act : ℕ → TargetM Unit}
    (hact : ∀ t object site, Tracked t → t.Points object site → Stays t (after (act object) t)) :
    ∀ {objects : List ℕ} {t : Target}, t.Tracked →
      (∀ object ∈ objects, ∃ site, t.Points object site) →
      Stays t (after (objects.forM act) t) := by
  intro objects
  induction objects with
  | nil => exact fun _ _ => stays.refl _
  | cons object objects ih =>
    intro t ht hall
    obtain ⟨site, hp⟩ := hall object List.mem_cons_self
    have hfirst := hact t object site ht hp
    refine stays.bind_at hfirst fun _ t' hok => ?_
    rw [after, hok] at hfirst
    refine ih (hfirst.tracked ht) fun o ho => ?_
    obtain ⟨site', hp'⟩ := hall o (List.mem_cons_of_mem _ ho)
    obtain ⟨site'', hp'', -⟩ := hp'.same hfirst.sameSites
    exact ⟨site'', hp''⟩

theorem map_modify_links (i : ℕ) {f : Breakpoint → Breakpoint} (hf : ∀ b, links (f b) = links b) :
    (bps.modify i f).map links = bps.map links := by
  apply List.ext_getElem?
  intro j
  rw [List.getElem?_map, List.getElem?_map, List.getElem?_modify]
  cases bps[j]? with
  | none => rfl
  | some b => by_cases hij : i = j <;> simp [hij, hf]

theorem breakpointAt_cases (i : ℕ) (t : Target) :
    breakpointAt i t = .error .undefined t ∨
      ∃ b, t.breakpoints[i]? = some b ∧ breakpointAt i t = .ok b t := by
  unfold breakpointAt
  rw [bind_ok (get_eq t)]
  cases hi : t.breakpoints[i]? with
  | none => exact .inl rfl
  | some b => exact .inr ⟨b, rfl, rfl⟩

theorem Linked.held_at (h : Linked t t.breakpoints) {i : ℕ} {b : Breakpoint}
    (hi : t.breakpoints[i]? = some b) : ∀ object ∈ b.sites, ∃ site, t.Points object site := by
  intro object hobject
  obtain ⟨site, hp, -⟩ := h.held b (List.mem_of_getElem? hi) object hobject
  exact ⟨site, hp⟩

/-- The body of `enable` and of `disable`. -/
theorem keepsAll_allSites (act : ℕ → TargetM Unit) (f : Breakpoint → Breakpoint)
    (hact : ∀ t object site, Tracked t → t.Points object site → Stays t (after (act object) t))
    (hf : ∀ b, links (f b) = links b) (i : ℕ) : Within KeepsAll (do
      modifyBreakpoint i f
      let b ← breakpointAt i
      b.sites.forM act) := by
  refine keepsAll.bind (fun t h => ?_) fun _ t h => ?_
  · refine ⟨(h.congr (map_modify_links i hf)).moved rfl rfl le_rfl rfl, stillThere.refl t⟩
  · obtain hnone | ⟨b, hi, hb⟩ := breakpointAt_cases i t
    · rw [after_bind_error hnone]
      exact keepsAll.refl t h
    · rw [after_bind_ok hb]
      exact (stays_forM hact h.tracked (h.held_at hi)).grows h

theorem keepsAll_enableBreakpoint (i : ℕ) : Within KeepsAll (enableBreakpoint i) :=
  keepsAll_allSites enableSite (fun b => { b with isEnabled := true })
    (fun _ _ _ ht hp => stays_enableSite ht hp) (fun _ => rfl) i

theorem keepsAll_disableBreakpoint (i : ℕ) : Within KeepsAll (disableBreakpoint i) :=
  keepsAll_allSites disableSite (fun b => { b with isEnabled := false })
    (fun _ _ _ ht hp => stays_disableSite ht hp) (fun _ => rfl) i

theorem keepsAll_createEnabled {kind : BreakpointKind} (hclear : Clear t kind)
    (hardware internal : Bool) : KeepsAll t (after (createEnabled kind hardware internal) t) := by
  refine keepsAll.bind_at (keepsAll_createBreakpoint hclear hardware internal) fun _ t' _ => ?_
  exact keepsAll.bind keepsAll.get (fun _ => keepsAll_enableBreakpoint _) t'

theorem clear_address (t : Target) (address : VirtAddr) : Clear t (.address address) := by
  unfold Clear
  cases hthere : StoppointCollection.containsAddress t.process.breakpointSites address with
  | true =>
    right
    intro a ha
    obtain rfl : address = a := by simpa [loads] using ha
    exact hthere
  | false =>
    left
    intro x hx
    exact ⟨address, by simpa [loads] using hx, hthere⟩

theorem breakpointById_cases (id : BitVec 32) (t : Target) :
    (∃ e, breakpointById id t = .error e t) ∨
      ∃ i, t.findBreakpoint id = some i ∧ breakpointById id t = .ok i t := by
  unfold breakpointById
  rw [bind_ok (get_eq t)]
  cases hfind : t.findBreakpoint id with
  | none => exact .inl ⟨_, rfl⟩
  | some i => exact .inr ⟨i, rfl, rfl⟩

theorem keepsAll_breakpointById (id : BitVec 32) : Within KeepsAll (breakpointById id) := by
  intro t h
  obtain ⟨e, herror⟩ | ⟨i, -, hok⟩ := breakpointById_cases id t
  · rw [after, herror]
    exact keepsAll.refl t h
  · rw [after, hok]
    exact keepsAll.refl t h

theorem keepsAll_toggle {act : ℕ → TargetM Unit} (hact : ∀ i, Within KeepsAll (act i))
    (id : BitVec 32) : Within KeepsAll (toggle act id) :=
  keepsAll.bind (keepsAll_breakpointById id) hact

theorem siteById_cases (ht : t.Tracked) (id : BitVec 32) {objects : List ℕ}
    (hall : ∀ object ∈ objects, ∃ site, t.Points object site) :
    (∃ e, siteById id objects t = .error e t) ∨
      ∃ object ∈ objects, siteById id objects t = .ok object t := by
  induction objects with
  | nil => exact .inl ⟨_, rfl⟩
  | cons object objects ih =>
    obtain ⟨site, hp⟩ := hall object List.mem_cons_self
    unfold siteById
    rw [bind_ok (siteOf_eq ht hp)]
    by_cases hid : site.id = id
    · rw [if_pos hid]
      exact .inr ⟨object, List.mem_cons_self, rfl⟩
    · rw [if_neg hid]
      obtain herror | ⟨found, hmem, hok⟩ := ih fun o ho => hall o (List.mem_cons_of_mem _ ho)
      · exact .inl herror
      · exact .inr ⟨found, List.mem_cons_of_mem _ hmem, hok⟩

theorem keepsAll_toggleSite {act : ℕ → TargetM Unit}
    (hact : ∀ t object site, Tracked t → t.Points object site → Stays t (after (act object) t))
    (id siteId : BitVec 32) : Within KeepsAll (toggleSite act id siteId) := by
  refine keepsAll.bind (keepsAll_breakpointById id) fun i t h => ?_
  obtain hnone | ⟨b, hi, hb⟩ := breakpointAt_cases i t
  · rw [after_bind_error hnone]
    exact keepsAll.refl t h
  · rw [after_bind_ok hb]
    obtain ⟨e, herror⟩ | ⟨object, hobject, hok⟩ :=
      siteById_cases h.tracked siteId (h.held_at hi)
    · rw [after_bind_error herror]
      exact keepsAll.refl t h
    · rw [after_bind_ok hok]
      obtain ⟨site, hp⟩ := h.held_at hi object hobject
      exact (hact t object site h.tracked hp).grows h

/-- The process and the target without the site at this position. -/
def erased (t : Target) (i : ℕ) : Target :=
  { t with
    process := { t.process with breakpointSites := t.process.breakpointSites.eraseIdx i }
    siteObjects := t.siteObjects.eraseIdx i }

theorem points_erased {i : ℕ} {object : ℕ} {site : BreakpointSite}
    (hp : (t.erased i).Points object site) : t.Points object site := by
  obtain ⟨j, hobject, hsite⟩ := hp
  change (t.siteObjects.eraseIdx i)[j]? = _ at hobject
  change (t.process.breakpointSites.eraseIdx i)[j]? = _ at hsite
  rw [List.getElem?_eraseIdx] at hobject hsite
  split_ifs at hobject hsite
  · exact ⟨j, hobject, hsite⟩
  · exact ⟨j + 1, hobject, hsite⟩

theorem points_kept {i : ℕ} {object : ℕ} {site : BreakpointSite} (hp : t.Points object site)
    (hne : t.siteObjects[i]? ≠ some object) : (t.erased i).Points object site := by
  obtain ⟨j, hobject, hsite⟩ := hp
  have hij : j ≠ i := by
    rintro rfl
    exact hne hobject
  by_cases hlt : j < i
  · refine ⟨j, ?_, ?_⟩
    · change (t.siteObjects.eraseIdx i)[j]? = _
      rw [List.getElem?_eraseIdx, if_pos hlt, hobject]
    · change (t.process.breakpointSites.eraseIdx i)[j]? = _
      rw [List.getElem?_eraseIdx, if_pos hlt, hsite]
  · obtain ⟨k, rfl⟩ : ∃ k, j = k + 1 := ⟨j - 1, by omega⟩
    refine ⟨k, ?_, ?_⟩
    · change (t.siteObjects.eraseIdx i)[k]? = _
      rw [List.getElem?_eraseIdx, if_neg (by omega), hobject]
    · change (t.process.breakpointSites.eraseIdx i)[k]? = _
      rw [List.getElem?_eraseIdx, if_neg (by omega), hsite]

theorem Linked.erased (h : Linked t bps) {i : ℕ} {site : BreakpointSite}
    (hi : t.process.breakpointSites[i]? = some site) (horphan : site.parent = none) :
    Linked (t.erased i) bps where
  tracked := by
    refine ⟨?_, h.tracked.nodup.eraseIdx i, fun object ho => ?_⟩
    · change (t.siteObjects.eraseIdx i).length = (t.process.breakpointSites.eraseIdx i).length
      rw [List.length_eraseIdx, List.length_eraseIdx, h.tracked.parallel]
    · exact h.tracked.fresh object (List.mem_of_mem_eraseIdx ho)
  distinct := h.distinct.sublist ((List.eraseIdx_sublist _ _).map _)
  held b hb object hobject := by
    obtain ⟨site', hp, hparent⟩ := h.held b hb object hobject
    refine ⟨site', points_kept hp fun hthere => ?_, hparent⟩
    rw [h.tracked.unique ⟨i, hthere, hi⟩ hp, horphan] at hparent
    cases hparent
  parents object site' hp := h.parents object site' (points_erased hp)
  objects := h.objects
  made := h.made
  unused := h.unused

theorem removeSiteByAddress_eq {a : VirtAddr} {i : ℕ}
    (hi : findByAddress t.process.breakpointSites a = some i) :
    removeSiteByAddress a t = .ok () (t.erased i) := by
  have hprocess : Process.removeSiteByAddress a t.process = .ok ()
      { t.process with breakpointSites := t.process.breakpointSites.eraseIdx i } := by
    unfold Process.removeSiteByAddress
    rw [bind_ok (get_eq _), hi]
    rfl
  unfold removeSiteByAddress
  rw [bind_ok (get_eq t), bind_ok (onProcess_ok hprocess), hi]
  rfl

theorem removeSite_eq (ht : t.Tracked)
    (hdistinct : (t.process.breakpointSites.map BreakpointSite.address).Nodup) {i object : ℕ}
    {site : BreakpointSite} (hobject : t.siteObjects[i]? = some object)
    (hsite : t.process.breakpointSites[i]? = some site) :
    removeSite object t = .ok () (t.erased i) := by
  obtain ⟨l₁, l₂, hsplit, rfl⟩ := Splits.exists_split hsite
  have hfind : findByAddress t.process.breakpointSites site.address = some l₁.length := by
    rw [hsplit] at hdistinct ⊢
    exact Process.findByAddress_split hdistinct
  unfold removeSite
  rw [bind_ok (siteOf_eq ht ⟨_, hobject, hsite⟩)]
  exact removeSiteByAddress_eq hfind

/-- A pointer to a site without a parent, and the removal of that site. -/
theorem linked_removeSite (h : Linked t bps) {object : ℕ} {site : BreakpointSite}
    (hp : t.Points object site) (horphan : site.parent = none) :
    ∃ i, removeSite object t = .ok () (t.erased i) ∧ Linked (t.erased i) bps := by
  obtain ⟨i, hobject, hsite⟩ := hp
  exact ⟨i, removeSite_eq h.tracked h.distinct hobject hsite, h.erased hsite horphan⟩

/-- `remove_by_id` of the sites of the process: one is erased, unless it cannot be disabled. -/
theorem removeSiteById_cases (id : BitVec 32) (t : Target) :
    Stays t (after (removeSiteById id) t) ∨ ∃ i t₁,
      findById t.process.breakpointSites id = some i ∧ Stays t t₁ ∧
        after (removeSiteById id) t = t₁.erased i := by
  unfold removeSiteById
  rw [after_bind_ok (get_eq t)]
  cases hfind : findById t.process.breakpointSites id with
  | none =>
    have hprocess : Process.removeSiteById id t.process = .error .undefined t.process := by
      unfold Process.removeSiteById
      rw [bind_ok (get_eq _), hfind]
      rfl
    have hnothing : onProcess (Process.removeSiteById id) t = .error .undefined t := by
      unfold onProcess
      rw [hprocess]
    rw [after_bind_error hnothing]
    exact .inl (stays.refl t)
  | some i =>
    have hdisable := (Process.within_disableSite i t.process).places
    have hstart : Process.removeSiteById id t.process = (do
        Process.disableSite i
        Process.eraseSite i : Process.M Unit) t.process := by
      unfold Process.removeSiteById
      rw [bind_ok (get_eq _), hfind]
      rfl
    cases hok : Process.disableSite i t.process with
    | error e s =>
      rw [after, hok] at hdisable
      rw [bind_error hok] at hstart
      have hfailed : onProcess (Process.removeSiteById id) t = .error e { t with process := s } := by
        unfold onProcess
        rw [hstart]
      rw [after_bind_error hfailed]
      exact .inl ⟨rfl, hdisable⟩
    | ok _ s =>
      rw [after, hok] at hdisable
      rw [bind_ok hok] at hstart
      rw [after_bind_ok (onProcess_ok hstart)]
      exact .inr ⟨i, { t with process := s }, rfl, ⟨rfl, hdisable⟩, rfl⟩

/-- `remove_by_id` of a site without a parent; it may fail where the site is disabled. -/
theorem linked_removeSiteById (id : BitVec 32) (h : Linked t t.breakpoints)
    (horphan : ∀ i site, findById t.process.breakpointSites id = some i →
      t.process.breakpointSites[i]? = some site → site.parent = none) :
    Linked (after (removeSiteById id) t) (after (removeSiteById id) t).breakpoints := by
  obtain hstays | ⟨i, t₁, hfind, hstays, herased⟩ := removeSiteById_cases id t
  · have hbreakpoints : (after (removeSiteById id) t).breakpoints = t.breakpoints := by rw [hstays.same]
    rw [hbreakpoints]
    exact h.stays hstays
  · have hbreakpoints : t₁.breakpoints = t.breakpoints := by rw [hstays.same]
    obtain ⟨site, hi, -⟩ := Splits.getElem?_of_findIdx? hfind
    have hplace := congrArg (·[i]?) hstays.places
    simp only [List.getElem?_map, hi, Option.map_some] at hplace
    obtain ⟨site', hsite', hsame⟩ := Option.map_eq_some_iff.mp hplace
    have hparent : site'.parent = none :=
      (congrArg (·.2.2.2.2) hsame).trans (horphan i site hfind hi)
    rw [herased]
    change Linked (t₁.erased i) t₁.breakpoints
    rw [hbreakpoints]
    exact (h.stays hstays).erased hsite' hparent

/-- `delete` of a breakpoint without sites. -/
theorem linked_deleteBreakpoint (id : BitVec 32) (h : Linked t t.breakpoints)
    (hempty : ∀ i b, t.findBreakpoint id = some i → t.breakpoints[i]? = some b → b.sites = []) :
    Linked (after (deleteBreakpoint id) t) (after (deleteBreakpoint id) t).breakpoints := by
  unfold deleteBreakpoint
  obtain ⟨e, herror⟩ | ⟨i, hfind, hok⟩ := breakpointById_cases id t
  · rw [after_bind_error herror]
    exact h
  rw [after_bind_ok hok]
  obtain hnone | ⟨b, hi, hb⟩ := breakpointAt_cases i t
  · rw [after_bind_error hnone]
    exact h
  rw [after_bind_ok hb]
  have hsites := hempty i b hfind hi
  have hloop : b.sites.forM removeSite t = .ok () t := by
    rw [hsites]
    rfl
  rw [after_bind_ok hloop]
  unfold removeBreakpointById
  rw [after_bind_ok (get_eq t), hfind]
  obtain ⟨l₁, l₂, hsplit, rfl⟩ := Splits.exists_split hi
  let b' : Breakpoint := { b with isEnabled := false }
  have hdisable : disableBreakpoint l₁.length t =
      .ok () { t with breakpoints := l₁ ++ b' :: l₂ } := by
    have hmodify : modifyBreakpoint l₁.length (fun b => { b with isEnabled := false }) t =
        .ok () { t with breakpoints := l₁ ++ b' :: l₂ } := by
      change EStateM.Result.ok () { t with breakpoints := t.breakpoints.modify l₁.length _ } = _
      rw [hsplit, Splits.modify_split]
    have hread : breakpointAt l₁.length { t with breakpoints := l₁ ++ b' :: l₂ } =
        .ok b' { t with breakpoints := l₁ ++ b' :: l₂ } := by
      unfold breakpointAt
      rw [bind_ok (get_eq _)]
      simp only [List.getElem?_append_right le_rfl, Nat.sub_self, List.getElem?_cons_zero]
      rfl
    unfold disableBreakpoint
    rw [bind_ok hmodify, bind_ok hread]
    change b.sites.forM disableSite _ = _
    rw [hsites]
    rfl
  dsimp only
  rw [after_bind_ok hdisable]
  change Linked _ ((l₁ ++ b' :: l₂).eraseIdx l₁.length)
  rw [Splits.eraseIdx_split]
  rw [hsplit] at h
  refine Linked.moved (h.without fun site hsite hparent => ?_) rfl rfl le_rfl rfl
  obtain ⟨object, hp⟩ := h.tracked.exists_points hsite
  obtain ⟨b₁, hb₁, hobject, hheld⟩ := h.parents object site hp _ hparent
  have hsame : b₁ = b := by
    by_contra hne
    exact Splits.key_ne h.objects b₁ (by simpa [hne] using hb₁) hobject
  rw [hsame, hsites] at hheld
  cases hheld

end KDebugger.Target
