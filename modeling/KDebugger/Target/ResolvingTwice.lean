import KDebugger.Target.FailedCreation

namespace KDebugger.Target

open Exec

/-- Every pointer still leads to its address, in the same files. -/
structure Later (t t' : Target) : Prop where
  files : t'.files = t.files
  there : ∀ {object address}, t.PointsTo object address → t'.PointsTo object address

theorem later : Frame Later where
  refl _ := ⟨rfl, id⟩
  trans h h' := ⟨h'.files.trans h.files, fun hp => h'.there (h.there hp)⟩

theorem SameSites.later {t t' : Target} (h : SameSites t t') : Later t t' where
  files := by rw [h.same]
  there hp := hp.same h

/-- The breakpoint may have got sites, too. -/
structure LaterIn (r r' : Resolving) : Prop where
  target : Later r.target r'.target
  kind : r'.this.kind = r.this.kind
  sites : r.this.sites <+: r'.this.sites

theorem laterIn : Frame LaterIn where
  refl r := ⟨later.refl r.target, rfl, List.prefix_rfl⟩
  trans h h' := ⟨later.trans h.target h'.target, h'.kind.trans h.kind, h.sites.trans h'.sites⟩

/-- So it is after a step of resolving. -/
structure Stepped (r r' : Resolving) : Prop extends LaterIn r r' where
  tracked : r'.target.Tracked
  breakpoints : r'.target.breakpoints = r.target.breakpoints

theorem Stepped.refl {r : Resolving} (ht : r.target.Tracked) : Stepped r r :=
  ⟨laterIn.refl r, ht, rfl⟩

theorem Stepped.trans {r₁ r₂ r₃ : Resolving} (h : Stepped r₁ r₂) (h' : Stepped r₂ r₃) :
    Stepped r₁ r₃ :=
  ⟨laterIn.trans h.toLaterIn h'.toLaterIn, h'.tracked, h'.breakpoints.trans h.breakpoints⟩

/-- The address is found among the sites. -/
def Holds (r : Resolving) (address : VirtAddr) : Prop :=
  ∃ before object after, r.this.sites = before ++ object :: after ∧
    (∀ o ∈ before, ∃ a, r.target.PointsTo o a) ∧ r.target.PointsTo object address

theorem Holds.laterIn {r r' : Resolving} {address : VirtAddr} (h : Holds r address)
    (hlater : LaterIn r r') : Holds r' address := by
  obtain ⟨before, object, rest, hsites, hbefore, hpoints⟩ := h
  obtain ⟨more, hmore⟩ := hlater.sites
  refine ⟨before, object, rest ++ more, ?_, fun o ho => ?_, hlater.target.there hpoints⟩
  · rw [← hmore, hsites]
    simp
  · obtain ⟨a, ha⟩ := hbefore o ho
    exact ⟨a, hlater.target.there ha⟩

theorem siteOf_ok {t t' : Target} {object : ℕ} {site : BreakpointSite}
    (h : siteOf object t = .ok site t') : t.Points object site ∧ t' = t := by
  unfold siteOf at h
  obtain ⟨i, t₁, hindex, h₁⟩ := bind_eq_ok.mp h
  unfold siteIndex at hindex
  rw [bind_ok (get_eq t)] at hindex
  cases hidx : t.siteObjects.idxOf? object with
  | none =>
    rw [hidx] at hindex
    cases hindex
  | some j =>
    rw [hidx] at hindex
    cases hindex
    obtain ⟨hlt, hobject, -⟩ := List.idxOf?_eq_some_iff.mp hidx
    have hat : t.siteObjects[i]? = some object := by
      rw [List.getElem?_eq_getElem hlt, hobject]
    cases hsite : t.process.breakpointSites[i]? with
    | none =>
      unfold onProcess at h₁
      rw [Process.siteAt_error hsite] at h₁
      cases h₁
    | some site' =>
      rw [onProcess_ok (Process.siteAt_ok hsite)] at h₁
      cases h₁
      exact ⟨⟨i, hat, hsite⟩, rfl⟩

/-- The scan through the sites, where it returns. -/
theorem containsAddress_ok {t t' : Target} {address : VirtAddr} {there : Bool} :
    ∀ {objects : List ℕ}, containsAddress address objects t = .ok there t' →
      t' = t ∧ if there then
        ∃ before object after, objects = before ++ object :: after ∧
          (∀ o ∈ before, ∃ a, t.PointsTo o a) ∧ t.PointsTo object address
      else ∀ o ∈ objects, ∃ a, t.PointsTo o a := by
  intro objects
  induction objects with
  | nil =>
    intro h
    cases h
    exact ⟨rfl, by simp⟩
  | cons object objects ih =>
    intro h
    unfold containsAddress at h
    obtain ⟨site, t₁, hsite, h₁⟩ := bind_eq_ok.mp h
    obtain ⟨hpoints, rfl⟩ := siteOf_ok hsite
    split_ifs at h₁ with haddress
    · cases h₁
      exact ⟨rfl, [], object, objects, rfl, by simp, site, hpoints, haddress⟩
    · obtain ⟨rfl, hrest⟩ := ih h₁
      have hfirst : ∃ a, t'.PointsTo object a := ⟨_, site, hpoints, rfl⟩
      refine ⟨rfl, ?_⟩
      cases there with
      | true =>
        obtain ⟨before, o, rest, rfl, hbefore, ho⟩ := hrest
        exact ⟨object :: before, o, rest, rfl, List.forall_mem_cons.mpr ⟨hfirst, hbefore⟩, ho⟩
      | false => exact List.forall_mem_cons.mpr ⟨hfirst, hrest⟩

theorem containsAddress_of_split {t : Target} (ht : t.Tracked) {address : VirtAddr} {object : ℕ}
    {rest : List ℕ} (hpoints : t.PointsTo object address) :
    ∀ {before : List ℕ}, (∀ o ∈ before, ∃ a, t.PointsTo o a) →
      containsAddress address (before ++ object :: rest) t = .ok true t := by
  intro before
  induction before with
  | nil =>
    intro _
    obtain ⟨site, hp, haddress⟩ := hpoints
    rw [List.nil_append]
    unfold containsAddress
    rw [bind_ok (siteOf_eq ht hp), if_pos haddress]
    rfl
  | cons o before ih =>
    intro hbefore
    obtain ⟨⟨a, site, hp, rfl⟩, hrest⟩ := List.forall_mem_cons.mp hbefore
    rw [List.cons_append]
    unfold containsAddress
    rw [bind_ok (siteOf_eq ht hp)]
    split_ifs
    · rfl
    · exact ih hrest

/-- Once it returned, the step finds nothing more to do. -/
def Repeats (p : ResolvingM Unit) : Prop :=
  ∀ r r', r.target.Tracked → p r = .ok () r' → Stepped r r' ∧
    ∀ r'', r''.target.Tracked → LaterIn r' r'' → p r'' = .ok () r''

theorem Repeats.pure : Repeats (pure ()) := by
  rintro r r' ht ⟨⟩
  exact ⟨.refl ht, fun r'' _ _ => rfl⟩

theorem Repeats.seq {p q : ResolvingM Unit} (hp : Repeats p) (hq : Repeats q) :
    Repeats (p >>= fun _ => q) := by
  intro r r'' ht h
  obtain ⟨_, r', hfirst, hsecond⟩ := bind_eq_ok.mp h
  obtain ⟨hstep, hagain⟩ := hp r r' ht hfirst
  obtain ⟨hstep', hagain'⟩ := hq r' r'' hstep.tracked hsecond
  refine ⟨hstep.trans hstep', fun s hs hlate => ?_⟩
  rw [bind_ok (hagain s hs (laterIn.trans hstep'.toLaterIn hlate))]
  exact hagain' s hs hlate

theorem Repeats.forM {ι : Type} {f : ι → ResolvingM Unit} (hf : ∀ i, Repeats (f i)) :
    ∀ l : List ι, Repeats (l.forM f) := by
  intro l
  induction l with
  | nil => exact Repeats.pure
  | cons i l ih => exact (hf i).seq ih

theorem Repeats.inFiles {f : Files → ResolvingM Unit} (hf : ∀ files, Repeats (f files)) :
    Repeats fun r => f r.target.files r := by
  intro r r' ht h
  obtain ⟨hstep, hagain⟩ := hf r.target.files r r' ht h
  refine ⟨hstep, fun r'' ht'' hlate => ?_⟩
  change f r''.target.files r'' = _
  rw [hlate.target.files, hstep.target.files]
  exact hagain r'' ht'' hlate

theorem addSite_stepped {r r' : Resolving} {address : VirtAddr} (ht : r.target.Tracked)
    (h : addSite address r = .ok () r') : Stepped r r' ∧
      ∃ object, r'.this.sites = r.this.sites ++ [object] ∧ r'.target.PointsTo object address := by
  obtain ⟨hsame, hthis⟩ := addSite_ok h
  let site := r.target.newSite (some r.this.object) address r.this.isHardware r.this.isInternal
  have hlater : Later r.target (r.target.withSite site) :=
    ⟨rfl, fun ⟨site', hp, haddress⟩ => ⟨site', hp.withSite site, haddress⟩⟩
  refine ⟨⟨⟨later.trans hlater hsame.later, ?_, ?_⟩, (ht.withSite site).same hsame, ?_⟩, ?_⟩
  · rw [hthis]
    rfl
  · rw [hthis]
    exact List.prefix_append _ _
  · rw [hsame.same]
    rfl
  · exact ⟨r.target.objects, by rw [hthis]; rfl,
      PointsTo.same ⟨site, ht.points_new site, rfl⟩ hsame⟩

theorem repeats_resolveAt (address : VirtAddr) : Repeats (resolveAt address) := by
  intro r r' ht h
  have hagain {r' : Resolving} (hholds : Holds r' address) (r'' : Resolving)
      (ht'' : r''.target.Tracked) (hlater : LaterIn r' r'') :
      resolveAt address r'' = .ok () r'' := by
    obtain ⟨before, object, rest, hsites, hbefore, hpoints⟩ := hholds.laterIn hlater
    have hfound : onTarget (containsAddress address r''.this.sites) r'' = .ok true r'' := by
      unfold onTarget
      rw [hsites, containsAddress_of_split ht'' hpoints hbefore]
    unfold resolveAt
    rw [bind_ok (get_eq r''), bind_ok hfound]
    rfl
  unfold resolveAt at h
  rw [bind_ok (get_eq r)] at h
  obtain ⟨there, r₁, hcontains, h₁⟩ := bind_eq_ok.mp h
  obtain ⟨t, hscan, rfl⟩ := onTarget_ok hcontains
  obtain ⟨rfl, hmeaning⟩ := containsAddress_ok hscan
  cases there with
  | true =>
    cases h₁
    exact ⟨.refl ht, fun r'' ht'' hlater => hagain hmeaning r'' ht'' hlater⟩
  | false =>
    obtain ⟨_, r₂, htake, h₂⟩ := bind_eq_ok.mp h₁
    cases htake
    let taken : Resolving :=
      { r with this := { r.this with nextSiteId := r.this.nextSiteId + 1#32 } }
    have htaken : taken.target.Tracked := ht
    obtain ⟨hstep, object, hsites, hpoints⟩ := addSite_stepped htaken h₂
    have hstart : Stepped r r' :=
      ⟨⟨hstep.target, hstep.kind, hstep.sites⟩, hstep.tracked, hstep.breakpoints⟩
    refine ⟨hstart, fun r'' ht'' hlate => hagain ?_ r'' ht'' hlate⟩
    refine ⟨r.this.sites, object, [], hsites, fun o ho => ?_, hpoints⟩
    obtain ⟨a, ha⟩ := hmeaning o ho
    exact ⟨a, hstart.target.there ha⟩

theorem repeats_resolveAddress (address : VirtAddr) : Repeats (resolveAddress address) := by
  intro r r' ht h
  have hagain {r' : Resolving} (hne : r'.this.sites ≠ []) (r'' : Resolving)
      (hlater : LaterIn r' r'') : resolveAddress address r'' = .ok () r'' := by
    have hne' : r''.this.sites.isEmpty = false := by
      obtain ⟨more, hmore⟩ := hlater.sites
      rw [← hmore, List.isEmpty_eq_false_iff]
      exact List.append_ne_nil_of_left_ne_nil hne more
    unfold resolveAddress
    rw [bind_ok (get_eq r''), hne']
    rfl
  unfold resolveAddress at h
  rw [bind_ok (get_eq r)] at h
  split_ifs at h with hempty
  · obtain ⟨hstep, object, hsites, -⟩ := addSite_stepped ht h
    exact ⟨hstep, fun r'' _ hlate => hagain (by rw [hsites]; simp) r'' hlate⟩
  · cases h
    have hne : r.this.sites ≠ [] := by simpa using hempty
    exact ⟨.refl ht, fun r'' _ hlate => hagain hne r'' hlate⟩

theorem repeats_resolveLoad (x : Except Failure VirtAddr) : Repeats (resolveLoad x) := by
  cases x with
  | ok address => exact repeats_resolveAt address
  | error e => exact fun r r' _ h => absurd h (by rw [resolveLoad, bind_error (ofExcept_error e r)]; simp)

theorem repeats_resolve : Repeats resolve := by
  -- every address is found among the sites of the breakpoint
  intro r r' ht h
  cases hkind : r.this.kind with
  | address address =>
    have hresolve {r : Resolving} (h : r.this.kind = .address address) :
        resolve r = resolveAddress address r := by
      unfold resolve
      rw [bind_ok (get_eq r), h]
    rw [hresolve hkind] at h
    obtain ⟨hstep, hagain⟩ := repeats_resolveAddress address r r' ht h
    refine ⟨hstep, fun r'' ht'' hlate => ?_⟩
    rw [hresolve (hlate.kind.trans (hstep.kind.trans hkind))]
    exact hagain r'' ht'' hlate
  | function _ | line _ _ =>
    have hother {r'' : Resolving} (h : r''.this.kind = r.this.kind) (address : VirtAddr) :
        r''.this.kind ≠ .address address := by
      rw [h, hkind]
      exact nofun
    have hloads := Repeats.inFiles (f := fun f => (loads f r.this.kind).forM resolveLoad)
      fun _ => Repeats.forM repeats_resolveLoad _
    rw [resolve_eq (hother rfl)] at h
    obtain ⟨hstep, hagain⟩ := hloads r r' ht h
    refine ⟨hstep, fun r'' ht'' hlate => ?_⟩
    have hsame := hlate.kind.trans hstep.kind
    rw [resolve_eq (hother hsame), hsame]
    exact hagain r'' ht'' hlate

/-- The breakpoint is resolved, and stays so. -/
def Settled (t : Target) (b : Breakpoint) : Prop :=
  ∀ t' : Target, t'.Tracked → Later t t' → resolve ⟨t', b⟩ = .ok () ⟨t', b⟩

theorem Settled.later {t t' : Target} {b : Breakpoint} (h : Settled t b) (hlater : Later t t') :
    Settled t' b := fun t'' ht'' hlater' => h t'' ht'' (Target.later.trans hlater hlater')

/-- The pointers are sound, and of the breakpoints of `t₀` these are resolved. -/
structure AllSettled (t₀ t : Target) (done : List ℕ) : Prop where
  tracked : t.Tracked
  files : t.files = t₀.files
  number : t.breakpoints.length = t₀.breakpoints.length
  settled : ∀ i ∈ done, ∀ b, t.breakpoints[i]? = some b → Settled t b

theorem allSettled_resolveAgain {t₀ t t' : Target} {done : List ℕ} {i : ℕ}
    (h : AllSettled t₀ t done) (hok : resolveAgain i t = .ok () t') :
    AllSettled t₀ t' (i :: done) := by
  unfold resolveAgain at hok
  cases hi : t.breakpoints[i]? with
  | none =>
    rw [hi] at hok
    cases hok
  | some b =>
    rw [hi] at hok
    cases hresolve : resolve ⟨t, b⟩ with
    | error e r =>
      simp only [hresolve] at hok
      cases hok
    | ok u r =>
      simp only [hresolve] at hok
      cases hok
      obtain ⟨hstep, hagain⟩ := repeats_resolve ⟨t, b⟩ r h.tracked hresolve
      let t' : Target := { r.target with breakpoints := r.target.breakpoints.set i r.this }
      have hset : Later r.target t' := ⟨rfl, id⟩
      have htracked : t'.Tracked := ⟨hstep.tracked.parallel, hstep.tracked.nodup, hstep.tracked.fresh⟩
      refine ⟨htracked, hstep.target.files.trans h.files, ?_, fun j hj b' hb' => ?_⟩
      · change (r.target.breakpoints.set i r.this).length = _
        rw [List.length_set, hstep.breakpoints]
        exact h.number
      change (r.target.breakpoints.set i r.this)[j]? = some b' at hb'
      rw [hstep.breakpoints, List.getElem?_set] at hb'
      split_ifs at hb' with hij hlt
      · cases hb'
        exact fun t'' ht'' hlate =>
          hagain ⟨t'', r.this⟩ ht'' ⟨later.trans hset hlate, rfl, List.prefix_rfl⟩
      · have hdone : j ∈ done := (List.mem_cons.mp hj).resolve_left (Ne.symm hij)
        exact (h.settled j hdone b' hb').later (later.trans hstep.target hset)

theorem allSettled_forM {t₀ : Target} : ∀ {l : List ℕ} {t t' : Target} {done : List ℕ},
    AllSettled t₀ t done → l.forM resolveAgain t = .ok () t' →
    AllSettled t₀ t' (l.reverse ++ done) := by
  intro l
  induction l with
  | nil =>
    intro t t' done h hok
    cases hok
    exact h
  | cons i l ih =>
    intro t t' done h hok
    obtain ⟨_, t₁, hi, hl⟩ := bind_eq_ok.mp hok
    have hrest := ih (allSettled_resolveAgain h hi) hl
    rw [List.reverse_cons, List.append_assoc]
    exact hrest

theorem forM_resolveAgain_of_settled {t : Target} (ht : t.Tracked) : ∀ {l : List ℕ},
    (∀ i ∈ l, ∃ b, t.breakpoints[i]? = some b ∧ Settled t b) →
    l.forM resolveAgain t = .ok () t := by
  intro l
  induction l with
  | nil => exact fun _ => rfl
  | cons i l ih =>
    intro h
    obtain ⟨⟨b, hi, hsettled⟩, hrest⟩ := List.forall_mem_cons.mp h
    have hagain : resolveAgain i t = .ok () t := by
      unfold resolveAgain
      simp only [hi, hsettled t ht (later.refl t)]
      have hset : t.breakpoints.set i b = t.breakpoints := by
        obtain ⟨hlt, rfl⟩ := List.getElem?_eq_some_iff.mp hi
        exact List.set_getElem_self hlt
      rw [hset]
    exact (bind_ok hagain).trans (ih hrest)

theorem reloadDynamicLibraries_twice {t t' : Target} {files : Files} (ht : t.Tracked)
    (h : reloadDynamicLibraries files t = .ok () t') :
    reloadDynamicLibraries files t' = .ok () t' := by
  have hreload (t : Target) : reloadDynamicLibraries files t =
      (List.range t.breakpoints.length).forM resolveAgain { t with files } := rfl
  rw [hreload] at h
  have hstart : AllSettled { t with files } { t with files } [] :=
    ⟨⟨ht.parallel, ht.nodup, ht.fresh⟩, rfl, rfl, by simp⟩
  have hend := allSettled_forM hstart h
  have hfiles : ({ t' with files } : Target) = t' := by
    have hsame : t'.files = files := hend.files
    rw [← hsame]
  rw [hreload, hfiles]
  refine forM_resolveAgain_of_settled hend.tracked fun i hi => ?_
  have hlt : i < t'.breakpoints.length := List.mem_range.mp hi
  have hbefore : i < t.breakpoints.length := hend.number ▸ hlt
  refine ⟨_, List.getElem?_eq_getElem hlt, ?_⟩
  exact hend.settled i (by simpa using hbefore) _ (List.getElem?_eq_getElem hlt)

end KDebugger.Target
