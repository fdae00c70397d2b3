import KDebugger.Process.StoppointRuns

namespace KDebugger.Process

open Exec KDebugger.Splits StoppointCollection

variable {s : Process}

def HardwareOp (s : Process) : StoppointOp → Prop
  | .createSite _ _ _ hardware _ => hardware = true
  | .enableSite a | .disableSite a | .removeSiteByAddress a =>
    containsAddress s.breakpointSites a = true
  | .removeSiteById id => (findById s.breakpointSites id).isSome = true
  | .createWatchpoint _ _ size => ValidSize size
  | .enableWatchpoint a | .disableWatchpoint a | .removeWatchpointByAddress a =>
    containsAddress s.watchpoints a = true
  | .removeWatchpointById id => (findById s.watchpoints id).isSome = true

/-- No member at this address is enabled. -/
def OffAt {T : Type} [Stoppoint T] (points : List T) (a : VirtAddr) : Prop :=
  ∀ point ∈ points, Stoppoint.address point = a → Stoppoint.isEnabled point = false

instance {T : Type} [Stoppoint T] (points : List T) (a : VirtAddr) : Decidable (OffAt points a) :=
  inferInstanceAs (Decidable (∀ point ∈ points, _))

/-- What enabling a site asks of the kernel, where it is not enabled yet. -/
def enablePlan (s : Process) (i : ℕ) : Option (List (UserPart × UserArea)) :=
  (s.breakpointSites[i]?).bind fun site =>
    if site.isEnabled then none else s.setPlan site.address .execute 1

def disablePlan (s : Process) (i : ℕ) : Option (List (UserPart × UserArea)) :=
  (s.breakpointSites[i]?).bind fun site =>
    if site.isEnabled then s.clearPlan site.hardwareRegisterIndex else none

def watchPlan (s : Process) (j : ℕ) : Option (List (UserPart × UserArea)) :=
  (s.watchpoints[j]?).bind fun point =>
    if point.isEnabled then none else s.setPlan point.address point.mode point.size

/-- The requests of an operation, where it gets to the debug registers with DR7 known. -/
def slotPlan (s : Process) : StoppointOp → Option (List (UserPart × UserArea))
  | .enableSite a => (findByAddress s.breakpointSites a).bind s.enablePlan
  | .disableSite a => (findByAddress s.breakpointSites a).bind s.disablePlan
  | .removeSiteById id => (findById s.breakpointSites id).bind s.disablePlan
  | .enableWatchpoint a => (findByAddress s.watchpoints a).bind s.watchPlan
  | _ => none

/-- No watchpoint goes through `watchpoint::disable`, and nothing enabled is removed
without being disabled. -/
def SwitchesOff (s : Process) : StoppointOp → Prop
  | .removeSiteByAddress a => OffAt s.breakpointSites a
  | .removeWatchpointByAddress a => OffAt s.watchpoints a
  | .disableWatchpoint _ | .removeWatchpointById _ => False
  | _ => True

/-- Besides, of the debug registers the kernel refuses the first or stores all as given. -/
structure KeepsSlots (s : Process) (op : StoppointOp) : Prop where
  switches : SwitchesOff s op
  settles : ∀ l ∈ s.slotPlan op, s.Settles l

/-- What is disabled or removed is so after the operation. -/
def Released (s : Process) : StoppointOp → Prop
  | .disableSite a | .removeSiteByAddress a => OffAt s.breakpointSites a
  | .disableWatchpoint a | .removeWatchpointByAddress a => OffAt s.watchpoints a
  | _ => True

/-- The enabled slots and the enabled stoppoints after a run, and what its last
operation was for if it has returned. -/
structure SlotsInPlace (s : Process) (ops : List StoppointOp) : Prop where
  slots : SlotsOwned (dr (runAll execStoppointOp s ops)) (owners (runAll execStoppointOp s ops))
  released : ∀ init last s', ops = init ++ [last] →
    execStoppointOp last (runAll execStoppointOp s init) = .ok () s' → Released s' last

theorem watchpointByAddress_eq {a : VirtAddr} (h : containsAddress s.watchpoints a = true) :
    ∃ i point, findByAddress s.watchpoints a = some i ∧ s.watchpoints[i]? = some point ∧
      point.address = a ∧ watchpointByAddress a s = .ok i s := by
  obtain ⟨i, hi⟩ := Option.isSome_iff_exists.mp h
  obtain ⟨point, hpoint, ha⟩ := getElem?_of_findIdx? hi
  refine ⟨i, point, hi, hpoint, by simpa [Stoppoint.address] using ha, ?_⟩
  unfold watchpointByAddress
  rw [bind_ok (get_eq s), hi]
  rfl

theorem offAt_split {T : Type} [Stoppoint T] {l₁ l₂ : List T} {x : T}
    (hdistinct : ((l₁ ++ x :: l₂).map Stoppoint.address).Nodup)
    (hoff : Stoppoint.isEnabled x = false) : OffAt (l₁ ++ x :: l₂) (Stoppoint.address x) := by
  intro y hy ha
  by_cases hin : y ∈ l₁ ++ l₂
  · exact absurd ha (key_ne hdistinct y hin)
  · have hyx : y = x := by
      simp only [List.mem_append, List.mem_cons, not_or] at hy hin
      exact (hy.resolve_left hin.1).resolve_right hin.2
    rw [hyx, hoff]

theorem offAt_erase {T : Type} [Stoppoint T] {l₁ l₂ : List T} {x : T}
    (hdistinct : ((l₁ ++ x :: l₂).map Stoppoint.address).Nodup) :
    OffAt (l₁ ++ l₂) (Stoppoint.address x) :=
  fun y hy ha => absurd ha (key_ne hdistinct y hy)

section Plans

variable {i : ℕ} {l : List (UserPart × UserArea)}

theorem mem_enablePlan {site : BreakpointSite} (hi : s.breakpointSites[i]? = some site)
    (hoff : site.isEnabled = false) (hl : l ∈ s.setPlan site.address .execute 1) :
    l ∈ s.enablePlan i := by
  unfold enablePlan
  rw [hi, Option.bind_some, if_neg (by simp [hoff])]
  exact hl

theorem mem_disablePlan {site : BreakpointSite} (hi : s.breakpointSites[i]? = some site)
    (hon : site.isEnabled = true) (hl : l ∈ s.clearPlan site.hardwareRegisterIndex) :
    l ∈ s.disablePlan i := by
  unfold disablePlan
  rw [hi, Option.bind_some, if_pos hon]
  exact hl

theorem mem_watchPlan {point : Watchpoint} (hi : s.watchpoints[i]? = some point)
    (hoff : point.isEnabled = false) (hl : l ∈ s.setPlan point.address point.mode point.size) :
    l ∈ s.watchPlan i := by
  unfold watchPlan
  rw [hi, Option.bind_some, if_neg (by simp [hoff])]
  exact hl

theorem mem_bind_of_eq {x : Option ℕ} (hx : x = some i) {f : ℕ → Option (List (UserPart × UserArea))}
    (hl : l ∈ f i) : l ∈ x.bind f := by
  rw [hx]
  exact hl

end Plans

theorem slotted_disableSiteAt (h : Slotted s) {a : VirtAddr}
    (hp : containsAddress s.breakpointSites a = true)
    (hsettles : ∀ l ∈ s.slotPlan (.disableSite a), s.Settles l) :
    Slotted (after (execStoppointOp (.disableSite a)) s) ∧
      ∀ s', execStoppointOp (.disableSite a) s = .ok () s' → OffAt s'.breakpointSites a := by
  obtain ⟨i, site, hi, hsite, rfl, hby⟩ := siteByAddress_eq hp
  obtain ⟨l₁, l₂, hsplit, rfl⟩ := exists_split hsite
  have hexec : execStoppointOp (.disableSite site.address) s = disableSite l₁.length s := bind_ok hby
  rw [after, hexec]
  obtain ⟨e, s', hfail, h'⟩ | ⟨s', site', hdisable, h', hsplit', hoff, haddr⟩ :=
    slotted_disableSite h hsplit fun hon l hl =>
      hsettles l (mem_bind_of_eq hi (mem_disablePlan hsite hon hl))
  · rw [hfail]
    exact ⟨h', fun _ hok => by cases hok⟩
  · rw [hdisable]
    refine ⟨h', fun s'' hok => ?_⟩
    cases hok
    have hdistinct := h'.sites.distinct
    rw [hsplit'] at hdistinct
    rw [hsplit', ← haddr]
    exact offAt_split hdistinct hoff

theorem slotted_removeSiteById (h : Slotted s) {id : BitVec 32}
    (hp : (findById s.breakpointSites id).isSome = true)
    (hsettles : ∀ l ∈ s.slotPlan (.removeSiteById id), s.Settles l) :
    Slotted (after (removeSiteById id) s) := by
  obtain ⟨i, hi⟩ := Option.isSome_iff_exists.mp hp
  obtain ⟨site, hsite, -⟩ := getElem?_of_findIdx? hi
  obtain ⟨l₁, l₂, hsplit, rfl⟩ := exists_split hsite
  unfold removeSiteById
  rw [after_bind_ok (get_eq s), hi, after_bind_ok (found_some _ s)]
  obtain ⟨e, s', hfail, h'⟩ | ⟨s', site', hdisable, h', hsplit', hoff, -⟩ :=
    slotted_disableSite h hsplit fun hon l hl =>
      hsettles l (mem_bind_of_eq hi (mem_disablePlan hsite hon hl))
  · rw [after_bind_error hfail]
    exact h'
  · rw [after_bind_ok hdisable]
    exact slotted_eraseSite h' hsplit' hoff

theorem slotted_removeSiteByAddress (h : Slotted s) {a : VirtAddr}
    (hp : containsAddress s.breakpointSites a = true) (hoff : OffAt s.breakpointSites a) :
    Slotted (after (removeSiteByAddress a) s) ∧
      OffAt (after (removeSiteByAddress a) s).breakpointSites a := by
  obtain ⟨i, site, hi, hsite, rfl, -⟩ := siteByAddress_eq hp
  obtain ⟨l₁, l₂, hsplit, rfl⟩ := exists_split hsite
  have hdisabled : site.isEnabled = false := hoff site (by simp [hsplit]) rfl
  unfold removeSiteByAddress
  rw [after_bind_ok (get_eq s), hi, after_bind_ok (found_some _ s)]
  refine ⟨slotted_eraseSite h hsplit hdisabled, ?_⟩
  have hdistinct := h.sites.distinct
  rw [hsplit] at hdistinct
  change OffAt (s.breakpointSites.eraseIdx l₁.length) site.address
  rw [hsplit, eraseIdx_split]
  exact offAt_erase hdistinct

theorem slotted_removeWatchpointByAddress (h : Slotted s) {a : VirtAddr}
    (hp : containsAddress s.watchpoints a = true) (hoff : OffAt s.watchpoints a) :
    Slotted (after (removeWatchpointByAddress a) s) ∧
      OffAt (after (removeWatchpointByAddress a) s).watchpoints a := by
  obtain ⟨i, point, hi, hpoint, rfl, -⟩ := watchpointByAddress_eq hp
  obtain ⟨l₁, l₂, hsplit, rfl⟩ := exists_split hpoint
  have hdisabled : point.isEnabled = false := hoff point (by simp [hsplit]) rfl
  unfold removeWatchpointByAddress
  rw [after_bind_ok (get_eq s), hi, after_bind_ok (found_some _ s)]
  refine ⟨slotted_eraseWatchpoint h hsplit hdisabled, ?_⟩
  have hdistinct := h.points.distinct
  rw [hsplit] at hdistinct
  change OffAt (s.watchpoints.eraseIdx l₁.length) point.address
  rw [hsplit, eraseIdx_split]
  exact offAt_erase hdistinct

theorem slotted_step (h : Slotted s) {op : StoppointOp} (hop : HardwareOp s op)
    (hkeeps : KeepsSlots s op) :
    Slotted (after (execStoppointOp op) s) ∧
      ∀ s', execStoppointOp op s = .ok () s' → Released s' op := by
  -- one case an operation, from what it asks of the kernel
  obtain ⟨hswitches, hsettles⟩ := hkeeps
  cases op with
  | createSite parent id a hardware internal =>
    obtain rfl : hardware = true := hop
    exact ⟨slotted_createSite h parent id a internal, fun _ _ => trivial⟩
  | enableSite a =>
    obtain ⟨i, site, hi, hsite, -, hby⟩ := siteByAddress_eq hop
    obtain ⟨l₁, l₂, hsplit, rfl⟩ := exists_split hsite
    rw [execStoppointOp, after_bind_ok hby]
    exact ⟨slotted_enableSite h hsplit fun hoff l hl =>
      hsettles l (mem_bind_of_eq hi (mem_enablePlan hsite hoff hl)), fun _ _ => trivial⟩
  | disableSite a => exact slotted_disableSiteAt h hop hsettles
  | removeSiteById id => exact ⟨slotted_removeSiteById h hop hsettles, fun _ _ => trivial⟩
  | removeSiteByAddress a =>
    obtain ⟨hslots, hoff⟩ := slotted_removeSiteByAddress h hop hswitches
    refine ⟨hslots, fun s' hok => ?_⟩
    have hremove : removeSiteByAddress a s = .ok () s' := hok
    rw [after, hremove] at hoff
    exact hoff
  | createWatchpoint a mode size =>
    exact ⟨slotted_createWatchpoint h a mode hop, fun _ _ => trivial⟩
  | enableWatchpoint a =>
    obtain ⟨i, point, hi, hpoint, -, hby⟩ := watchpointByAddress_eq hop
    obtain ⟨l₁, l₂, hsplit, rfl⟩ := exists_split hpoint
    rw [execStoppointOp, after_bind_ok hby]
    exact ⟨slotted_enableWatchpoint h hsplit fun hoff l hl =>
      hsettles l (mem_bind_of_eq hi (mem_watchPlan hpoint hoff hl)), fun _ _ => trivial⟩
  | disableWatchpoint a => exact absurd hswitches id
  | removeWatchpointById id => exact absurd hswitches (fun h => h)
  | removeWatchpointByAddress a =>
    obtain ⟨hslots, hoff⟩ := slotted_removeWatchpointByAddress h hop hswitches
    refine ⟨hslots, fun s' hok => ?_⟩
    have hremove : removeWatchpointByAddress a s = .ok () s' := hok
    rw [after, hremove] at hoff
    exact hoff

theorem slotted_start (halone : Alone s) (hdr7 : dr s 7 = 0#64)
    (hsites : s.breakpointSites = []) (hpoints : s.watchpoints = []) : Slotted s where
  alone := halone
  sites := ⟨by simp [hsites], by simp [hsites]⟩
  points := ⟨by simp [hpoints], by simp [hpoints]⟩
  slots := by
    have howners : owners s = [] := by simp [owners, enabledOwners, hsites, hpoints]
    rw [howners]
    refine ⟨List.nodup_nil, by simp, fun i hi hon => ?_⟩
    rw [slotEnabled, hdr7] at hon
    simp at hon

/-- Runs of operations on the hardware stoppoints of a single thread. -/
theorem slotsInPlace_of_run (s : Process) (halone : Alone s)
    (hdr7 : dr s 7 = 0#64) (hsites : s.breakpointSites = []) (hpoints : s.watchpoints = [])
    (ops : List StoppointOp)
    (hops : AllSteps execStoppointOp (fun s op => HardwareOp s op ∧ KeepsSlots s op) s ops) :
    SlotsInPlace s ops := by
  have hstart := slotted_start halone hdr7 hsites hpoints
  have hrun {ops : List StoppointOp}
      (hops : AllSteps execStoppointOp (fun s op => HardwareOp s op ∧ KeepsSlots s op) s ops) :
      Slotted (runAll execStoppointOp s ops) := by
    apply runAll_invariant (I := Slotted) _ ops s hstart hops
    intro s op h hop
    exact (slotted_step h hop.1 hop.2).1
  refine ⟨(hrun hops).slots, ?_⟩
  rintro init last s' rfl hok
  obtain ⟨hinit, hlast⟩ := allSteps_concat.mp hops
  exact (slotted_step (hrun hinit) hlast.1 hlast.2).2 s' hok

theorem slotPlan_eq {op : StoppointOp} {l : List (UserPart × UserArea)} (h : l ∈ s.slotPlan op) :
    ∃ i masked words, l = slotRequests i masked words := by
  have hset {a mode size} (hl : l ∈ s.setPlan a mode size) :
      ∃ i masked words, l = slotRequests i masked words := by
    obtain ⟨c, -, hmap⟩ := Option.bind_eq_some_iff.mp hl
    obtain ⟨i, -, rfl⟩ := Option.map_eq_some_iff.mp hmap
    exact ⟨_, _, _, rfl⟩
  have hclear {index} (hl : l ∈ s.clearPlan index) :
      ∃ i masked words, l = slotRequests i masked words := by
    unfold clearPlan at hl
    split_ifs at hl
    · obtain ⟨c, -, rfl⟩ := Option.map_eq_some_iff.mp hl
      exact ⟨_, _, _, rfl⟩
    · cases hl
  cases op with
  | enableSite =>
    obtain ⟨i, -, hi⟩ := Option.bind_eq_some_iff.mp h
    obtain ⟨site, -, hsite⟩ := Option.bind_eq_some_iff.mp hi
    split_ifs at hsite
    exact hset hsite
  | enableWatchpoint =>
    obtain ⟨j, -, hj⟩ := Option.bind_eq_some_iff.mp h
    obtain ⟨point, -, hpoint⟩ := Option.bind_eq_some_iff.mp hj
    split_ifs at hpoint
    exact hset hpoint
  | disableSite | removeSiteById =>
    obtain ⟨i, -, hi⟩ := Option.bind_eq_some_iff.mp h
    obtain ⟨site, -, hsite⟩ := Option.bind_eq_some_iff.mp hi
    split_ifs at hsite
    exact hclear hsite
  | _ => cases h

theorem keepsKernel : Frame fun s s' : Process => s'.kernel = s.kernel where
  refl _ := rfl
  trans h h' := h'.trans h

theorem within_siteOp_kernel {p : M Unit} (h : Within SitesOnly p) :
    Within (fun s s' : Process => s'.kernel = s.kernel) p := fun s => by rw [(h s).same]

theorem within_enableWatchpoint_kernel (j : ℕ) :
    Within (fun s s' : Process => s'.kernel = s.kernel) (enableWatchpoint j) := by
  apply keepsKernel.bind (within_watchpointAt keepsKernel j)
  intro point
  apply within_ite (keepsKernel.pure _)
  apply keepsKernel.bind
  · intro s
    change (after (setHardwareStoppoint point.address point.mode point.size) s).kernel = s.kernel
    rw [(within_setHardwareStoppoint point.address point.mode point.size s).same]
  · intro index
    exact keepsKernel.bind (fun _ => rfl) fun _ _ => rfl

theorem within_disableWatchpoint_kernel (j : ℕ) :
    Within (fun s s' : Process => s'.kernel = s.kernel) (disableWatchpoint j) := by
  apply keepsKernel.bind (within_watchpointAt keepsKernel j)
  intro point
  apply within_ite (keepsKernel.pure _)
  apply keepsKernel.bind
  · intro s
    rw [(within_clearHardwareStoppoint point.hardwareRegisterIndex s).same]
  · exact fun _ _ => rfl

theorem within_createWatchpoint_kernel (a : VirtAddr) (mode : StoppointMode) (size : ℕ) :
    Within (fun s s' : Process => s'.kernel = s.kernel) (createWatchpoint a mode size) := by
  intro s
  obtain ⟨-, what, s₁, hcreate, hsame⟩ | ⟨-, -, s₁, hcreate, hsame⟩ | ⟨-, -, new, id, -, -, -, -, hcreate⟩ :=
    createWatchpoint_cases s a mode size
  · rw [after, hcreate, hsame]
  · rw [after, hcreate, hsame]
  · rw [after, hcreate]

theorem within_execStoppointOp_kernel (op : StoppointOp) :
    Within (fun s s' : Process => s'.kernel = s.kernel) (execStoppointOp op) := by
  have hfound (i : Option ℕ) : Within (fun s s' : Process => s'.kernel = s.kernel) (found i) := by
    cases i with
    | none => exact keepsKernel.throw _
    | some i => exact keepsKernel.pure i
  have hpoint (a : VirtAddr) :
      Within (fun s s' : Process => s'.kernel = s.kernel) (watchpointByAddress a) := by
    refine keepsKernel.bind keepsKernel.get fun s => ?_
    cases findByAddress s.watchpoints a with
    | none => exact keepsKernel.throw _
    | some j => exact keepsKernel.pure j
  cases op with
  | createSite parent id a hardware internal =>
    intro s
    change (after (createBreakpointSite parent id a hardware internal) s).kernel = s.kernel
    unfold createBreakpointSite
    rw [after_bind_ok (get_eq s)]
    split_ifs <;> rfl
  | enableSite a =>
    exact keepsKernel.bind (within_siteByAddress keepsKernel a) fun i =>
      within_siteOp_kernel (within_enableSite i)
  | disableSite a =>
    exact keepsKernel.bind (within_siteByAddress keepsKernel a) fun i =>
      within_siteOp_kernel (within_disableSite i)
  | removeSiteById id =>
    refine keepsKernel.bind keepsKernel.get fun s => keepsKernel.bind (hfound _) fun i => ?_
    exact keepsKernel.bind (within_siteOp_kernel (within_disableSite i)) fun _ _ => rfl
  | removeSiteByAddress a =>
    exact keepsKernel.bind keepsKernel.get fun s => keepsKernel.bind (hfound _) fun _ _ => rfl
  | createWatchpoint a mode size => exact within_createWatchpoint_kernel a mode size
  | enableWatchpoint a =>
    exact keepsKernel.bind (hpoint a) fun j => within_enableWatchpoint_kernel j
  | disableWatchpoint a =>
    exact keepsKernel.bind (hpoint a) fun j => within_disableWatchpoint_kernel j
  | removeWatchpointById id =>
    refine keepsKernel.bind keepsKernel.get fun s => keepsKernel.bind (hfound _) fun j => ?_
    exact keepsKernel.bind (within_disableWatchpoint_kernel j) fun _ _ => rfl
  | removeWatchpointByAddress a =>
    exact keepsKernel.bind keepsKernel.get fun s => keepsKernel.bind (hfound _) fun _ _ => rfl

/-- The kernel takes each request of the operation. -/
def TakesAll (s : Process) (op : StoppointOp) : Prop :=
  (s.slotPlan op).all (fun l => (s.handed l).isSome) = true

instance (s : Process) (op : StoppointOp) : Decidable (s.TakesAll op) :=
  inferInstanceAs (Decidable (_ = true))

theorem keepsSlots_x86 {op : StoppointOp} (hx86 : s.kernel = .x86) (hswitches : SwitchesOff s op)
    (htakes : s.TakesAll op) : KeepsSlots s op := by
  refine ⟨hswitches, fun l hl => ?_⟩
  unfold TakesAll at htakes
  rw [show s.slotPlan op = some l from hl] at htakes
  obtain ⟨i, masked, words, rfl⟩ := slotPlan_eq hl
  exact settles_x86 hx86 htakes

theorem allSteps_x86 : ∀ {ops : List StoppointOp} {s : Process}, s.kernel = .x86 →
    AllSteps execStoppointOp (fun s op => HardwareOp s op ∧ SwitchesOff s op ∧ s.TakesAll op) s ops →
    AllSteps execStoppointOp (fun s op => HardwareOp s op ∧ KeepsSlots s op) s ops := by
  intro ops
  induction ops with
  | nil => exact fun _ _ => trivial
  | cons op ops ih =>
    rintro s hx86 ⟨⟨hop, hswitches, htakes⟩, hrest⟩
    have hafter := within_execStoppointOp_kernel op s
    exact ⟨⟨hop, keepsSlots_x86 hx86 hswitches htakes⟩, ih (hafter.trans hx86) hrest⟩

/-- A site and a watchpoint; the site gives its slot back to a second watchpoint. -/
def sharedSlots : List StoppointOp :=
  [.createSite none 1#32 0x1000#64 true false, .createWatchpoint 0x2000#64 .write 8,
    .createWatchpoint 0x2010#64 .readWrite 4, .enableSite 0x1000#64, .enableWatchpoint 0x2000#64,
    .disableSite 0x1000#64, .enableWatchpoint 0x2010#64, .removeSiteById 1#32]

theorem untouched_alone : Alone untouched := ⟨by decide, rfl, by decide +kernel⟩

theorem slotsInPlace_sharedSlots : SlotsInPlace untouched sharedSlots := by
  refine slotsInPlace_of_run untouched untouched_alone (by decide) rfl rfl sharedSlots
    (allSteps_x86 rfl ?_)
  refine ⟨⟨rfl, trivial, by decide +kernel⟩, ⟨.inr (.inr (.inr rfl)), trivial, by decide +kernel⟩,
    ⟨.inr (.inr (.inl rfl)), trivial, by decide +kernel⟩, ⟨?_, trivial, by decide +kernel⟩,
    ⟨?_, trivial, by decide +kernel⟩, ⟨?_, trivial, by decide +kernel⟩,
    ⟨?_, trivial, by decide +kernel⟩, ⟨?_, trivial, by decide +kernel⟩, trivial⟩
  · change containsAddress _ _ = true
    decide +kernel
  · change containsAddress _ _ = true
    decide +kernel
  · change containsAddress _ _ = true
    decide +kernel
  · change containsAddress _ _ = true
    decide +kernel
  · change Option.isSome _ = true
    decide +kernel

/-- A watchpoint removed by its id while it is enabled keeps its slot. -/
theorem slotsInPlace_not_for_all : ¬ ∀ (s : Process) (ops : List StoppointOp),
    Alone s → dr s 7 = 0#64 → s.breakpointSites = [] → s.watchpoints = [] →
    AllSteps execStoppointOp HardwareOp s ops → SlotsInPlace s ops := by
  intro h
  let ops : List StoppointOp :=
    [.createWatchpoint 0x2000#64 .write 8, .enableWatchpoint 0x2000#64, .removeWatchpointById 1#32]
  have hrun : SlotsInPlace untouched ops := h untouched ops untouched_alone (by decide) rfl rfl
    ⟨.inr (.inr (.inr rfl)), by change containsAddress _ _ = true; decide +kernel,
      by change Option.isSome _ = true; decide +kernel, trivial⟩
  obtain ⟨o, ho, -⟩ := hrun.slots.onto 0 (by decide) (by decide +kernel)
  have hnobody : (owners (runAll execStoppointOp untouched ops)).length = 0 := by decide +kernel
  rw [List.eq_nil_of_length_eq_zero hnobody] at ho
  exact absurd ho List.not_mem_nil

end KDebugger.Process
