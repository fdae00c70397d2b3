import KDebugger.Process.StepEnds
import KDebugger.Target.LinkedRuns
import KDebugger.Target.ResolvedSites

namespace KDebugger

open Exec StoppointCollection

namespace Process

theorem enableSite_switches (i : ℕ) (s : Process) :
    ((after (enableSite i) s).breakpointSites = s.breakpointSites ∧
      (after (enableSite i) s).memory = s.memory) ∨ Switched true i s (after (enableSite i) s) := by
  cases hi : s.breakpointSites[i]? with
  | none =>
    left
    unfold enableSite
    rw [after_bind_error (siteAt_error hi)]
    exact ⟨rfl, rfl⟩
  | some site =>
    cases hon : site.isEnabled with
    | true =>
      left
      unfold enableSite
      rw [after_bind_ok (siteAt_ok hi), if_pos hon]
      exact ⟨rfl, rfl⟩
    | false =>
      have hoff : StaysOff i site s := ⟨site, hi, rfl, hon⟩
      by_cases hcan : CanEnable s site
      · obtain ⟨s', henable, hswitch⟩ := enableSite_of_can hoff hcan
        right
        rwa [after, henable]
      · obtain ⟨e, s', henable, hsites, hmemory⟩ := enableSite_of_not_can hoff hcan
        left
        rw [after, henable]
        exact ⟨hsites, hmemory⟩

theorem held_enableSite (i : ℕ) : Within (fun s s' => TrapsHeld s → TrapsHeld s') (enableSite i) := by
  intro s h
  obtain ⟨hsites, hmemory⟩ | hswitch := enableSite_switches i s
  · exact held_growing.same hsites hmemory h
  · exact hswitch.held h

end Process

namespace Target

open Process

/-- What was there is there still and comes first, and the traps are in place. -/
structure Over (t₀ t : Target) : Prop where
  sites : t₀.process.breakpointSites <+: t.process.breakpointSites
  pointers : t₀.siteObjects <+: t.siteObjects
  objects : t₀.objects ≤ t.objects
  tracked : t.Tracked
  held : TrapsHeld t.process

variable {t₀ t : Target}

theorem Over.refl (ht : t.Tracked) (h : TrapsHeld t.process) : Over t t :=
  ⟨List.prefix_rfl, List.prefix_rfl, le_rfl, ht, h⟩

/-- What is told apart is the process, the pointers and the count of objects. -/
theorem Over.moved {t' : Target} (h : Over t₀ t) (hprocess : t'.process = t.process)
    (hpointers : t'.siteObjects = t.siteObjects) (hobjects : t.objects ≤ t'.objects) :
    Over t₀ t' where
  sites := hprocess ▸ h.sites
  pointers := hpointers ▸ h.pointers
  objects := h.objects.trans hobjects
  tracked := by
    refine ⟨?_, hpointers ▸ h.tracked.nodup, fun object ho => ?_⟩
    · rw [hpointers, hprocess]
      exact h.tracked.parallel
    · exact (h.tracked.fresh object (hpointers ▸ ho)).trans_le hobjects
  held := hprocess ▸ h.held

theorem Over.adds (h : Over t₀ t) : AddsSites t₀.process t.process where
  sites := h.sites.imp fun _ hnew => hnew.symm
  held _ := h.held

theorem Over.withSite {site : BreakpointSite} (h : Over t₀ t) (hoff : site.isEnabled = false)
    (hnew : StoppointCollection.containsAddress t.process.breakpointSites site.address = false) :
    Over t₀ (t.withSite site) where
  sites := h.sites.trans (List.prefix_append _ _)
  pointers := h.pointers.trans (List.prefix_append _ _)
  objects := h.objects.trans (Nat.le_succ _)
  tracked := h.tracked.withSite site
  held := by
    refine ⟨?_, fun x hx harmed => ?_⟩
    · change ((t.process.breakpointSites ++ [site]).map BreakpointSite.address).Nodup
      refine Splits.nodup_snoc h.held.distinct fun x hx haddr => ?_
      rw [containsAddress_iff.mpr ⟨x, hx, haddr⟩] at hnew
      cases hnew
    · obtain hx | hx := List.mem_append.mp hx
      · exact h.held.trap x hx harmed
      · obtain rfl := List.mem_singleton.mp hx
        rw [harmed.1] at hoff
        cases hoff

section Handlers

variable (ht₀ : t₀.Tracked)

include ht₀

theorem over_enableSite {object : ℕ} (hobject : t₀.objects ≤ object) :
    Within (fun t t' => Over t₀ t → Over t₀ t') (enableSite object) := by
  intro t h
  have hsame := within_enableSite object t
  unfold enableSite at hsame ⊢
  cases hidx : t.siteObjects.idxOf? object with
  | none =>
    have hnone : siteIndex object t = .error .undefined { t with usedDestroyed := true } := by
      unfold siteIndex
      rw [bind_ok (get_eq t), hidx]
      rfl
    rw [after_bind_error hnone]
    exact h.moved rfl rfl le_rfl
  | some i =>
    have hsome : siteIndex object t = .ok i t := by
      unfold siteIndex
      rw [bind_ok (get_eq t), hidx]
      rfl
    rw [after_bind_ok hsome, after_onProcess] at hsame ⊢
    -- the first pointers are to older objects
    have hlater : t₀.process.breakpointSites.length ≤ i := by
      by_contra hlt
      have hi : i < t₀.siteObjects.length := by
        rw [ht₀.parallel]
        omega
      obtain ⟨hlength, hthere, -⟩ := List.idxOf?_eq_some_iff.mp hidx
      have hold : t₀.siteObjects[i] = object := (h.pointers.getElem hi).trans hthere
      exact absurd (hold ▸ ht₀.fresh _ (List.getElem_mem hi)) (by omega)
    have hfirst := List.take_prefix t₀.process.breakpointSites.length
      (after (Process.enableSite i) t.process).breakpointSites
    rw [sameBefore_enableSite hlater t.process, ← List.prefix_iff_eq_take.mp h.sites] at hfirst
    exact ⟨hfirst, h.pointers, h.objects, h.tracked.same hsame, held_enableSite i _ h.held⟩

theorem over_enableSites {objects : List ℕ} (hobjects : ∀ object ∈ objects, t₀.objects ≤ object)
    (h : Over t₀ t) : Over t₀ (after (objects.forM enableSite) t) := by
  have hleads : Leads (Over t₀) (Over t₀) (objects.forM enableSite) t :=
    Leads.forM_mem (fun object ho t h => Leads.of_within (over_enableSite ht₀ (hobjects object ho))
      (fun _ => id) h) t h
  exact hleads.after fun _ => id

/-- Resolving makes new sites, and enables new ones only. -/
structure KeepsOver (t₀ : Target) (r r' : Resolving) : Prop where
  target : Over t₀ r.target → Over t₀ r'.target
  own : Over t₀ r.target → ∀ object ∈ r'.this.sites, object ∈ r.this.sites ∨ t₀.objects ≤ object

omit ht₀ in
theorem keepsOver (t₀ : Target) : Frame (KeepsOver t₀) where
  refl _ := ⟨id, fun _ _ => .inl⟩
  trans h h' := by
    refine ⟨h'.target ∘ h.target, fun ho object hobject => ?_⟩
    obtain hobject | hobject := h'.own (h.target ho) object hobject
    · exact h.own ho object hobject
    · exact .inr hobject

theorem keepsOver_addSite (address : VirtAddr) : Within (KeepsOver t₀) (addSite address) := by
  intro r
  obtain ⟨-, hsame⟩ | ⟨hnew, hsame | hsame⟩ := after_addSite address r
  · rw [hsame]
    exact (keepsOver t₀).refl r
  all_goals
    have hown (h : Over t₀ r.target) (object : ℕ) (hobject : object ∈ (pushed r address).this.sites) :
        object ∈ r.this.sites ∨ t₀.objects ≤ object := by
      obtain hobject | hobject := List.mem_append.mp hobject
      · exact .inl hobject
      · rw [List.mem_singleton.mp hobject]
        exact .inr h.objects
    rw [hsame]
  · exact ⟨fun h => h.withSite rfl hnew, hown⟩
  · exact ⟨fun h => over_enableSite ht₀ h.objects _ (h.withSite rfl hnew), hown⟩

theorem keepsOver_resolveAt (address : VirtAddr) : Within (KeepsOver t₀) (resolveAt address) := by
  apply (keepsOver t₀).bind (keepsOver t₀).get
  intro r₀
  apply (keepsOver t₀).bind
  · intro r
    rw [after_onTarget]
    have hmarks := marks_containsAddress address r₀.this.sites r.target
    unfold OnlyMarks at hmarks
    refine ⟨fun h => ?_, fun _ _ => .inl⟩
    rw [hmarks]
    exact h.moved rfl rfl le_rfl
  intro there
  apply within_ite ((keepsOver t₀).pure _)
  exact (keepsOver t₀).bind (fun _ => ⟨id, fun _ _ => .inl⟩) fun _ => keepsOver_addSite ht₀ address

theorem keepsOver_resolve : Within (KeepsOver t₀) resolve := by
  intro r
  cases hkind : r.this.kind with
  | address address =>
    have hresolve : resolve r = resolveAddress address r := by
      unfold resolve
      rw [bind_ok (get_eq r), hkind]
    have hkeeps : Within (KeepsOver t₀) (resolveAddress address) :=
      (keepsOver t₀).bind (keepsOver t₀).get fun _ =>
        within_ite (keepsOver_addSite ht₀ address) ((keepsOver t₀).pure _)
    have hrun := hkeeps r
    unfold after at hrun ⊢
    rwa [hresolve]
  | function _ | line _ _ =>
    have hrun := (keepsOver t₀).forM
      (fun x => (keepsOver t₀).bind ((keepsOver t₀).ofExcept x) (keepsOver_resolveAt ht₀))
      (loads r.target.files r.this.kind) r
    unfold after at hrun ⊢
    rw [resolve_eq (by simp [hkind])]
    exact hrun

theorem over_resolveAgain (i : ℕ) : Within (fun t t' => Over t₀ t → Over t₀ t') (resolveAgain i) := by
  intro t h
  cases hi : t.breakpoints[i]? with
  | none =>
    have hnone : after (resolveAgain i) t = t := by
      unfold after resolveAgain
      simp only [hi]
    rwa [hnone]
  | some b =>
    rw [after_resolveAgain hi]
    exact ((keepsOver_resolve ht₀ ⟨t, b⟩).target h).moved rfl rfl le_rfl

theorem over_reload (files : Files) :
    Within (fun t t' => Over t₀ t → Over t₀ t') (reloadDynamicLibraries files) := by
  have hkeeps := keeps (Over t₀)
  exact hkeeps.bind (fun _ h => h.moved rfl rfl le_rfl) fun _ => hkeeps.bind hkeeps.get fun _ =>
    hkeeps.forM (over_resolveAgain ht₀) _

/-- The new breakpoint is the last one, and its sites are new. -/
theorem over_createEnabled (kind : BreakpointKind) (hardware internal : Bool) :
    Within (fun t t' => Over t₀ t → Over t₀ t') (createEnabled kind hardware internal) := by
  -- new sites are pushed behind the ones that are there
  intro t h
  let r₀ := constructing t kind hardware internal
  have hstart : Over t₀ r₀.target := h.moved rfl rfl (Nat.le_succ _)
  have hresolves := keepsOver_resolve ht₀ r₀
  have hcreate := createBreakpoint_eq t kind hardware internal
  unfold createEnabled
  cases hresolve : resolve r₀ with
  | error e r =>
    rw [show resolve (constructing t kind hardware internal) = _ from hresolve] at hcreate
    rw [after, hresolve] at hresolves
    rw [after_bind_error hcreate]
    exact hresolves.target hstart
  | ok _ r =>
    rw [show resolve (constructing t kind hardware internal) = _ from hresolve] at hcreate
    rw [after, hresolve] at hresolves
    let enable (b : Breakpoint) : Breakpoint := { b with isEnabled := true }
    let this := enable r.this
    let enabled : Target := { r.target with breakpoints := r.target.breakpoints ++ [this] }
    have hlast : (r.target.breakpoints ++ [r.this]).length - 1 = r.target.breakpoints.length := by simp
    have hmodify : modifyBreakpoint ((r.target.breakpoints ++ [r.this]).length - 1) enable
        { r.target with breakpoints := r.target.breakpoints ++ [r.this] } = .ok () enabled := by
      have hset := Splits.modify_split r.target.breakpoints [] r.this enable
      rw [hlast]
      exact congrArg (fun bs => EStateM.Result.ok () { r.target with breakpoints := bs }) hset
    have hread : breakpointAt ((r.target.breakpoints ++ [r.this]).length - 1) enabled =
        .ok this enabled := by
      have hget : (r.target.breakpoints ++ [this])[r.target.breakpoints.length]? = some this := by simp
      unfold breakpointAt
      rw [hlast, bind_ok (get_eq _), hget]
      rfl
    rw [after_bind_ok hcreate, after_bind_ok (get_eq _)]
    unfold enableBreakpoint
    rw [after_bind_ok hmodify, after_bind_ok hread]
    refine over_enableSites ht₀ (fun object hobject => ?_) ((hresolves.target hstart).moved rfl rfl le_rfl)
    obtain hnone | hobject := hresolves.own hstart object hobject
    · cases hnone
    · exact hobject

theorem over_notifyHit (A : Around) (parent : ℕ) :
    Within (fun t t' => Over t₀ t → Over t₀ t') (notifyHit A parent) := by
  have hkeeps := keeps (Over t₀)
  refine hkeeps.bind hkeeps.get fun t => within_ite ?_ (hkeeps.throw _)
  refine hkeeps.bind (hkeeps.forM (fun x => ?_) _) fun _ => hkeeps.ofExcept _
  refine hkeeps.bind (over_reload ht₀ x.1) fun _ => ?_
  cases x.2 with
  | none => exact hkeeps.pure _
  | some debugState => exact over_createEnabled ht₀ _ _ _

end Handlers

end Target

namespace Process

namespace Surroundings

variable {σ : Type} {D : Surroundings (EStateM Failure σ)} {O : Outside} {K : σ → Prop}

theorem goesOnAs_kept (hT : D.Turns O fun t t' => K t → K t')
    (hback : ∀ t otid, K t → Leads K (fun _ => True) (D.run (resume O otid)) t) {reading : Reading} :
    ∀ (fuel : ℕ) (t : σ) (toAwait : Option Tid), K t →
      D.GoesOnAs O (fun t _ => K t) reading fuel t toAwait := by
  intro fuel
  induction fuel with
  | zero => exact fun _ _ _ => trivial
  | succ fuel ih =>
    intro t toAwait h
    refine ⟨fun t' otid hgoes => hgoes.within hT h, fun next t' hnext => ih t' next ?_⟩
    have hagain (t : σ) (otid : Option Tid) (h : K t) (_ : True) :
        Leads K (fun _ => True) (D.run (resume O otid)) t := hback t otid h
    have hleads : Leads K (fun _ => True) (D.waitOnce O reading toAwait) t :=
      leads_waitOnce hT (fun _ _ => trivial) hagain h fun _ _ _ => trivial
    unfold Leads at hleads
    rwa [hnext] at hleads

theorem GoesOnAs.mono {ok ok' : σ → Option Tid → Prop} (hok : ∀ t otid, ok t otid → ok' t otid)
    {reading : Reading} : ∀ {fuel : ℕ} {t : σ} {toAwait : Option Tid},
      D.GoesOnAs O ok reading fuel t toAwait → D.GoesOnAs O ok' reading fuel t toAwait := by
  intro fuel
  induction fuel with
  | zero => exact fun _ => trivial
  | succ fuel ih =>
    rintro t toAwait ⟨hstops, hrest⟩
    exact ⟨fun t' otid hgoes => hok t' otid (hstops t' otid hgoes),
      fun next t' hnext => ih (hrest next t' hnext)⟩

end Surroundings

/-- Neither sites nor memory change. -/
def SameTraps (s s' : Process) : Prop :=
  s'.breakpointSites = s.breakpointSites ∧ s'.memory = s.memory

theorem sameTraps : Frame SameTraps where
  refl _ := ⟨rfl, rfl⟩
  trans h h' := ⟨h'.1.trans h.1, h'.2.trans h.2⟩

/-- What the process tells of stops leaves the sites to the breakpoints. -/
structure Outside.LeavesSites (O : Outside) : Prop extends O.LeavesTraps where
  hooks : O.Hooks SameTraps

variable {O : Outside}

theorem Outside.LeavesSites.keepsPlaces (hO : O.LeavesSites) : O.KeepsPlaces where
  cont b t s := .of_sites (by rw [(hO.cont b t s).same])
  singleStep t s := .of_sites (by rw [(hO.singleStep t s).same])
  hooks := ⟨fun reason s => .of_sites (hO.hooks.notifyStop reason s).1,
    fun parent s => .of_sites (hO.hooks.notifyHit parent s).1,
    fun reason s => .of_sites (hO.hooks.lifecycle reason s).1⟩

theorem sameTraps_inspects {s s' : Process} (h : Inspects s s') : SameTraps s s' :=
  ⟨h.sites, h.memory⟩

theorem sameTraps_waitpid (toAwait : Option Tid) : Within SameTraps (waitpid toAwait) := by
  intro s
  obtain hblocked | ⟨i, e, -, -, hwait⟩ := waitpid_cases toAwait s
  · rw [after, hblocked]
    exact sameTraps.refl s
  · rw [after, hwait]
    exact ⟨rfl, rfl⟩

end Process

namespace Target

open Process

/-- The pointers and the traps are in order, the pointers `P` come first, and `K` holds. -/
structure Alive (P : List ℕ) (K : Process → Prop) (t : Target) : Prop where
  tracked : t.Tracked
  held : TrapsHeld t.process
  pointers : P <+: t.siteObjects
  rest : K t.process

section Alive

variable {t : Target} {P : List ℕ} {K : Process → Prop}

theorem alive_onProcess {α : Type} {p : Process.M α} (hplaces : Within SamePlaces p)
    (hheld : Within (fun s s' => TrapsHeld s → TrapsHeld s') p)
    (hK : Within (fun s s' => K s → K s') p) :
    Within (fun t t' => Alive P K t → Alive P K t') (onProcess p) := by
  intro t h
  have hsame : SameSites t (after (onProcess p) t) := within_onProcess hplaces t
  rw [after_onProcess] at hsame ⊢
  exact ⟨h.tracked.same hsame, hheld _ h.held, h.pointers, hK _ h.rest⟩

variable (hK : Growing K)

include hK

theorem alive_run {α : Type} {p : Process.M α} (hp : Within SameTraps p) :
    Within (fun t t' => Alive P K t → Alive P K t') (onProcess p) :=
  alive_onProcess (fun s => .of_sites (hp s).1) (fun s => held_growing.same (hp s).1 (hp s).2)
    fun s => hK.same (hp s).1 (hp s).2

theorem alive_notifyHit (A : Around) (parent : ℕ) :
    Within (fun t t' => Alive P K t → Alive P K t') (notifyHit A parent) := by
  intro t h
  have hover := over_notifyHit h.tracked A parent t (.refl h.tracked h.held)
  exact ⟨hover.tracked, hover.held, h.pointers.trans hover.pointers, hK.adds hover.adds h.rest⟩

variable {A : Around} (hA : A.outside.LeavesSites)

include hA

theorem turns_alive :
    (surroundings A).Turns A.outside fun t t' => Alive P K t → Alive P K t' where
  frame := keeps _
  look hp := alive_run hK fun s => sameTraps_inspects (hp s)
  hits := alive_notifyHit hK A
  notifyTarget reason := alive_run hK (within_notifyTarget sameTraps sameTraps_inspects hA.hooks reason)
  lifecycle reason := alive_run hK (within_reportLifecycle sameTraps sameTraps_inspects hA.hooks reason)
  welcome reason := alive_run hK (sameTraps.bind (fun _ => ⟨rfl, rfl⟩) fun _ =>
    within_reportLifecycle sameTraps sameTraps_inspects hA.hooks reason)
  waitpid toAwait := alive_run hK (sameTraps_waitpid toAwait)
  recordReason tid reason := alive_run hK
    (sameTraps.bind (within_threadAt sameTraps tid) fun _ _ => ⟨rfl, rfl⟩)
  state state := by
    have hsame : Within SameTraps (modify fun s : Process => { s with state }) := fun _ => ⟨rfl, rfl⟩
    exact alive_run hK hsame

end Alive

/-- What `run_until_address` does while its site is there. -/
def proceed (A : Around) (reading : Reading) (tid : Tid) : TargetM StopReason := do
  onProcess (resume A.outside (some tid))
  (surroundings A).waitOnSignal A.outside reading (some tid)

/-- At each stop before a thread is let go again, and before the first one. -/
def Throughout (ok : Target → Option Tid → Prop) (A : Around) (reading : Reading) (tid : Tid)
    (t : Target) : Prop :=
  ok t (some tid) ∧ ∀ t', onProcess (resume A.outside (some tid)) t = .ok () t' →
    (surroundings A).GoesOnAs A.outside ok reading (t'.process.events.length + 1) t' (some tid)

theorem Throughout.mono {ok ok' : Target → Option Tid → Prop} {A : Around} {reading : Reading}
    {tid : Tid} {t : Target} (h : Throughout ok A reading tid t)
    (hok : ∀ t otid, ok t otid → ok' t otid) : Throughout ok' A reading tid t :=
  ⟨hok _ _ h.1, fun t' hrun => (h.2 t' hrun).mono hok⟩

section Proceed

variable {t : Target} {P : List ℕ} {K : Process → Prop} {A : Around}
  (hA : A.outside.LeavesSites) (reading : Reading) (tid : Tid)

include hA

theorem held_resume (otid : Option Tid) :
    Within (fun s s' => TrapsHeld s → TrapsHeld s') (resume A.outside otid) :=
  Lasting.resume held_growing.toLasting (fun _ _ _ _ hat =>
    held_stepOff hA.toLeavesTraps (fun i site => (staysOff_growing i site).waitpid _)
      (held_growing.waitpid _) hat.get hat.enabled) hA.toLeavesTraps otid

/-- What every resumption keeps, whichever way it ends, the whole keeps. -/
theorem alive_proceed (hK : Growing K)
    (hresume : ∀ otid, Within (fun s s' => K s → K s') (resume A.outside otid)) :
    Within (fun t t' => Alive P K t → Alive P K t') (proceed A reading tid) := by
  have hstep (otid : Option Tid) : Within (fun t t' => Alive P K t → Alive P K t')
      (onProcess (resume A.outside otid)) :=
    alive_onProcess (places_resume hA.keepsPlaces otid) (held_resume hA otid) (hresume otid)
  exact (keeps _).bind (hstep _) fun _ => (turns_alive hK hA).waitOnSignal hstep reading (some tid)

section Kept

variable {on : VirtAddr → Prop} (h : Alive P (Kept on) t)

include h

theorem alive_resume_iff (otid : Option Tid) :
    Alive P (Kept on) (after (onProcess (resume A.outside otid)) t) ↔
      OverPutsBack on A.outside t.process (t.process.valueOr otid) := by
  have hsame : SameSites t (after (onProcess (resume A.outside otid)) t) :=
    within_onProcess (places_resume hA.keepsPlaces otid) t
  have hheld := held_resume hA otid t.process h.held
  rw [after_onProcess] at hsame ⊢
  rw [← kept_resume_iff hA.toLeavesTraps h.rest]
  exact ⟨Alive.rest, fun hkept => ⟨h.tracked.same hsame, hheld, h.pointers, hkept⟩⟩

theorem leads_alive_resume (otid : Option Tid) :
    Leads (Alive P (Kept on)) (fun _ => True) (onProcess (resume A.outside otid)) t := by
  have hsame : SameSites t (after (onProcess (resume A.outside otid)) t) :=
    within_onProcess (places_resume hA.keepsPlaces otid) t
  have hleads := leads_resume hA.toLeavesTraps h.rest otid
  unfold Leads at hleads ⊢
  cases hrun : resume A.outside otid t.process with
  | ok u s =>
    rw [hrun] at hleads
    rw [after, onProcess_ok hrun] at hsame
    rw [onProcess_ok hrun]
    exact ⟨h.tracked.same hsame, hleads.toTrapsHeld, h.pointers, hleads⟩
  | error e s =>
    have herror : onProcess (resume A.outside otid) t = .error e { t with process := s } := by
      unfold onProcess
      rw [hrun]
    rw [herror]
    trivial

/-- The enabled sites are as they were, however it ends, where each that a thread is stepped
over is put back. -/
theorem alive_proceed_iff :
    Alive P (Kept on) (after (proceed A reading tid) t) ↔ Throughout
      (fun t otid => OverPutsBack on A.outside t.process (t.process.valueOr otid)) A reading tid t := by
  have hresume := alive_resume_iff hA h (some tid)
  have hback := leads_alive_resume hA h (some tid)
  unfold proceed Throughout
  unfold Leads at hback
  cases hrun : onProcess (resume A.outside (some tid)) t with
  | error e t' =>
    rw [after, hrun] at hresume
    rw [after_bind_error hrun, hresume]
    exact ⟨fun hputs => ⟨hputs, fun _ hno => by cases hno⟩, And.left⟩
  | ok u t' =>
    rw [after, hrun] at hresume
    rw [hrun] at hback
    rw [after_bind_ok hrun, Surroundings.waitOnSignal]
    have hget : (surroundings A).run get t' = .ok t'.process t' := rfl
    rw [after_bind_ok hget, Surroundings.kept_waitLoop_iff (turns_alive (kept_growing on) hA)
      (fun _ otid h => leads_alive_resume hA h otid) (fun _ otid h => alive_resume_iff hA h otid)
      _ t' (some tid) hback]
    constructor
    · intro hgoes
      refine ⟨hresume.mp hback, fun t'' hsame => ?_⟩
      cases hsame
      exact hgoes
    · exact fun hall => hall.2 t' rfl

variable {reading tid} in
theorem alive_proceed_ok {reason : StopReason} {t' : Target}
    (hrun : proceed A reading tid t = .ok reason t') : Alive P (Kept on) t' := by
  have hleads : Leads (Alive P (Kept on)) (fun _ => True) (proceed A reading tid) t := by
    refine (leads_alive_resume hA h _).bind fun _ t₁ _ h₁ => ?_
    exact Surroundings.leads_waitLoop (turns_alive (kept_growing on) hA) (fun _ _ => trivial)
      (fun _ otid h _ => leads_alive_resume hA h otid) _ t₁ _ h₁ (Surroundings.goesOnAs_true _ _ _ _)
  unfold Leads at hleads
  rwa [hrun] at hleads

theorem throughout_kept : Throughout (fun t _ => Alive P (Kept on) t) A reading tid t := by
  refine ⟨h, fun t' hrun => ?_⟩
  have hback := leads_alive_resume hA h (some tid)
  unfold Leads at hback
  rw [hrun] at hback
  exact Surroundings.goesOnAs_kept (turns_alive (kept_growing on) hA)
    (fun _ otid h => leads_alive_resume hA h otid) _ _ _ hback

end Kept

end Proceed

end Target
end KDebugger
