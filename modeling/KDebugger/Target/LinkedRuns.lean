import KDebugger.Process.SurroundingTurns
import KDebugger.Target.LinkedSteps

namespace KDebugger

open Exec StoppointCollection

namespace Process

/-- The sites stay but for whether they are enabled. -/
abbrev SamePlaces (s s' : Process) : Prop :=
  s'.breakpointSites.map place = s.breakpointSites.map place

theorem samePlaces : Frame SamePlaces where
  refl _ := rfl
  trans h h' := h'.trans h

theorem SamePlaces.of_sites {s s' : Process} (h : s'.breakpointSites = s.breakpointSites) :
    SamePlaces s s' := congrArg (List.map place) h

/-- Neither the traced program nor what is told of a stop touches the sites. -/
structure Outside.KeepsPlaces (O : Outside) : Prop where
  cont : ∀ b t, Within SamePlaces (O.cont b t)
  singleStep : ∀ t, Within SamePlaces (O.singleStep t)
  hooks : O.Hooks SamePlaces

variable {O : Outside} (hO : O.KeepsPlaces)

theorem places_waitpid (toAwait : Option Tid) : Within SamePlaces (waitpid toAwait) := by
  intro s
  obtain hblocked | ⟨i, e, -, -, hwait⟩ := waitpid_cases toAwait s
  · rw [after, hblocked]
  · rw [after, hwait]
    exact samePlaces.refl s

theorem places_inspects {s s' : Process} (h : Inspects s s') : SamePlaces s s' := .of_sites h.sites

theorem places_recordReason (tid : Tid) (reason : StopReason) :
    Within SamePlaces (recordReason tid reason) :=
  samePlaces.bind (within_threadAt samePlaces tid) fun _ _ => rfl

theorem places_siteById (id : BitVec 32) {act : ℕ → M Unit}
    (hact : ∀ i, Within SamePlaces (act i)) : Within SamePlaces (do
      let i ← siteById id
      act i) := by
  refine samePlaces.bind (samePlaces.bind samePlaces.get fun s => ?_) hact
  cases findById s.breakpointSites id with
  | none => exact samePlaces.throw _
  | some i => exact samePlaces.pure i

include hO

theorem Outside.KeepsPlaces.continues : O.Continues SamePlaces where
  frame := samePlaces
  continued _ _ := rfl
  stepped _ _ := rfl
  cont := hO.cont
  singleStep := hO.singleStep
  waitpid := places_waitpid
  modifyThread _ _ _ := rfl
  resumed _ _ := rfl
  running _ := rfl

theorem places_resume (otid : Option Tid) : Within SamePlaces (resume O otid) :=
  within_resume hO.continues (fun h => h.places) otid

theorem places_notifyTarget (reason : StopReason) : Within SamePlaces (notifyTarget O reason) :=
  within_notifyTarget samePlaces places_inspects hO.hooks reason

theorem places_reportLifecycle (reason : StopReason) :
    Within SamePlaces (reportLifecycle O reason) :=
  within_reportLifecycle samePlaces places_inspects hO.hooks reason

theorem places_welcome (reason : StopReason) : Within SamePlaces (welcome O reason) :=
  samePlaces.bind (fun _ => rfl) fun _ => places_reportLifecycle hO reason

end Process

namespace Target

open Process

variable {t t' : Target} {A : Around} (hA : A.outside.KeepsPlaces)

theorem keepsAll_handlerStep (x : Files × Option VirtAddr) : Within KeepsAll (handlerStep x) := by
  refine keepsAll.bind (keepsAll_reload x.1) fun _ => ?_
  cases x.2 with
  | none => exact keepsAll.pure _
  | some debugState => exact fun t => keepsAll_createEnabled (clear_address t debugState) _ _

theorem keepsAll_notifyHit (parent : ℕ) : Within KeepsAll (notifyHit A parent) := by
  refine keepsAll.bind keepsAll.get fun t => within_ite ?_ (keepsAll.throw _)
  exact keepsAll.bind (keepsAll.forM keepsAll_handlerStep _) fun _ => keepsAll.ofExcept _

theorem keepsAll_run {α : Type} {p : Process.M α} (hp : Within SamePlaces p) :
    Within KeepsAll ((surroundings A).run p) := keepsAll_onProcess hp

include hA

theorem turns_keepsAll : (surroundings A).Turns A.outside KeepsAll where
  frame := keepsAll
  look hp := keepsAll_run fun s => places_inspects (hp s)
  hits := keepsAll_notifyHit
  notifyTarget reason := keepsAll_run (places_notifyTarget hA reason)
  lifecycle reason := keepsAll_run (places_reportLifecycle hA reason)
  welcome reason := keepsAll_run (places_welcome hA reason)
  waitpid toAwait := keepsAll_run (places_waitpid toAwait)
  recordReason tid reason := keepsAll_run (places_recordReason tid reason)
  state _ := keepsAll_run fun _ => rfl

theorem keepsAll_waitOnSignal (reading : Reading) (toAwait : Option Tid) :
    Within KeepsAll ((surroundings A).waitOnSignal A.outside reading toAwait) :=
  (turns_keepsAll hA).waitOnSignal (fun otid => keepsAll_run (places_resume hA otid)) reading toAwait

omit hA

/-- The links hold, and the pointer leads to a site without a parent. -/
structure Temporary (object : ℕ) (t : Target) : Prop where
  linked : Linked t t.breakpoints
  there : ∃ site, t.Points object site ∧ site.parent = none

theorem Temporary.grows {object : ℕ} (h : Temporary object t) (hgrows : Grows t t') :
    Temporary object t' := by
  obtain ⟨site, hp, horphan⟩ := h.there
  obtain ⟨site', hp', hplace⟩ := hgrows.there object site hp
  exact ⟨hgrows.linked, site', hp', (congrArg (·.2.2.2.2) hplace).trans horphan⟩

abbrev AllLinked (t : Target) : Prop := Linked t t.breakpoints

theorem linked_orphan (h : AllLinked t) (address : VirtAddr) (hardware internal : Bool) :
    (∃ e, createBreakpointSite none address hardware internal t = .error e t) ∨
      ∃ t', createBreakpointSite none address hardware internal t = .ok t.objects t' ∧
        Temporary t.objects t' := by
  rw [createBreakpointSite_eq]
  cases hthere : StoppointCollection.containsAddress t.process.breakpointSites address with
  | true => exact .inl ⟨_, rfl⟩
  | false => exact .inr ⟨_, rfl, h.withOrphan hthere rfl, _, h.tracked.points_new _, rfl⟩

theorem temporary_enable {object : ℕ} (h : Temporary object t) :
    Temporary object (after (enableSite object) t) := by
  obtain ⟨site, hp, -⟩ := h.there
  exact h.grows ((stays_enableSite h.linked.tracked hp).grows h.linked)

theorem linked_setSite (h : AllLinked t) (address : VirtAddr) (hardware : Bool) :
    AllLinked (after (setSite address hardware) t) := by
  unfold setSite
  obtain ⟨e, herror⟩ | ⟨t', hok, htemporary⟩ := linked_orphan h address hardware false
  · rw [after_bind_error herror]
    exact h
  · rw [after_bind_ok hok]
    exact (temporary_enable htemporary).linked

/-- What `run_until_address` does after it has made its site. -/
def untilArrived (A : Around) (reading : Reading) (address : VirtAddr) (tid : Tid)
    (breakpointToRemove : Option ℕ) : TargetM Unit := do
  onProcess (resume A.outside (some tid))
  let reason ← (surroundings A).waitOnSignal A.outside reading (some tid)
  let arrived ←
    if reason.isBreakpoint then do
      let pc ← onProcess (getPc (some tid))
      pure (pc == address)
    else pure false
  let reason := if arrived then { reason with trapReason := some .singleStep } else reason
  match breakpointToRemove with
  | none => pure ()
  | some object => removeSite object
  onProcess (setReason tid reason)

theorem places_setReason (tid : Tid) (reason : StopReason) :
    Within SamePlaces (setReason tid reason) :=
  samePlaces.bind (within_threadAt samePlaces tid) fun _ _ => rfl

include hA

theorem keepsAll_untilArrived (reading : Reading) (address : VirtAddr) (tid : Tid) :
    Within KeepsAll (untilArrived A reading address tid none) := by
  apply keepsAll.bind (keepsAll_onProcess (places_resume hA _))
  intro _
  apply keepsAll.bind (keepsAll_waitOnSignal hA reading _)
  intro reason
  have hrest (b : Bool) : Within KeepsAll (do
      let _ ← (pure () : TargetM Unit)
      onProcess (setReason tid
        (if b then { reason with trapReason := some .singleStep } else reason))) :=
    keepsAll.bind (keepsAll.pure _) fun _ => keepsAll_onProcess (places_setReason _ _)
  refine within_ite (keepsAll.bind (keepsAll_onProcess (within_getPc samePlaces _)) fun pc => ?_)
    (keepsAll.bind (keepsAll.pure _) hrest)
  exact keepsAll.bind (keepsAll.pure _) hrest

/-- The site that was made is still there when it is taken away. -/
theorem linked_untilArrived (reading : Reading) (address : VirtAddr) (tid : Tid) {object : ℕ}
    (h : Temporary object t) :
    AllLinked (after (untilArrived A reading address tid (some object)) t) := by
  have hstep {α : Type} {p : TargetM α} (hp : Within KeepsAll p) {t : Target}
      (ht : Temporary object t) : Leads (Temporary object) AllLinked p t :=
    .of_after (ht.grows (hp t ht.linked)) fun _ => Temporary.linked
  have hrest (reason : StopReason) {t : Target} (ht : Temporary object t) :
      Leads AllLinked AllLinked (do
        removeSite object
        onProcess (setReason tid reason)) t := by
    obtain ⟨site, hpoints, horphan⟩ := ht.there
    obtain ⟨i, hremove, hlinked⟩ := linked_removeSite ht.linked hpoints horphan
    rw [leads_bind_ok hremove]
    exact .of_after (keepsAll_onProcess (places_setReason tid reason) _ hlinked).linked
      fun _ => id
  have hall : Leads AllLinked AllLinked (untilArrived A reading address tid (some object)) t := by
    refine (hstep (keepsAll_onProcess (places_resume hA _)) h).bind fun _ t₁ _ h₁ => ?_
    refine (hstep (keepsAll_waitOnSignal hA reading _) h₁).bind fun reason t₂ _ h₂ => ?_
    cases reason.isBreakpoint with
    | true =>
      refine (hstep (keepsAll_onProcess (within_getPc samePlaces _)) h₂).bind fun pc t₃ _ h₃ => ?_
      exact hrest _ h₃
    | false => exact hrest _ h₂
  exact hall.after fun _ => id

omit hA

theorem temporarySite_cases (h : AllLinked t) (address : VirtAddr) :
    (∃ e t', temporarySite address t = .error e t' ∧ AllLinked t') ∨
      temporarySite address t = .ok none t ∨
      ∃ object t', temporarySite address t = .ok (some object) t' ∧ Temporary object t' := by
  unfold temporarySite
  rw [bind_ok (get_eq t)]
  split_ifs with hthere
  · exact .inr (.inl rfl)
  obtain ⟨e, herror⟩ | ⟨t₁, hok, htemporary⟩ := linked_orphan h address false true
  · exact .inl ⟨e, t, bind_error herror, h⟩
  · rw [bind_ok hok]
    have henable := temporary_enable htemporary
    cases hrun : enableSite t.objects t₁ with
    | error e t₂ =>
      rw [after, hrun] at henable
      exact .inl ⟨e, t₂, bind_error hrun, henable.linked⟩
    | ok _ t₂ =>
      rw [after, hrun] at henable
      exact .inr (.inr ⟨t.objects, t₂, bind_ok hrun, henable⟩)

include hA

theorem linked_runUntilAddress (reading : Reading) (address : VirtAddr) (otid : Option Tid)
    (h : AllLinked t) : AllLinked (after (runUntilAddress A reading address otid) t) := by
  change AllLinked (after (do
    let t ← get
    let breakpointToRemove ← temporarySite address
    untilArrived A reading address (t.process.valueOr otid) breakpointToRemove) t)
  rw [after_bind_ok (get_eq t)]
  obtain ⟨e, t', herror, hlinked⟩ | hnone | ⟨object, t', hsome, htemporary⟩ :=
    temporarySite_cases h address
  · rw [after_bind_error herror]
    exact hlinked
  · rw [after_bind_ok hnone]
    exact (keepsAll_untilArrived hA reading address _ t h).linked
  · rw [after_bind_ok hsome]
    exact linked_untilArrived hA reading address _ htemporary

omit hA

/-- No pointer to a site dangles, no site has a parent that is gone, and no site was used
after it was destroyed. -/
structure PointersSound (t : Target) : Prop where
  held : ∀ b ∈ t.breakpoints, ∀ object ∈ b.sites, object ∈ t.siteObjects
  parents : ∀ site ∈ t.process.breakpointSites, ∀ parent, site.parent = some parent →
    ∃ b ∈ t.breakpoints, b.object = parent
  unused : t.usedDestroyed = false

theorem Linked.sound (h : AllLinked t) : PointersSound t where
  held b hb object hobject := by
    obtain ⟨site, ⟨i, hi, -⟩, -⟩ := h.held b hb object hobject
    exact List.mem_of_getElem? hi
  parents site hsite parent hparent := by
    obtain ⟨object, hp⟩ := h.tracked.exists_points hsite
    obtain ⟨b, hb, hobject, -⟩ := h.parents object site hp parent hparent
    exact ⟨b, hb, hobject⟩
  unused := h.unused

/-- A command deletes only what is not linked, and creates no breakpoint half way. -/
def Unlinked (t : Target) : Command → Prop
  | .setBreakpoint kind _ => Clear t kind
  | .delete id => ∀ i b, t.findBreakpoint id = some i → t.breakpoints[i]? = some b → b.sites = []
  | .deleteSite id => ∀ i site, findById t.process.breakpointSites id = some i →
    t.process.breakpointSites[i]? = some site → site.parent = none
  | _ => True

/-- What is outside the debugger while it waits. -/
def Command.Outside : Command → Prop
  | .runUntilAddress A _ _ _ => A.outside.KeepsPlaces
  | _ => True

theorem linked_step {command : Command} (hout : command.Outside) (h : AllLinked t)
    (hunlinked : Unlinked t command) : AllLinked (after (execCommand command) t) := by
  -- one case a command; deleting needs that nothing points to what goes
  cases command with
  | setBreakpoint kind hardware =>
    cases kind <;> exact (keepsAll_createEnabled hunlinked _ _ h).linked
  | setInternal address => exact (keepsAll_createEnabled (clear_address t address) _ _ h).linked
  | enable id => exact (keepsAll_toggle keepsAll_enableBreakpoint id t h).linked
  | disable id => exact (keepsAll_toggle keepsAll_disableBreakpoint id t h).linked
  | enableSiteOf id siteId =>
    exact (keepsAll_toggleSite (fun _ _ _ ht hp => stays_enableSite ht hp) id siteId t h).linked
  | disableSiteOf id siteId =>
    exact (keepsAll_toggleSite (fun _ _ _ ht hp => stays_disableSite ht hp) id siteId t h).linked
  | delete id => exact linked_deleteBreakpoint id h hunlinked
  | setSite address hardware => exact linked_setSite h address hardware
  | enableSite id =>
    have hplaces := places_siteById id fun i s => (Process.within_enableSite i s).places
    exact (keepsAll_onProcess hplaces t h).linked
  | disableSite id =>
    have hplaces := places_siteById id fun i s => (Process.within_disableSite i s).places
    exact (keepsAll_onProcess hplaces t h).linked
  | deleteSite id => exact linked_removeSiteById id h hunlinked
  | reload files => exact (keepsAll_reload files t h).linked
  | runUntilAddress A reading address otid => exact linked_runUntilAddress hout reading address otid h

/-- A target before its first breakpoint. -/
structure Bare (t : Target) : Prop where
  sites : t.process.breakpointSites = []
  siteObjects : t.siteObjects = []
  breakpoints : t.breakpoints = []
  unused : t.usedDestroyed = false

theorem Bare.linked (h : Bare t) : AllLinked t := by
  refine ⟨⟨?_, ?_, ?_⟩, ?_, ?_, ?_, ?_, ?_, h.unused⟩
  · rw [h.sites, h.siteObjects]
    rfl
  · rw [h.siteObjects]
    exact .nil
  · simp [h.siteObjects]
  · simp [h.sites]
  · simp [h.breakpoints]
  · rintro object site ⟨i, hi, -⟩
    simp [h.siteObjects] at hi
  · simp [h.breakpoints]
  · simp [h.breakpoints]

/-- Runs of commands that delete nothing linked. -/
theorem pointersSound_of_run (t : Target) (hbare : Bare t) (commands : List Command)
    (hout : ∀ command ∈ commands, command.Outside)
    (hrun : AllSteps execCommand Unlinked t commands) :
    PointersSound (runAll execCommand t commands) :=
  (runAll_invariant (fun _ _ h hok => linked_step hok.2 h hok.1) commands t hbare.linked
    (hrun.and_forall hout)).sound

def quietAround : Around := ⟨quiet, fun _ _ => {}⟩

/-- A site comes and goes, a breakpoint with two sites is disabled and resolved again. -/
def breakpointSession : List Command :=
  [.setSite 0x401300#64 false, .deleteSite 0#32, .setBreakpoint (.line [] 1) false,
    .disable 1#32, .reload twoRows, .runUntilAddress quietAround .asMeant 0x401400#64 none]

theorem pointersSound_breakpointSession :
    PointersSound (runAll execCommand (stoppedTarget twoRows) breakpointSession) := by
  refine pointersSound_of_run _ ⟨rfl, rfl, rfl, rfl⟩ breakpointSession ?_ ?_
  · have hquiet : quietAround.outside.KeepsPlaces :=
      ⟨fun _ _ _ => rfl, fun _ _ => rfl, fun _ _ => rfl, fun _ _ => rfl, fun _ _ => rfl⟩
    simp [breakpointSession, Command.Outside, hquiet]
  · refine ⟨trivial, fun i site hfind hi => ?_, .inl fun x hx => ?_, trivial, trivial, trivial, trivial⟩
    · cases hfind
      cases hi
      rfl
    · change x ∈ [.ok 0x401100#64, .ok 0x401200#64] at hx
      obtain rfl | rfl : x = .ok 0x401100#64 ∨ x = .ok 0x401200#64 := by simpa using hx
      · exact ⟨_, rfl, rfl⟩
      · exact ⟨_, rfl, rfl⟩

/-- `breakpoint delete` takes the sites away and then disables them. -/
theorem pointersSound_not_for_all : ¬ ∀ (t : Target), Bare t → ∀ commands : List Command,
    (∀ command ∈ commands, command.Outside) →
    PointersSound (runAll execCommand t commands) := by
  intro h
  have hrun := h (stoppedTarget twoRows) ⟨rfl, rfl, rfl, rfl⟩
    [.setBreakpoint (.address 0x401000#64) false, .delete 1#32] (by simp [Command.Outside])
  exact absurd hrun.unused (by decide)

end Target
end KDebugger
