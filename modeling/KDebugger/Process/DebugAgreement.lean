import KDebugger.Process.GuardedSteps
import KDebugger.Process.PendingSigstops

namespace KDebugger.Process

open Exec Memory KDebugger.Splits StoppointCollection

/-- All threads have the same DR0 to DR3 and DR7. -/
def ArmedAlike (s : Process) : Prop :=
  ∀ t ∈ s.threads.tids, ∀ t' ∈ s.threads.tids, ∀ o, isDebugAddress o = true →
    s.user t o = s.user t' o

def OnlyLeader (s : Process) : Prop := ∀ t ∈ s.threads.tids, t = s.pid

instance (s : Process) : Decidable (OnlyLeader s) :=
  inferInstanceAs (Decidable (∀ t ∈ s.threads.tids, _))

/-- The debug registers of the leader are clear. -/
def LeaderClear (s : Process) : Prop := ∀ o, isDebugAddress o = true → s.user s.pid o = 0#8

/-- The threads in the table are as the leader, the others still as they are created. -/
structure Alike (s : Process) : Prop where
  leader : s.pid ∈ s.threads.tids
  alike : ∀ t ∈ s.threads.tids, ∀ o, isDebugAddress o = true → s.user t o = s.user s.pid o
  strangers : ∀ t, t ∉ s.threads.tids → ∀ o, isDebugAddress o = true → s.user t o = 0#8

theorem Alike.armedAlike {s : Process} (h : Alike s) : ArmedAlike s := fun t ht t' ht' o ho =>
  (h.alike t ht o ho).trans (h.alike t' ht' o ho).symm

/-- Debug registers and the list of threads stay. -/
structure KeepsDebug (s s' : Process) : Prop where
  pid : s'.pid = s.pid
  tids : s'.threads.tids = s.threads.tids
  debug : ∀ t o, isDebugAddress o = true → s'.user t o = s.user t o

theorem keepsDebug : Frame KeepsDebug where
  refl _ := ⟨rfl, rfl, fun _ _ _ => rfl⟩
  trans h h' := ⟨h'.pid.trans h.pid, h'.tids.trans h.tids,
    fun t o ho => (h'.debug t o ho).trans (h.debug t o ho)⟩

/-- Only the leader's registers change. -/
structure LeaderOnly (s s' : Process) : Prop where
  pid : s'.pid = s.pid
  tids : s'.threads.tids = s.threads.tids
  others : ∀ t, t ≠ s.pid → s'.user t = s.user t

theorem leaderOnly : Frame LeaderOnly where
  refl _ := ⟨rfl, rfl, fun _ _ => rfl⟩
  trans h h' := by
    refine ⟨h'.pid.trans h.pid, h'.tids.trans h.tids, fun t ht => ?_⟩
    rw [h'.others t (by rwa [h.pid]), h.others t ht]

theorem RegistersOnly.leaderOnly {s s' : Process} (h : RegistersOnly s s') : LeaderOnly s s' :=
  ⟨h.same.pid, tids_eq_of_statuses h.statuses, h.others⟩

theorem SitesOnly.leaderOnly {s s' : Process} (h : SitesOnly s s') : LeaderOnly s s' :=
  ⟨by rw [h.same], tids_eq_of_statuses h.statuses, h.others⟩

theorem Inspects.keepsDebug {s s' : Process} (h : Inspects s s') : KeepsDebug s s' :=
  ⟨by rw [h.same], tids_eq_of_statuses h.statuses, h.debug⟩

variable {s s' : Process} {i : ℕ}

theorem Alike.keep (h : Alike s) (hkeep : KeepsDebug s s') : Alike s' where
  leader := by
    rw [hkeep.pid, hkeep.tids]
    exact h.leader
  alike t ht o ho := by
    rw [hkeep.debug t o ho, hkeep.pid, hkeep.debug s.pid o ho]
    exact h.alike t (hkeep.tids ▸ ht) o ho
  strangers t ht o ho := by
    rw [hkeep.debug t o ho]
    exact h.strangers t (hkeep.tids ▸ ht) o ho

theorem Alike.lead (h : Alike s) (honly : OnlyLeader s) (hlead : LeaderOnly s s') : Alike s' where
  leader := by
    rw [hlead.pid, hlead.tids]
    exact h.leader
  alike t ht o ho := by
    rw [hlead.tids] at ht
    rw [honly t ht, hlead.pid]
  strangers t ht o ho := by
    rw [hlead.tids] at ht
    have hne : t ≠ s.pid := by
      rintro rfl
      exact ht h.leader
    rw [hlead.others t hne]
    exact h.strangers t ht o ho

theorem within_pokeData_debug (what : String) (a : VirtAddr) (w : BitVec 64) :
    Within KeepsDebug (pokeData what a w) := by
  intro s
  unfold pokeData
  rw [after_bind_ok (get_eq s)]
  cases s.memory.poke a w with
  | none => exact keepsDebug.refl s
  | some memory => exact ⟨rfl, rfl, fun _ _ _ => rfl⟩

theorem within_modifySite_debug (i : ℕ) (f : BreakpointSite → BreakpointSite) :
    Within KeepsDebug (modifySite i f) := fun _ => ⟨rfl, rfl, fun _ _ _ => rfl⟩

theorem within_modifyWatchpoint_leader (i : ℕ) (f : Watchpoint → Watchpoint) :
    Within LeaderOnly (modifyWatchpoint i f) := fun _ => ⟨rfl, rfl, fun _ _ => rfl⟩

/-- A site for which `enable` or `disable` gets to the debug registers. -/
def HardwareSite (s : Process) (enabled : Bool) (i : ℕ) : Prop :=
  ∃ site, s.breakpointSites[i]? = some site ∧ site.isHardware = true ∧ site.isEnabled = enabled

theorem keepsDebug_enableSite (h : ¬ HardwareSite s false i) :
    KeepsDebug s (after (enableSite i) s) := by
  unfold enableSite
  cases hi : s.breakpointSites[i]? with
  | none =>
    rw [after_bind_error (siteAt_error hi)]
    exact keepsDebug.refl s
  | some site =>
    rw [after_bind_ok (siteAt_ok hi)]
    by_cases hon : site.isEnabled = true
    · rw [if_pos hon]
      exact keepsDebug.refl s
    · have hsw : ¬ site.isHardware = true := fun hhw => h ⟨site, hi, hhw, by simpa using hon⟩
      rw [if_neg hon, if_neg hsw]
      refine keepsDebug.bind (within_peekData keepsDebug _ _) ?_ s
      intro data
      apply keepsDebug.bind (within_modifySite_debug _ _)
      intro _
      exact keepsDebug.bind (within_pokeData_debug _ _ _) fun _ => within_modifySite_debug _ _

theorem keepsDebug_disableSite (h : ¬ HardwareSite s true i) :
    KeepsDebug s (after (disableSite i) s) := by
  unfold disableSite
  cases hi : s.breakpointSites[i]? with
  | none =>
    rw [after_bind_error (siteAt_error hi)]
    exact keepsDebug.refl s
  | some site =>
    rw [after_bind_ok (siteAt_ok hi)]
    by_cases hoff : site.isEnabled = false
    · rw [if_pos hoff]
      exact keepsDebug.refl s
    · have hsw : ¬ site.isHardware = true := fun hhw => h ⟨site, hi, hhw, by simpa using hoff⟩
      rw [if_neg hoff, if_neg hsw]
      refine keepsDebug.bind (within_peekData keepsDebug _ _) ?_ s
      intro data
      exact keepsDebug.bind (within_pokeData_debug _ _ _) fun _ => within_modifySite_debug _ _

theorem within_enableWatchpoint_leader (i : ℕ) : Within LeaderOnly (enableWatchpoint i) := by
  apply leaderOnly.bind (within_watchpointAt leaderOnly i)
  intro point
  apply within_ite (leaderOnly.pure _)
  apply leaderOnly.bind (fun s => (within_setHardwareStoppoint _ _ _ s).leaderOnly)
  intro index
  exact leaderOnly.bind (within_modifyWatchpoint_leader _ _) fun _ =>
    within_modifyWatchpoint_leader _ _

theorem within_disableWatchpoint_leader (i : ℕ) : Within LeaderOnly (disableWatchpoint i) := by
  apply leaderOnly.bind (within_watchpointAt leaderOnly i)
  intro point
  apply within_ite (leaderOnly.pure _)
  apply leaderOnly.bind (fun s => (within_clearHardwareStoppoint _ s).leaderOnly)
  intro _
  exact within_modifyWatchpoint_leader _ _

/-- A watchpoint for which `enable`, or `disable` with its guard, gets there. -/
def DisabledWatchpoint (s : Process) (j : ℕ) : Prop :=
  ∃ point, s.watchpoints[j]? = some point ∧ point.isEnabled = false

theorem unchanged_watchpoint {k : Watchpoint → M Unit} (h : ¬ DisabledWatchpoint s i) :
    after (do
      let point ← watchpointAt i
      if point.isEnabled then pure () else k point) s = s := by
  cases hi : s.watchpoints[i]? with
  | none =>
    have herror : watchpointAt i s = .error .undefined s := by
      unfold watchpointAt
      rw [bind_ok (get_eq s), hi]
      rfl
    rw [after_bind_error herror]
  | some point =>
    have hok : watchpointAt i s = .ok point s := by
      unfold watchpointAt
      rw [bind_ok (get_eq s), hi]
      rfl
    have hon : point.isEnabled = true := by
      by_contra hon
      exact h ⟨point, hi, by simpa using hon⟩
    rw [after_bind_ok hok, if_pos hon]
    rfl

/-- The operation gets to a write of debug registers. -/
def ReachesHardware (s : Process) : StoppointOp → Prop
  | .enableSite a => ∃ i, findByAddress s.breakpointSites a = some i ∧ HardwareSite s false i
  | .disableSite a => ∃ i, findByAddress s.breakpointSites a = some i ∧ HardwareSite s true i
  | .removeSiteById id => ∃ i, findById s.breakpointSites id = some i ∧ HardwareSite s true i
  | .enableWatchpoint a | .disableWatchpoint a =>
    ∃ j, findByAddress s.watchpoints a = some j ∧ DisabledWatchpoint s j
  | .removeWatchpointById id =>
    ∃ j, findById s.watchpoints id = some j ∧ DisabledWatchpoint s j
  | .createSite .. | .removeSiteByAddress _ | .createWatchpoint .. | .removeWatchpointByAddress _ =>
    False

theorem siteByAddress_cases (s : Process) (a : VirtAddr) :
    (∃ e, siteByAddress a s = .error e s) ∨
      ∃ i, findByAddress s.breakpointSites a = some i ∧ siteByAddress a s = .ok i s := by
  cases hfind : findByAddress s.breakpointSites a with
  | none =>
    left
    refine ⟨.raised "Stoppoint with a given address not found", ?_⟩
    unfold siteByAddress
    rw [bind_ok (get_eq s), hfind]
    rfl
  | some i => exact .inr ⟨i, rfl, siteByAddress_find hfind⟩

theorem watchpointByAddress_cases (s : Process) (a : VirtAddr) :
    (∃ e, watchpointByAddress a s = .error e s) ∨
      ∃ j, findByAddress s.watchpoints a = some j ∧ watchpointByAddress a s = .ok j s := by
  cases hfind : findByAddress s.watchpoints a with
  | none =>
    left
    refine ⟨.raised "Stoppoint with a given address not found", ?_⟩
    unfold watchpointByAddress
    rw [bind_ok (get_eq s), hfind]
    rfl
  | some j =>
    right
    refine ⟨j, rfl, ?_⟩
    unfold watchpointByAddress
    rw [bind_ok (get_eq s), hfind]
    rfl

theorem found_cases (s : Process) (x : Option ℕ) :
    (∃ e, found x s = .error e s) ∨ ∃ i, x = some i ∧ found x s = .ok i s := by
  cases x with
  | none => exact .inl ⟨_, rfl⟩
  | some i => exact .inr ⟨i, rfl, rfl⟩

theorem within_eraseSite_debug (i : ℕ) : Within KeepsDebug (eraseSite i) :=
  fun _ => ⟨rfl, rfl, fun _ _ _ => rfl⟩

theorem within_eraseWatchpoint_debug (i : ℕ) : Within KeepsDebug (eraseWatchpoint i) :=
  fun _ => ⟨rfl, rfl, fun _ _ _ => rfl⟩

theorem within_createSite_debug (parent : Option ℕ) (id : BitVec 32) (a : VirtAddr)
    (hardware internal : Bool) :
    Within KeepsDebug (createBreakpointSite parent id a hardware internal) := by
  intro s
  unfold createBreakpointSite
  rw [after_bind_ok (get_eq s)]
  split_ifs
  · exact keepsDebug.refl s
  · exact ⟨rfl, rfl, fun _ _ _ => rfl⟩

theorem within_newWatchpoint_debug (a : VirtAddr) (mode : StoppointMode) (size : ℕ) :
    Within KeepsDebug (newWatchpoint a mode size) := by
  intro s
  unfold newWatchpoint
  split_ifs
  · exact keepsDebug.refl s
  · rw [after_bind_ok (get_eq s)]
    let s₁ : Process := { s with lastWatchpointId := s.lastWatchpointId + 1#32 }
    have hset : (set s₁ : M Unit) s = .ok () s₁ := rfl
    have hdata : Within KeepsDebug (watchedData a size) :=
      keepsDebug.bind (within_readMemory keepsDebug _ _) fun _ =>
        within_ite (keepsDebug.pure _) (keepsDebug.throw _)
    rw [after_bind_ok hset]
    have hrest := keepsDebug.bind hdata fun data => keepsDebug.pure
      ({ id := s.lastWatchpointId + 1#32, address := a, mode, size, data } : Watchpoint)
    have hid : KeepsDebug s s₁ := ⟨rfl, rfl, fun _ _ _ => rfl⟩
    exact keepsDebug.trans hid (hrest s₁)

theorem within_createWatchpoint_debug (a : VirtAddr) (mode : StoppointMode) (size : ℕ) :
    Within KeepsDebug (createWatchpoint a mode size) := by
  apply keepsDebug.bind keepsDebug.get
  intro s
  apply within_ite (keepsDebug.throw _)
  exact keepsDebug.bind (within_newWatchpoint_debug _ _ _) fun _ _ => ⟨rfl, rfl, fun _ _ _ => rfl⟩

theorem keepsDebug_stoppoint {op : StoppointOp} (h : ¬ ReachesHardware s op) :
    KeepsDebug s (after (execStoppointOp op) s) := by
  -- one case an operation; those on software sites get to no debug register
  cases op with
  | createSite parent id a hardware internal => exact within_createSite_debug _ _ _ _ _ s
  | enableSite a =>
    obtain ⟨e, herr⟩ | ⟨i, hi, hok⟩ := siteByAddress_cases s a
    · simp only [execStoppointOp, after_bind_error herr]
      exact keepsDebug.refl s
    · simp only [execStoppointOp, after_bind_ok hok]
      exact keepsDebug_enableSite fun hhw => h ⟨i, hi, hhw⟩
  | disableSite a =>
    obtain ⟨e, herr⟩ | ⟨i, hi, hok⟩ := siteByAddress_cases s a
    · simp only [execStoppointOp, after_bind_error herr]
      exact keepsDebug.refl s
    · simp only [execStoppointOp, after_bind_ok hok]
      exact keepsDebug_disableSite fun hhw => h ⟨i, hi, hhw⟩
  | removeSiteById id =>
    simp only [execStoppointOp, removeSiteById]
    rw [after_bind_ok (get_eq s)]
    obtain ⟨e, herr⟩ | ⟨i, hi, hok⟩ := found_cases s (findById s.breakpointSites id)
    · rw [after_bind_error herr]
      exact keepsDebug.refl s
    · rw [after_bind_ok hok]
      exact keepsDebug.bind_at (keepsDebug_disableSite fun hhw => h ⟨i, hi, hhw⟩) fun _ _ _ =>
        within_eraseSite_debug i _
  | removeSiteByAddress a =>
    apply keepsDebug.bind keepsDebug.get
    intro s
    apply keepsDebug.bind _ fun i => within_eraseSite_debug i
    cases findByAddress s.breakpointSites a with
    | none => exact keepsDebug.throw _
    | some i => exact keepsDebug.pure i
  | createWatchpoint a mode size => exact within_createWatchpoint_debug _ _ _ s
  | enableWatchpoint a =>
    obtain ⟨e, herr⟩ | ⟨j, hj, hok⟩ := watchpointByAddress_cases s a
    · simp only [execStoppointOp, after_bind_error herr]
      exact keepsDebug.refl s
    · simp only [execStoppointOp, after_bind_ok hok]
      unfold enableWatchpoint
      rw [unchanged_watchpoint fun hoff => h ⟨j, hj, hoff⟩]
      exact keepsDebug.refl s
  | disableWatchpoint a =>
    obtain ⟨e, herr⟩ | ⟨j, hj, hok⟩ := watchpointByAddress_cases s a
    · simp only [execStoppointOp, after_bind_error herr]
      exact keepsDebug.refl s
    · simp only [execStoppointOp, after_bind_ok hok]
      unfold disableWatchpoint
      rw [unchanged_watchpoint fun hoff => h ⟨j, hj, hoff⟩]
      exact keepsDebug.refl s
  | removeWatchpointById id =>
    simp only [execStoppointOp, removeWatchpointById]
    rw [after_bind_ok (get_eq s)]
    obtain ⟨e, herr⟩ | ⟨j, hj, hok⟩ := found_cases s (findById s.watchpoints id)
    · rw [after_bind_error herr]
      exact keepsDebug.refl s
    · rw [after_bind_ok hok]
      refine keepsDebug.bind_at ?_ fun _ _ _ => within_eraseWatchpoint_debug j _
      unfold disableWatchpoint
      rw [unchanged_watchpoint fun hoff => h ⟨j, hj, hoff⟩]
      exact keepsDebug.refl s
  | removeWatchpointByAddress a =>
    apply keepsDebug.bind keepsDebug.get
    intro s
    apply keepsDebug.bind _ fun i => within_eraseWatchpoint_debug i
    cases findByAddress s.watchpoints a with
    | none => exact keepsDebug.throw _
    | some i => exact keepsDebug.pure i

theorem leaderOnly_stoppoint {op : StoppointOp} (h : ReachesHardware s op) :
    LeaderOnly s (after (execStoppointOp op) s) := by
  have hsite (a : VirtAddr) := within_siteByAddress leaderOnly a
  have hpoint (a : VirtAddr) : Within LeaderOnly (watchpointByAddress a) := by
    intro s
    obtain ⟨e, herr⟩ | ⟨j, -, hok⟩ := watchpointByAddress_cases s a
    · rw [after, herr]
      exact leaderOnly.refl s
    · rw [after, hok]
      exact leaderOnly.refl s
  have hfound (x : Option ℕ) : Within LeaderOnly (found x) := by
    cases x with
    | none => exact leaderOnly.throw _
    | some i => exact leaderOnly.pure i
  cases op with
  | createSite parent id a hardware internal => exact h.elim
  | enableSite a =>
    exact leaderOnly.bind (hsite a) (fun i s => (within_enableSite i s).leaderOnly) s
  | disableSite a =>
    exact leaderOnly.bind (hsite a) (fun i s => (within_disableSite i s).leaderOnly) s
  | removeSiteById id =>
    refine leaderOnly.bind leaderOnly.get (fun s => leaderOnly.bind (hfound _) fun i => ?_) s
    apply leaderOnly.bind (fun s => (within_disableSite i s).leaderOnly)
    exact fun _ _ => ⟨rfl, rfl, fun _ _ => rfl⟩
  | removeSiteByAddress a => exact h.elim
  | createWatchpoint a mode size => exact h.elim
  | enableWatchpoint a =>
    exact leaderOnly.bind (hpoint a) (fun j => within_enableWatchpoint_leader j) s
  | disableWatchpoint a =>
    exact leaderOnly.bind (hpoint a) (fun j => within_disableWatchpoint_leader j) s
  | removeWatchpointById id =>
    refine leaderOnly.bind leaderOnly.get (fun s => leaderOnly.bind (hfound _) fun j => ?_) s
    apply leaderOnly.bind (within_disableWatchpoint_leader j)
    exact fun _ _ => ⟨rfl, rfl, fun _ _ => rfl⟩
  | removeWatchpointByAddress a => exact h.elim

theorem alike_stoppoint (h : Alike s) {op : StoppointOp} (hop : ReachesHardware s op → OnlyLeader s) :
    Alike (after (execStoppointOp op) s) := by
  by_cases hreach : ReachesHardware s op
  · exact h.lead (hop hreach) (leaderOnly_stoppoint hreach)
  · exact h.keep (keepsDebug_stoppoint hreach)

end KDebugger.Process
