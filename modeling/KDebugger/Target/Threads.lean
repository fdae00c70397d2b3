import KDebugger.Process.AllStop

namespace KDebugger

namespace Threads

def erase (ts : Threads) (t : Tid) : Threads where
  entries := ts.entries.filter fun th => th.tid != t
  nodup := ts.nodup.sublist (List.filter_sublist.map _)

theorem mem_tids_erase {ts : Threads} {t u : Tid} : u ∈ (ts.erase t).tids ↔ u ∈ ts.tids ∧ u ≠ t := by
  simp only [tids, erase, List.mem_map, List.mem_filter, bne_iff_ne]
  constructor
  · rintro ⟨th, ⟨hth, hne⟩, rfl⟩
    exact ⟨⟨th, hth, rfl⟩, hne⟩
  · rintro ⟨⟨th, hth, rfl⟩, hne⟩
    exact ⟨th, ⟨hth, hne⟩, rfl⟩

end Threads

namespace Process

open Exec

def targetTids (s : Process) : List Tid := s.targetThreads.map TargetThread.tid

/-- What the constructor of `target` makes of a process: an entry a thread. -/
def targeted (s : Process) : Process :=
  { s with hasTarget := true, targetThreads := s.threads.tids.map fun t => ⟨t, some t⟩ }

/-- `emplace` of the target's map: an entry that is there stays. -/
def emplaceTarget (x : TargetThread) : M Unit := modify fun s =>
  if x.tid ∈ s.targetTids then s else { s with targetThreads := s.targetThreads ++ [x] }

def eraseTarget (t : Tid) : M Unit :=
  modify fun s => { s with targetThreads := s.targetThreads.filter fun x => x.tid != t }

def notifyThreadLifecycleEvent (reason : StopReason) : M Unit :=
  if reason.reason = .stopped then do
    let _ ← threadAt reason.tid
    emplaceTarget ⟨reason.tid, some reason.tid⟩
  else eraseTarget reason.tid

/-- `m_Threads.erase(tid)`: a pointer of the target to the entry dangles from then on. -/
def eraseThread (t : Tid) : M Unit := modify fun s =>
  { s with
    threads := s.threads.erase t
    targetThreads := s.targetThreads.map fun x =>
      if x.state = some t then { x with state := none } else x }

/-- The threads `cleanup_exitied_threads` removes. -/
def toRemove (s : Process) (mainStopTid : Tid) : List ThreadState :=
  s.threads.entries.filter fun th => th.tid ≠ mainStopTid ∧ ¬ live th

/-- `cleanup_exitied_threads`. -/
def cleanupExitedThreads (mainStopTid : Tid) : M (Option StopReason) := do
  let s ← get
  (s.toRemove mainStopTid).forM fun th => eraseThread th.tid
  pure (((s.toRemove mainStopTid).find? fun th => th.tid == s.pid).map ThreadState.reason)

/-- The maps have the same keys, and every pointer is to the entry of its thread, which is
there. -/
structure Mirrors (s : Process) : Prop where
  sameKeys : ∀ t, t ∈ s.threads.tids ↔ t ∈ s.targetTids
  pointsHome : ∀ x ∈ s.targetThreads, x.state = some x.tid ∧ x.tid ∈ s.threads.tids

theorem mirrors_targeted (s : Process) : Mirrors s.targeted where
  sameKeys t := by simp [targeted, targetTids]
  pointsHome := by
    rintro x hx
    obtain ⟨t, ht, rfl⟩ := List.mem_map.mp hx
    exact ⟨rfl, ht⟩

/-- A thread that only the process knows of. -/
def Lagging (t : Tid) (s : Process) : Prop := t ∈ s.threads.tids ∧ t ∉ s.targetTids

theorem Lagging.not_mirrors {t : Tid} {s : Process} (h : Lagging t s) : ¬ Mirrors s :=
  fun hm => h.2 ((hm.sameKeys t).mp h.1)

/-- The threads of both maps stay. -/
def SameMaps (s s' : Process) : Prop :=
  s'.threads.tids = s.threads.tids ∧ s'.targetThreads = s.targetThreads

theorem sameMaps : Frame SameMaps where
  refl _ := ⟨rfl, rfl⟩
  trans h h' := ⟨h'.1.trans h.1, h'.2.trans h.2⟩

theorem Inspects.sameMaps {s s' : Process} (h : Inspects s s') : SameMaps s s' :=
  ⟨tids_eq_of_statuses h.statuses, by rw [h.same]⟩

theorem SitesOnly.sameMaps {s s' : Process} (h : SitesOnly s s') : SameMaps s s' :=
  ⟨tids_eq_of_statuses h.statuses, by rw [h.same]⟩

theorem Mirrors.same {s s' : Process} (h : Mirrors s) (hsame : SameMaps s s') : Mirrors s' where
  sameKeys t := by
    unfold targetTids
    rw [hsame.1, hsame.2]
    exact h.sameKeys t
  pointsHome x hx := by
    rw [hsame.2] at hx
    rw [hsame.1]
    exact h.pointsHome x hx

theorem Lagging.same {t : Tid} {s s' : Process} (h : Lagging t s) (hsame : SameMaps s s') :
    Lagging t s' := by
  unfold Lagging targetTids
  rw [hsame.1, hsame.2]
  exact h

/-- The requests and callbacks leave the maps alone, but for what the target is told. -/
structure Outside.TellsTarget (O : Outside) : Prop where
  cont : ∀ b t, Within SameMaps (O.cont b t)
  singleStep : ∀ t, Within SameMaps (O.singleStep t)
  notifyStop : ∀ reason, Within SameMaps (O.notifyStop reason)
  notifyHit : ∀ parent, Within SameMaps (O.notifyHit parent)
  lifecycle : O.lifecycle = notifyThreadLifecycleEvent

/-- The same requests and callbacks, the target being told nothing. -/
def Outside.untold (O : Outside) : Outside := { O with lifecycle := fun _ => pure () }

section Same

variable {O : Outside} (hO : O.TellsTarget)

include hO

theorem Outside.TellsTarget.hooks : O.untold.Hooks SameMaps :=
  ⟨hO.notifyStop, hO.notifyHit, fun _ => sameMaps.pure ()⟩

theorem Outside.TellsTarget.continues : O.Continues SameMaps where
  frame := sameMaps
  continued _ _ := ⟨rfl, rfl⟩
  stepped _ _ := ⟨rfl, rfl⟩
  cont := hO.cont
  singleStep := hO.singleStep
  waitpid toAwait s := by
    rcases waitpid_cases toAwait s with herr | ⟨i, e, -, -, hok⟩
    · rw [after, herr]
      exact sameMaps.refl s
    · rw [after, hok]
      exact ⟨rfl, rfl⟩
  modifyThread t f s := ⟨Threads.tids_modify s.threads t f, rfl⟩
  resumed _ _ := ⟨rfl, rfl⟩
  running _ := ⟨rfl, rfl⟩

theorem sameMaps_resume (otid : Option Tid) : Within SameMaps (resume O otid) :=
  within_resume hO.continues SitesOnly.sameMaps otid

theorem sameMaps_resumeAllThreads : Within SameMaps (resumeAllThreads O) := by
  apply sameMaps.bind sameMaps.get
  intro s
  apply sameMaps.bind
  · exact sameMaps.forM (fun t => within_stepOver hO.continues.toSteps SitesOnly.sameMaps t) _
  · exact fun _ => sameMaps.forM (fun t => within_sendContinue hO.continues t) _

theorem sameMaps_inspectStop (reason : StopReason) (isMainStop : Bool) :
    Within SameMaps (inspectStop O reason isMainStop) :=
  within_inspectStop sameMaps Inspects.sameMaps hO.hooks reason isMainStop

theorem sameMaps_reportStopped (reason : StopReason) :
    Within SameMaps (reportStopped O reason) := by
  rw [reportStopped_eq]
  apply sameMaps.bind (within_lookStopped sameMaps Inspects.sameMaps hO.hooks reason)
  intro x
  apply within_ite
  · exact sameMaps.bind (sameMaps_resume hO none) fun _ => sameMaps.pure _
  · exact sameMaps.bind (within_notifyTarget sameMaps Inspects.sameMaps hO.hooks x.1) fun _ =>
      sameMaps.pure _

end Same

theorem sameMaps_recordReason (t : Tid) (reason : StopReason) :
    Within SameMaps (recordReason t reason) :=
  sameMaps.bind (within_threadAt sameMaps t) fun _ s => ⟨Threads.tids_modify s.threads t _, rfl⟩

section Events

variable {O : Outside} (hO : O.TellsTarget) {s s' : Process}

include hO

/-- Both maps get the new thread, the target's unless it has one of that id. -/
theorem after_welcome {reason : StopReason} (hstopped : reason.reason = .stopped)
    (hnew : s.threads.find reason.tid = none) :
    (∀ t, t ∈ (after (welcome O reason) s).threads.tids ↔ t ∈ s.threads.tids ∨ t = reason.tid) ∧
      (after (welcome O reason) s).targetThreads =
        if reason.tid ∈ s.targetTids then s.targetThreads
        else s.targetThreads ++ [⟨reason.tid, some reason.tid⟩] := by
  let th : ThreadState :=
    { tid := reason.tid, regs := { data := O.uninitialised, tid := reason.tid } }
  let s₁ : Process :=
    { s with threads := s.threads.emplace th, log := ⟨.reported reason, s.memory⟩ :: s.log }
  have hfind : s₁.threads.find reason.tid = some th := by
    have hnone : s.threads.find th.tid = none := hnew
    rw [Threads.find_emplace hnone, if_pos rfl]
  have hafter : after (welcome O reason) s = after (emplaceTarget ⟨reason.tid, some reason.tid⟩) s₁ := by
    change after (O.lifecycle reason) s₁ = _
    rw [hO.lifecycle, notifyThreadLifecycleEvent, if_pos hstopped,
      after_bind_ok (threadAt_ok hfind)]
  have hemplaced : after (emplaceTarget ⟨reason.tid, some reason.tid⟩) s₁ =
      if reason.tid ∈ s.targetTids then s₁
      else { s₁ with targetThreads := s.targetThreads ++ [⟨reason.tid, some reason.tid⟩] } := rfl
  rw [hafter, hemplaced]
  have hkeys (t : Tid) : t ∈ s₁.threads.tids ↔ t ∈ s.threads.tids ∨ t = reason.tid :=
    Threads.mem_tids_emplace
  split_ifs with hthere
  · exact ⟨hkeys, rfl⟩
  · exact ⟨hkeys, rfl⟩

theorem mirrors_welcome (h : Mirrors s) {reason : StopReason} (hstopped : reason.reason = .stopped)
    (hnew : s.threads.find reason.tid = none) : Mirrors (after (welcome O reason) s) := by
  obtain ⟨hkeys, htarget⟩ := after_welcome hO hstopped hnew
  have habsent : reason.tid ∉ s.targetTids :=
    fun hmem => Threads.find_eq_none.mp hnew ((h.sameKeys _).mpr hmem)
  rw [if_neg habsent] at htarget
  refine ⟨fun t => ?_, fun x hx => ?_⟩
  · rw [hkeys, h.sameKeys t]
    unfold targetTids
    rw [htarget]
    simp
  · rw [htarget, List.mem_append, List.mem_singleton] at hx
    obtain hx | rfl := hx
    · exact ⟨(h.pointsHome x hx).1, (hkeys _).mpr (.inl (h.pointsHome x hx).2)⟩
    · exact ⟨rfl, (hkeys _).mpr (.inr rfl)⟩

theorem lagging_welcome {t : Tid} (h : Lagging t s) {reason : StopReason}
    (hstopped : reason.reason = .stopped) (hnew : s.threads.find reason.tid = none) :
    Lagging t (after (welcome O reason) s) := by
  obtain ⟨hkeys, htarget⟩ := after_welcome hO hstopped hnew
  have hne : t ≠ reason.tid := by
    rintro rfl
    exact Threads.find_eq_none.mp hnew h.1
  refine ⟨(hkeys t).mpr (.inl h.1), ?_⟩
  unfold targetTids
  rw [htarget]
  split_ifs
  · exact h.2
  · rw [List.map_append, List.mem_append, not_or]
    exact ⟨h.2, by simpa using hne⟩

theorem after_reportExit {reason : StopReason} (hexit : reason.reason ≠ .stopped) :
    (after (reportLifecycle O reason) s).threads = s.threads ∧
      (after (reportLifecycle O reason) s).targetThreads =
        s.targetThreads.filter fun x => x.tid != reason.tid := by
  have hafter : after (reportLifecycle O reason) s =
      after (eraseTarget reason.tid) { s with log := ⟨.reported reason, s.memory⟩ :: s.log } := by
    change after (O.lifecycle reason) _ = _
    rw [hO.lifecycle, notifyThreadLifecycleEvent, if_neg hexit]
  rw [hafter]
  exact ⟨rfl, rfl⟩

theorem lagging_reportExit {t : Tid} (h : Lagging t s) {reason : StopReason}
    (hexit : reason.reason ≠ .stopped) : Lagging t (after (reportLifecycle O reason) s) := by
  obtain ⟨hthreads, htarget⟩ := after_reportExit (s := s) hO hexit
  unfold Lagging targetTids
  rw [hthreads, htarget]
  refine ⟨h.1, fun hmem => h.2 ?_⟩
  exact List.map_subset _ (List.filter_subset_self _) hmem

theorem lagging_of_reportExit {reason : StopReason} (hexit : reason.reason ≠ .stopped)
    (hmem : reason.tid ∈ s.threads.tids) :
    Lagging reason.tid (after (reportLifecycle O reason) s) := by
  obtain ⟨hthreads, htarget⟩ := after_reportExit (s := s) hO hexit
  unfold Lagging targetTids
  rw [hthreads, htarget]
  exact ⟨hmem, by simp⟩

theorem keeps_handleSignal {K : Process → Prop}
    (hsame : ∀ {s s' : Process}, K s → SameMaps s s' → K s') {reason : StopReason}
    (hbirth : reason.reason = .stopped → s.threads.find reason.tid = none →
      K (after (welcome O reason) s))
    (isMainStop : Bool) (h : K s) : K (after (handleSignal O reason isMainStop) s) := by
  unfold handleSignal
  rw [after_bind_ok (get_eq s)]
  split_ifs with hclone hstopped
  · exact h
  · have hrest (new : Bool) : Within SameMaps (if (new && isMainStop) = true then pure none else do
        let th ← threadAt reason.tid
        if th.pendingSigstop = true ∧ reason.info = sigstop then pure none
        else inspectStop O reason isMainStop : M (Option StopReason)) := by
      apply within_ite (sameMaps.pure _)
      apply sameMaps.bind (within_threadAt sameMaps _)
      intro th
      exact within_ite (sameMaps.pure _) (sameMaps_inspectStop hO _ _)
    cases hfind : s.threads.find reason.tid with
    | none =>
      exact (keeps K).bind_at (fun _ => hbirth hstopped.2 hfind)
        (fun _ s' _ h' => hsame h' (hrest true s')) h
    | some th => exact hsame h (hrest false s)
  · exact h

end Events

/-- The reason that `wait_on_signal` takes for the end of a thread. -/
def Exits (reason : StopReason) : Prop :=
  (reason.reason = .exited ∨ reason.reason = .terminated) ∧ reason.trapReason ≠ some .clone

instance (reason : StopReason) : Decidable (Exits reason) := inferInstanceAs (Decidable (_ ∧ _))

theorem Exits.not_stopped {reason : StopReason} (h : Exits reason) : reason.reason ≠ .stopped := by
  intro hstopped
  obtain ⟨hexit | hexit, -⟩ := h
  · exact absurd (hstopped.symm.trans hexit) (by decide)
  · exact absurd (hstopped.symm.trans hexit) (by decide)

/-- The wait of one turn does not return with the end of a thread. -/
def TurnLives (reading : Reading) (s : Process) (toAwait : Option Tid) : Prop :=
  ∀ e, nextEvent s toAwait = some e → ¬ Exits (stopReason (reading.tid e.tid) e.status)

def WaitLives (O : Outside) (reading : Reading) : ℕ → Process → Option Tid → Prop
  | 0, _, _ => True
  | fuel + 1, s, toAwait => TurnLives reading s toAwait ∧
    ∀ next s', waitOnce O reading toAwait s = .ok (.inr next) s' → WaitLives O reading fuel s' next

/-- What stays with the maps and with a birth. -/
structure KeptByBirths (O : Outside) (K : Process → Prop) : Prop where
  same : ∀ {s s' : Process}, K s → SameMaps s s' → K s'
  birth : ∀ {s : Process}, K s → ∀ {reason : StopReason}, reason.reason = .stopped →
    s.threads.find reason.tid = none → K (after (welcome O reason) s)

/-- What stays with an exit too. -/
def KeptByExits (O : Outside) (K : Process → Prop) : Prop :=
  ∀ {s : Process}, K s → ∀ {reason : StopReason}, reason.reason ≠ .stopped →
    K (after (reportLifecycle O reason) s)

section Waiting

variable {O : Outside} (hO : O.TellsTarget) {s s' : Process} {K : Process → Prop}
  {reading : Reading} {toAwait : Option Tid}

theorem handleSignal_of_exits {reason : StopReason} (h : Exits reason) (isMainStop : Bool) :
    handleSignal O reason isMainStop s = .ok (some reason) s := by
  unfold handleSignal
  rw [bind_ok (get_eq s), if_neg (fun hclone => h.2 hclone.1),
    if_neg (fun hstopped => h.not_stopped hstopped.2)]
  rfl

theorem exits_of_handled {reason r : StopReason}
    (h : handleSignal O reason true s = .ok (some r) s')
    (hexit : r.reason = .exited ∨ r.reason = .terminated) : Exits reason := by
  have hsame : r.reason = reason.reason := (returns_handleSignal _ _ _ _ _ h r rfl).2
  refine ⟨hsame ▸ hexit, fun hclone => ?_⟩
  unfold handleSignal at h
  rw [bind_ok (get_eq s), if_pos ⟨hclone, rfl⟩] at h
  cases h

include hO

theorem keeps_waitOnce (hK : KeptByBirths O K)
    (hturn : KeptByExits O K ∨ TurnLives reading s toAwait) (h : K s) :
    K (after (waitOnce O reading toAwait) s) := by
  have hkeeps := keeps K
  refine hkeeps.bind_at (fun h => hK.same h (hO.continues.waitpid toAwait s))
    (fun e s₁ hwait h => ?_) h
  refine hkeeps.bind_at (fun h => keeps_handleSignal hO hK.same (hK.birth h) _ h)
    (fun handled s₂ hhandled h => ?_) h
  cases handled with
  | none =>
    exact hkeeps.bind_at (fun h => hK.same h (sameMaps_resume hO _ s₂)) (fun _ _ _ h => h) h
  | some reason =>
    refine hkeeps.bind_at (fun h => hK.same h (sameMaps_recordReason _ _ s₂))
      (fun _ s₃ _ h => ?_) h
    rw [after_bind_ok (get_eq s₃)]
    by_cases hexit : reason.reason = .exited ∨ reason.reason = .terminated
    · rw [if_pos hexit]
      have hexits := exits_of_handled hhandled hexit
      have hsame : reason.reason = _ := (returns_handleSignal _ _ _ _ _ hhandled reason rfl).2
      have hnot : reason.reason ≠ .stopped := hsame ▸ hexits.not_stopped
      obtain hall | hlives := hturn
      · refine hkeeps.bind_at (fun h => hall h hnot) (fun _ s₄ _ h => ?_) h
        split_ifs
        · exact hK.same h ⟨rfl, rfl⟩
        · exact h
      · obtain ⟨hblocked, -⟩ | ⟨i, e', -, -, hnext, hok⟩ := waitpid_next toAwait s
        · rw [hblocked] at hwait
          cases hwait
        · rw [hok] at hwait
          cases hwait
          exact absurd hexits (hlives e hnext)
    · rw [if_neg hexit]
      split_ifs
      · refine hkeeps.bind_at (fun h => hK.same h (sameMaps_reportStopped hO _ s₃))
          (fun told _ _ h => ?_) h
        cases told <;> exact h
      · exact h

theorem keeps_waitLoop (hK : KeptByBirths O K) : ∀ (fuel : ℕ) (s : Process) (toAwait : Option Tid),
    KeptByExits O K ∨ WaitLives O reading fuel s toAwait → K s →
    K (after (waitLoop O reading fuel toAwait) s) := by
  intro fuel
  induction fuel with
  | zero => exact fun _ _ _ h => h
  | succ fuel ih =>
    intro s toAwait hturns h
    refine (keeps K).bind_at (fun h => keeps_waitOnce hO hK (hturns.imp_right And.left) h)
      (fun x s₁ hturn h => ?_) h
    cases x with
    | inl reason => exact h
    | inr next => exact ih s₁ next (hturns.imp_right fun hlives => hlives.2 next s₁ hturn) h

theorem lagging_of_exits {e : WaitEvent} (hnext : nextEvent s toAwait = some e)
    (hexits : Exits (stopReason (reading.tid e.tid) e.status)) {x : StopReason ⊕ Option Tid}
    (h : waitOnce O reading toAwait s = .ok x s') : Lagging (reading.tid e.tid) s' := by
  unfold waitOnce at h
  obtain ⟨e', s₁, hwait, h⟩ := bind_eq_ok.mp h
  obtain rfl : e = e' := by
    obtain ⟨-, hnone⟩ | ⟨i, e'', -, -, hnext', hok⟩ := waitpid_next toAwait s
    · rw [hnext] at hnone
      cases hnone
    · rw [hok] at hwait
      cases hwait
      exact Option.some.inj (hnext.symm.trans hnext')
  rw [bind_ok (handleSignal_of_exits hexits true)] at h
  obtain ⟨_, s₂, hrecord, h⟩ := bind_eq_ok.mp h
  obtain ⟨⟨th, hth⟩, rfl⟩ := recordReason_ok hrecord
  have hmem : reading.tid e.tid ∈ s₁.threads.tids := Threads.mem_tids.mpr ⟨th, hth⟩
  rw [bind_ok (get_eq _), if_pos hexits.1] at h
  obtain ⟨_, s₃, hreport, h⟩ := bind_eq_ok.mp h
  have hthere : (stopReason (reading.tid e.tid) e.status).tid ∈
      (s₁.noted (reading.tid e.tid) (stopReason (reading.tid e.tid) e.status)).threads.tids := by
    rw [stopReason_tid, noted, Threads.tids_modify]
    exact hmem
  have hlag : Lagging (reading.tid e.tid) s₃ := by
    have hreported := lagging_of_reportExit hO hexits.not_stopped hthere
    rwa [after, hreport, stopReason_tid] at hreported
  split_ifs at h
  · cases h
    exact hlag.same ⟨rfl, rfl⟩
  · cases h
    exact hlag

end Waiting

section Loops

variable {O : Outside} (hO : O.TellsTarget) {reading : Reading}

include hO

theorem mirrors_keptByBirths : KeptByBirths O Mirrors where
  same := Mirrors.same
  birth h _ := mirrors_welcome hO h

theorem lagging_keptByBirths (t : Tid) : KeptByBirths O (Lagging t) where
  same := Lagging.same
  birth h _ := lagging_welcome hO h

theorem waitLives_of_mirrors : ∀ (fuel : ℕ) {s s' : Process} {toAwait : Option Tid} {r : StopReason},
    waitLoop O reading fuel toAwait s = .ok r s' → Mirrors s' →
    WaitLives O reading fuel s toAwait := by
  intro fuel
  induction fuel with
  | zero => exact fun _ _ => trivial
  | succ fuel ih =>
    intro s s' toAwait r h hmirrors
    obtain ⟨x, s₁, hturn, hrest⟩ := bind_eq_ok.mp h
    refine ⟨fun e hnext hexits => ?_, fun next s₂ hagain => ?_⟩
    · have hlag := lagging_of_exits hO hnext hexits hturn
      have hexit : KeptByExits O (Lagging (reading.tid e.tid)) :=
        fun h _ hnot => lagging_reportExit hO h hnot
      cases x with
      | inl reason =>
        cases hrest
        exact hlag.not_mirrors hmirrors
      | inr next =>
        have hmode : KeptByExits O (Lagging (reading.tid e.tid)) ∨ WaitLives O reading fuel s₁ next :=
          .inl hexit
        have hlater := keeps_waitLoop hO (lagging_keptByBirths hO _) fuel s₁ next hmode hlag
        change waitLoop O reading fuel next s₁ = .ok r s' at hrest
        rw [after, hrest] at hlater
        exact hlater.not_mirrors hmirrors
    · rw [hagain] at hturn
      cases hturn
      exact ih hrest hmirrors

theorem mirrors_waitOnSignal {s : Process} (h : Mirrors s) {toAwait : Option Tid}
    (hlives : WaitLives O reading (s.events.length + 1) s toAwait) :
    Mirrors (after (waitOnSignal O reading toAwait) s) := by
  unfold waitOnSignal
  rw [after_bind_ok (get_eq s)]
  exact keeps_waitLoop hO (mirrors_keptByBirths hO) _ s toAwait (.inr hlives) h

end Loops

/-- The wait of `step_instruction` does not return with the end of a thread. -/
def InstructionLives (O : Outside) (reading : Reading) (s : Process) (otid : Option Tid) : Prop :=
  ∀ pc s₁, getPc (some (s.valueOr otid)) s = .ok pc s →
    beforeWait O (s.valueOr otid) pc s = .ok () s₁ →
    WaitLives O reading (s₁.events.length + 1) s₁ (some (s.valueOr otid))

section Instruction

variable {O : Outside} (hO : O.TellsTarget) {reading : Reading} {s s' : Process} {otid : Option Tid}

include hO

theorem mirrors_waitThen (h : Mirrors s) {α : Type} {f : StopReason → M α}
    (hf : ∀ r, Within SameMaps (f r)) {toAwait : Option Tid}
    (hlives : WaitLives O reading (s.events.length + 1) s toAwait) :
    Mirrors (after (waitOnSignal O reading toAwait >>= f) s) :=
  (keeps Mirrors).bind_at (fun h => mirrors_waitOnSignal hO h hlives)
    (fun r s₁ _ h => h.same (hf r s₁)) h

theorem mirrors_stepInstruction (h : Mirrors s) (hlives : InstructionLives O reading s otid) :
    Mirrors (after (stepInstruction O reading otid) s) := by
  have hkeeps := keeps Mirrors
  have hsteps := hO.continues.toSteps
  unfold stepInstruction
  rw [after_bind_ok (get_eq s)]
  refine hkeeps.bind_at (fun h => h.same (within_getPc sameMaps _ s)) (fun pc s₁ hpc _ => ?_) h
  obtain rfl : s₁ = s := (within_getPc unchanged _).ok hpc
  split_ifs with hsite
  · refine hkeeps.bind_at (fun h => h.same (within_siteByAddress sameMaps _ s₁))
      (fun i s₂ hi h => ?_) h
    refine hkeeps.bind_at (fun h => h.same (within_disableSite i s₂).sameMaps)
      (fun _ s₃ hdisable h => ?_) h
    refine hkeeps.bind_at (fun h => h.same (within_swallow hsteps _ s₃))
      (fun _ s₄ hswallow h => ?_) h
    refine hkeeps.bind_at (fun h => h.same (within_singleStep hsteps _ s₄))
      (fun _ s₅ hsingle h => ?_) h
    refine mirrors_waitThen hO h (fun r => ?_) (hlives pc s₅ hpc ?_)
    · exact sameMaps.bind (fun s => (within_enableSite i s).sameMaps) fun _ => sameMaps.pure r
    · unfold beforeWait
      rw [bind_ok (get_eq s₁), if_pos hsite, bind_ok hi, bind_ok hdisable, bind_ok hswallow]
      exact hsingle
  · refine hkeeps.bind_at (fun h => h.same (within_swallow hsteps _ s₁))
      (fun _ s₂ hswallow h => ?_) h
    refine hkeeps.bind_at (fun h => h.same (within_singleStep hsteps _ s₂))
      (fun _ s₃ hsingle h => ?_) h
    refine mirrors_waitOnSignal hO h (hlives pc s₃ hpc ?_)
    unfold beforeWait
    rw [bind_ok (get_eq s₁), if_neg hsite, bind_ok hswallow]
    exact hsingle

theorem instructionLives_of_mirrors {r : StopReason}
    (h : stepInstruction O reading otid s = .ok r s') (hmirrors : Mirrors s') :
    InstructionLives O reading s otid := by
  intro pc s₁ hpc hbefore
  unfold stepInstruction at h
  rw [bind_ok (get_eq s), bind_ok hpc] at h
  unfold beforeWait at hbefore
  rw [bind_ok (get_eq s)] at hbefore
  split_ifs at h hbefore with hsite
  · obtain ⟨i, s₂, hi, h₁⟩ := bind_eq_ok.mp h
    rw [bind_ok hi] at hbefore
    obtain ⟨_, s₃, hdisable, h₂⟩ := bind_eq_ok.mp h₁
    rw [bind_ok hdisable] at hbefore
    obtain ⟨_, s₄, hswallow, h₃⟩ := bind_eq_ok.mp h₂
    rw [bind_ok hswallow] at hbefore
    rw [bind_ok hbefore] at h₃
    obtain ⟨r', s₅, hwait, h₄⟩ := bind_eq_ok.mp h₃
    obtain ⟨_, s₆, henable, h₅⟩ := bind_eq_ok.mp h₄
    cases h₅
    unfold waitOnSignal at hwait
    rw [bind_ok (get_eq s₁)] at hwait
    have hsame : SameMaps s₅ s' := (show Within SameMaps (enableSite i) from
      fun s => (within_enableSite i s).sameMaps).ok henable
    exact waitLives_of_mirrors hO _ hwait (hmirrors.same ⟨hsame.1.symm, hsame.2.symm⟩)
  · obtain ⟨_, s₂, hswallow, h₁⟩ := bind_eq_ok.mp h
    rw [bind_ok hswallow] at hbefore
    rw [bind_ok hbefore] at h₁
    unfold waitOnSignal at h₁
    rw [bind_ok (get_eq s₁)] at h₁
    exact waitLives_of_mirrors hO _ h₁ hmirrors

end Instruction

section Others

variable {O : Outside} (hO : O.TellsTarget) {s : Process}

include hO

theorem sameMaps_stopThread (t : Tid) : Within SameMaps (stopThread O t) := by
  intro s
  cases hth : s.threads.find t with
  | none =>
    unfold stopThread
    rw [after_bind_error (threadAt_error hth)]
    exact sameMaps.refl s
  | some th =>
    have hmem : t ∈ s.threads.tids := Threads.mem_tids.mpr ⟨th, hth⟩
    by_cases hrunning : th.state = .running
    · rw [after, stopThread_running hth hrunning]
      change SameMaps s (after (waitpid (some t) >>= handleStopped O t) (s.sent th))
      have hsent : SameMaps s (s.sent th) := by
        unfold Process.sent
        split_ifs
        · exact sameMaps.refl s
        · exact ⟨rfl, rfl⟩
      have hK := keeps (SameMaps s)
      refine hK.bind_at (fun h => sameMaps.trans h (hO.continues.waitpid _ _))
        (fun e s₁ _ h => ?_) hsent
      have hrest (s₂ : Process) (h : SameMaps s s₂) : SameMaps s (after (do
          let handled ← handleSignal O (stopReason t e.status) false
          recordReason t (handled.getD (stopReason t e.status))) s₂) := by
        refine hK.bind_at (fun h => keeps_handleSignal hO sameMaps.trans (fun _ hnew => ?_) _ h)
          (fun handled s₃ _ h => sameMaps.trans h (sameMaps_recordReason _ _ s₃)) h
        rw [stopReason_tid, Threads.find_eq_none, h.1] at hnew
        exact absurd hmem hnew
      unfold handleStopped
      change SameMaps s (after (if (stopReason t e.status).reason = .stopped then _ else _) s₁)
      split_ifs
      · exact hK.bind_at (fun h => sameMaps.trans h (hO.continues.modifyThread _ _ s₁))
          (fun _ s₂ _ h => hrest s₂ h) h
      · exact hrest s₁ h
    · unfold stopThread
      rw [after_bind_ok (threadAt_ok hth), if_neg hrunning]
      exact sameMaps.refl s

theorem sameMaps_stopRunningThreads : Within SameMaps (stopRunningThreads O) :=
  sameMaps.bind sameMaps.get fun _ => sameMaps.forM (fun t => sameMaps_stopThread hO t) _

end Others

theorem forM_eraseThread : ∀ (l : List ThreadState) (s : Process),
    ∃ s', l.forM (fun th => eraseThread th.tid) s = .ok () s' ∧ s'.targetTids = s.targetTids ∧
      ∀ t, t ∈ s'.threads.tids ↔ t ∈ s.threads.tids ∧ ∀ th ∈ l, th.tid ≠ t := by
  intro l
  induction l with
  | nil => exact fun s => ⟨s, rfl, rfl, by simp⟩
  | cons th l ih =>
    intro s
    let s₁ : Process := after (eraseThread th.tid) s
    obtain ⟨s', hok, htarget, hthreads⟩ := ih s₁
    refine ⟨s', ?_, ?_, fun t => ?_⟩
    · change (eraseThread th.tid >>= fun _ => l.forM fun th => eraseThread th.tid) s = _
      rw [bind_ok (show eraseThread th.tid s = .ok () s₁ from rfl)]
      exact hok
    · rw [htarget]
      change List.map _ (List.map _ s.targetThreads) = _
      rw [List.map_map]
      apply List.map_congr_left
      intro x _
      simp only [Function.comp_apply]
      split_ifs <;> rfl
    · have herase : t ∈ s₁.threads.tids ↔ t ∈ s.threads.tids ∧ t ≠ th.tid :=
        Threads.mem_tids_erase
      rw [hthreads, herase, List.forall_mem_cons, and_assoc, ne_comm]

/-- The maps agree after `cleanup_exitied_threads` exactly when it has nothing to remove. -/
theorem mirrors_cleanup_iff {s : Process} (h : Mirrors s) (mainStopTid : Tid) :
    Mirrors (after (cleanupExitedThreads mainStopTid) s) ↔ s.toRemove mainStopTid = [] := by
  -- the threads that have exited are erased in the process only
  obtain ⟨s', hok, htarget, hthreads⟩ := forM_eraseThread (s.toRemove mainStopTid) s
  have hafter : after (cleanupExitedThreads mainStopTid) s = s' := by
    unfold cleanupExitedThreads
    rw [after_bind_ok (get_eq s), after_bind_ok hok]
    rfl
  rw [hafter]
  constructor
  · intro hmirrors
    by_contra hsome
    obtain ⟨th, hth⟩ := List.exists_mem_of_ne_nil _ hsome
    have hbefore : th.tid ∈ s.threads.tids :=
      List.mem_map_of_mem (List.mem_of_mem_filter hth)
    have hlater : th.tid ∈ s'.threads.tids := by
      rw [hmirrors.sameKeys, htarget, ← h.sameKeys]
      exact hbefore
    exact ((hthreads _).mp hlater).2 th hth rfl
  · intro hnone
    rw [hnone] at hok
    cases hok
    exact h

inductive ThreadOp where
  | run (op : RunOp)
  | stopRunningThreads
  | cleanupExitedThreads (mainStopTid : Tid)

def execThreadOp (O : Outside) (reading : Reading) : ThreadOp → M Unit
  | .run op => execRunOp O reading op
  | .stopRunningThreads => stopRunningThreads O
  | .cleanupExitedThreads mainStopTid => do
    let _ ← cleanupExitedThreads mainStopTid

/-- No thread ends: no wait of `wait_on_signal` returns with that, and none is to be removed. -/
def NoneEnds (O : Outside) (reading : Reading) (s : Process) : ThreadOp → Prop
  | .run (.waitOnSignal toAwait) => WaitLives O reading (s.events.length + 1) s toAwait
  | .run (.stepInstruction otid) => InstructionLives O reading s otid
  | .cleanupExitedThreads mainStopTid => s.toRemove mainStopTid = []
  | _ => True

theorem mirrors_step {O : Outside} (hO : O.TellsTarget) {reading : Reading} {s : Process}
    {op : ThreadOp} (h : Mirrors s) (hop : NoneEnds O reading s op) :
    Mirrors (after (execThreadOp O reading op) s) := by
  have hkeeps := keeps Mirrors
  cases op with
  | run op =>
    cases op with
    | resumeAllThreads => exact h.same (sameMaps_resumeAllThreads hO s)
    | resume otid => exact h.same (sameMaps_resume hO otid s)
    | waitOnSignal toAwait =>
      exact hkeeps.bind_at (fun h => mirrors_waitOnSignal hO h hop) (fun _ _ _ h => h) h
    | stepInstruction otid =>
      exact hkeeps.bind_at (fun h => mirrors_stepInstruction hO h hop) (fun _ _ _ h => h) h
  | stopRunningThreads => exact h.same (sameMaps_stopRunningThreads hO s)
  | cleanupExitedThreads mainStopTid =>
    exact hkeeps.bind_at (fun h => (mirrors_cleanup_iff h mainStopTid).mpr hop) (fun _ _ _ h => h) h

theorem noneEnds_of_mirrors {O : Outside} (hO : O.TellsTarget) {reading : Reading}
    {s s' : Process} {op : ThreadOp} (h : Mirrors s)
    (hreturn : execThreadOp O reading op s = .ok () s') (h' : Mirrors s') :
    NoneEnds O reading s op := by
  cases op with
  | run op =>
    cases op with
    | resumeAllThreads => trivial
    | resume otid => trivial
    | waitOnSignal toAwait =>
      obtain ⟨r, s₁, hwait, hrest⟩ := bind_eq_ok.mp hreturn
      cases hrest
      unfold waitOnSignal at hwait
      rw [bind_ok (get_eq s)] at hwait
      exact waitLives_of_mirrors hO _ hwait h'
    | stepInstruction otid =>
      obtain ⟨r, s₁, hstep, hrest⟩ := bind_eq_ok.mp hreturn
      cases hrest
      exact instructionLives_of_mirrors hO hstep h'
  | stopRunningThreads => trivial
  | cleanupExitedThreads mainStopTid =>
    obtain ⟨r, s₁, hcleanup, hrest⟩ := bind_eq_ok.mp hreturn
    cases hrest
    refine (mirrors_cleanup_iff h mainStopTid).mp ?_
    rwa [after, hcleanup]

/-- From a new target on, the maps agree as long as no thread ends, and no longer. -/
theorem mirrors_of_run {O : Outside} (hO : O.TellsTarget) (reading : Reading) (s : Process)
    (ops : List ThreadOp)
    (hops : AllSteps (execThreadOp O reading) (NoneEnds O reading) s.targeted ops) :
    Mirrors (runAll (execThreadOp O reading) s.targeted ops) ∧
      ∀ op s', execThreadOp O reading op (runAll (execThreadOp O reading) s.targeted ops) =
          .ok () s' →
        (Mirrors s' ↔
          NoneEnds O reading (runAll (execThreadOp O reading) s.targeted ops) op) := by
  have hreached := runAll_invariant (fun _ _ h hop => mirrors_step hO h hop) ops s.targeted
    (mirrors_targeted s) hops
  refine ⟨hreached, fun op s' hreturn => ⟨noneEnds_of_mirrors hO hreached hreturn, fun hop => ?_⟩⟩
  have hstep := mirrors_step hO hreached hop
  rwa [after, hreturn] at hstep

def telling : Outside := { quiet with lifecycle := notifyThreadLifecycleEvent }

theorem telling_tellsTarget : telling.TellsTarget where
  cont _ _ _ := sameMaps.refl _
  singleStep _ _ := sameMaps.refl _
  notifyStop _ _ := sameMaps.refl _
  notifyHit _ _ := sameMaps.refl _
  lifecycle := rfl

def sigint : WaitEvent := { tid := 1, status := 0x27f#32 }

def birth : WaitEvent := { tid := 3, status := 0x137f#32 }

def exit : WaitEvent := { tid := 2, status := 0#32 }

theorem mirrors_of_run_birth :
    Mirrors (runAll (execThreadOp telling .asMeant)
      ({ twoThreads with events := [birth, sigint] } : Process).targeted
      [.run (.waitOnSignal none)]) := by
  refine (mirrors_of_run telling_tellsTarget .asMeant { twoThreads with events := [birth, sigint] }
    [.run (.waitOnSignal none)] ⟨⟨?_, ?_⟩, trivial⟩).1
  · rintro e ⟨⟩
    decide
  · rintro next s' ⟨⟩
    refine ⟨?_, ?_⟩
    · rintro e ⟨⟩
      decide
    · rintro next s' ⟨⟩

/-- The target forgets the thread, and the process does not. -/
theorem mirrors_not_for_all : ¬ ∀ (O : Outside) (s : Process) (ops : List ThreadOp)
    (toAwait : Option Tid) (s' : Process), O.TellsTarget →
    execThreadOp O .asMeant (.run (.waitOnSignal toAwait))
      (runAll (execThreadOp O .asMeant) s.targeted ops) = .ok () s' → Mirrors s' := by
  intro h
  have hmirrors := h telling { twoThreads with events := [exit, sigint] } [] none _
    telling_tellsTarget rfl
  exact absurd ((hmirrors.sameKeys 2).mp (by decide)) (by decide)

end Process
end KDebugger
