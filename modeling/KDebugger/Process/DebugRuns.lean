import KDebugger.Process.DebugAgreement
import KDebugger.Process.StoppointRuns
import KDebugger.Process.SyscallLabels

namespace KDebugger.Process

open Exec Memory KDebugger.Splits StoppointCollection

variable {O : Outside} {s s' : Process} {i : ℕ}

/-- Requests may write memory, and the callbacks keep debug registers and threads. -/
structure Outside.LeavesDebug (O : Outside) : Prop where
  cont : ∀ b t, Within (fun s s' => s' = { s with memory := s'.memory }) (O.cont b t)
  singleStep : ∀ t, Within (fun s s' => s' = { s with memory := s'.memory }) (O.singleStep t)
  hooks : O.Hooks KeepsDebug

/-- The sites stay too. -/
structure KeepsSites (s s' : Process) : Prop extends KeepsDebug s s' where
  sites : s'.breakpointSites = s.breakpointSites

theorem keepsSites : Frame KeepsSites where
  refl s := ⟨keepsDebug.refl s, rfl⟩
  trans h h' := ⟨keepsDebug.trans h.toKeepsDebug h'.toKeepsDebug, h'.sites.trans h.sites⟩

theorem KeepsSites.of_memory (h : s' = { s with memory := s'.memory }) : KeepsSites s s' := by
  rw [h]
  exact ⟨⟨rfl, rfl, fun _ _ _ => rfl⟩, rfl⟩

theorem keepsSites_record (call : Call) : Within KeepsSites (record call) :=
  fun _ => ⟨⟨rfl, rfl, fun _ _ _ => rfl⟩, rfl⟩

theorem keepsSites_modifyThread (t : Tid) (f : ThreadState → ThreadState) :
    Within KeepsSites (modifyThread t f) :=
  fun s => ⟨⟨rfl, Threads.tids_modify s.threads t f, fun _ _ _ => rfl⟩, rfl⟩

theorem keepsSites_waitpid (toAwait : Option Tid) : Within KeepsSites (waitpid toAwait) := by
  intro s
  obtain hblocked | ⟨i, e, -, -, hwait⟩ := waitpid_cases toAwait s
  · rw [after, hblocked]
    exact keepsSites.refl s
  · rw [after, hwait]
    refine ⟨⟨rfl, rfl, fun t o ho => ?_⟩, rfl⟩
    by_cases ht : t = e.tid
    · subst ht
      simp [taken, ho]
    · simp [taken, ht]

theorem Outside.LeavesDebug.continues (hO : O.LeavesDebug) : O.Continues KeepsSites where
  frame := keepsSites
  continued _ := keepsSites_record _
  stepped _ := keepsSites_record _
  cont _ _ s := .of_memory (hO.cont _ _ s)
  singleStep t s := .of_memory (hO.singleStep t s)
  waitpid := keepsSites_waitpid
  modifyThread := keepsSites_modifyThread
  resumed _ := keepsSites_record _
  running _ := ⟨⟨rfl, rfl, fun _ _ _ => rfl⟩, rfl⟩

/-- Alike, the leader alone or the site at a position in memory. -/
structure Plain (i : ℕ) (s : Process) : Prop extends Alike s where
  plain : OnlyLeader s ∨ ∀ site, s.breakpointSites[i]? = some site → site.isHardware = false

theorem OnlyLeader.congr (h : OnlyLeader s) (hpid : s'.pid = s.pid)
    (htids : s'.threads.tids = s.threads.tids) : OnlyLeader s' := by
  intro t ht
  rw [hpid]
  exact h t (htids ▸ ht)

theorem Plain.keep (h : Plain i s) (hkeep : KeepsSites s s') : Plain i s' where
  toAlike := h.toAlike.keep hkeep.toKeepsDebug
  plain := by
    rw [hkeep.sites]
    exact h.plain.imp (fun honly => honly.congr hkeep.pid hkeep.tids) id

theorem plain_of_sitesOnly (h : Plain i s) (hsites : SitesOnly s s')
    (hkeep : ¬ OnlyLeader s → KeepsDebug s s') : Plain i s' := by
  have hlead := hsites.leaderOnly
  by_cases honly : OnlyLeader s
  · exact ⟨h.toAlike.lead honly hlead, .inl (honly.congr hlead.pid hlead.tids)⟩
  · refine ⟨h.toAlike.keep (hkeep honly), .inr fun site' hi' => ?_⟩
    have hsoft := h.plain.resolve_left honly
    have hkind := congrArg (fun l : List Bool => l[i]?) hsites.kinds
    simp only [List.getElem?_map, hi', Option.map_some] at hkind
    obtain ⟨site, hi, hhw⟩ := Option.map_eq_some_iff.mp hkind.symm
    rw [← hhw]
    exact hsoft site hi

theorem plain_disable (h : Plain i s) : Plain i (after (disableSite i) s) := by
  refine plain_of_sitesOnly h (within_disableSite i s) fun honly => ?_
  apply keepsDebug_disableSite
  rintro ⟨site, hi, hhw, -⟩
  exact absurd (hhw.symm.trans (h.plain.resolve_left honly site hi)) (by decide)

theorem plain_enable (h : Plain i s) : Plain i (after (enableSite i) s) := by
  refine plain_of_sitesOnly h (within_enableSite i s) fun honly => ?_
  apply keepsDebug_enableSite
  rintro ⟨site, hi, hhw, -⟩
  exact absurd (hhw.symm.trans (h.plain.resolve_left honly site hi)) (by decide)

/-- A hardware site at the program counter is stepped over only while the leader is alone. -/
def StepsPlain (s : Process) (t : Tid) : Prop :=
  ∀ pc, outcome (getPc (some t)) s = .ok pc →
    (∃ site ∈ s.breakpointSites, site.address = pc ∧ site.isHardware = true ∧
      site.isEnabled = true) → OnlyLeader s

theorem alike_stepOver (hO : O.LeavesDebug) (h : Alike s) {t : Tid} (hplain : StepsPlain s t) :
    Alike (after (stepOverBreakpoint O t) s) := by
  have hframe := keeps Alike
  unfold stepOverBreakpoint
  refine hframe.bind_at (within_getPc hframe _ s) (fun pc s₁ hpc _ => ?_) h
  obtain rfl : s₁ = s := (within_getPc unchanged (some t)).ok hpc
  rw [after_bind_ok (get_eq s₁)]
  by_cases hsite : s₁.enabledSiteAt pc = true
  · obtain ⟨i, site, hfind, hi, rfl, hon⟩ := enabledSiteAt_eq hsite
    have hstart : Plain i s₁ := by
      refine ⟨h, ?_⟩
      by_cases hhw : site.isHardware = true
      · exact .inl (hplain _ (by rw [outcome, hpc])
          ⟨site, List.mem_of_getElem? hi, rfl, hhw, hon⟩)
      · refine .inr fun x hx => ?_
        rw [hi] at hx
        rw [← Option.some.inj hx]
        simpa using hhw
    have hplains := keeps (Plain i)
    rw [if_pos hsite, after_bind_ok (siteByAddress_find hfind)]
    refine Plain.toAlike (i := i) (hplains.bind (fun _ => plain_disable) (fun _ => ?_) s₁ hstart)
    apply hplains.bind (fun s h => h.keep (within_swallow hO.continues.toSteps t s))
    intro _
    apply hplains.bind (fun s h => h.keep (within_singleStep hO.continues.toSteps t s))
    intro _
    apply hplains.bind (fun s h => h.keep (keepsSites_waitpid _ s))
    intro _
    exact fun _ => plain_enable
  · rw [if_neg hsite]
    exact h

theorem alike_sendContinue (hO : O.LeavesDebug) (t : Tid) :
    Within (fun s s' => Alike s → Alike s') (sendContinue O t) :=
  fun s h => h.keep (within_sendContinue hO.continues t s).toKeepsDebug

theorem alike_emplace (h : Alike s) {th : ThreadState} (hnew : s.threads.find th.tid = none)
    (hclear : LeaderClear s) : Alike { s with threads := s.threads.emplace th } where
  leader := Threads.mem_tids_emplace.mpr (.inl h.leader)
  alike t ht o ho := by
    obtain ht | rfl := Threads.mem_tids_emplace.mp ht
    · exact h.alike t ht o ho
    · exact (h.strangers _ (Threads.find_eq_none.mp hnew) o ho).trans (hclear o ho).symm
  strangers t ht o ho := by
    apply h.strangers t _ o ho
    exact fun hmem => ht (Threads.mem_tids_emplace.mpr (.inl hmem))

theorem alike_handleSignal (hO : O.LeavesDebug) (h : Alike s) {reason : StopReason}
    {isMainStop : Bool} (hjoin : s.threads.find reason.tid = none →
      ¬ (reason.trapReason = some .clone ∧ isMainStop = true) →
      s.attached = true ∧ reason.reason = .stopped → LeaderClear s) :
    Alike (after (handleSignal O reason isMainStop) s) := by
  have hhooks : O.Hooks fun s s' => Alike s → Alike s' :=
    ⟨fun r s h => h.keep (hO.hooks.notifyStop r s), fun p s h => h.keep (hO.hooks.notifyHit p s),
      fun r s h => h.keep (hO.hooks.lifecycle r s)⟩
  refine within_handleSignal (keeps Alike) (fun hi h => h.keep hi.keepsDebug) hhooks isMainStop
    (fun hnew hclone hstopped h => ?_) h
  let th : ThreadState :=
    { tid := reason.tid, regs := { data := O.uninitialised, tid := reason.tid } }
  have h₁ : Alike { s with threads := s.threads.emplace th } :=
    alike_emplace h hnew (hjoin hnew hclone hstopped)
  exact within_reportLifecycle (keeps Alike) (fun hi h => h.keep hi.keepsDebug) hhooks reason _ h₁

theorem alike_recordReason (t : Tid) (reason : StopReason) :
    Within (fun s s' => Alike s → Alike s') (recordReason t reason) := by
  have hsites : Within KeepsSites (recordReason t reason) :=
    keepsSites.bind (within_threadAt keepsSites t) fun _ => keepsSites_modifyThread _ _
  exact fun s h => h.keep (hsites s).toKeepsDebug

/-- No thread whose first stop is next joins unless the leader has nothing armed. -/
def JoinsClear (s : Process) (toAwait : Option Tid) : Prop :=
  ∀ e, nextEvent s toAwait = some e → e.tid ∉ s.threads.tids →
    (stopReason e.tid e.status).trapReason ≠ some .clone →
    s.attached = true ∧ (stopReason e.tid e.status).reason = .stopped → LeaderClear s

theorem alike_handleStop (hO : O.LeavesDebug) (h : Alike s) {toAwait : Option Tid}
    (hjoin : JoinsClear s toAwait) : Alike (after (execSigstopOp O (.handleStop toAwait)) s) := by
  change Alike (after (waitpid toAwait >>= fun e => _) s)
  obtain ⟨hblocked, -⟩ | ⟨i, e, -, -, hnext, hwait⟩ := waitpid_next toAwait s
  · rw [after_bind_error hblocked]
    exact h
  · have hkeep := (keepsSites_waitpid toAwait).ok hwait
    rw [after_bind_ok hwait]
    refine (keeps Alike).bind_at (fun h => alike_handleSignal hO h fun hnew hclone hstopped => ?_)
      (fun handled s₂ _ h₂ => ?_) (h.keep hkeep.toKeepsDebug)
    · rw [stopReason_tid] at hnew
      have hclear := hjoin e hnext (Threads.find_eq_none.mp hnew) (fun hc => hclone ⟨hc, rfl⟩) hstopped
      intro o ho
      rw [hkeep.pid, hkeep.debug s.pid o ho]
      exact hclear o ho
    · cases handled with
      | none => exact h₂
      | some reason => exact alike_recordReason _ _ s₂ h₂

/-- Alike, with a thread in the table. -/
structure Known (t : Tid) (s : Process) : Prop extends Alike s where
  known : t ∈ s.threads.tids

theorem Known.keep {t : Tid} (h : Known t s) (hkeep : KeepsDebug s s') : Known t s' :=
  ⟨h.toAlike.keep hkeep, hkeep.tids ▸ h.known⟩

theorem known_handleStopped (hO : O.LeavesDebug) (e : WaitEvent) :
    Within (fun s s' => Known e.tid s → Known e.tid s') (handleStopped O e.tid e) := by
  have hframe := keeps (Known e.tid)
  have hhooks : O.Hooks fun s s' => Known e.tid s → Known e.tid s' :=
    ⟨fun r s h => h.keep (hO.hooks.notifyStop r s), fun p s h => h.keep (hO.hooks.notifyHit p s),
      fun r s h => h.keep (hO.hooks.lifecycle r s)⟩
  have hhandle : Within (fun s s' => Known e.tid s → Known e.tid s') (do
      let handled ← handleSignal O (stopReason e.tid e.status) false
      recordReason e.tid (handled.getD (stopReason e.tid e.status))) := by
    apply hframe.bind
    · intro s h
      refine within_handleSignal hframe (fun hi h => h.keep hi.keepsDebug) hhooks false
        (fun hnew => ?_) h
      rw [stopReason_tid] at hnew
      exact absurd h.known (Threads.find_eq_none.mp hnew)
    · intro handled
      apply hframe.bind (within_threadAt hframe _)
      intro _ s h
      exact h.keep (keepsSites_modifyThread _ _ s).toKeepsDebug
  refine within_ite (hframe.bind ?_ fun _ => hhandle) hhandle
  exact fun s h => h.keep (keepsSites_modifyThread _ _ s).toKeepsDebug

theorem alike_stopThread (hO : O.LeavesDebug) {t : Tid} (h : Alike s) :
    Alike (after (stopThread O t) s) := by
  cases hth : s.threads.find t with
  | none =>
    unfold stopThread
    rw [after_bind_error (threadAt_error hth)]
    exact h
  | some th =>
    by_cases hrunning : th.state = .running
    · have hsent : KeepsDebug s (s.sent th) := by
        unfold Process.sent
        split_ifs
        · exact keepsDebug.refl s
        · exact (keepsSites_record _ s).toKeepsDebug
      have hmem : t ∈ s.threads.tids := Threads.mem_tids.mpr ⟨th, hth⟩
      have hstart : Known t (s.sent th) := Known.keep ⟨h, hmem⟩ hsent
      rw [after, stopThread_running hth hrunning]
      change Alike (after (waitpid (some t) >>= handleStopped O t) (s.sent th))
      obtain ⟨hblocked, -⟩ | ⟨i, e, -, hd, -, hwait⟩ := waitpid_next (some t) (s.sent th)
      · rw [after_bind_error hblocked]
        exact hstart.toAlike
      · obtain rfl : e.tid = t := deliverable_tid hd
        have hkeep := (keepsSites_waitpid _).ok hwait
        rw [after_bind_ok hwait]
        exact (known_handleStopped hO e _ (hstart.keep hkeep.toKeepsDebug)).toAlike
    · unfold stopThread
      rw [after_bind_ok (threadAt_ok hth), if_neg hrunning]
      exact h

inductive DebugOp where
  | stoppoint (op : StoppointOp)
  | thread (op : SigstopOp)
  /-- `set_current_thread` -/
  | select (tid : Tid)

def execDebugOp (O : Outside) : DebugOp → M Unit
  | .stoppoint op => execStoppointOp op
  | .thread op => execSigstopOp O op
  | .select tid => modify fun s => { s with currentThread := tid }

/-- Debug registers are written for a single thread, and threads join while none is armed. -/
def ArmsAll (O : Outside) (s : Process) : DebugOp → Prop
  | .stoppoint op => ReachesHardware s op → OnlyLeader s
  | .thread (.handleStop toAwait) => JoinsClear s toAwait
  | .thread (.resume otid) => StepsPlain s (s.valueOr otid)
  | .thread .resumeAllThreads => LoopSteps (stepOverBreakpoint O) StepsPlain s s.threads.tids
  | .thread .stopRunningThreads | .thread (.swallow _) | .select _ => True

theorem alike_step (hO : O.LeavesDebug) (s : Process) (op : DebugOp) (h : Alike s)
    (hop : ArmsAll O s op) : Alike (after (execDebugOp O op) s) := by
  -- debug registers are written while the leader is alone, threads join while they are clear
  have hframe := keeps Alike
  have hturn (s : Process) (t : Tid) (h : Alike s) (hplain : StepsPlain s t) :
      Alike (after (stepOverBreakpoint O t) s) := alike_stepOver hO h hplain
  cases op with
  | stoppoint op => exact alike_stoppoint h hop
  | select tid => exact h.keep ⟨rfl, rfl, fun _ _ _ => rfl⟩
  | thread op =>
    cases op with
    | stopRunningThreads =>
      change Alike (after (stopRunningThreads O) s)
      unfold stopRunningThreads
      rw [after_bind_ok (get_eq s)]
      exact hframe.forM (fun t s h => alike_stopThread hO h) _ s h
    | handleStop toAwait => exact alike_handleStop hO h hop
    | swallow tid => exact h.keep (within_swallow hO.continues.toSteps tid s).toKeepsDebug
    | resume otid =>
      change Alike (after (resume O otid) s)
      unfold resume
      rw [after_bind_ok (get_eq s)]
      exact hframe.bind_at (fun h => hturn s _ h hop) (fun _ _ _ => alike_sendContinue hO _ _) h
    | resumeAllThreads =>
      change Alike (after (resumeAllThreads O) s)
      unfold resumeAllThreads
      rw [after_bind_ok (get_eq s)]
      refine hframe.bind_at (fun h => ?_) (fun _ s' _ => ?_) h
      · exact forM_invariant hturn _ s h hop
      · exact hframe.forM (fun t => alike_sendContinue hO t) _ s'

/-- Runs in which debug registers are written and threads join as the code can bear. -/
theorem armedAlike_of_run {O : Outside} (hO : O.LeavesDebug) (s : Process) (h : Alike s)
    (ops : List DebugOp) (hops : AllSteps (execDebugOp O) (ArmsAll O) s ops) :
    ArmedAlike (runAll (execDebugOp O) s ops) :=
  (runAll_invariant (alike_step hO) ops s h hops).armedAlike

theorem Alike.drOf_eq (h : Alike s) {t : Tid} (ht : t ∈ s.threads.tids) {n : ℕ}
    (hn : n < 4 ∨ n = 7) : drOf (s.user t) n = dr s n := by
  apply Words.wordOf_congr
  intro i hi
  apply h.alike t ht
  unfold isDebugAddress drOffset
  simp only [Bool.or_eq_true, Bool.and_eq_true, decide_eq_true_eq]
  omega

/-- So an enabled stoppoint is armed in every thread, and nothing else is armed in any. -/
theorem slotsOwned_of_run {O : Outside} (hO : O.LeavesDebug) (s : Process) (h : Alike s)
    (ops : List DebugOp) (hops : AllSteps (execDebugOp O) (ArmsAll O) s ops)
    (hslots : SlotsOwned (dr (runAll (execDebugOp O) s ops)) (owners (runAll (execDebugOp O) s ops)))
    {t : Tid} (ht : t ∈ (runAll (execDebugOp O) s ops).threads.tids) :
    SlotsOwned (drOf ((runAll (execDebugOp O) s ops).user t))
      (owners (runAll (execDebugOp O) s ops)) := by
  have halike := runAll_invariant (alike_step hO) ops s h hops
  have hcontrol := halike.drOf_eq ht (.inr rfl)
  refine ⟨hslots.distinct, fun o ho => ?_, fun i hi hon => ?_⟩
  · obtain ⟨i, hi⟩ := hslots.owned o ho
    refine ⟨i, hi.lt, hi.index, ?_, ?_, ?_, ?_⟩
    · rw [hcontrol]
      exact hi.enabled
    · rw [halike.drOf_eq ht (.inl hi.lt)]
      exact hi.address
    · rw [hcontrol]
      exact hi.mode
    · rw [hcontrol]
      exact hi.length
  · rw [hcontrol] at hon
    exact hslots.onto i hi hon

theorem quiet_leavesDebug : quiet.LeavesDebug where
  cont _ _ _ := rfl
  singleStep _ _ := rfl
  hooks := ⟨fun _ => keepsDebug.pure _, fun _ => keepsDebug.pure _, fun _ => keepsDebug.pure _⟩

theorem alike_of_zero (hleader : s.pid ∈ s.threads.tids) (hzero : ∀ t o, s.user t o = 0#8) :
    Alike s where
  leader := hleader
  alike t _ o _ := (hzero t o).trans (hzero s.pid o).symm
  strangers t _ o _ := hzero t o

/-- A hardware breakpoint comes and goes before the second thread does. -/
def comesAndGoes : List DebugOp :=
  [.stoppoint (.createSite none 1#32 0x1000#64 true false), .stoppoint (.enableSite 0x1000#64),
    .stoppoint (.disableSite 0x1000#64), .thread (.handleStop none)]

theorem armedAlike_comesAndGoes :
    ArmedAlike (runAll (execDebugOp quiet) { untouched with events := [syscallStop 2] }
      comesAndGoes) := by
  refine armedAlike_of_run quiet_leavesDebug _ (alike_of_zero (by decide) fun _ _ => rfl) _
    ⟨fun _ => ?_, fun _ => ?_, fun _ => ?_, fun e _ _ _ _ => ?_, trivial⟩
  · decide +kernel
  · decide +kernel
  · decide +kernel
  · have hbytes : ∀ o < userSize, isDebugAddress o = true →
        (runAll (execDebugOp quiet) { untouched with events := [syscallStop 2] }
          [.stoppoint (.createSite none 1#32 0x1000#64 true false),
            .stoppoint (.enableSite 0x1000#64), .stoppoint (.disableSite 0x1000#64)]).user 1 o =
          0#8 := by decide +kernel
    rw [runAll_cons, runAll_cons, runAll_cons, runAll_nil] at hbytes
    have hpid : (after (execDebugOp quiet (.stoppoint (.disableSite 0x1000#64)))
        (after (execDebugOp quiet (.stoppoint (.enableSite 0x1000#64)))
          (after (execDebugOp quiet (.stoppoint (.createSite none 1#32 0x1000#64 true false)))
            { untouched with events := [syscallStop 2] }))).pid = 1 := by decide +kernel
    intro o ho
    rw [hpid]
    refine hbytes o ?_ ho
    unfold isDebugAddress debugregOffset at ho
    unfold userSize
    simp at ho
    omega

/-- A hardware breakpoint enabled in a process with two threads. -/
theorem armedAlike_not_for_all : ¬ ∀ (O : Outside) (s : Process) (ops : List DebugOp),
    O.LeavesDebug → Alike s → ArmedAlike (runAll (execDebugOp O) s ops) := by
  intro h
  have hlaw := h quiet twoThreads [.stoppoint (.createSite none 1#32 0x1000#64 true false),
    .stoppoint (.enableSite 0x1000#64)] quiet_leavesDebug (alike_of_zero (by decide) fun _ _ => rfl)
  have hsame := hlaw 1 (by decide +kernel) 2 (by decide +kernel) 849 (by decide)
  revert hsame
  decide +kernel

end KDebugger.Process
