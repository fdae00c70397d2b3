import KDebugger.Process.MemoryWrites
import KDebugger.Process.Signals

namespace KDebugger.Process

open Exec

/-- The requests change nothing by themselves: what they lead to comes with the events. -/
structure Outside.Scripted (O : Outside) : Prop where
  cont : ∀ b t, Within (fun s s' => s' = s) (O.cont b t)
  singleStep : ∀ t, Within (fun s s' => s' = s) (O.singleStep t)

/-- The second process has a longer log, and the new calls are as `P` says. -/
def Logs (P : Call → Prop) (s s' : Process) : Prop :=
  ∃ new : List Moment, s'.log = new ++ s.log ∧ ∀ m ∈ new, P m.call

theorem logs (P : Call → Prop) : Frame (Logs P) where
  refl s := ⟨[], rfl, by simp⟩
  trans := by
    rintro s₁ s₂ s₃ ⟨new, hnew, hp⟩ ⟨new', hnew', hp'⟩
    refine ⟨new' ++ new, by rw [hnew', hnew, List.append_assoc], ?_⟩
    simp only [List.mem_append]
    rintro m (hm | hm)
    · exact hp' m hm
    · exact hp m hm

theorem Logs.of_log_eq {P : Call → Prop} {s s' : Process} (h : s'.log = s.log) : Logs P s s' :=
  ⟨[], h, by simp⟩

theorem within_record {P : Call → Prop} {call : Call} (h : P call) :
    Within (Logs P) (record call) := fun s => ⟨[⟨call, s.memory⟩], rfl, by simpa using h⟩

theorem waitpid_cases (toAwait : Option Tid) (s : Process) :
    waitpid toAwait s = .error .blocked s ∨
      ∃ i e, s.events[i]? = some e ∧ s.deliverable toAwait e = true ∧
        waitpid toAwait s = .ok e (s.taken i e) := by
  unfold waitpid
  rw [bind_ok (get_eq s)]
  cases hfind : s.events.findIdx? (s.deliverable toAwait) with
  | none => exact .inl rfl
  | some i =>
    obtain ⟨e, he, hd⟩ := Splits.getElem?_of_findIdx? hfind
    right
    refine ⟨i, e, he, hd, ?_⟩
    simp only [he]
    rfl

theorem within_waitpid {P : Call → Prop} (h : ∀ e, P (.waited e)) (toAwait : Option Tid) :
    Within (Logs P) (waitpid toAwait) := by
  intro s
  rcases waitpid_cases toAwait s with herr | ⟨i, e, -, -, hok⟩
  · rw [after, herr]
    exact (logs P).refl s
  · rw [after, hok]
    exact ⟨[⟨.waited e, s.memory⟩], rfl, by simpa using h e⟩

theorem within_logs_of_unchanged {P : Call → Prop} {α : Type} {p : M α}
    (h : Within (fun s s' => s' = s) p) : Within (Logs P) p :=
  fun s => .of_log_eq (congrArg Process.log (h s))

theorem within_getPc {R : Process → Process → Prop} (hR : Frame R) (otid : Option Tid) :
    Within R (getPc otid) :=
  hR.bind (within_getRegisters hR otid) fun _ => hR.ofExcept _

theorem within_threadAt {R : Process → Process → Prop} (hR : Frame R) (tid : Tid) :
    Within R (threadAt tid) := by
  refine hR.bind hR.get fun s => ?_
  cases s.threads.find tid with
  | none => exact hR.throw _
  | some th => exact hR.pure th

theorem within_modifyThread {P : Call → Prop} (tid : Tid) (f : ThreadState → ThreadState) :
    Within (Logs P) (modifyThread tid f) := fun _ => .of_log_eq rfl

theorem within_ignoringErrors {R : Process → Process → Prop} {p : M Unit} (h : Within R p) :
    Within R (ignoringErrors p) := h

def Silent : Call → Prop
  | .reported _ => False
  | _ => True

/-- The parts of a step over a breakpoint, the sites aside, are as `R` says. -/
structure Outside.Steps (O : Outside) (R : Process → Process → Prop) : Prop where
  frame : Frame R
  continued : ∀ t, Within R (record (.cont t))
  stepped : ∀ t, Within R (record (.singleStep t))
  cont : ∀ b t, Within R (O.cont b t)
  singleStep : ∀ t, Within R (O.singleStep t)
  waitpid : ∀ toAwait, Within R (waitpid toAwait)
  modifyThread : ∀ t f, Within R (modifyThread t f)

/-- So are those of `send_continue`. -/
structure Outside.Continues (O : Outside) (R : Process → Process → Prop) : Prop
    extends Outside.Steps O R where
  resumed : ∀ t, Within R (record (.resumed t))
  running : Within R (modify fun s => { s with state := .running })

section Steps

variable {R : Process → Process → Prop} {O : Outside} (h : O.Steps R)

include h

theorem within_swallow (tid : Tid) : Within R (swallowPendingSigstop O tid) := by
  apply h.frame.bind (within_threadAt h.frame tid)
  intro th
  apply within_ite _ (h.frame.pure _)
  apply h.frame.bind (within_ignoringErrors (h.cont _ _))
  intro _
  apply h.frame.bind (h.continued _)
  intro _
  exact h.frame.bind (h.waitpid _) fun _ => h.modifyThread _ _

theorem within_singleStep (tid : Tid) : Within R (singleStep O tid) :=
  h.frame.bind (h.singleStep tid) fun _ => h.stepped _

variable (hsites : ∀ {s s' : Process}, SitesOnly s s' → R s s')

include hsites

theorem within_stepOver (tid : Tid) : Within R (stepOverBreakpoint O tid) := by
  apply h.frame.bind (within_getPc h.frame _)
  intro pc
  apply h.frame.bind h.frame.get
  intro s
  apply within_ite _ (h.frame.pure _)
  apply h.frame.bind (within_siteByAddress h.frame _)
  intro i
  apply h.frame.bind (fun s => hsites (within_disableSite i s))
  intro _
  apply h.frame.bind (within_swallow h tid)
  intro _
  apply h.frame.bind (within_singleStep h tid)
  intro _
  exact h.frame.bind (h.waitpid _) fun _ s => hsites (within_enableSite i s)

end Steps

section Continues

variable {R : Process → Process → Prop} {O : Outside} (h : O.Continues R)

include h

theorem within_sendContinue (tid : Tid) : Within R (sendContinue O tid) := by
  apply h.frame.bind h.frame.get
  intro s
  apply h.frame.bind (h.cont _ _)
  intro _
  apply h.frame.bind (h.resumed _)
  intro _
  apply h.frame.bind (within_threadAt h.frame tid)
  intro _
  exact h.frame.bind (h.modifyThread _ _) fun _ => h.running

theorem within_resume (hsites : ∀ {s s' : Process}, SitesOnly s s' → R s s')
    (otid : Option Tid) : Within R (resume O otid) := by
  apply h.frame.bind h.frame.get
  intro s
  exact h.frame.bind (within_stepOver h.toSteps hsites _) fun _ => within_sendContinue h _

end Continues

theorem Outside.Scripted.silent {O : Outside} (hO : O.Scripted) : O.Continues (Logs Silent) where
  frame := logs Silent
  continued _ := within_record trivial
  stepped _ := within_record trivial
  cont b t := within_logs_of_unchanged (hO.cont b t)
  singleStep t := within_logs_of_unchanged (hO.singleStep t)
  waitpid := within_waitpid fun _ => trivial
  modifyThread := within_modifyThread
  resumed _ := within_record trivial
  running _ := .of_log_eq rfl

theorem SitesOnly.silent {s s' : Process} (h : SitesOnly s s') : Logs Silent s s' :=
  .of_log_eq (by rw [h.same])

variable {O : Outside} (hO : O.Scripted)

def Expected : Call → WaitEvent → Prop
  | .singleStep _, e =>
    (stopReason e.tid e.status).reason = .stopped ∧ (stopReason e.tid e.status).info = sigtrap ∧
      trapOfSiCode e.siCode = .singleStep
  | .cont _, e => e.own = true
  | _, _ => False

/-- An event that is recorded as the state and the reason of its thread and reported, the
thread not going on. -/
structure Accounted (s' : Process) (later : List Moment) (e : WaitEvent) : Prop where
  recorded : ∃ th, s'.threads.find e.tid = some th ∧
    th.state = (stopReason e.tid e.status).reason ∧
    th.reason.reason = (stopReason e.tid e.status).reason
  reported : ∃ m ∈ later, ∃ reason, m.call = .reported reason ∧ reason.tid = e.tid
  stays : ∀ m ∈ later, m.call ≠ .resumed e.tid ∧ m.call ≠ .singleStep e.tid

/-- The events that waits took between two states, each with the request before it and
the moments after it. -/
def TookAfter (s s' : Process) (request : Call) (e : WaitEvent) (later : List Moment) : Prop :=
  ∃ earlier m m', s'.log = later ++ ⟨.waited e, m⟩ :: ⟨request, m'⟩ :: (earlier ++ s.log)

/-- No event is lost between two states. -/
def NothingLost (s s' : Process) : Prop :=
  ∀ request e later, TookAfter s s' request e later → ¬ Expected request e → Accounted s' later e

/-- Every event that is taken is the one the wait is for. -/
def AllExpected (s s' : Process) : Prop :=
  ∀ request e later, TookAfter s s' request e later → Expected request e

theorem nothingLost_iff {s s' : Process} (h : Logs Silent s s') :
    NothingLost s s' ↔ AllExpected s s' := by
  -- a wait that does not look at the status loses what it was not for
  constructor
  · intro hlaw request e later htook
    by_contra hunexpected
    obtain ⟨m, hm, reason, hcall, -⟩ := (hlaw request e later htook hunexpected).reported
    obtain ⟨earlier, m₁, m₂, hlog⟩ := htook
    obtain ⟨new, hnew, hsilent⟩ := h
    have hsame : new = later ++ ⟨.waited e, m₁⟩ :: ⟨request, m₂⟩ :: earlier := by
      rw [← List.append_left_inj s.log, ← hnew, hlog]
      simp
    have hmem : m ∈ new := by
      rw [hsame]
      exact List.mem_append_left _ hm
    have := hsilent m hmem
    rw [hcall] at this
    exact this
  · intro hall request e later htook hunexpected
    exact absurd (hall request e later htook) hunexpected

/-- Continuing a thread loses no event if and only if its waits take what they are for. -/
theorem nothingLost_continuing_iff {O : Outside} (hO : O.Scripted) (s : Process) (tid : Tid)
    (otid : Option Tid) :
    (NothingLost s (after (swallowPendingSigstop O tid) s) ↔
      AllExpected s (after (swallowPendingSigstop O tid) s)) ∧
    (NothingLost s (after (stepOverBreakpoint O tid) s) ↔
      AllExpected s (after (stepOverBreakpoint O tid) s)) ∧
    (NothingLost s (after (resume O otid) s) ↔ AllExpected s (after (resume O otid) s)) :=
  ⟨nothingLost_iff (within_swallow hO.silent.toSteps tid s),
    nothingLost_iff (within_stepOver hO.silent.toSteps SitesOnly.silent tid s),
    nothingLost_iff (within_resume hO.silent SitesOnly.silent otid s)⟩

def quiet : Outside where
  cont _ _ := pure ()
  singleStep _ := pure ()
  notifyStop _ := pure ()
  notifyHit _ := pure false
  lifecycle _ := pure ()
  uninitialised _ := 0#8

theorem quiet_scripted : quiet.Scripted where
  cont _ _ _ := rfl
  singleStep _ _ := rfl

def atTrap (events : List WaitEvent) : Process :=
  { oneTrap with
    threads := ⟨[{ tid := 1, regs := { data := fun o => if o = 129 then 0x10#8 else 0#8, tid := 1 } }],
      by decide⟩
    events }

def segv : WaitEvent := { tid := 1, status := 0xb7f#32, siCode := 1 }

theorem nothingLost_continuing_iff_atTrap :
    NothingLost (atTrap [segv]) (after (resume quiet none) (atTrap [segv])) ↔
      AllExpected (atTrap [segv]) (after (resume quiet none) (atTrap [segv])) :=
  (nothingLost_continuing_iff quiet_scripted (atTrap [segv]) 1 none).2.2

/-- The fault is taken for the trap of the single step, and the thread goes on. -/
theorem nothingLost_not_for_all : ¬ ∀ (O : Outside) (s : Process) (otid : Option Tid),
    O.Scripted → NothingLost s (after (resume O otid) s) := by
  intro h
  have hlaw := h quiet (atTrap [segv]) none quiet_scripted
  rw [nothingLost_iff (within_resume quiet_scripted.silent SitesOnly.silent none _)] at hlaw
  have htook : ∃ later, TookAfter (atTrap [segv]) (after (resume quiet none) (atTrap [segv]))
      (.singleStep 1) segv later := ⟨[⟨.resumed 1, _⟩], [], _, _, rfl⟩
  obtain ⟨later, htook⟩ := htook
  exact absurd (hlaw _ _ _ htook).2.1 (by decide)

end KDebugger.Process
