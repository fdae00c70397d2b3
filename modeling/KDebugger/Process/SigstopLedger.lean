import KDebugger.Process.SignalFrames

namespace KDebugger.Process

open Exec

def live (th : ThreadState) : Prop := th.state ≠ .exited ∧ th.state ≠ .terminated

instance (th : ThreadState) : Decidable (live th) := inferInstanceAs (Decidable (_ ∧ _))

def isSigstop (e : WaitEvent) : Bool :=
  (stopReason e.tid e.status).reason = .stopped ∧ (stopReason e.tid e.status).info = sigstop

def nextEvent (s : Process) (toAwait : Option Tid) : Option WaitEvent :=
  s.events.find? (s.deliverable toAwait)

/-- In every thread that lives at most one SIGSTOP is on its way, and the flag says so. -/
def FlagsTell (s : Process) : Prop :=
  ∀ t th, s.threads.find t = some th → live th →
    outstanding t s.log ≤ 1 ∧ (th.pendingSigstop = true ↔ outstanding t s.log = 1)

/-- Each event taken right after the `PTRACE_CONT` of `swallow_pending_sigstop` is the
stop of a SIGSTOP of the debugger. -/
def SwallowsOwn : List Moment → Prop
  | [] => True
  | m :: log => (∀ e t, m.call = .waited e → (log.head?.map Moment.call) = some (.cont t) →
      e.own = true) ∧ SwallowsOwn log

/-- Threads but for their registers, events, and all calls but reports stay. -/
structure SameAccounts (s s' : Process) : Prop where
  statuses : s'.statuses = s.statuses
  events : s'.events = s.events
  reports : Logs IsReport s s'

theorem sameAccounts : Frame SameAccounts where
  refl s := ⟨rfl, rfl, (logs IsReport).refl s⟩
  trans h h' := ⟨h'.statuses.trans h.statuses, h'.events.trans h.events,
    (logs IsReport).trans h.reports h'.reports⟩

theorem Inspects.sameAccounts {s s' : Process} (h : Inspects s s') : SameAccounts s s' where
  statuses := h.statuses
  events := by rw [h.same]
  reports := by
    obtain ⟨new, hnew, hreports⟩ := h.reports
    exact ⟨new, hnew, fun m hm => (hreports m hm).1⟩

theorem SitesOnly.sameAccounts {s s' : Process} (h : SitesOnly s s') : SameAccounts s s' where
  statuses := h.statuses
  events := by rw [h.same]
  reports := .of_log_eq (by rw [h.same])

theorem find_of_statuses {s s' : Process} (h : s'.statuses = s.statuses) {t : Tid}
    {th' : ThreadState} (hth' : s'.threads.find t = some th') :
    ∃ th, s.threads.find t = some th ∧ status th = status th' := by
  have hfind (ts : Threads) :
      (ts.entries.map status).find? (fun x => x.1 == t) = (ts.find t).map status := by
    rw [List.find?_map]
    rfl
  have heq : (s.threads.find t).map status = (s'.threads.find t).map status := by
    rw [← hfind, ← hfind]
    exact congrArg _ h.symm
  rw [hth'] at heq
  obtain ⟨th, hth, hstatus⟩ := Option.map_eq_some_iff.mp heq
  exact ⟨th, hth, hstatus⟩

theorem status_pending {th th' : ThreadState} (h : status th = status th') :
    th.pendingSigstop = th'.pendingSigstop := congrArg (·.2.2.2) h

theorem status_state {th th' : ThreadState} (h : status th = status th') : th.state = th'.state :=
  congrArg (·.2.2.1) h

theorem status_live {th th' : ThreadState} (h : status th = status th') : live th ↔ live th' := by
  unfold live
  rw [status_state h]

theorem outstanding_append {t : Tid} {new log : List Moment}
    (h : ∀ m ∈ new, IsReport m.call) : outstanding t (new ++ log) = outstanding t log := by
  induction new with
  | nil => rfl
  | cons m new ih =>
    obtain ⟨call, memory⟩ := m
    have hcall : IsReport call := h _ (List.mem_cons_self ..)
    have hnew := ih fun m hm => h m (List.mem_cons_of_mem _ hm)
    cases call <;> first | exact hnew | exact absurd hcall id

theorem SameAccounts.outstanding {s s' : Process} (h : SameAccounts s s') (t : Tid) :
    Process.outstanding t s'.log = Process.outstanding t s.log := by
  obtain ⟨new, hnew, hreports⟩ := h.reports
  rw [hnew, outstanding_append hreports]

theorem SameAccounts.nextEvent {s s' : Process} (h : SameAccounts s s') (toAwait : Option Tid) :
    Process.nextEvent s' toAwait = Process.nextEvent s toAwait := by
  have hdeliver : s'.deliverable toAwait = s.deliverable toAwait := by
    funext e
    simp only [deliverable, h.outstanding]
  unfold Process.nextEvent
  rw [hdeliver, h.events]

theorem waitpid_next (toAwait : Option Tid) (s : Process) :
    (waitpid toAwait s = .error .blocked s ∧ nextEvent s toAwait = none) ∨
      ∃ i e, s.events[i]? = some e ∧ s.deliverable toAwait e = true ∧
        nextEvent s toAwait = some e ∧ waitpid toAwait s = .ok e (s.taken i e) := by
  unfold waitpid nextEvent
  rw [bind_ok (get_eq s)]
  cases hfind : s.events.findIdx? (s.deliverable toAwait) with
  | none =>
    left
    refine ⟨rfl, List.find?_eq_none.mpr ?_⟩
    simpa using hfind
  | some i =>
    obtain ⟨hi, hd, hbefore⟩ := List.findIdx?_eq_some_iff_getElem.mp hfind
    right
    have hget : s.events[i]? = some s.events[i] := List.getElem?_eq_getElem hi
    refine ⟨i, s.events[i], hget, hd, ?_, ?_⟩
    · rw [List.find?_eq_some_iff_getElem]
      exact ⟨hd, i, hi, rfl, fun j hj => by simpa using hbefore j hj⟩
    · simp only [hget]
      rfl

theorem deliverable_tid {s : Process} {t : Tid} {e : WaitEvent}
    (h : s.deliverable (some t) e = true) : e.tid = t := by
  unfold deliverable at h
  simp only [Bool.and_eq_true, beq_iff_eq] at h
  exact h.1

theorem deliverable_own {s : Process} {toAwait : Option Tid} {e : WaitEvent}
    (h : s.deliverable toAwait e = true) (hown : e.own = true) :
    0 < outstanding e.tid s.log := by
  unfold deliverable at h
  simp only [hown, Bool.not_true, Bool.false_or, Bool.and_eq_true, decide_eq_true_eq] at h
  exact h.2

/-- The last call is not one that a wait has to follow. -/
structure Settled (log : List Moment) : Prop where
  swallows : SwallowsOwn log
  last : ∀ t, log.head?.map Moment.call ≠ some (.cont t)

theorem Settled.cons {log : List Moment} (h : Settled log) {call : Call} {memory : Memory}
    (hcall : ∀ t, call ≠ .cont t) : Settled (⟨call, memory⟩ :: log) where
  swallows := ⟨fun _ t _ hhead => absurd hhead (h.last t), h.swallows⟩
  last t heq := hcall t (Option.some.inj heq)

theorem Settled.append {new log : List Moment} (h : Settled log)
    (hreports : ∀ m ∈ new, IsReport m.call) : Settled (new ++ log) := by
  induction new with
  | nil => exact h
  | cons m new ih =>
    refine (ih fun m hm => hreports m (List.mem_cons_of_mem _ hm)).cons fun t heq => ?_
    have hcall := hreports m (List.mem_cons_self ..)
    rw [heq] at hcall
    exact hcall

/-- The flags tell, in every thread but perhaps one; a thread that is not in the table has
been sent nothing. -/
structure LedgerBut (u : Option Tid) (s : Process) : Prop where
  flags : ∀ t th, u ≠ some t → s.threads.find t = some th → live th →
    outstanding t s.log = if th.pendingSigstop then 1 else 0
  strangers : ∀ t, t ∉ s.threads.tids → outstanding t s.log = 0
  stops : ∀ e ∈ s.events, e.own = true → isSigstop e = true
  settled : Settled s.log

abbrev Ledger : Process → Prop := LedgerBut none

variable {s s' : Process} {u : Option Tid}

theorem Ledger.flagsTell (h : Ledger s) : FlagsTell s := by
  intro t th hth hlive
  rw [h.flags t th (by simp) hth hlive]
  cases th.pendingSigstop <;> simp

theorem LedgerBut.same (h : LedgerBut u s) (hsame : SameAccounts s s') : LedgerBut u s' where
  flags t th' hu hth' hlive := by
    obtain ⟨th, hth, hstatus⟩ := find_of_statuses hsame.statuses hth'
    rw [hsame.outstanding, ← status_pending hstatus]
    exact h.flags t th hu hth ((status_live hstatus).mpr hlive)
  strangers t ht := by
    rw [hsame.outstanding]
    exact h.strangers t (by rwa [← tids_eq_of_statuses hsame.statuses])
  stops := by
    rw [hsame.events]
    exact h.stops
  settled := by
    obtain ⟨new, hnew, hreports⟩ := hsame.reports
    rw [hnew]
    exact h.settled.append hreports

/-- A call that is neither a SIGSTOP nor a wait nor one that a wait has to follow. -/
theorem LedgerBut.record (h : LedgerBut u s) {call : Call}
    (hcall : (∃ t, call = .resumed t) ∨ ∃ t, call = .singleStep t) :
    LedgerBut u (after (Process.record call) s) := by
  have hout (t : Tid) : outstanding t (⟨call, s.memory⟩ :: s.log) = outstanding t s.log := by
    obtain ⟨t', rfl⟩ | ⟨t', rfl⟩ := hcall <;> rfl
  refine ⟨?_, ?_, h.stops, h.settled.cons fun t heq => ?_⟩
  · intro t th hu hth hlive
    exact (hout t).trans (h.flags t th hu hth hlive)
  · intro t ht
    exact (hout t).trans (h.strangers t ht)
  · obtain ⟨t', rfl⟩ | ⟨t', rfl⟩ := hcall <;> cases heq

theorem outstanding_waited (t : Tid) (e : WaitEvent) (m : Memory) (log : List Moment) :
    outstanding t (⟨.waited e, m⟩ :: log) =
      if e.own ∧ e.tid = t then outstanding t log - 1 else outstanding t log := rfl

/-- A wait that takes no SIGSTOP of the debugger meant for another thread than `u`. -/
theorem LedgerBut.taken (h : LedgerBut u s) {i : ℕ} {e : WaitEvent}
    (hquiet : e.own = true → u ≠ some e.tid →
      ∀ th, s.threads.find e.tid = some th → ¬ live th) :
    LedgerBut u (s.taken i e) where
  flags t th hu hth hlive := by
    change outstanding t (⟨.waited e, s.memory⟩ :: s.log) = _
    rw [outstanding_waited, if_neg, h.flags t th hu hth hlive]
    rintro ⟨hown, rfl⟩
    exact hquiet hown hu th hth hlive
  strangers t ht := by
    change outstanding t (⟨.waited e, s.memory⟩ :: s.log) = _
    rw [outstanding_waited, h.strangers t ht]
    split_ifs <;> rfl
  stops e' he' := h.stops e' (List.mem_of_mem_eraseIdx he')
  settled := h.settled.cons (by simp)

/-- The flag of the thread is set to what the count says, or the thread is gone. -/
theorem LedgerBut.settle {t : Tid} (h : LedgerBut (some t) s) {f : ThreadState → ThreadState}
    (hf : ∀ th, s.threads.find t = some th → live (f th) →
      outstanding t s.log = if (f th).pendingSigstop then 1 else 0) :
    Ledger { s with threads := s.threads.modify t f } where
  flags t' th' _ hth' hlive := by
    change (s.threads.modify t f).find t' = some th' at hth'
    by_cases ht : t' = t
    · subst ht
      rw [Threads.find_modify] at hth'
      obtain ⟨th, hth, rfl⟩ := Option.map_eq_some_iff.mp hth'
      rw [if_pos rfl] at hlive ⊢
      exact hf th hth hlive
    · rw [Threads.find_modify_of_ne ht] at hth'
      exact h.flags t' th' (by simpa using Ne.symm ht) hth' hlive
  strangers t' ht' := h.strangers t' (by simpa using ht')
  stops := h.stops
  settled := h.settled

theorem LedgerBut.weaken (h : Ledger s) (u : Option Tid) : LedgerBut u s :=
  ⟨fun t th _ => h.flags t th (by simp), h.strangers, h.stops, h.settled⟩

/-- A change to a thread that keeps its flag and does not bring it back to life. -/
theorem LedgerBut.modify (h : Ledger s) {t : Tid} {f : ThreadState → ThreadState}
    (hf : ∀ th, s.threads.find t = some th → live (f th) → live th)
    (hpending : ∀ th, (f th).pendingSigstop = th.pendingSigstop) :
    Ledger { s with threads := s.threads.modify t f } := by
  apply (h.weaken (some t)).settle
  intro th hth hlive
  rw [hpending]
  exact h.flags t th (by simp) hth (hf th hth hlive)

end KDebugger.Process
