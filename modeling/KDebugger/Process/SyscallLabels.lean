import KDebugger.Process.BreakpointRuns
import KDebugger.Process.Signals
import KDebugger.Process.ThreadWrites

namespace KDebugger.Process

open Words Exec

/-- A general-purpose register in a `struct user`. -/
def gpr (data : UserArea) (r : Gpr) : BitVec 64 := wordOf fun i => data (r.offset + i)

theorem registerInfoById_gpr64 (r : Gpr) :
    ∃ dwarfId, registerInfoById (.gpr64 r) = .ok (defineGpr64 r dwarfId) := by
  cases r <;> exact ⟨_, rfl⟩

theorem readGpr64_eq {regs : Registers} (h : regs.undefined = []) (r : Gpr) :
    regs.readByIdAsU64 (.gpr64 r) = .ok (gpr regs.data r) := by
  obtain ⟨dwarfId, hinfo⟩ := registerInfoById_gpr64 r
  have hread : regs.read (defineGpr64 r dwarfId) = .ok (.u64 (gpr regs.data r)) := by
    simp only [Registers.read, Registers.isUndefined, h]
    rfl
  unfold Registers.readByIdAsU64 Registers.readU64
  rw [hinfo]
  simp only [hread]

def callAt (inside : Bool) (data : UserArea) : SyscallInformation :=
  if inside then .exit ((gpr data .origRax).setWidth 16) (gpr data .rax)
  else .entry ((gpr data .origRax).setWidth 16) (argsRegs.map (gpr data))

theorem syscallInformation_eq {regs : Registers} (h : regs.undefined = []) (inside : Bool) :
    (if inside then syscallExit regs else syscallEntry regs) = .ok (callAt inside regs.data) := by
  cases inside with
  | true =>
    simp only [if_true, syscallExit, readGpr64_eq h, callAt]
    rfl
  | false =>
    simp only [Bool.false_eq_true, if_false, syscallEntry, readGpr64_eq h, callAt, argsRegs,
      List.mapM_cons, List.mapM_nil, List.map_cons, List.map_nil]
    rfl

/-- The kernel has the registers and the `si_code` of the stop. -/
def arrive (e : WaitEvent) (s : Process) : Process :=
  { s with
    user := Function.update s.user e.tid e.regs
    siCode := Function.update s.siCode e.tid e.siCode }

def lookInto (e : WaitEvent) : M StopReason := do
  modify (arrive e)
  readAllRegisters e.tid
  augmentStopReason (stopReason e.tid e.status)

def isSyscall (e : WaitEvent) : Bool := (stopReason e.tid e.status).info == sigtrap ||| 0x80#8

/-- The general-purpose registers in the files of the threads. -/
def Cached (cache : Tid → UserArea) (s : Process) : Prop :=
  ∀ t th, s.threads.find t = some th →
    th.regs.undefined = [] ∧ ∀ r, gpr th.regs.data r = gpr (cache t) r

variable {s : Process} {cache : Tid → UserArea}

theorem gpr_congr {data data' : UserArea} (h : ∀ o < i387Offset, data o = data' o) (r : Gpr) :
    gpr data r = gpr data' r := by
  apply wordOf_congr
  intro i hi
  apply h
  have hr : r.offset ≤ 208 := by cases r <;> decide
  simp only [i387Offset]
  omega

/-- The general-purpose registers are not loaded. -/
structure KeepsGprs (f : Registers → Registers) : Prop where
  undefined : ∀ regs, (f regs).undefined = regs.undefined
  data : ∀ regs, ∀ o < i387Offset, (f regs).data o = regs.data o

theorem keepsGprs_loadGprs (kernel : UserArea) :
    KeepsGprs fun regs => Registers.loadGprs regs kernel where
  undefined _ := rfl
  data _ o ho := if_neg (by omega)

theorem keepsGprs_loadFprs (kernel : UserArea) :
    KeepsGprs fun regs => Registers.loadFprs regs kernel where
  undefined _ := rfl
  data _ o ho := if_neg (by omega)

theorem keepsGprs_loadDrs (kernel : UserArea) :
    KeepsGprs fun regs => Registers.loadDrs regs kernel where
  undefined _ := rfl
  data _ o ho := by
    apply if_neg
    simp only [i387Offset, debugregOffset] at ho ⊢
    omega

theorem Cached.modify (h : Cached cache s) (tid : Tid) {f : Registers → Registers}
    (hf : KeepsGprs f) : Cached cache { s with
      threads := s.threads.modify tid fun th => { th with regs := f th.regs } } := by
  intro t th hth
  rw [Threads.find_modify] at hth
  obtain ⟨th', hth', rfl⟩ := Option.map_eq_some_iff.mp hth
  obtain ⟨hundefined, hgpr⟩ := h t th' hth'
  split_ifs
  · exact ⟨(hf.undefined _).trans hundefined, fun r => (gpr_congr (hf.data _) r).trans (hgpr r)⟩
  · exact ⟨hundefined, hgpr⟩

theorem readAllRegisters_cached (h : Cached cache s) {tid : Tid} (htid : tid ∈ s.threads.tids) :
    ∃ ts, readAllRegisters tid s = .ok () { s with threads := ts } ∧
      Cached cache { s with threads := ts } ∧ ts.tids = s.threads.tids := by
  obtain ⟨th, hth⟩ := Threads.mem_tids.mp htid
  unfold readAllRegisters
  have hregs : getRegisters (some tid) s = .ok th.regs s := getRegisters_eq hth
  rw [bind_ok (get_eq s), bind_ok hregs]
  refine ⟨_, rfl, ?_, by simp only [Threads.tids_modify]⟩
  have h₁ := h.modify tid (keepsGprs_loadGprs (s.user tid))
  have h₂ := h₁.modify tid (keepsGprs_loadFprs (s.user tid))
  exact h₂.modify tid (keepsGprs_loadDrs (s.user tid))

theorem lookInto_eq (h : Cached cache s) {e : WaitEvent} (he : e.tid ∈ s.threads.tids) :
    ∃ reason s', lookInto e s = .ok reason s' ∧ Cached cache s' ∧
      s'.threads.tids = s.threads.tids ∧
      s'.expectingSyscallExit = (isSyscall e && !s.expectingSyscallExit) ∧
      (isSyscall e = true →
        reason.syscallInfo = some (callAt s.expectingSyscallExit (cache e.tid))) := by
  have harrive : Cached cache (arrive e s) := h
  obtain ⟨ts, hread, hcached, htids⟩ := readAllRegisters_cached harrive he
  have hmodify : (modify (arrive e) : M Unit) s = .ok () (arrive e s) := rfl
  unfold lookInto
  rw [bind_ok hmodify, bind_ok hread]
  let s₁ : Process := { arrive e s with threads := ts }
  change ∃ reason s', augmentStopReason (stopReason e.tid e.status) s₁ = .ok reason s' ∧ _
  have htid : (stopReason e.tid e.status).tid = e.tid := by
    unfold stopReason
    split_ifs <;> rfl
  unfold augmentStopReason
  rw [bind_ok (get_eq s₁)]
  by_cases hsys : isSyscall e = true
  · have he' : e.tid ∈ ts.tids := htids ▸ he
    obtain ⟨th, hth⟩ := Threads.mem_tids.mp he'
    obtain ⟨hundefined, hgpr⟩ := hcached e.tid th hth
    have hcall : callAt s.expectingSyscallExit th.regs.data =
        callAt s.expectingSyscallExit (cache e.tid) := by
      simp only [callAt, hgpr, funext hgpr]
    have hinfo := syscallInformation_eq hundefined s₁.expectingSyscallExit
    have hregs : getRegisters (some e.tid) s₁ = .ok th.regs s₁ := getRegisters_eq hth
    rw [if_pos (by simpa [isSyscall] using hsys), htid, bind_ok hregs, hinfo,
      bind_ok (ofExcept_ok _ _)]
    refine ⟨_, _, rfl, hcached, htids, ?_, fun _ => congrArg some hcall⟩
    rw [hsys]
    rfl
  · rw [if_neg (by simpa [isSyscall] using hsys)]
    refine ⟨_, _, rfl, hcached, htids, ?_, fun hsys' => absurd hsys' hsys⟩
    simp only [hsys]
    rfl

/-- Whether each thread is inside a system call after the stop, its own stops at system
calls being entry, exit, entry, and so on. -/
def nextInside (inside : Tid → Bool) (e : WaitEvent) : Tid → Bool :=
  if isSyscall e then Function.update inside e.tid !inside e.tid else inside

def LabelsRight : (Tid → Bool) → Process → List WaitEvent → Prop
  | _, _, [] => True
  | inside, s, e :: es =>
    (isSyscall e = true → ∃ reason, outcome (lookInto e) s = .ok reason ∧
      reason.syscallInfo = some (callAt (inside e.tid) e.regs)) ∧
    LabelsRight (nextInside inside e) (after (lookInto e) s) es

/-- A stop at a system call is the exit exactly when `flag` is set, which the stop before
it does when that is an entry; and the register files have what the thread has. -/
def Separated (cache : Tid → UserArea) : Bool → (Tid → Bool) → List WaitEvent → Prop
  | _, _, [] => True
  | flag, inside, e :: es =>
    (isSyscall e = true → inside e.tid = flag ∧
      callAt flag (cache e.tid) = callAt flag e.regs) ∧
    Separated cache (isSyscall e && !flag) (nextInside inside e) es

theorem callAt_inj {flag inside : Bool} {data data' : UserArea} :
    callAt flag data = callAt inside data' ↔ inside = flag ∧ callAt flag data = callAt flag data' := by
  cases flag <;> cases inside <;> simp [callAt]

theorem labelsRight_cons {cache : Tid → UserArea} {s : Process} {e : WaitEvent}
    (hcached : Cached cache s) (htid : e.tid ∈ s.threads.tids) (inside : Tid → Bool)
    (es : List WaitEvent) : ∃ s', Cached cache s' ∧ s'.threads.tids = s.threads.tids ∧
      s'.expectingSyscallExit = (isSyscall e && !s.expectingSyscallExit) ∧
      (LabelsRight inside s (e :: es) ↔
        (isSyscall e = true → inside e.tid = s.expectingSyscallExit ∧
          callAt s.expectingSyscallExit (cache e.tid) = callAt s.expectingSyscallExit e.regs) ∧
        LabelsRight (nextInside inside e) s' es) := by
  -- any stop of any thread sets or clears the flag
  obtain ⟨reason, s', hlook, hcached', htids', hflag, hlabel⟩ := lookInto_eq hcached htid
  have hafter : after (lookInto e) s = s' := by rw [after, hlook]
  have houtcome : outcome (lookInto e) s = .ok reason := by rw [outcome, hlook]
  refine ⟨s', hcached', htids', hflag, ?_⟩
  rw [LabelsRight, hafter, houtcome]
  apply and_congr_left
  intro _
  apply imp_congr_right
  intro hsys
  rw [← callAt_inj]
  constructor
  · rintro ⟨reason', hreason, hinfo⟩
    obtain rfl : reason = reason' := Except.ok.inj hreason
    rw [hlabel hsys] at hinfo
    exact Option.some.inj hinfo
  · intro heq
    exact ⟨reason, rfl, by rw [hlabel hsys, heq]⟩

/-- The labels of a run are right if and only if no other stop comes between an entry and
its exit, and the registers of the thread are those in its file. -/
theorem labelsRight_iff {cache : Tid → UserArea} : ∀ (es : List WaitEvent) (inside : Tid → Bool)
    (s : Process), Cached cache s → (∀ e ∈ es, e.tid ∈ s.threads.tids) →
    (LabelsRight inside s es ↔ Separated cache s.expectingSyscallExit inside es) := by
  intro es
  induction es with
  | nil =>
    intro inside s _ _
    rfl
  | cons e es ih =>
    intro inside s hcached htids
    obtain ⟨s', hcached', htids', hflag, hcons⟩ :=
      labelsRight_cons hcached (htids e (List.mem_cons_self ..)) inside es
    have hrest := ih (nextInside inside e) s' hcached' fun e' he' =>
      htids' ▸ htids e' (List.mem_cons_of_mem e he')
    rw [hcons, hrest, hflag]
    rfl

def syscallStop (tid : Tid) : WaitEvent := { tid, status := 0x857f#32 }

theorem cached_twoThreads : Cached (fun _ _ => 0#8) twoThreads := by
  intro t th hth
  have hmem : th ∈ twoThreads.threads.entries := List.mem_of_find?_eq_some hth
  simp only [twoThreads, List.mem_cons, List.not_mem_nil, or_false] at hmem
  obtain rfl | rfl := hmem
  · exact ⟨rfl, fun _ => rfl⟩
  · exact ⟨rfl, fun _ => rfl⟩

theorem labelsRight_iff_twoThreads :
    LabelsRight (fun _ => false) twoThreads [syscallStop 1, syscallStop 1, syscallStop 2] ↔
      Separated (fun _ _ => 0#8) false (fun _ => false)
        [syscallStop 1, syscallStop 1, syscallStop 2] :=
  labelsRight_iff _ _ twoThreads cached_twoThreads (by decide)

/-- The entry of the second thread, while the first is inside, is taken for an exit. -/
theorem labelsRight_not_for_all : ¬ ∀ (s : Process) (cache : Tid → UserArea) (es : List WaitEvent),
    Cached cache s → (∀ e ∈ es, e.tid ∈ s.threads.tids ∧ e.regs = cache e.tid) →
    s.expectingSyscallExit = false → LabelsRight (fun _ => false) s es := by
  intro h
  have hlaw := h twoThreads (fun _ _ => 0#8) [syscallStop 1, syscallStop 2] cached_twoThreads
    (by
      intro e he
      simp only [List.mem_cons, List.not_mem_nil, or_false] at he
      obtain rfl | rfl := he
      · exact ⟨by decide, rfl⟩
      · exact ⟨by decide, rfl⟩) rfl
  obtain ⟨s', hcached', htids', hflag, hcons⟩ := labelsRight_cons (e := syscallStop 1)
    cached_twoThreads (by decide) (fun _ => false) [syscallStop 2]
  obtain ⟨s'', -, -, -, hcons'⟩ := labelsRight_cons (e := syscallStop 2) hcached'
    (by rw [htids']; decide) (nextInside (fun _ => false) (syscallStop 1)) []
  rw [hcons, hcons', hflag] at hlaw
  obtain ⟨-, hsecond, -⟩ := hlaw
  exact absurd (hsecond (by decide)).1 (by decide)

end KDebugger.Process
