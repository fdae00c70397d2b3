import KDebugger.Process.DebugSlots
import KDebugger.Process.RegisterFrames

namespace KDebugger.Process

open ByteStream Words Exec

def drOffset (n : ℕ) : ℕ := debugregOffset + n * 8

/-- The debug registers of the leader, as the kernel has them. -/
def dr (s : Process) (n : ℕ) : BitVec 64 := wordOf fun i => s.user s.pid (drOffset n + i)

/-- The debug registers in a register file, and which of its registers are undefined. -/
structure DebugFile where
  undefined : List ℕ
  words : ℕ → BitVec 64

def debugFiles (s : Process) (t : Tid) : Option DebugFile :=
  (s.threads.find t).map fun th => ⟨th.regs.undefined, fun n => th.regs.wordAt (drOffset n)⟩

/-- DR7 as the debugger has it for the current thread. -/
def debugControl (s : Process) : Option (BitVec 64) :=
  (s.threads.find s.currentThread).bind fun th => (th.regs.readByIdAsU64 (.dr 7)).toOption

/-- A word with the bytes of a value put over its lower ones. -/
def storeWord (casts : FloatCasts) (v : Value) (w : BitVec 64) : BitVec 64 :=
  wordOf fun b => if b < v.size then byteOf (widen casts (defineDr 0) v) b else byteOf w b

/-- A committed write of a debug register asks twice. -/
def drRequests (n : ℕ) (w : BitVec 64) : List (UserPart × UserArea) :=
  List.replicate 2 (.word (drOffset n), fun o => byteOf w (o - drOffset n))

/-- The requests for slot `n`, for each thread the register with its address and then DR7. -/
def slotRequests (n : ℕ) (masked : BitVec 64) (words : List (BitVec 64)) :
    List (UserPart × UserArea) :=
  words.flatMap fun w => drRequests n w ++ drRequests 7 masked

/-- What a value makes of a debug register in the files of some threads. -/
def wordsOf (casts : FloatCasts) (files : Tid → Option DebugFile) (n : ℕ) (v : Value)
    (ts : List Tid) : List (BitVec 64) :=
  ts.filterMap fun t => (files t).map fun file => storeWord casts v (file.words n)

def writtenThreads (s : Process) : List Tid :=
  s.currentThread :: s.threads.tids.filter (· ≠ s.currentThread)

/-- What a value makes of a debug register in the files of all threads. -/
def slotWords (s : Process) (n : ℕ) (v : Value) : List (BitVec 64) :=
  wordsOf s.casts s.debugFiles n v s.writtenThreads

variable {s s' : Process} {casts : FloatCasts} {v : Value} {c w masked : BitVec 64} {n : Fin 8}
  {otid : Option Tid} {th : ThreadState} {α β : Type} {a : α} {b : β}
  {l l' : List (UserPart × UserArea)} {files files' : Tid → Option DebugFile}

/-- The computation returns `a` with the files as given where the kernel takes the requests,
and fails in one of them otherwise. -/
structure Asks (l : List (UserPart × UserArea)) (a : α) (files : Tid → Option DebugFile)
    (p : M α) (s : Process) : Prop where
  taken : ∀ u, s.handed l = some u → ∃ s', p s = .ok a s' ∧ RegistersOnly s s' ∧
    s'.user s.pid = u ∧ s'.debugFiles = files
  refused : s.handed l = none → ∃ s', p s = .error (requestError (.word 0)) s'

theorem RegistersOnly.handed (h : RegistersOnly s s') {u : UserArea} (hu : s'.user s.pid = u)
    (l : List (UserPart × UserArea)) : s'.handed l = s.kernel.writes l u := by
  unfold Process.handed
  rw [h.same.pid, hu, h.same]

theorem handed_append_eq (s : Process) (l l' : List (UserPart × UserArea)) :
    s.handed (l ++ l') = (s.handed l).bind (s.kernel.writes l') :=
  RegisterKernel.writes_append l l' _

theorem Asks.pure (a : α) : Asks [] a s.debugFiles (pure a) s where
  taken u h := by
    obtain rfl := Option.some.inj h
    exact ⟨s, rfl, registersOnly.refl s, rfl, rfl⟩
  refused h := by cases h

theorem Asks.bind {p : M α} {q : α → M β} (hp : Asks l a files p s)
    (hq : ∀ s', p s = .ok a s' → RegistersOnly s s' → s'.debugFiles = files →
      Asks l' b files' (q a) s') : Asks (l ++ l') b files' (p >>= q) s where
  taken u h := by
    rw [handed_append_eq] at h
    obtain ⟨u₁, h₁, h₂⟩ := Option.bind_eq_some_iff.mp h
    obtain ⟨s₁, hp₁, honly, huser, hfiles⟩ := hp.taken u₁ h₁
    rw [← honly.handed huser] at h₂
    obtain ⟨s₂, hq₂, honly₂, huser₂, hfiles₂⟩ := (hq s₁ hp₁ honly hfiles).taken u h₂
    refine ⟨s₂, (bind_ok hp₁).trans hq₂, registersOnly.trans honly honly₂, ?_, hfiles₂⟩
    rwa [honly.same.pid] at huser₂
  refused h := by
    rw [handed_append_eq, Option.bind_eq_none_iff] at h
    cases h₁ : s.handed l with
    | none =>
      obtain ⟨s', hfail⟩ := hp.refused h₁
      exact ⟨s', bind_error hfail⟩
    | some u₁ =>
      obtain ⟨s₁, hp₁, honly, huser, hfiles⟩ := hp.taken u₁ h₁
      have hnone := h u₁ h₁
      rw [← honly.handed huser] at hnone
      obtain ⟨s', hfail⟩ := (hq s₁ hp₁ honly hfiles).refused hnone
      exact ⟨s', (bind_ok hp₁).trans hfail⟩

theorem Asks.of_eq {p q : M α} (h : Asks l a files p s) (heq : q s = p s) :
    Asks l a files q s := by
  constructor
  · rw [heq]
    exact h.taken
  · rw [heq]
    exact h.refused

theorem ne_seven {i : ℕ} (hi : i < 4) : i ≠ 7 := by omega

theorem dr_part (n : Fin 8) : (defineDr n).part = .word (drOffset n) := by
  have haligned : (defineDr n).alignedOffset = drOffset n := by
    simp only [RegisterInfo.alignedOffset, defineDr, drOffset, debugregOffset]
    omega
  unfold RegisterInfo.part
  rw [if_neg (by simp [defineDr]), haligned]

/-- A register of the file with one of its debug registers changed. -/
def DebugFile.store (file : DebugFile) (n : ℕ) (w : BitVec 64) : DebugFile :=
  { file with words := Function.update file.words n w }

def changeFiles (files : Tid → Option DebugFile) (ts : List Tid) (f : DebugFile → DebugFile) :
    Tid → Option DebugFile :=
  fun t => if t ∈ ts then (files t).map f else files t

theorem storedWord (hv : v.size ≤ 8) (th : ThreadState) (m : ℕ) :
    (s.storedFile th (defineDr n) v).wordAt (drOffset m) =
      if m = n then storeWord s.casts v (th.regs.wordAt (drOffset n))
      else th.regs.wordAt (drOffset m) := by
  have hn := n.isLt
  split_ifs with h
  · subst h
    apply wordOf_congr
    intro i hi
    have hbyte : byteOf (th.regs.wordAt (drOffset n)) i = th.regs.data (drOffset n + i) :=
      byteOf_wordOf _ hi
    have hput : (s.storedFile th (defineDr n) v).data (drOffset n + i) =
        if drOffset n ≤ drOffset n + i ∧ drOffset n + i < drOffset n + v.size
        then byteOf (widen s.casts (defineDr n) v) (drOffset n + i - drOffset n)
        else th.regs.data (drOffset n + i) := rfl
    have hwiden : widen s.casts (defineDr n) v = widen s.casts (defineDr 0) v := by
      cases v <;> rfl
    rw [hput, hbyte, hwiden, Nat.add_sub_cancel_left]
    by_cases hi' : i < v.size
    · rw [if_pos hi', if_pos ⟨by omega, by omega⟩]
    · rw [if_neg hi', if_neg (by omega)]
  · apply wordOf_congr
    intro i hi
    apply th.regs.put_data_of_not_covers _ hv
    simp only [RegisterInfo.Covers, defineDr, drOffset]
    omega

theorem debugFiles_withFile {t : Tid} (hth : s.threads.find t = some th) (hv : v.size ≤ 8) :
    (s.withFile t (s.storedFile th (defineDr n) v)).debugFiles =
      changeFiles s.debugFiles [t] fun file =>
        file.store n (storeWord s.casts v (file.words n)) := by
  funext t'
  unfold changeFiles debugFiles withFile
  by_cases ht : t' = t
  · subst ht
    have hwords (m : ℕ) : (s.storedFile th (defineDr n) v).wordAt (drOffset m) =
        Function.update (fun m => th.regs.wordAt (drOffset m)) (n : ℕ)
          (storeWord s.casts v (th.regs.wordAt (drOffset n))) m := by
      rw [storedWord hv, Function.update_apply]
    rw [Threads.find_modify_self hth, hth]
    simp only [List.mem_singleton, if_true, Option.map_some, hwords]
    rfl
  · rw [Threads.find_modify_of_ne ht]
    simp [ht]

theorem asks_writeDr (hth : s.threads.find (s.valueOr otid) = some th) (hv : v.size ≤ 8) :
    Asks (drRequests n (storeWord s.casts v (th.regs.wordAt (drOffset n)))) ()
      (changeFiles s.debugFiles [s.valueOr otid] fun file =>
        file.store n (storeWord s.casts v (file.words n)))
      (writeRegisterById otid (.dr n) v true) s := by
  have hplaced : (defineDr n).Placed :=
    RegisterInfo.placed (registerInfoBy_mem (registerInfoById_dr n))
  have hwrite : writeRegisterById otid (.dr n) v true s =
      writeRegister otid (defineDr n) v true s := by
    unfold writeRegisterById
    rw [registerInfoById_dr, bind_ok (ofExcept_ok _ _)]
  have hrequests : s.handed ((s.storedFile th (defineDr n) v).requests (defineDr n) true) =
      s.handed (drRequests n (storeWord s.casts v (th.regs.wordAt (drOffset n)))) := by
    unfold Registers.requests handed drRequests
    rw [dr_part]
    apply RegisterKernel.writes_replicate_congr
    rintro o ⟨hlo, hhi⟩
    have hword := storedWord (s := s) (n := n) hv th n
    rw [if_pos rfl] at hword
    have hlt : o - drOffset n < 8 := by omega
    rw [← hword, Registers.wordAt, byteOf_wordOf _ hlt, Nat.add_sub_cancel' hlo]
  constructor
  · intro u hu
    rw [← hrequests] at hu
    have hdone := writeRegister_taken hth hplaced hv true hu
    refine ⟨_, hwrite.trans hdone, (within_writeRegister _ _ _ _).ok hdone, setUser_user_self _ _, ?_⟩
    exact debugFiles_withFile hth hv
  · intro hu
    rw [← hrequests] at hu
    obtain ⟨s', hfail⟩ := writeRegister_refused hth hplaced hv true hu
    rw [dr_part] at hfail
    exact ⟨s', hwrite.trans hfail⟩

/-- The file of a thread whose slot has been written. -/
def DebugFile.slot (casts : FloatCasts) (n : ℕ) (v : Value) (masked : BitVec 64)
    (file : DebugFile) : DebugFile :=
  (file.store n (storeWord casts v (file.words n))).store 7 masked

theorem storeWord_u64 (casts : FloatCasts) (w w' : BitVec 64) : storeWord casts (.u64 w) w' = w := by
  conv_rhs => rw [← wordOf_byteOf w]
  apply wordOf_congr
  intro i hi
  exact (if_pos hi).trans (byteOf_widened (by decide : 64 ≤ 128) w i)

theorem RegistersOnly.floatCasts (h : RegistersOnly s s') : s'.casts = s.casts := by rw [h.same]

theorem RegistersOnly.current (h : RegistersOnly s s') : s'.currentThread = s.currentThread := by
  rw [h.same]

theorem RegistersOnly.tids (h : RegistersOnly s s') : s'.threads.tids = s.threads.tids :=
  tids_eq_of_statuses h.statuses

theorem RegistersOnly.valueOr (h : RegistersOnly s s') (otid : Option Tid) :
    s'.valueOr otid = s.valueOr otid := by
  unfold Process.valueOr
  rw [h.current]

theorem find_of_debugFiles {t : Tid} {file : DebugFile} (h : s.debugFiles t = some file) :
    ∃ th, s.threads.find t = some th ∧ th.regs.undefined = file.undefined ∧
      ∀ n, th.regs.wordAt (drOffset n) = file.words n := by
  obtain ⟨th, hth, rfl⟩ := Option.map_eq_some_iff.mp h
  exact ⟨th, hth, rfl, fun _ => rfl⟩

theorem changeFiles_changeFiles (files : Tid → Option DebugFile) (ts : List Tid)
    (f g : DebugFile → DebugFile) :
    changeFiles (changeFiles files ts f) ts g = changeFiles files ts (g ∘ f) := by
  funext t
  unfold changeFiles
  split_ifs
  · exact Option.map_map ..
  · rfl

theorem changeFiles_append {ts ts' : List Tid} (h : ∀ t ∈ ts, t ∉ ts')
    (files : Tid → Option DebugFile) (f : DebugFile → DebugFile) :
    changeFiles (changeFiles files ts f) ts' f = changeFiles files (ts ++ ts') f := by
  funext t
  unfold changeFiles
  by_cases ht : t ∈ ts
  · simp [ht, h t ht]
  · simp [ht]

theorem asks_thread {file : DebugFile} (hfile : s.debugFiles (s.valueOr otid) = some file)
    (hv : v.size ≤ 8) (masked : BitVec 64) :
    Asks (slotRequests n masked [storeWord s.casts v (file.words n)]) ()
      (changeFiles s.debugFiles [s.valueOr otid] (DebugFile.slot s.casts n v masked))
      (do
        writeRegisterById otid (.dr n) v true
        writeRegisterById otid (.dr 7) (.u64 masked) true) s := by
  obtain ⟨th, hth, -, hwords⟩ := find_of_debugFiles hfile
  have hfirst := asks_writeDr (n := n) hth hv
  rw [hwords] at hfirst
  have hsecond (s₁ : Process) (honly : RegistersOnly s s₁) (hfiles : s₁.debugFiles =
      changeFiles s.debugFiles [s.valueOr otid] fun file =>
        file.store n (storeWord s.casts v (file.words n))) :
      Asks (drRequests 7 masked) ()
        (changeFiles s.debugFiles [s.valueOr otid] (DebugFile.slot s.casts n v masked))
        (writeRegisterById otid (.dr 7) (.u64 masked) true) s₁ := by
    have hfile₁ : s₁.debugFiles (s₁.valueOr otid) =
        some (file.store n (storeWord s.casts v (file.words n))) := by
      rw [hfiles, honly.valueOr]
      simp [changeFiles, hfile]
    obtain ⟨th₁, hth₁, -, -⟩ := find_of_debugFiles hfile₁
    have hwrite := asks_writeDr (n := 7) (v := .u64 masked) hth₁ le_rfl
    simp only [storeWord_u64] at hwrite
    rw [hfiles, honly.valueOr, changeFiles_changeFiles] at hwrite
    exact hwrite
  have hboth := hfirst.bind (q := fun _ => writeRegisterById otid (.dr 7) (.u64 masked) true)
    fun s₁ _ honly hfiles => hsecond s₁ honly hfiles
  simpa only [slotRequests, List.flatMap_cons, List.flatMap_nil, List.append_nil] using hboth

/-- A turn of the loop over the threads other than the current one. -/
def otherTurn (current : Tid) (id : RegisterId) (v : Value) (masked : BitVec 64) (t : Tid) :
    M Unit :=
  if t = current then pure ()
  else do
    writeRegisterById (some t) id v true
    writeRegisterById (some t) (.dr 7) (.u64 masked) true

theorem changeFiles_nil (files : Tid → Option DebugFile) (f : DebugFile → DebugFile) :
    changeFiles files [] f = files := by
  funext t
  simp [changeFiles]

theorem wordsOf_changeFiles {ts ts' : List Tid} (h : ∀ t ∈ ts', t ∉ ts)
    (files : Tid → Option DebugFile) (f : DebugFile → DebugFile) (m : ℕ) :
    wordsOf casts (changeFiles files ts f) m v ts' = wordsOf casts files m v ts' := by
  unfold wordsOf
  induction ts' with
  | nil => rfl
  | cons t ts' ih =>
    obtain ⟨hfirst, hrest⟩ := List.forall_mem_cons.mp h
    have hkept : changeFiles files ts f t = files t := if_neg hfirst
    rw [List.filterMap_cons, List.filterMap_cons, hkept, ih hrest]

theorem debugFiles_of_mem {t : Tid} (h : t ∈ s.threads.tids) :
    ∃ file, s.debugFiles t = some file := by
  obtain ⟨th, hth⟩ := Threads.mem_tids.mp h
  unfold debugFiles
  rw [hth]
  exact ⟨_, rfl⟩

theorem asks_turns (hv : v.size ≤ 8) (masked : BitVec 64) (current : Tid) :
    ∀ (ts : List Tid) (s : Process), ts.Nodup → (∀ t ∈ ts, t ∈ s.threads.tids) →
      Asks (slotRequests n masked (wordsOf s.casts s.debugFiles n v (ts.filter (· ≠ current)))) ()
        (changeFiles s.debugFiles (ts.filter (· ≠ current)) (DebugFile.slot s.casts n v masked))
        (ts.forM (otherTurn current (.dr n) v masked)) s := by
  -- the current thread is skipped in the loop, and each of the others has its own turn
  intro ts
  induction ts with
  | nil =>
    intro s _ _
    have hpure := Asks.pure (s := s) ()
    rw [← changeFiles_nil s.debugFiles (DebugFile.slot s.casts n v masked)] at hpure
    exact hpure
  | cons t ts ih =>
    intro s hnodup hmem
    obtain ⟨hnot, hnodup'⟩ := List.nodup_cons.mp hnodup
    obtain ⟨hfirst, hrest⟩ := List.forall_mem_cons.mp hmem
    have hfor : (t :: ts).forM (otherTurn current (.dr n) v masked) s =
        (otherTurn current (.dr n) v masked t >>= fun _ =>
          ts.forM (otherTurn current (.dr n) v masked)) s := rfl
    by_cases ht : t = current
    · subst ht
      have hskip : otherTurn t (.dr n) v masked t s = .ok () s := by
        rw [otherTurn, if_pos rfl]
        rfl
      have hfilter : (t :: ts).filter (· ≠ t) = ts.filter (· ≠ t) := by simp
      rw [hfilter]
      exact (ih s hnodup' hrest).of_eq (hfor.trans (bind_ok hskip))
    · obtain ⟨file, hfile⟩ := debugFiles_of_mem hfirst
      let others := ts.filter (· ≠ current)
      let slot := DebugFile.slot s.casts n v masked
      have hapart : ∀ t' ∈ others, t' ∉ [t] := by
        intro t' ht' hin
        rw [List.mem_singleton.mp hin] at ht'
        exact hnot (List.mem_filter.mp ht').1
      have hturn : Asks (slotRequests n masked [storeWord s.casts v (file.words n)]) ()
          (changeFiles s.debugFiles [t] slot) (otherTurn current (.dr n) v masked t) s := by
        have hfile' : s.debugFiles (s.valueOr (some t)) = some file := hfile
        refine (asks_thread hfile' hv masked).of_eq ?_
        rw [otherTurn, if_neg ht]
      have hturns (s₁ : Process) (honly : RegistersOnly s s₁)
          (hfiles : s₁.debugFiles = changeFiles s.debugFiles [t] slot) :
          Asks (slotRequests n masked (wordsOf s.casts s.debugFiles n v others)) ()
            (changeFiles s.debugFiles (t :: others) slot)
            (ts.forM (otherTurn current (.dr n) v masked)) s₁ := by
        have hmem₁ : ∀ t' ∈ ts, t' ∈ s₁.threads.tids := by
          rw [honly.tids]
          exact hrest
        have hrun := ih s₁ hnodup' hmem₁
        rw [honly.floatCasts, hfiles, wordsOf_changeFiles hapart] at hrun
        have happend : changeFiles (changeFiles s.debugFiles [t] slot) others slot =
            changeFiles s.debugFiles (t :: others) slot :=
          changeFiles_append (fun t' ht' hin => hapart t' hin ht') _ _
        rwa [happend] at hrun
      have hboth := hturn.bind (q := fun _ => ts.forM (otherTurn current (.dr n) v masked))
        fun s₁ _ honly hfiles => hturns s₁ honly hfiles
      have hfilter : (t :: ts).filter (· ≠ current) = t :: others := by simp [others, ht]
      have hwords : wordsOf s.casts s.debugFiles n v (t :: others) =
          storeWord s.casts v (file.words n) :: wordsOf s.casts s.debugFiles n v others := by
        simp [wordsOf, hfile]
      rw [hfilter, hwords]
      simp only [slotRequests, List.flatMap_cons, List.flatMap_nil, List.append_nil] at hboth ⊢
      exact hboth.of_eq hfor

theorem writeOtherThreads_eq (id : RegisterId) (v : Value) (masked : BitVec 64) (s : Process) :
    writeOtherThreads id v masked s =
      s.threads.tids.forM (otherTurn s.currentThread id v masked) s := bind_ok (get_eq s)

theorem changeFiles_all (f : DebugFile → DebugFile) :
    changeFiles (changeFiles s.debugFiles [s.currentThread] f)
      (s.threads.tids.filter (· ≠ s.currentThread)) f = fun t => (s.debugFiles t).map f := by
  have hapart : ∀ t ∈ [s.currentThread], t ∉ s.threads.tids.filter (· ≠ s.currentThread) := by
    intro t ht hin
    rw [List.mem_singleton.mp ht] at hin
    simpa using (List.mem_filter.mp hin).2
  rw [changeFiles_append hapart]
  funext t
  unfold changeFiles
  by_cases ht : t ∈ s.threads.tids
  · rw [if_pos]
    by_cases hcurrent : t = s.currentThread <;> simp [hcurrent, ht]
  · have hnone : s.debugFiles t = none := by
      unfold debugFiles
      rw [Threads.find_eq_none.mpr ht]
      rfl
    simp [hnone]

theorem asks_slot {p : M α} {file : DebugFile} (hfile : s.debugFiles s.currentThread = some file)
    (hv : v.size ≤ 8) (masked : BitVec 64) (a : α) (hp : ∀ s₁, RegistersOnly s s₁ →
      s₁.debugFiles = (changeFiles s.debugFiles [s.currentThread] fun file =>
        file.store n (storeWord s.casts v (file.words n))) → p s₁ = (do
          writeRegisterById none (.dr 7) (.u64 masked) true
          writeOtherThreads (.dr n) v masked
          pure a : M α) s₁) :
    Asks (slotRequests n masked (s.slotWords n v)) a
      (fun t => (s.debugFiles t).map (DebugFile.slot s.casts n v masked))
      (writeRegisterById none (.dr n) v true >>= fun _ => p) s := by
  obtain ⟨th, hth, -, hwords⟩ := find_of_debugFiles hfile
  have hth' : s.threads.find (s.valueOr none) = some th := hth
  have hfirst := asks_writeDr (n := n) hth' hv
  rw [hwords, show s.valueOr none = s.currentThread from rfl] at hfirst
  let others := s.threads.tids.filter (· ≠ s.currentThread)
  have hnone : s.valueOr none = s.currentThread := rfl
  have hothers (s₂ : Process) (honly : RegistersOnly s s₂)
      (hfiles : s₂.debugFiles = changeFiles s.debugFiles [s.currentThread] (DebugFile.slot s.casts n v masked)) :
      Asks (slotRequests n masked (wordsOf s.casts s.debugFiles n v others)) ()
        (fun t => (s.debugFiles t).map (DebugFile.slot s.casts n v masked)) (writeOtherThreads (.dr n) v masked) s₂ := by
    have hmem : ∀ t ∈ s.threads.tids, t ∈ s₂.threads.tids := by
      rw [honly.tids]
      exact fun t ht => ht
    have hapart : ∀ t ∈ others, t ∉ [s.currentThread] := by
      intro t ht hin
      rw [List.mem_singleton.mp hin] at ht
      simpa using (List.mem_filter.mp ht).2
    have hturns := asks_turns (n := n) hv masked s.currentThread s.threads.tids s₂ s.threads.nodup hmem
    rw [honly.floatCasts, hfiles, wordsOf_changeFiles hapart] at hturns
    rw [changeFiles_all] at hturns
    refine hturns.of_eq ?_
    rw [writeOtherThreads_eq, honly.tids, honly.current]
  have hrest (s₁ : Process) (honly : RegistersOnly s s₁)
      (hfiles : s₁.debugFiles = changeFiles s.debugFiles [s.currentThread] fun file =>
        file.store n (storeWord s.casts v (file.words n))) :
      Asks (drRequests 7 masked ++ slotRequests n masked (wordsOf s.casts s.debugFiles n v others))
        a (fun t => (s.debugFiles t).map (DebugFile.slot s.casts n v masked)) p s₁ := by
    have hfile₁ : s₁.debugFiles (s₁.valueOr none) =
        some (file.store n (storeWord s.casts v (file.words n))) := by
      rw [hfiles, honly.valueOr, hnone]
      simp [changeFiles, hfile]
    obtain ⟨th₁, hth₁, -, -⟩ := find_of_debugFiles hfile₁
    have hcontrol := asks_writeDr (n := 7) (v := .u64 masked) hth₁ le_rfl
    simp only [storeWord_u64] at hcontrol
    rw [hfiles, honly.valueOr, hnone, changeFiles_changeFiles] at hcontrol
    have htail : Asks (drRequests 7 masked ++
        (slotRequests n masked (wordsOf s.casts s.debugFiles n v others) ++ [])) a
        (fun t => (s.debugFiles t).map (DebugFile.slot s.casts n v masked)) (do
          writeRegisterById none (.dr 7) (.u64 masked) true
          writeOtherThreads (.dr n) v masked
          pure a : M α) s₁ := by
      refine hcontrol.bind fun s₂ _ honly₂ hfiles₂ => ?_
      refine (hothers s₂ (registersOnly.trans honly honly₂) hfiles₂).bind fun s₃ _ _ hfiles₃ => ?_
      rw [← hfiles₃]
      exact Asks.pure a
    rw [List.append_nil] at htail
    exact htail.of_eq (hp s₁ honly hfiles)
  have hboth := hfirst.bind (q := fun _ => p) fun s₁ _ honly hfiles => hrest s₁ honly hfiles
  have hslot : s.slotWords n v =
      storeWord s.casts v (file.words n) :: wordsOf s.casts s.debugFiles n v others := by
    simp [slotWords, writtenThreads, wordsOf, hfile, others]
  rw [hslot]
  simpa only [slotRequests, List.flatMap_cons, List.append_assoc] using hboth

end KDebugger.Process
