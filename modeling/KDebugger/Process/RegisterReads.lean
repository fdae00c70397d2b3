import KDebugger.Process.RegisterValues
import KDebugger.Process.SignalFrames
import KDebugger.Process.SyscallLabels
import KDebugger.Process.UnwindEnds

namespace KDebugger

open ByteStream Words

namespace RegisterInfo

/-- A register outside the general-purpose ones. -/
def Loaded (info : RegisterInfo) : Prop := info.type = .fpr ∨ info.type = .dr

instance (info : RegisterInfo) : Decidable info.Loaded := inferInstanceAs (Decidable (_ ∨ _))

/-- The bytes that the second and the third transfer fill. -/
def LoadedByte (o : ℕ) : Prop :=
  (i387Offset ≤ o ∧ o < i387Offset + i387Size) ∨ (debugregOffset ≤ o ∧ o < userSize)

instance (o : ℕ) : Decidable (LoadedByte o) := inferInstanceAs (Decidable (_ ∨ _))

theorem loadedByte_iff {info : RegisterInfo} (h : info ∈ gRegisterInfos) {o : ℕ}
    (ho : info.Covers o) : LoadedByte o ↔ info.Loaded := by
  have hall : ∀ i ∈ gRegisterInfos, if i.Loaded
      then (i387Offset ≤ i.offset ∧ i.offset + i.size ≤ i387Offset + i387Size) ∨
        (debugregOffset ≤ i.offset ∧ i.offset + i.size ≤ userSize)
      else i.offset + i.size ≤ i387Offset := by decide +kernel
  obtain ⟨hlo, hhi⟩ := ho
  have hplace := hall info h
  unfold LoadedByte
  split_ifs at hplace with hloaded
  · simp only [hloaded, iff_true]
    omega
  · simp only [hloaded, iff_false]
    unfold i387Offset i387Size debugregOffset at *
    omega

end RegisterInfo

namespace Process

open Exec

variable {s : Process} {tid : Tid} {th : ThreadState}

/-- The register file of a thread with what the kernel has in the bytes that are loaded. -/
def reloaded (regs : Registers) (kernel : UserArea) : Registers :=
  { regs with data := fun o => if RegisterInfo.LoadedByte o then kernel o else regs.data o }

theorem reloaded_data (regs : Registers) (kernel : UserArea) (o : ℕ) :
    (reloaded regs kernel).data o =
      if RegisterInfo.LoadedByte o then kernel o else regs.data o := rfl

theorem reloaded_eq (regs : Registers) (kernel : UserArea) :
    ((regs.loadGprs kernel).loadFprs kernel).loadDrs kernel = reloaded regs kernel := by
  -- the general-purpose registers go to the place of `i387`, and the floating-point ones over them
  unfold Registers.loadGprs Registers.loadFprs Registers.loadDrs reloaded
  congr 1
  funext o
  dsimp only
  by_cases hdr : debugregOffset ≤ o ∧ o < userSize
  · have hin : RegisterInfo.LoadedByte o := Or.inr hdr
    rw [if_pos hdr, if_pos hin]
  · rw [if_neg hdr]
    by_cases hfpr : i387Offset ≤ o ∧ o < i387Offset + i387Size
    · have hin : RegisterInfo.LoadedByte o := Or.inl hfpr
      rw [if_pos hfpr, if_pos hin]
    · have hgpr : ¬ (i387Offset ≤ o ∧ o < i387Offset + regsSize) := by
        rintro ⟨hlo, hhi⟩
        unfold regsSize at hhi
        unfold i387Size at hfpr
        omega
      have hout : ¬ RegisterInfo.LoadedByte o := by
        rintro (h | h)
        · exact hfpr h
        · exact hdr h
      rw [if_neg hfpr, if_neg hgpr, if_neg hout]

theorem readAllRegisters_eq (hth : s.threads.find tid = some th) :
    ∃ s', readAllRegisters tid s = .ok () s' ∧ s' = { s with threads := s'.threads } ∧
      ∀ t, s'.threads.find t = (s.threads.find t).map fun th =>
        if t = tid then { th with regs := reloaded th.regs (s.user tid) } else th := by
  have hregs : getRegisters (some tid) s = .ok th.regs s := getRegisters_eq hth
  unfold readAllRegisters
  rw [bind_ok (get_eq s), bind_ok hregs]
  refine ⟨_, rfl, rfl, fun t => ?_⟩
  simp only [Threads.find_modify, Option.map_map]
  congr 1
  funext th'
  by_cases ht : t = tid
  · simp only [Function.comp_apply, if_pos ht, ← reloaded_eq]
  · simp only [Function.comp_apply, if_neg ht]

/-- The file a thread's registers would be read from if it were always up to date. -/
def actual (s : Process) (tid : Tid) : Registers := { data := s.user tid, tid }

/-- A read of every register that is not undefined gives what the thread has. -/
def RegistersActual (tid : Tid) (s : Process) : Prop :=
  ∃ th, s.threads.find tid = some th ∧ ∀ info ∈ gRegisterInfos,
    th.regs.isUndefined info = false → th.regs.read info = (s.actual tid).read info

/-- The general-purpose registers that are not undefined are in the file as the thread
has them. -/
def GprsCurrent (regs : Registers) (kernel : UserArea) : Prop :=
  ∀ info ∈ gRegisterInfos, ¬ info.Loaded → regs.isUndefined info = false →
    ∀ o, info.Covers o → regs.data o = kernel o

theorem registersActual_readAllRegisters (hth : s.threads.find tid = some th) :
    RegistersActual tid (after (readAllRegisters tid) s) ↔ GprsCurrent th.regs (s.user tid) := by
  obtain ⟨s', hread, hsame, hfind⟩ := readAllRegisters_eq hth
  have hth' : s'.threads.find tid =
      some { th with regs := reloaded th.regs (s.user tid) } := by rw [hfind, hth]; simp
  have hactual : s'.actual tid = s.actual tid := by rw [hsame]; rfl
  have hone {info : RegisterInfo} (hinfo : info ∈ gRegisterInfos)
      (hdefined : th.regs.isUndefined info = false) :
      (reloaded th.regs (s.user tid)).read info = (s.actual tid).read info ↔
        (¬ info.Loaded → ∀ o, info.Covers o → th.regs.data o = s.user tid o) := by
    have hdefined' : (reloaded th.regs (s.user tid)).isUndefined info = false := hdefined
    rw [Registers.read_eq_iff (RegisterInfo.readable hinfo) hdefined' rfl]
    constructor
    · intro h hgpr o ho
      have hbyte := h o ho
      rwa [reloaded_data,
        if_neg fun hb => hgpr ((RegisterInfo.loadedByte_iff hinfo ho).mp hb)] at hbyte
    · intro h o ho
      rw [reloaded_data]
      split_ifs with hb
      · rfl
      · exact h (fun hl => hb ((RegisterInfo.loadedByte_iff hinfo ho).mpr hl)) o ho
  rw [after, hread]
  constructor
  · rintro ⟨th', hth'', hall⟩ info hinfo hgpr hdefined
    obtain rfl : _ = th' := Option.some.inj (hth'.symm.trans hth'')
    rw [hactual] at hall
    exact (hone hinfo hdefined).mp (hall info hinfo hdefined) hgpr
  · intro h
    refine ⟨_, hth', fun info hinfo hdefined => ?_⟩
    rw [hactual]
    exact (hone hinfo hdefined).mpr fun hgpr => h info hinfo hgpr hdefined

/-- What `get_pc` gives for a thread, and none when there is no such thread. -/
def filePc (s : Process) (t : Tid) : Option (Except Failure (BitVec 64)) :=
  (s.threads.find t).map fun th => th.regs.readByIdAsU64 (.gpr64 .rip)

def realPc (s : Process) (t : Tid) : BitVec 64 := gpr (s.user t) .rip

theorem getPc_eq_ok {pc : VirtAddr} :
    outcome (getPc (some tid)) s = .ok pc ↔ s.filePc tid = some (.ok pc) := by
  unfold getPc filePc
  cases hfind : s.threads.find tid with
  | none =>
    have herror : getRegisters (some tid) s = .error .outOfRange s := getRegisters_error hfind
    simp [outcome, bind_error herror]
  | some th =>
    have hregs : getRegisters (some tid) s = .ok th.regs s := getRegisters_eq hfind
    unfold outcome
    rw [bind_ok hregs]
    cases hread : th.regs.readByIdAsU64 (.gpr64 .rip) with
    | ok v => simp [ofExcept, hread, pure, EStateM.pure]
    | error e => simp [ofExcept, hread, throw_eq]

/-- `get_pc` gives what the kernel has. -/
def PcReal (tid : Tid) (s : Process) : Prop :=
  outcome (getPc (some tid)) s = .ok (s.realPc tid)

/-- The program counters are left as they are, in the files and in the kernel. -/
structure KeepsPcs (s s' : Process) : Prop where
  file : ∀ t, s'.filePc t = s.filePc t
  real : ∀ t, s'.realPc t = s.realPc t

theorem keepsPcs : Frame KeepsPcs where
  refl _ := ⟨fun _ => rfl, fun _ => rfl⟩
  trans h h' := ⟨fun t => (h'.file t).trans (h.file t), fun t => (h'.real t).trans (h.real t)⟩

theorem KeepsPcs.pcReal_iff {s s' : Process} (h : KeepsPcs s s') : PcReal tid s' ↔ PcReal tid s := by
  unfold PcReal
  rw [getPc_eq_ok, getPc_eq_ok, h.file, h.real]

theorem KeepsPcs.of_eq {s s' : Process} (hthreads : s'.threads = s.threads)
    (huser : s'.user = s.user) : KeepsPcs s s' := by
  refine ⟨fun t => ?_, fun t => ?_⟩
  · unfold filePc
    rw [hthreads]
  · unfold realPc
    rw [huser]

theorem reloaded_rip (regs : Registers) (kernel : UserArea) :
    (reloaded regs kernel).readByIdAsU64 (.gpr64 .rip) = regs.readByIdAsU64 (.gpr64 .rip) := by
  have hread : (reloaded regs kernel).read (defineGpr64 .rip 16) =
      regs.read (defineGpr64 .rip 16) := by
    by_cases hdefined : regs.isUndefined (defineGpr64 .rip 16) = true
    · have hdefined' : (reloaded regs kernel).isUndefined (defineGpr64 .rip 16) = true := hdefined
      unfold Registers.read
      rw [if_pos hdefined, if_pos hdefined']
    · rw [Bool.not_eq_true] at hdefined
      have hdefined' : (reloaded regs kernel).isUndefined (defineGpr64 .rip 16) = false := hdefined
      rw [Registers.read_eq_iff (by decide) hdefined' hdefined]
      rintro o ⟨hlo, hhi⟩
      have hout : ¬ RegisterInfo.LoadedByte o := by
        have hlt : o < 136 := hhi
        unfold RegisterInfo.LoadedByte i387Offset debugregOffset
        omega
      rw [reloaded_data, if_neg hout]
  unfold Registers.readByIdAsU64 Registers.readU64
  rw [registerInfoById_rip]
  simp only [hread]

theorem keepsPcs_readAllRegisters (hth : s.threads.find tid = some th) :
    ∃ s', readAllRegisters tid s = .ok () s' ∧ s' = { s with threads := s'.threads } ∧
      KeepsPcs s s' := by
  obtain ⟨s', hread, hsame, hfind⟩ := readAllRegisters_eq hth
  refine ⟨s', hread, hsame, fun t => ?_, fun t => ?_⟩
  · unfold filePc
    rw [hfind, Option.map_map]
    congr 1
    funext th'
    simp only [Function.comp_apply]
    split_ifs
    · exact reloaded_rip _ _
    · rfl
  · rw [hsame]
    rfl

theorem keepsPcs_augmentStopReason (reason : StopReason) :
    Within KeepsPcs (augmentStopReason reason) := by
  have hset (b : Bool) : Within KeepsPcs (setExpectingSyscallExit b) :=
    fun s => .of_eq rfl rfl
  apply keepsPcs.bind keepsPcs.get
  intro s
  apply within_ite
  · apply keepsPcs.bind (within_getRegisters keepsPcs _)
    intro regs
    apply keepsPcs.bind (keepsPcs.ofExcept _)
    intro info
    exact keepsPcs.bind (hset _) fun _ => keepsPcs.pure _
  · exact keepsPcs.bind (hset _) fun _ => keepsPcs.pure _

theorem keepsPcs_updateWatchpoint (id : BitVec 32) : Within KeepsPcs (updateWatchpoint id) := by
  apply keepsPcs.bind keepsPcs.get
  intro s
  cases StoppointCollection.findById s.watchpoints id with
  | none => exact keepsPcs.throw _
  | some i =>
    apply keepsPcs.bind (within_watchpointAt keepsPcs i)
    intro point
    apply keepsPcs.bind
    · exact keepsPcs.bind (within_readMemory keepsPcs _ _) fun _ =>
        within_ite (keepsPcs.pure _) (keepsPcs.throw _)
    · exact fun _ _ => .of_eq rfl rfl

/-- The stop is that of a trap instruction. -/
def TrapStop (s : Process) (reason : StopReason) : Prop :=
  reason.info = sigtrap ∧ s.siCode reason.tid = 0x80

instance (s : Process) (reason : StopReason) : Decidable (TrapStop s reason) :=
  inferInstanceAs (Decidable (_ ∧ _))

theorem augmentStopReason_ok {reason reason' : StopReason} {s' : Process}
    (h : augmentStopReason reason s = .ok reason' s') :
    s' = { s with expectingSyscallExit := s'.expectingSyscallExit } ∧ reason'.tid = reason.tid ∧
      (reason'.info = sigtrap ∧ reason'.trapReason = some .softwareBreak ↔ TrapStop s reason) := by
  unfold augmentStopReason at h
  rw [bind_ok (get_eq s)] at h
  by_cases hsys : reason.info = sigtrap ||| 0x80#8
  · rw [if_pos hsys] at h
    obtain ⟨regs, s₁, hregs, h₁⟩ := bind_eq_ok.mp h
    obtain rfl : s₁ = s := (within_getRegisters unchanged _).ok hregs
    obtain ⟨info, s₂, hinfo, h₂⟩ := bind_eq_ok.mp h₁
    obtain ⟨-, rfl⟩ := ofExcept_eq_ok.mp hinfo
    cases h₂
    refine ⟨rfl, rfl, ?_⟩
    have hne : reason.info ≠ sigtrap := by
      rw [hsys]
      decide
    simp [TrapStop, hne]
  · rw [if_neg hsys] at h
    cases h
    refine ⟨rfl, rfl, and_congr_right fun hinfo => ?_⟩
    have hinfo' : reason.info = sigtrap := hinfo
    rw [if_pos hinfo', Option.some.injEq]
    unfold trapOfSiCode
    split_ifs with h2 h0x80 h4
    · simp [h2]
    · simp [h0x80]
    · simp [h4]
    · simp [h0x80]

theorem augmentStopReason_error {reason : StopReason} {e : Failure} {s' : Process}
    (h : augmentStopReason reason s = .error e s') : ¬ TrapStop s reason := by
  rintro ⟨hinfo, -⟩
  have hsys : reason.info ≠ sigtrap ||| 0x80#8 := by
    rw [hinfo]
    decide
  unfold augmentStopReason at h
  rw [bind_ok (get_eq s), if_neg hsys] at h
  cases h

theorem getPc_ok {pc : VirtAddr} {s' : Process} (h : getPc (some tid) s = .ok pc s') :
    s' = s ∧ s.filePc tid = some (.ok pc) := by
  refine ⟨(within_getPc unchanged _).ok h, getPc_eq_ok.mp ?_⟩
  rw [outcome, h]

theorem getPc_of_filePc {pc : VirtAddr} (hpc : s.filePc tid = some (.ok pc)) :
    getPc (some tid) s = .ok pc s := by
  have houtcome := getPc_eq_ok.mpr hpc
  have hstate := within_getPc unchanged (some tid) s
  unfold outcome at houtcome
  unfold after at hstate
  cases hrun : getPc (some tid) s with
  | ok a s₁ =>
    rw [hrun] at houtcome hstate
    obtain rfl : a = pc := Except.ok.inj houtcome
    obtain rfl : s₁ = s := hstate
    rfl
  | error e s₁ =>
    rw [hrun] at houtcome
    cases houtcome

theorem gpr_storedFile_rip (s : Process) (th : ThreadState) (address : VirtAddr) :
    gpr (s.storedFile th (defineGpr64 .rip 16) (.u64 address)).data .rip = address := by
  have hbytes : ∀ i < 8, (s.storedFile th (defineGpr64 .rip 16) (.u64 address)).data
      (Gpr.rip.offset + i) = byteOf address i := by
    intro i hi
    have hin : (defineGpr64 .rip 16).offset ≤ Gpr.rip.offset + i ∧
        Gpr.rip.offset + i < (defineGpr64 .rip 16).offset + 8 :=
      ⟨Nat.le_add_right _ _, Nat.add_lt_add_left hi _⟩
    have hbyte : (s.storedFile th (defineGpr64 .rip 16) (.u64 address)).data
        (Gpr.rip.offset + i) = byteOf (address.setWidth 128)
          (Gpr.rip.offset + i - (defineGpr64 .rip 16).offset) := if_pos hin
    have hplace : Gpr.rip.offset + i - (defineGpr64 .rip 16).offset = i :=
      Nat.add_sub_cancel_left ..
    rw [hbyte, hplace]
    exact byteOf_widened (by decide) address i
  unfold gpr
  rw [wordOf_congr hbytes, wordOf_byteOf]

theorem readRip_eq (regs : Registers) : regs.readByIdAsU64 (.gpr64 .rip) =
    if regs.isUndefined (defineGpr64 .rip 16) = true then .error (.raised "Register is undefined")
    else .ok (gpr regs.data .rip) := by
  have hread : regs.read (defineGpr64 .rip 16) =
      if regs.isUndefined (defineGpr64 .rip 16) = true
      then .error (.raised "Register is undefined") else .ok (.u64 (gpr regs.data .rip)) := rfl
  unfold Registers.readByIdAsU64 Registers.readU64
  rw [registerInfoById_rip]
  simp only [hread]
  split_ifs <;> rfl

theorem filePc_eq_ok (hth : s.threads.find tid = some th) {pc : BitVec 64} :
    s.filePc tid = some (.ok pc) ↔
      th.regs.isUndefined (defineGpr64 .rip 16) = false ∧ gpr th.regs.data .rip = pc := by
  unfold filePc
  rw [hth, Option.map_some, readRip_eq]
  split_ifs with h
  · simp [h]
  · simp [h]

/-- The process after the program counter of a file is set, and nothing handed over. -/
def withPc (s : Process) (tid : Tid) (th : ThreadState) (address : VirtAddr) : Process :=
  s.withFile tid (s.storedFile th (defineGpr64 .rip 16) (.u64 address))

theorem setPc_eq (hth : s.threads.find tid = some th) (address : VirtAddr) :
    setPc address (some tid) s = (s.storedFile th (defineGpr64 .rip 16) (.u64 address)).handOver
      (defineGpr64 .rip 16) true (s.withPc tid th address) := by
  unfold setPc writeRegisterById
  rw [registerInfoById_rip, bind_ok (ofExcept_ok _ _)]
  have hfits : (Value.u64 address).size ≤ (defineGpr64 .rip 16).size := Nat.le_refl 8
  exact writeRegister_eq hth hfits true

theorem filePc_withPc (hth : s.threads.find tid = some th)
    (hdefined : th.regs.isUndefined (defineGpr64 .rip 16) = false) (address : VirtAddr) :
    (s.withPc tid th address).filePc tid = some (.ok address) := by
  let file := s.storedFile th (defineGpr64 .rip 16) (.u64 address)
  have hfind : (s.withPc tid th address).threads.find tid = some { th with regs := file } :=
    Threads.find_modify_self hth fun th => { th with regs := file }
  exact (filePc_eq_ok hfind).mpr ⟨hdefined, gpr_storedFile_rip s th address⟩

def setRealPc (s : Process) (tid : Tid) (address : VirtAddr) : BitVec 64 :=
  if tid = s.pid ∧ s.kernel.StoresPlain then address else s.realPc tid

theorem setPc_ends (hth : s.threads.find tid = some th)
    (hdefined : th.regs.isUndefined (defineGpr64 .rip 16) = false) (address : VirtAddr) :
    ∃ s', (setPc address (some tid) s = .ok () s' ∨
        ¬ s.kernel.StoresPlain ∧ ∃ e, setPc address (some tid) s = .error e s') ∧
      s'.filePc tid = some (.ok address) ∧ s'.realPc tid = s.setRealPc tid address := by
  let file := s.storedFile th (defineGpr64 .rip 16) (.u64 address)
  let stored := s.withPc tid th address
  have hfile := filePc_withPc hth hdefined address
  have hplain : (defineGpr64 .rip 16).part.IsPlain := by decide
  have hplaced : (defineGpr64 .rip 16).Placed := by decide
  obtain hstores | hrefuses := s.kernel.storesPlain_or
  · let u := (defineGpr64 .rip 16).part.overlay file.data (s.user s.pid)
    have hwrites : stored.handed (file.requests (defineGpr64 .rip 16) true) = some u := by
      change (s.kernel.write _ _ _).bind (fun u => (s.kernel.write _ _ u).bind some) = _
      rw [hstores _ hplain, Option.bind_some, hstores _ hplain, UserPart.overlay_overlay]
      rfl
    refine ⟨stored.setUser s.pid u, .inl ?_, hfile, ?_⟩
    · rw [setPc_eq hth]
      exact (hands_handOver file hplaced true).taken u hwrites
    · unfold setRealPc
      by_cases htid : tid = s.pid
      · rw [if_pos ⟨htid, hstores⟩, htid, realPc, setUser_user_self]
        refine Eq.trans (wordOf_congr fun i hi => ?_) (gpr_storedFile_rip s th address)
        exact if_pos (hplaced.covers ⟨Nat.le_add_right _ _, Nat.add_lt_add_left hi _⟩)
      · rw [if_neg fun h => htid h.1, realPc, setUser_user_of_ne htid]
        rfl
  · have hnot : ¬ s.kernel.StoresPlain := by
      intro hstores
      have htaken := hstores _ hplain file.data (s.user s.pid)
      rw [hrefuses _ hplain] at htaken
      cases htaken
    have hpoke : pokeRegisters s.pid (defineGpr64 .rip 16).part file.data stored =
        .error (requestError (defineGpr64 .rip 16).part) stored :=
      pokeRegisters_refused (hrefuses _ hplain _ _)
    refine ⟨stored, .inr ⟨hnot, requestError (defineGpr64 .rip 16).part, ?_⟩, hfile, ?_⟩
    · rw [setPc_eq hth]
      exact bind_error ((deliver_eq file hplaced none).trans hpoke)
    · rw [setRealPc, if_neg fun h => hnot h.2]
      rfl

/-- A site whose trap instruction the program counter of the file has just passed. -/
def HitsSite (s : Process) (tid : Tid) : Prop :=
  ∃ pc, s.filePc tid = some (.ok pc) ∧ s.enabledSiteAt (pc - 1#64) = true

/-- `notify_stop` of the target: `frames.unwind()` for its thread. -/
def notifyStop (I : FrameInfo) (n : ℕ) (reason : StopReason) : M Unit := do
  let s ← get
  if s.targetThreads.any fun th => th.tid == reason.tid then do
    let _ ← stackUnwind inferior I n reason.tid
    pure ()
  else throw .outOfRange

/-- The target is told as its `notify_stop` has it, the callback of a breakpoint leaves the
program counters alone, and `report_thread_lifecycle_event` changes the threads of the
target at most. -/
structure Outside.Unwinds (O : Outside) (I : FrameInfo) (n : ℕ) : Prop where
  notifyStop : O.notifyStop = Process.notifyStop I n
  notifyHit : ∀ parent, Within KeepsPcs (O.notifyHit parent)
  lifecycle : ∀ reason s, ∃ ts, O.lifecycle reason s = .ok () { s with targetThreads := ts }

/-- `handle_signal` up to the notification: what the target is told, if anything. -/
def lookAt (O : Outside) (reason : StopReason) (isMainStop : Bool) : M (Option StopReason) := do
  readAllRegisters reason.tid
  let reason ← augmentStopReason reason
  let goOn ← if reason.info = sigtrap then handleTrap O reason isMainStop else pure false
  pure (if goOn then none else some reason)

def tell (O : Outside) (told : Option StopReason) : M (Option StopReason) := do
  match told with
  | none => pure none
  | some reason => do
    notifyTarget O reason
    pure (some reason)

theorem inspectStop_eq (O : Outside) (reason : StopReason) (isMainStop : Bool) :
    inspectStop O reason isMainStop = (lookAt O reason isMainStop >>= tell O) := by
  unfold inspectStop lookAt
  simp only [bind_assoc, pure_bind]
  refine bind_congr fun _ => bind_congr fun reason => ?_
  have htell (goOn : Bool) : (if goOn = true then pure none else do
      notifyTarget O reason
      pure (some reason) : M (Option StopReason)) =
      tell O (if goOn = true then none else some reason) := by
    cases goOn <;> rfl
  by_cases hinfo : reason.info = sigtrap
  · rw [if_pos hinfo, if_pos hinfo, bind_assoc]
    refine bind_congr fun goOn => ?_
    rw [pure_bind]
    exact htell goOn
  · rw [if_neg hinfo, if_neg hinfo, pure_bind]
    exact htell false

variable {O : Outside}

theorem keepsPcs_handleTrap {reason : StopReason} (isMainStop : Bool)
    (hmiss : ¬ (reason.trapReason = some .softwareBreak ∧ s.HitsSite reason.tid)) :
    KeepsPcs s (after (handleTrap O reason isMainStop) s) := by
  apply keepsPcs.bind_at (within_getPc keepsPcs _ s)
  intro pc s' hpc
  obtain ⟨rfl, hfile⟩ := getPc_ok hpc
  dsimp only
  rw [after_bind_ok (get_eq s'), if_neg fun h => hmiss ⟨h.1, pc, hfile, h.2⟩]
  refine within_ite ?_ (keepsPcs.pure _) s'
  apply keepsPcs.bind (within_getCurrentHardwareStoppoint keepsPcs _)
  rintro (id | id)
  · exact keepsPcs.pure _
  · exact keepsPcs.bind (keepsPcs_updateWatchpoint _) fun _ => keepsPcs.pure _

/-- The stop is that of a trap instruction of an enabled site. -/
def StopsAtSite (s : Process) (reason : StopReason) (regs : Registers) : Prop :=
  TrapStop s reason ∧ s.enabledSiteAt (gpr regs.data .rip - 1#64) = true

instance (s : Process) (reason : StopReason) (regs : Registers) :
    Decidable (StopsAtSite s reason regs) := inferInstanceAs (Decidable (_ ∧ _))

def seenPc (s : Process) (reason : StopReason) (regs : Registers) : BitVec 64 :=
  if StopsAtSite s reason regs then gpr regs.data .rip - 1#64 else gpr regs.data .rip

/-- The file has the kernel's program counter before the target is told: it was so before; or, at
a site, the thread is the leader and is still there, or it stands at the site. -/
def PcSeen (s : Process) (reason : StopReason) (regs : Registers) : Prop :=
  if StopsAtSite s reason regs
  then (reason.tid = s.pid ∧ s.kernel.StoresPlain) ∨
    gpr regs.data .rip - 1#64 = s.realPc reason.tid
  else gpr regs.data .rip = s.realPc reason.tid

/-- In `s'` the file has the pc that was seen, and the kernel what it had unless the stop is that
of a site. -/
def PcsSeen (s s' : Process) (reason : StopReason) (regs : Registers) : Prop :=
  (∀ pc, s'.filePc reason.tid = some (.ok pc) ↔
    regs.isUndefined (defineGpr64 .rip 16) = false ∧ seenPc s reason regs = pc) ∧
  (regs.isUndefined (defineGpr64 .rip 16) = false →
    s'.realPc reason.tid =
      if StopsAtSite s reason regs then s.setRealPc reason.tid (gpr regs.data .rip - 1#64)
      else s.realPc reason.tid)

theorem pcsSeen_of_keeps {reason : StopReason} (hth : s.threads.find reason.tid = some th)
    (hkeep : KeepsPcs s s') (hno : ¬ (TrapStop s reason ∧ s.HitsSite reason.tid)) :
    PcsSeen s s' reason th.regs := by
  have hnot (hdefined : th.regs.isUndefined (defineGpr64 .rip 16) = false) :
      ¬ StopsAtSite s reason th.regs := by
    rintro ⟨htrap, hsite⟩
    exact hno ⟨htrap, _, (filePc_eq_ok hth).mpr ⟨hdefined, rfl⟩, hsite⟩
  refine ⟨fun pc => ?_, fun hdefined => ?_⟩
  · rw [hkeep.file, filePc_eq_ok hth]
    refine and_congr_right fun hdefined => ?_
    rw [seenPc, if_neg (hnot hdefined)]
  · rw [hkeep.real, if_neg (hnot hdefined)]

theorem pcsSeen_of_set {reason : StopReason} {pc : VirtAddr}
    (hth : s.threads.find reason.tid = some th) (hpc : s.filePc reason.tid = some (.ok pc))
    (htrap : TrapStop s reason) (hsite : s.enabledSiteAt (pc - 1#64) = true)
    (hfile : s'.filePc reason.tid = some (.ok (pc - 1#64)))
    (hreal : s'.realPc reason.tid = s.setRealPc reason.tid (pc - 1#64)) :
    PcsSeen s s' reason th.regs := by
  obtain ⟨hdefined, rfl⟩ := (filePc_eq_ok hth).mp hpc
  have hstops : StopsAtSite s reason th.regs := ⟨htrap, hsite⟩
  refine ⟨fun pc' => ?_, fun _ => ?_⟩
  · rw [hfile, seenPc, if_pos hstops, Option.some.injEq, Except.ok.injEq]
    exact (and_iff_right hdefined).symm
  · rw [hreal, if_pos hstops]

section Hits

variable (hhit : ∀ parent, Within KeepsPcs (O.notifyHit parent))

include hhit

theorem handleTrap_hit {reason : StopReason} (isMainStop : Bool) {pc : VirtAddr}
    (htrap : reason.trapReason = some .softwareBreak) (hpc : s.filePc reason.tid = some (.ok pc))
    (hsite : s.enabledSiteAt (pc - 1#64) = true) :
    ∃ s', KeepsPcs s' (after (handleTrap O reason isMainStop) s) ∧
      s'.filePc reason.tid = some (.ok (pc - 1#64)) ∧
      s'.realPc reason.tid = s.setRealPc reason.tid (pc - 1#64) := by
  obtain ⟨th, hth⟩ : ∃ th, s.threads.find reason.tid = some th := by
    cases hfind : s.threads.find reason.tid with
    | none => simp [filePc, hfind] at hpc
    | some th => exact ⟨th, rfl⟩
  obtain ⟨hdefined, -⟩ := (filePc_eq_ok hth).mp hpc
  obtain ⟨s', hset, hfile, hreal⟩ := setPc_ends hth hdefined (pc - 1#64)
  obtain ⟨i, -, hfound, -⟩ := enabledSiteAt_eq hsite
  have hi := siteByAddress_find hfound
  refine ⟨s', ?_, hfile, hreal⟩
  unfold handleTrap
  rw [after_bind_ok (getPc_of_filePc hpc), after_bind_ok (get_eq s), if_pos ⟨htrap, hsite⟩,
    after_bind_ok hi]
  have hhitBreakpoint :
      KeepsPcs s' (after (hitBreakpoint O i (pc - 1#64) (some reason.tid)) s) := by
    unfold hitBreakpoint
    obtain hset | ⟨-, e, hset⟩ := hset
    · rw [after_bind_ok hset]
      refine keepsPcs.bind (within_siteAt keepsPcs i) (fun site => ?_) s'
      cases site.parent with
      | none => exact keepsPcs.pure _
      | some parent => exact hhit parent
    · rw [after_bind_error hset]
      exact keepsPcs.refl s'
  exact keepsPcs.trans hhitBreakpoint (keepsPcs.after_bind (fun _ => keepsPcs.pure _) s)

theorem pcs_lookAt {reason : StopReason} (isMainStop : Bool)
    (hth : s.threads.find reason.tid = some th) :
    PcsSeen s (after (lookAt O reason isMainStop) s) reason th.regs := by
  obtain ⟨s₁, hread, hsame, hkeep₁⟩ := keepsPcs_readAllRegisters hth
  have htrap₁ : TrapStop s₁ reason ↔ TrapStop s reason := by
    unfold TrapStop
    rw [hsame]
  unfold lookAt
  rw [after_bind_ok hread]
  cases haugment : augmentStopReason reason s₁ with
  | error e s₂ =>
    rw [after_bind_error haugment]
    have hkeep₂ : KeepsPcs s₁ s₂ := by
      have := keepsPcs_augmentStopReason reason s₁
      rwa [after, haugment] at this
    refine pcsSeen_of_keeps hth (keepsPcs.trans hkeep₁ hkeep₂) fun h => ?_
    exact augmentStopReason_error haugment (htrap₁.mpr h.1)
  | ok reason' s₂ =>
    rw [after_bind_ok haugment]
    obtain ⟨hsame₂, htid, htrap₂⟩ := augmentStopReason_ok haugment
    have hkeep₂ : KeepsPcs s s₂ :=
      keepsPcs.trans hkeep₁ ((keepsPcs_augmentStopReason reason).ok haugment)
    have hsites (pc : VirtAddr) : s₂.enabledSiteAt pc = s.enabledSiteAt pc := by
      rw [hsame₂, hsame]
      rfl
    have hhits : s₂.HitsSite reason'.tid ↔ s.HitsSite reason.tid := by
      unfold HitsSite
      rw [htid, hkeep₂.file]
      simp only [hsites]
    have hpure (goOn : Bool) :
        Within KeepsPcs (pure (if goOn = true then none else some reason') : M _) :=
      keepsPcs.pure _
    by_cases hinfo : reason'.info = sigtrap
    · simp only [if_pos hinfo]
      by_cases hhits' : reason'.trapReason = some .softwareBreak ∧ s₂.HitsSite reason'.tid
      · obtain ⟨htrap, pc, hpc, hsite⟩ := hhits'
        obtain ⟨s₃, hkeep₃, hfile, hreal⟩ := handleTrap_hit hhit isMainStop htrap hpc hsite
        have hend := keepsPcs.trans hkeep₃ (keepsPcs.after_bind hpure s₂)
        rw [htid] at hpc hfile hreal
        rw [hkeep₂.file] at hpc
        have hset : s₂.setRealPc reason.tid (pc - 1#64) = s.setRealPc reason.tid (pc - 1#64) := by
          have hpid : s₂.pid = s.pid := by rw [hsame₂, hsame]
          have hkernel : s₂.kernel = s.kernel := by rw [hsame₂, hsame]
          unfold setRealPc
          rw [hpid, hkernel, hkeep₂.real]
        refine pcsSeen_of_set hth hpc (htrap₁.mp (htrap₂.mp ⟨hinfo, htrap⟩)) ?_ ?_ ?_
        · rw [← hsites, hsite]
        · rw [hend.file, hfile]
        · rw [hend.real, hreal, hset]
      · refine pcsSeen_of_keeps hth (keepsPcs.trans hkeep₂
          (keepsPcs.trans (keepsPcs_handleTrap isMainStop hhits') (keepsPcs.after_bind hpure s₂)))
          fun h => hhits' ⟨?_, hhits.mpr h.2⟩
        exact (htrap₂.mpr (htrap₁.mpr h.1)).2
    · simp only [if_neg hinfo]
      refine pcsSeen_of_keeps hth
        (keepsPcs.trans hkeep₂ (keepsPcs.bind (keepsPcs.pure _) hpure s₂)) fun h => ?_
      exact hinfo (htrap₂.mpr (htrap₁.mpr h.1)).1

theorem pcReal_lookAt {reason : StopReason} (isMainStop : Bool)
    (hth : s.threads.find reason.tid = some th) :
    PcReal reason.tid (after (lookAt O reason isMainStop) s) ↔
      th.regs.isUndefined (defineGpr64 .rip 16) = false ∧ PcSeen s reason th.regs := by
  obtain ⟨hfile, hreal⟩ := pcs_lookAt hhit isMainStop hth
  unfold PcReal PcSeen
  rw [getPc_eq_ok, hfile]
  refine and_congr_right fun hdefined => ?_
  rw [hreal hdefined]
  unfold seenPc setRealPc
  split_ifs with hsite hleader
  · simp [hleader]
  · simp [hleader]
  · rfl

end Hits

/-- The register file `handle_signal` reads into, when it looks into the stop. -/
def lookedInto (O : Outside) (s : Process) (reason : StopReason) (isMainStop : Bool) :
    Option Registers :=
  if reason.trapReason = some .clone ∧ isMainStop = true then none
  else if s.attached = true ∧ reason.reason = .stopped then
    match s.threads.find reason.tid with
    | none => if isMainStop then none else some { data := O.uninitialised, tid := reason.tid }
    | some th => if th.pendingSigstop = true ∧ reason.info = sigstop then none else some th.regs
  else none

def newThread (O : Outside) (reason : StopReason) : ThreadState :=
  { tid := reason.tid, regs := { data := O.uninitialised, tid := reason.tid } }

def welcomed (s : Process) (O : Outside) (reason : StopReason) (ts : List TargetThread) : Process :=
  { s with
    threads := s.threads.emplace (newThread O reason)
    log := ⟨.reported reason, s.memory⟩ :: s.log
    targetThreads := ts }

def met (O : Outside) (s : Process) (reason : StopReason) : Process :=
  if (s.threads.find reason.tid).isNone then after (welcome O reason) s else s

def reported (s : Process) (reason : StopReason) : Process :=
  { s with log := ⟨.reported reason, s.memory⟩ :: s.log }

/-- There is a target, and it has the thread. -/
def Followed (s : Process) (tid : Tid) : Prop :=
  s.hasTarget = true ∧ s.targetThreads.any (fun th => th.tid == tid) = true

instance (s : Process) (tid : Tid) : Decidable (Followed s tid) :=
  inferInstanceAs (Decidable (_ ∧ _))

def toldState (O : Outside) (s : Process) (reason : StopReason) (isMainStop : Bool) :
    Option Process :=
  match lookAt O reason isMainStop (s.met O reason) with
  | .ok (some told) s' =>
    if reason.tid = s'.pid ∧ Followed s' reason.tid then some (s'.reported told) else none
  | _ => none

/-- The program counter of the leader once its stack is unwound: the one that is handed over
last, and the one it has where none is. -/
def unwoundPc (s : Process) (I : FrameInfo) (n : ℕ) : BitVec 64 :=
  gpr (s.held (after (stackUnwind (noting s) I n s.pid) fun _ => none)) .rip

/-- When the program counter is real after a stop.  Where the target unwinds the stack of the
leader, what is handed over has to be the program counter of the file. -/
def PcFollows (O : Outside) (I : FrameInfo) (n : ℕ) (s : Process) (reason : StopReason)
    (isMainStop : Bool) (regs : Registers) : Prop :=
  regs.isUndefined (defineGpr64 .rip 16) = false ∧
    match toldState O s reason isMainStop with
    | some s' => s'.unwoundPc I n = seenPc s reason regs
    | none => PcSeen s reason regs

section Told

variable {I : FrameInfo} {n : ℕ} (hO : O.Unwinds I n)

include hO

theorem welcome_ok (s : Process) (reason : StopReason) :
    ∃ ts, welcome O reason s = .ok () (s.welcomed O reason ts) :=
  hO.lifecycle reason
    { s with
      threads := s.threads.emplace (newThread O reason)
      log := ⟨.reported reason, s.memory⟩ :: s.log }

theorem handleSignal_lookedInto {reason : StopReason} {isMainStop : Bool} {regs : Registers}
    (h : lookedInto O s reason isMainStop = some regs) :
    handleSignal O reason isMainStop s = inspectStop O reason isMainStop (s.met O reason) ∧
      ∃ th, (s.met O reason).threads.find reason.tid = some th ∧ th.regs = regs := by
  unfold lookedInto at h
  by_cases hclone : reason.trapReason = some .clone ∧ isMainStop = true
  · rw [if_pos hclone] at h
    cases h
  by_cases hstopped : s.attached = true ∧ reason.reason = .stopped
  swap
  · rw [if_neg hclone, if_neg hstopped] at h
    cases h
  rw [if_neg hclone, if_pos hstopped] at h
  unfold handleSignal
  rw [bind_ok (get_eq s), if_neg hclone, if_pos hstopped]
  cases hfind : s.threads.find reason.tid with
  | none =>
    rw [hfind] at h
    cases isMainStop with
    | true => cases h
    | false =>
      cases h
      obtain ⟨ts, hwelcome⟩ := welcome_ok hO s reason
      have hmet : s.met O reason = s.welcomed O reason ts := by
        unfold met
        rw [hfind, after, hwelcome]
        rfl
      have habsent : s.threads.find (newThread O reason).tid = none := hfind
      have hnew : (s.welcomed O reason ts).threads.find reason.tid = some (newThread O reason) :=
        (Threads.find_emplace habsent _).trans (if_pos rfl)
      rw [hmet]
      refine ⟨(bind_ok hwelcome).trans ?_, newThread O reason, hnew, rfl⟩
      exact bind_ok (threadAt_ok hnew)
  | some th =>
    rw [hfind] at h
    by_cases hpending : th.pendingSigstop = true ∧ reason.info = sigstop
    · simp [hpending] at h
    · dsimp only at h
      rw [if_neg hpending] at h
      cases h
      have hmet : s.met O reason = s := by
        unfold met
        rw [hfind]
        rfl
      rw [hmet]
      refine ⟨(bind_ok (threadAt_ok hfind)).trans ?_, th, hfind, rfl⟩
      rw [if_neg hpending]

theorem met_eq (reason : StopReason) : ∃ threads log ts,
    s.met O reason = { s with threads, log, targetThreads := ts } := by
  unfold met
  split_ifs
  · obtain ⟨ts, hwelcome⟩ := welcome_ok hO s reason
    rw [after, hwelcome]
    exact ⟨_, _, _, rfl⟩
  · exact ⟨_, _, _, rfl⟩

theorem pcSeen_met {reason : StopReason} {regs : Registers} :
    PcSeen (s.met O reason) reason regs ↔ PcSeen s reason regs := by
  obtain ⟨threads, log, ts, hmet⟩ := met_eq (s := s) hO reason
  rw [hmet]
  rfl

theorem seenPc_met (reason : StopReason) (regs : Registers) :
    seenPc (s.met O reason) reason regs = seenPc s reason regs := by
  obtain ⟨threads, log, ts, hmet⟩ := met_eq (s := s) hO reason
  rw [hmet]
  rfl

theorem after_notifyTarget {reason : StopReason} (h : Followed s reason.tid) :
    after (notifyTarget O reason) s = (s.reported reason).handing
      (after (stackUnwind (noting (s.reported reason)) I n reason.tid) fun _ => none) := by
  let s' := s.reported reason
  have hrecord : record (.reported reason) s = .ok () s' := rfl
  have hstart : s' = s'.handing fun _ => none := (setUser_self _).symm
  obtain ⟨-, hafter⟩ := (inferior_agrees s').stackUnwind I n reason.tid s' (fun _ => none) hstart
  unfold notifyTarget
  rw [after_bind_ok (get_eq s), if_pos h.1, after_bind_ok hrecord, hO.notifyStop]
  unfold Process.notifyStop
  rw [after_bind_ok (get_eq _)]
  have hthread : s'.targetThreads.any (fun th => th.tid == reason.tid) = true := h.2
  rw [if_pos hthread, ← hafter]
  exact after_bind_unchanged (f := fun _ => pure ()) (fun _ _ => rfl) s'

theorem keepsPcs_notifyTarget {reason : StopReason} (h : ¬ Followed s reason.tid) :
    KeepsPcs s (after (notifyTarget O reason) s) := by
  have hrecord : Within KeepsPcs (record (.reported reason)) := fun _ => .of_eq rfl rfl
  unfold notifyTarget
  rw [after_bind_ok (get_eq s)]
  by_cases htarget : s.hasTarget = true
  · have hrun : record (.reported reason) s = .ok () (s.reported reason) := rfl
    have hthread : ¬ (s.reported reason).targetThreads.any (fun th => th.tid == reason.tid) = true :=
      fun hany => h ⟨htarget, hany⟩
    rw [if_pos htarget, after_bind_ok hrun, hO.notifyStop]
    unfold Process.notifyStop
    rw [after_bind_ok (get_eq _), if_neg hthread]
    exact hrecord s
  · rw [if_neg htarget]
    exact keepsPcs.refl s

omit hO in
theorem lookAt_tid {reason told : StopReason} {isMainStop : Bool} {s s' : Process}
    (h : lookAt O reason isMainStop s = .ok (some told) s') : told.tid = reason.tid := by
  obtain ⟨-, s₁, -, h₁⟩ := bind_eq_ok.mp h
  obtain ⟨reason', s₂, haugment, h₂⟩ := bind_eq_ok.mp h₁
  obtain ⟨-, htid, -⟩ := augmentStopReason_ok haugment
  have hend (p : M Bool) (h : (p >>= fun goOn => pure (if goOn = true then none else some reason'))
      s₂ = .ok (some told) s') : told = reason' := by
    obtain ⟨goOn, s₃, -, hpure⟩ := bind_eq_ok.mp h
    cases goOn <;> cases hpure
    rfl
  have htold : told = reason' := by
    by_cases hinfo : reason'.info = sigtrap
    · rw [if_pos hinfo] at h₂
      exact hend _ h₂
    · rw [if_neg hinfo] at h₂
      exact hend _ h₂
  rw [htold, htid]

omit hO in
theorem realPc_handing_self (h : Handed) : (s.handing h).realPc s.pid = gpr (s.held h) .rip := by
  rw [realPc, handing, setUser_user_self]

omit hO in
theorem realPc_handing_of_ne (h : Handed) (hne : tid ≠ s.pid) :
    (s.handing h).realPc tid = s.realPc tid := by
  rw [realPc, handing, setUser_user_of_ne hne]
  rfl

theorem pcReal_inspectStop {reason : StopReason} {isMainStop : Bool}
    (hth : (s.met O reason).threads.find reason.tid = some th) :
    PcReal reason.tid (after (inspectStop O reason isMainStop) (s.met O reason)) ↔
      PcFollows O I n s reason isMainStop th.regs := by
  -- the target is told and unwinds, or there is none, or it does not have the thread
  obtain ⟨hfile, -⟩ := pcs_lookAt hO.notifyHit isMainStop hth
  have hseen := pcReal_lookAt hO.notifyHit isMainStop hth
  rw [pcSeen_met hO] at hseen
  rw [inspectStop_eq]
  unfold PcFollows toldState
  cases hlook : lookAt O reason isMainStop (s.met O reason) with
  | error e s' =>
    rw [after, hlook] at hseen
    rwa [after_bind_error hlook]
  | ok told s' =>
    rw [after, hlook] at hseen hfile
    rw [after_bind_ok hlook]
    cases told with
    | none => exact hseen
    | some told =>
      have htold : after (tell O (some told)) s' = after (notifyTarget O told) s' :=
        after_bind_unchanged (f := fun _ => pure (some told)) (fun _ _ => rfl) s'
      have htid := lookAt_tid hlook
      rw [htold]
      dsimp only
      by_cases hfollowed : Followed s' reason.tid
      swap
      · have hkeeps : KeepsPcs s' (after (notifyTarget O told) s') :=
          keepsPcs_notifyTarget hO (htid.symm ▸ hfollowed)
        rw [if_neg fun h => hfollowed h.2]
        exact hkeeps.pcReal_iff.trans hseen
      let s'' := s'.reported told
      have hkeeps : KeepsPcs s' s'' := .of_eq rfl rfl
      have hafter : after (notifyTarget O told) s' =
          s''.handing (after (stackUnwind (noting s'') I n reason.tid) fun _ => none) := by
        rw [after_notifyTarget hO (htid.symm ▸ hfollowed), htid]
      rw [hafter, PcReal, getPc_eq_ok]
      by_cases hleader : reason.tid = s'.pid
      · have hpc : (s''.handing (after (stackUnwind (noting s'') I n reason.tid)
            fun _ => none)).realPc reason.tid = s''.unwoundPc I n := by
          rw [hleader]
          exact realPc_handing_self _
        rw [if_pos ⟨hleader, hfollowed⟩, hpc]
        refine (hfile _).trans (and_congr_right fun _ => ?_)
        rw [seenPc_met hO]
        exact eq_comm
      · have hother : reason.tid ≠ s''.pid := hleader
        rw [if_neg fun h => hleader h.1, realPc_handing_of_ne _ hother]
        refine Iff.trans ?_ (hkeeps.pcReal_iff.trans hseen)
        have hreal : PcReal reason.tid s'' ↔
            s''.filePc reason.tid = some (.ok (s''.realPc reason.tid)) := getPc_eq_ok
        exact hreal.symm

theorem pcReal_handleSignal {reason : StopReason} {isMainStop : Bool} {regs : Registers}
    (hlook : lookedInto O s reason isMainStop = some regs) :
    PcReal reason.tid (after (handleSignal O reason isMainStop) s) ↔
      PcFollows O I n s reason isMainStop regs := by
  obtain ⟨hhandle, th, hth, rfl⟩ := handleSignal_lookedInto hO hlook
  rw [after, hhandle]
  exact pcReal_inspectStop hO hth

/-- After `read_all_registers` every read gives what the thread has if and only if the
general-purpose registers were current before; and after a stop that `handle_signal`
looks into the program counter is the real one under the condition of `PcFollows`. -/
theorem registersActual_iff (hth : s.threads.find tid = some th)
    {reason : StopReason} {isMainStop : Bool} {regs : Registers}
    (hlook : lookedInto O s reason isMainStop = some regs) :
    (RegistersActual tid (after (readAllRegisters tid) s) ↔ GprsCurrent th.regs (s.user tid)) ∧
      (PcReal reason.tid (after (handleSignal O reason isMainStop) s) ↔
        PcFollows O I n s reason isMainStop regs) :=
  ⟨registersActual_readAllRegisters hth, pcReal_handleSignal hO hlook⟩

end Told

def otherFile : FrameInfo := { noRules with mainElf := 1 }

def unwinding : Outside := { quiet with notifyStop := notifyStop otherFile 1 }

theorem unwinding_unwinds : unwinding.Unwinds otherFile 1 where
  notifyStop := rfl
  notifyHit _ := keepsPcs.pure false
  lifecycle _ s := ⟨s.targetThreads, rfl⟩

def watchedThread : Process :=
  { standing with
    user := fun _ => sixteenRegs.data
    hasTarget := true
    targetThreads := [⟨1, some 1⟩] }

def trapOfFirst : StopReason := { tid := 1, info := sigtrap }

theorem registersActual_iff_watchedThread :
    (RegistersActual 1 (after (readAllRegisters 1) watchedThread) ↔
        GprsCurrent sixteenRegs (watchedThread.user 1)) ∧
      (PcReal trapOfFirst.tid (after (handleSignal unwinding trapOfFirst true) watchedThread) ↔
        PcFollows unwinding otherFile 1 watchedThread trapOfFirst true sixteenRegs) :=
  have hth : watchedThread.threads.find 1 = some { tid := 1, regs := sixteenRegs } := rfl
  have hlook : lookedInto unwinding watchedThread trapOfFirst true = some sixteenRegs := rfl
  registersActual_iff unwinding_unwinds hth hlook

def changedThreads : Process := { twoThreads with user := fun _ _ => 1#8 }

/-- The general-purpose registers of the file are those from before the thread ran. -/
theorem registersActual_not_for_all :
    (¬ ∀ (s : Process) (tid : Tid), tid ∈ s.threads.tids →
      RegistersActual tid (after (readAllRegisters tid) s)) ∧
    ¬ ∀ (O : Outside) (I : FrameInfo) (n : ℕ) (s : Process) (reason : StopReason)
      (isMainStop : Bool), O.Unwinds I n → (lookedInto O s reason isMainStop).isSome →
      PcReal reason.tid (after (handleSignal O reason isMainStop) s) := by
  constructor
  · intro h
    have hlaw := h changedThreads 1 (by decide)
    rw [registersActual_readAllRegisters (s := changedThreads) rfl] at hlaw
    have hrax : defineGpr64 .rax 0 ∈ gRegisterInfos := by decide +kernel
    exact absurd (hlaw _ hrax (by decide) rfl 80 (by decide)) (by decide)
  · intro h
    have hlaw := h unwinding otherFile 1 changedThreads trapOfFirst true unwinding_unwinds rfl
    have hlook : lookedInto unwinding changedThreads trapOfFirst true =
        some { data := fun _ => 0#8, tid := 1 } := rfl
    rw [pcReal_handleSignal unwinding_unwinds hlook] at hlaw
    have htold : toldState unwinding changedThreads trapOfFirst true = none := by decide +kernel
    obtain ⟨-, hpc⟩ := hlaw
    rw [htold] at hpc
    have hstop : ¬ StopsAtSite changedThreads trapOfFirst { data := fun _ => 0#8, tid := 1 } := by
      decide
    dsimp only at hpc
    rw [PcSeen, if_neg hstop] at hpc
    exact absurd hpc (by decide)

end Process
end KDebugger
