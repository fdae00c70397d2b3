import KDebugger.Process.State

namespace KDebugger

open ByteStream Words Exec

namespace Process

def requestError : UserPart → Failure
  | .word _ => .raised "Could not write to user area"
  | .fprs => .raised "Could not write floating point registers"
  | .gprs => .raised "Could not write geenral purpose registers"

/-- A `ptrace` request that writes a part of the registers of a thread. -/
def pokeRegisters (tid : Tid) (part : UserPart) (data : UserArea) : M Unit := do
  let s ← get
  match s.kernel.write part data (s.user tid) with
  | none => throw (requestError part)
  | some registers => set (s.setUser tid registers)

/-- `PTRACE_POKEUSER`. -/
def pokeUser (tid : Tid) (offset : ℕ) (data : BitVec 64) : M Unit :=
  if offset % 8 = 0 ∧ offset + 8 ≤ userSize then
    pokeRegisters tid (.word offset) fun o => byteOf data (o - offset)
  else throw (requestError (.word offset))

/-- `PTRACE_SETFPREGS`. -/
def pokeFpregs (tid : Tid) (data : UserArea) : M Unit := pokeRegisters tid .fprs data

/-- `PTRACE_SETREGS`. -/
def pokeRegs (tid : Tid) (data : UserArea) : M Unit := pokeRegisters tid .gprs data

/-- `write_user_area`: the thread is computed and not used. -/
def writeUserArea (offset : ℕ) (data : BitVec 64) (otid : Option Tid) : M Unit := do
  let s ← get
  let _tid := s.valueOr otid
  pokeUser s.pid offset data

def writeFprs (fprs : UserArea) (otid : Option Tid) : M Unit := do
  let s ← get
  let _tid := s.valueOr otid
  pokeFpregs s.pid fprs

def writeGprs (gprs : UserArea) (otid : Option Tid) : M Unit := do
  let s ← get
  let _tid := s.valueOr otid
  pokeRegs s.pid gprs

end Process

open Process

namespace Registers

/-- A register handed over: the whole `i387`, or the word the register is in. -/
def deliver (regs : Registers) (info : RegisterInfo) (otid : Option Tid) : M Unit :=
  if info.type = .fpr then writeFprs regs.data otid
  else writeUserArea info.alignedOffset (regs.wordAt info.alignedOffset) otid

/-- What follows the store in `write`: once for every call, once more to commit. -/
def handOver (regs : Registers) (info : RegisterInfo) (commit : Bool) : M Unit := do
  deliver regs info none
  if commit then deliver regs info (some regs.tid) else pure ()

/-- `write` on a register file that is not the one of a thread. -/
def write (regs : Registers) (info : RegisterInfo) (v : Value) (commit : Bool) : M Registers := do
  let s ← get
  let regs' ← ofExcept (regs.store s.casts info v)
  handOver regs' info commit
  pure regs'

end Registers

namespace Process

/-- `get_registers(otid).write(info, v, commit)`. -/
def writeRegister (otid : Option Tid) (info : RegisterInfo) (v : Value) (commit : Bool) :
    M Unit := do
  let s ← get
  let regs ← getRegisters otid
  let regs' ← ofExcept (regs.store s.casts info v)
  setRegisters (s.valueOr otid) regs'
  regs'.handOver info commit

/-- `get_registers(otid).write_by_id(id, v, commit)`. -/
def writeRegisterById (otid : Option Tid) (id : RegisterId) (v : Value) (commit : Bool) :
    M Unit := do
  let info ← ofExcept (registerInfoById id)
  writeRegister otid info v commit

def setPc (address : VirtAddr) (otid : Option Tid) : M Unit :=
  writeRegisterById otid (.gpr64 .rip) (.u64 address) true

/-- One step of the loop in `flush` over the debug registers. -/
def flushDebugreg (regs : Registers) (i : ℕ) : M Unit :=
  if i = 4 ∨ i = 5 then pure ()
  else writeUserArea (debugregOffset + 8 * i) (regs.wordAt (debugregOffset + 8 * i)) (some regs.tid)

def flush (otid : Option Tid) : M Unit := do
  let regs ← getRegisters otid
  writeFprs regs.data (some regs.tid)
  writeGprs regs.data (some regs.tid)
  (List.range 8).forM (flushDebugreg regs)

variable {s : Process}

@[simp] theorem setUser_self (t : Tid) : s.setUser t (s.user t) = s := by simp [setUser]

@[simp] theorem setUser_setUser (t : Tid) (u u' : UserArea) :
    (s.setUser t u).setUser t u' = s.setUser t u' := by simp [setUser]

@[simp] theorem setUser_user_self (t : Tid) (u : UserArea) : (s.setUser t u).user t = u := by
  simp [setUser]

theorem setUser_user_of_ne {t t' : Tid} (h : t' ≠ t) (u : UserArea) :
    (s.setUser t u).user t' = s.user t' := by
  simp [setUser, h]

def handed (s : Process) (requests : List (UserPart × UserArea)) : Option UserArea :=
  s.kernel.writes requests (s.user s.pid)

/-- A computation that makes requests of the leader: it returns when all of them are taken, and
raises at the first one that is not. -/
structure Hands (requests : List (UserPart × UserArea)) (p : M Unit) (s : Process) : Prop where
  taken : ∀ u, s.handed requests = some u → p s = .ok () (s.setUser s.pid u)
  refused : s.handed requests = none →
    ∃ request ∈ requests, ∃ s', p s = .error (requestError request.1) s'

theorem Hands.nil : Hands [] (pure ()) s where
  taken u h := by
    obtain rfl := Option.some.inj h
    rw [setUser_self]
    rfl
  refused h := by cases h

theorem handed_append (l l' : List (UserPart × UserArea)) :
    s.handed (l ++ l') = (s.handed l).bind fun u => (s.setUser s.pid u).handed l' := by
  unfold handed
  rw [RegisterKernel.writes_append]
  refine Option.bind_congr fun u _ => ?_
  rw [show (s.setUser s.pid u).user (s.setUser s.pid u).pid = u from setUser_user_self ..]
  rfl

theorem Hands.bind {l l' : List (UserPart × UserArea)} {p : M Unit} {q : Unit → M Unit}
    (hp : Hands l p s) (hq : ∀ u, s.handed l = some u → Hands l' (q ()) (s.setUser s.pid u)) :
    Hands (l ++ l') (p >>= q) s where
  taken u h := by
    rw [handed_append] at h
    obtain ⟨u₁, h₁, h₂⟩ := Option.bind_eq_some_iff.mp h
    rw [bind_ok (hp.taken u₁ h₁), (hq u₁ h₁).taken u h₂]
    exact congrArg _ (setUser_setUser ..)
  refused h := by
    rw [handed_append, Option.bind_eq_none_iff] at h
    cases h₁ : s.handed l with
    | none =>
      obtain ⟨request, hmem, s', hfail⟩ := hp.refused h₁
      exact ⟨request, List.mem_append_left _ hmem, s', bind_error hfail⟩
    | some u₁ =>
      rw [bind_ok (hp.taken u₁ h₁)]
      obtain ⟨request, hmem, hfails⟩ := (hq u₁ h₁).refused (h u₁ h₁)
      exact ⟨request, List.mem_append_right _ hmem, hfails⟩

theorem handed_one (part : UserPart) (data : UserArea) :
    s.handed [(part, data)] = s.kernel.write part data (s.user s.pid) :=
  Option.bind_fun_some _

theorem pokeRegisters_taken {tid : Tid} {part : UserPart} {data u : UserArea}
    (h : s.kernel.write part data (s.user tid) = some u) :
    pokeRegisters tid part data s = .ok () (s.setUser tid u) := by
  unfold pokeRegisters
  rw [bind_ok (get_eq s), h]
  rfl

theorem pokeRegisters_refused {tid : Tid} {part : UserPart} {data : UserArea}
    (h : s.kernel.write part data (s.user tid) = none) :
    pokeRegisters tid part data s = .error (requestError part) s := by
  unfold pokeRegisters
  rw [bind_ok (get_eq s), h]
  rfl

theorem hands_pokeRegisters (part : UserPart) (data : UserArea) :
    Hands [(part, data)] (pokeRegisters s.pid part data) s where
  taken _ h := pokeRegisters_taken ((handed_one part data).symm.trans h)
  refused h := ⟨(part, data), List.mem_singleton_self _, s,
    pokeRegisters_refused ((handed_one part data).symm.trans h)⟩

theorem writeUserArea_eq (regs : Registers) {offset : ℕ} (halign : offset % 8 = 0)
    (hsize : offset + 8 ≤ userSize) (otid : Option Tid) :
    writeUserArea offset (regs.wordAt offset) otid s =
      pokeRegisters s.pid (.word offset) regs.data s := by
  have hwrite : s.kernel.write (.word offset) (fun o => byteOf (regs.wordAt offset) (o - offset))
      (s.user s.pid) = s.kernel.write (.word offset) regs.data (s.user s.pid) := by
    apply RegisterKernel.write_congr
    rintro o ⟨hlo, hhi⟩
    have hlt : o - offset < 8 := by omega
    rw [Registers.wordAt, byteOf_wordOf _ hlt, Nat.add_sub_cancel' hlo]
  change pokeUser s.pid offset (regs.wordAt offset) s = _
  rw [pokeUser, if_pos ⟨halign, hsize⟩]
  unfold pokeRegisters
  rw [bind_ok (get_eq s), bind_ok (get_eq s), hwrite]

theorem deliver_eq (regs : Registers) {info : RegisterInfo} (h : info.Placed) (otid : Option Tid) :
    regs.deliver info otid s = pokeRegisters s.pid info.part regs.data s := by
  unfold Registers.deliver
  unfold RegisterInfo.Placed at h
  unfold RegisterInfo.part
  by_cases hfpr : info.type = .fpr
  · rw [if_pos hfpr, if_pos hfpr]
    rfl
  · rw [if_neg hfpr] at h
    rw [if_neg hfpr, if_neg hfpr]
    have halign : info.alignedOffset % 8 = 0 := by
      unfold RegisterInfo.alignedOffset
      omega
    exact writeUserArea_eq regs halign h.2 otid

theorem Hands.of_eq {l : List (UserPart × UserArea)} {p q : M Unit} (h : Hands l q s)
    (heq : p s = q s) : Hands l p s := by
  constructor
  · rw [heq]
    exact h.taken
  · rw [heq]
    exact h.refused

theorem hands_deliver (regs : Registers) {info : RegisterInfo} (h : info.Placed)
    (otid : Option Tid) : Hands [(info.part, regs.data)] (regs.deliver info otid) s :=
  (hands_pokeRegisters _ _).of_eq (deliver_eq regs h otid)

end Process

def Registers.requests (regs : Registers) (info : RegisterInfo) (commit : Bool) :
    List (UserPart × UserArea) :=
  List.replicate (if commit then 2 else 1) (info.part, regs.data)

namespace Process

theorem hands_handOver (regs : Registers) {info : RegisterInfo} (h : info.Placed)
    (commit : Bool) : Hands (regs.requests info commit) (regs.handOver info commit) s := by
  unfold Registers.handOver
  cases commit with
  | false => exact (hands_deliver regs h none).bind fun _ _ => .nil
  | true => exact (hands_deliver regs h none).bind fun _ _ => hands_deliver regs h _

def storedFile (s : Process) (th : ThreadState) (info : RegisterInfo) (v : Value) : Registers :=
  th.regs.put info v.size (widen s.casts info v)

def withFile (s : Process) (t : Tid) (regs : Registers) : Process :=
  { s with threads := s.threads.modify t fun th => { th with regs } }

theorem getRegisters_eq {otid : Option Tid} {th : ThreadState}
    (h : s.threads.find (s.valueOr otid) = some th) :
    getRegisters otid s = .ok th.regs s := by
  change (threadAt (s.valueOr otid) >>= fun th => pure th.regs) s = _
  rw [bind_ok (threadAt_ok h)]
  rfl

theorem getRegisters_error {otid : Option Tid} (h : s.threads.find (s.valueOr otid) = none) :
    getRegisters otid s = .error .outOfRange s := by
  change (threadAt (s.valueOr otid) >>= fun th => pure th.regs) s = _
  exact bind_error (threadAt_error h)

theorem writeRegister_eq {otid : Option Tid} {th : ThreadState} {info : RegisterInfo} {v : Value}
    (hth : s.threads.find (s.valueOr otid) = some th) (hv : v.size ≤ info.size) (commit : Bool) :
    writeRegister otid info v commit s =
      (s.storedFile th info v).handOver info commit
        (s.withFile (s.valueOr otid) (s.storedFile th info v)) := by
  have hset : setRegisters (s.valueOr otid) (s.storedFile th info v) s =
      .ok () (s.withFile (s.valueOr otid) (s.storedFile th info v)) := rfl
  unfold writeRegister
  rw [bind_ok (get_eq s), bind_ok (getRegisters_eq hth), Registers.store_of_le hv,
    bind_ok (ofExcept_ok _ _)]
  change (setRegisters _ (s.storedFile th info v) >>= fun _ =>
    (s.storedFile th info v).handOver info commit) s = _
  rw [bind_ok hset]

theorem writeRegister_taken {otid : Option Tid} {th : ThreadState} {info : RegisterInfo}
    {v : Value} (hth : s.threads.find (s.valueOr otid) = some th) (hinfo : info.Placed)
    (hv : v.size ≤ info.size) (commit : Bool) {u : UserArea}
    (hu : s.handed ((s.storedFile th info v).requests info commit) = some u) :
    writeRegister otid info v commit s =
      .ok () ((s.withFile (s.valueOr otid) (s.storedFile th info v)).setUser s.pid u) := by
  rw [writeRegister_eq hth hv]
  exact (hands_handOver _ hinfo commit).taken u hu

theorem writeRegister_refused {otid : Option Tid} {th : ThreadState} {info : RegisterInfo}
    {v : Value} (hth : s.threads.find (s.valueOr otid) = some th) (hinfo : info.Placed)
    (hv : v.size ≤ info.size) (commit : Bool)
    (hu : s.handed ((s.storedFile th info v).requests info commit) = none) :
    ∃ s', writeRegister otid info v commit s = .error (requestError info.part) s' := by
  let stored := s.withFile (s.valueOr otid) (s.storedFile th info v)
  have hhands : Hands _ _ stored := hands_handOver (s.storedFile th info v) hinfo commit
  rw [writeRegister_eq hth hv]
  obtain ⟨request, hmem, hfails⟩ := hhands.refused hu
  rwa [List.eq_of_mem_replicate hmem] at hfails

end Process
end KDebugger
