import KDebugger.Process.RegisterWrites

namespace KDebugger.Process

open ByteStream Words Exec

variable {s : Process}

/-- The requests of `flush`: the fourth and the fifth debug register are left out. -/
def flushRequests (data : UserArea) : List (UserPart × UserArea) :=
  [(.fprs, data), (.gprs, data)] ++ (List.range 8).flatMap fun i =>
    if i = 4 ∨ i = 5 then [] else [(.word (debugregOffset + 8 * i), data)]

theorem Hands.forM {f : ℕ → M Unit} {requests : ℕ → List (UserPart × UserArea)} {l : List ℕ}
    (h : ∀ i ∈ l, ∀ s, Hands (requests i) (f i) s) (s : Process) :
    Hands (l.flatMap requests) (l.forM f) s := by
  induction l generalizing s with
  | nil => exact .nil
  | cons i l ih =>
    obtain ⟨hfirst, hrest⟩ := List.forall_mem_cons.mp h
    exact (hfirst s).bind (q := fun _ => l.forM f) fun u _ => ih hrest _

theorem hands_flushDebugreg (regs : Registers) {i : ℕ} (hi : i < 8) (s : Process) :
    Hands (if i = 4 ∨ i = 5 then [] else [(.word (debugregOffset + 8 * i), regs.data)])
      (flushDebugreg regs i) s := by
  unfold flushDebugreg
  split_ifs with h45
  · exact .nil
  · have halign : (debugregOffset + 8 * i) % 8 = 0 := by
      unfold debugregOffset
      omega
    have hsize : debugregOffset + 8 * i + 8 ≤ userSize := by
      unfold debugregOffset userSize
      omega
    exact (hands_pokeRegisters _ _).of_eq (writeUserArea_eq regs halign hsize _)

theorem hands_flush {otid : Option Tid} {th : ThreadState}
    (hth : s.threads.find (s.valueOr otid) = some th) :
    Hands (flushRequests th.regs.data) (flush otid) s := by
  have hfprs (s : Process) : Hands [(.fprs, th.regs.data)]
      (writeFprs th.regs.data (some th.regs.tid)) s :=
    have hpoke := hands_pokeRegisters (s := s) .fprs th.regs.data
    ⟨hpoke.taken, hpoke.refused⟩
  have hgprs (s : Process) : Hands [(.gprs, th.regs.data)]
      (writeGprs th.regs.data (some th.regs.tid)) s :=
    have hpoke := hands_pokeRegisters (s := s) .gprs th.regs.data
    ⟨hpoke.taken, hpoke.refused⟩
  have hloop := Hands.forM fun i hi => hands_flushDebugreg th.regs (List.mem_range.mp hi)
  have hall := (hfprs s).bind (q := fun _ => do
      writeGprs th.regs.data (some th.regs.tid)
      (List.range 8).forM (flushDebugreg th.regs)) fun u _ =>
    (hgprs _).bind (q := fun _ => (List.range 8).forM (flushDebugreg th.regs)) fun u' _ => hloop _
  exact hall.of_eq (bind_ok (getRegisters_eq hth))

/-- The computation returns, changes no kernel-side register of another thread than `t`,
and leaves `t` with the given bytes of its register file. -/
def ReachesOnly (s : Process) (t : Tid) (bytes : ℕ → Prop) (p : M Unit) : Prop :=
  ∃ s' th, p s = .ok () s' ∧ s'.threads.find t = some th ∧
    (∀ t', t' ≠ t → s'.user t' = s.user t') ∧ ∀ o, bytes o → s'.user t o = th.regs.data o

/-- The kernel takes the requests.  Of the leader it then has the bytes that are meant, and
for another thread the leader is left as it is and the thread has them already. -/
def Lands (s : Process) (t : Tid) (requests : List (UserPart × UserArea)) (bytes : ℕ → Prop)
    (data : UserArea) : Prop :=
  ∃ u, s.handed requests = some u ∧
    if t = s.pid then ∀ o, bytes o → u o = data o
    else u = s.user s.pid ∧ ∀ o, bytes o → s.user t o = data o

theorem reachesOnly_iff {s₁ : Process} {t : Tid} {th : ThreadState} {bytes : ℕ → Prop}
    {requests : List (UserPart × UserArea)} {p : M Unit} (huser : s₁.user = s.user)
    (hth : s₁.threads.find t = some th)
    (htaken : ∀ u, s.handed requests = some u → p s = .ok () (s₁.setUser s.pid u))
    (hrefused : s.handed requests = none → ∃ e s', p s = .error e s') :
    s.ReachesOnly t bytes p ↔ s.Lands t requests bytes th.regs.data := by
  -- whatever is stored is stored in the leader
  cases hu : s.handed requests with
  | none =>
    obtain ⟨e, s', hfail⟩ := hrefused hu
    refine iff_of_false ?_ ?_
    · rintro ⟨s'', th', hok, -⟩
      rw [hfail] at hok
      cases hok
    · rintro ⟨u, hsome, -⟩
      rw [hu] at hsome
      cases hsome
  | some u =>
    have hleader : (s₁.setUser s.pid u).user s.pid = u := setUser_user_self _ _
    have hother (t' : Tid) (h : t' ≠ s.pid) : (s₁.setUser s.pid u).user t' = s.user t' := by
      rw [setUser_user_of_ne h, huser]
    constructor
    · rintro ⟨s', th', hok, hth', hothers, hown⟩
      rw [htaken u hu] at hok
      cases hok
      obtain rfl : th = th' := Option.some.inj (hth.symm.trans hth')
      refine ⟨u, hu, ?_⟩
      split_ifs with hlead
      · intro o ho
        rw [← hown o ho, hlead, hleader]
      · refine ⟨by rw [← hothers s.pid (Ne.symm hlead), hleader], fun o ho => ?_⟩
        rw [← hown o ho, hother t hlead]
    · rintro ⟨u', hu', hlands⟩
      obtain rfl : u = u' := Option.some.inj (hu.symm.trans hu')
      refine ⟨_, th, htaken u hu, hth, fun t' ht' => ?_, fun o ho => ?_⟩
      · by_cases hlead : t' = s.pid
        · rw [if_neg (fun h => ht' (hlead.trans h.symm))] at hlands
          rw [hlead, hleader, hlands.1]
        · exact hother t' hlead
      · split_ifs at hlands with hlead
        · rw [hlead, hleader, hlands o ho]
        · rw [hother t hlead, hlands.2 o ho]

/-- The bytes of the registers that `flush` is about; the fourth and the fifth debug
register are not there. -/
def RegisterBytes (o : ℕ) : Prop :=
  ∃ info ∈ gRegisterInfos, info.id ≠ .dr 4 ∧ info.id ≠ .dr 5 ∧ info.Covers o

theorem withFile_find {t : Tid} {th : ThreadState} (hth : s.threads.find t = some th)
    (regs : Registers) : (s.withFile t regs).threads.find t = some { th with regs } :=
  Threads.find_modify_self hth _

theorem writeRegister_reachesOnly {t : Tid} {th : ThreadState} {info : RegisterInfo} {v : Value}
    (hth : s.threads.find t = some th) (hinfo : info ∈ gRegisterInfos) (hv : v.size ≤ info.size) :
    s.ReachesOnly t info.Covers (writeRegister (some t) info v true) ↔
      s.Lands t ((s.storedFile th info v).requests info true) info.Covers
        (s.storedFile th info v).data := by
  have hplaced := RegisterInfo.placed hinfo
  have hth' : s.threads.find (s.valueOr (some t)) = some th := hth
  have hfind : (s.withFile t (s.storedFile th info v)).threads.find t =
      some { th with regs := s.storedFile th info v } := withFile_find hth _
  have huser : (s.withFile t (s.storedFile th info v)).user = s.user := rfl
  exact reachesOnly_iff huser hfind (fun u hu => writeRegister_taken hth' hplaced hv true hu)
    fun hnone => ⟨_, writeRegister_refused hth' hplaced hv true hnone⟩

theorem threadWrites_iff {t : Tid} {th : ThreadState} (hth : s.threads.find t = some th) :
    (∀ info ∈ gRegisterInfos, ∀ v : Value, v.size ≤ info.size →
      (s.ReachesOnly t info.Covers (writeRegister (some t) info v true) ↔
        s.Lands t ((s.storedFile th info v).requests info true) info.Covers
          (s.storedFile th info v).data)) ∧
    (∀ address : VirtAddr,
      (s.ReachesOnly t (defineGpr64 .rip 16).Covers (setPc address (some t)) ↔
        s.Lands t ((s.storedFile th (defineGpr64 .rip 16) (.u64 address)).requests
          (defineGpr64 .rip 16) true) (defineGpr64 .rip 16).Covers
          (s.storedFile th (defineGpr64 .rip 16) (.u64 address)).data)) ∧
    (s.ReachesOnly t RegisterBytes (flush (some t)) ↔
      s.Lands t (flushRequests th.regs.data) RegisterBytes th.regs.data) := by
  refine ⟨fun info hinfo v hv => writeRegister_reachesOnly hth hinfo hv, fun address => ?_, ?_⟩
  · have hrip : defineGpr64 .rip 16 ∈ gRegisterInfos := registerInfoBy_mem registerInfoById_rip
    have hset : setPc address (some t) =
        writeRegister (some t) (defineGpr64 .rip 16) (.u64 address) true := by
      unfold setPc writeRegisterById
      rw [registerInfoById_rip]
      rfl
    rw [hset]
    exact writeRegister_reachesOnly hth hrip le_rfl
  · have hhands : Hands (flushRequests th.regs.data) (flush (some t)) s := hands_flush hth
    refine reachesOnly_iff rfl hth hhands.taken fun hnone => ?_
    obtain ⟨request, -, hfails⟩ := hhands.refused hnone
    exact ⟨_, hfails⟩

def twoThreads : Process where
  pid := 1
  currentThread := 1
  threads := {
    entries := [{ tid := 1, regs := { data := fun _ => 0#8, tid := 1 } },
      { tid := 2, regs := { data := fun _ => 0#8, tid := 2 } }]
    nodup := by decide }
  casts := ⟨fun _ => 0#64, fun _ => 0#128, fun _ => 0#128, fun _ => 0#64⟩
  memory := ⟨fun _ => 0#8, fun _ => true⟩
  user _ _ := 0#8

theorem threadWrites_iff_leader : twoThreads.ReachesOnly 1 (defineGpr64 .rax 0).Covers
    (writeRegister (some 1) (defineGpr64 .rax 0) (.u64 5#64) true) := by
  have hrax : defineGpr64 .rax 0 ∈ gRegisterInfos := by decide +kernel
  refine ((threadWrites_iff (s := twoThreads) rfl).1 _ hrax (.u64 5#64) le_rfl).mpr ?_
  let file := twoThreads.storedFile { tid := 1, regs := { data := fun _ => 0#8, tid := 1 } }
    (defineGpr64 .rax 0) (.u64 5#64)
  have htaken : (twoThreads.handed (file.requests (defineGpr64 .rax 0) true)).any
      (fun u => (List.range 8).all fun i => u (80 + i) == file.data (80 + i)) = true := by
    decide +kernel
  obtain ⟨u, hu, hbytes⟩ := Option.any_eq_true _ _ |>.mp htaken
  refine ⟨u, hu, ?_⟩
  split_ifs with hlead
  · rintro o ⟨hlo, hhi⟩
    have hlow : 80 ≤ o := hlo
    have hhigh : o < 88 := hhi
    have hbyte := List.all_eq_true.mp hbytes (o - 80) (List.mem_range.mpr (by omega))
    rw [beq_iff_eq, Nat.add_sub_cancel' hlow] at hbyte
    exact hbyte
  · exact absurd rfl hlead

theorem threadWrites_not_for_all : ¬ ∀ (s : Process) (t : Tid) (th : ThreadState)
    (info : RegisterInfo) (v : Value), s.threads.find t = some th → info ∈ gRegisterInfos →
    v.size ≤ info.size → s.ReachesOnly t info.Covers (writeRegister (some t) info v true) := by
  intro h
  have hrax : defineGpr64 .rax 0 ∈ gRegisterInfos := by decide +kernel
  have hlaw := h twoThreads 2 _ (defineGpr64 .rax 0) (.u64 1#64) rfl hrax le_rfl
  rw [writeRegister_reachesOnly rfl hrax le_rfl] at hlaw
  obtain ⟨u, -, hlands⟩ := hlaw
  rw [if_neg (by decide)] at hlands
  exact absurd (hlands.2 80 (by decide)) (by decide)

end KDebugger.Process
