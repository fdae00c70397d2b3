import KDebugger.Process.SlotPlans

namespace KDebugger.Process

open ByteStream Words Exec RegisterKernel

variable {s s' : Process} {c masked : BitVec 64} {i size : ℕ} {v : Value}

/-- The leader is the only thread, and its register file has DR7 as the kernel has it. -/
structure Alone (s : Process) : Prop where
  tids : s.threads.tids = [s.pid]
  current : s.currentThread = s.pid
  control : s.debugControl = some (dr s 7)

theorem Alone.congr (h : Alone s) (hthreads : s'.threads = s.threads) (hpid : s'.pid = s.pid)
    (hcurrent : s'.currentThread = s.currentThread) (huser : s'.user = s.user) : Alone s' where
  tids := by rw [hthreads, hpid, h.tids]
  current := by rw [hcurrent, hpid, h.current]
  control := by
    have hcontrol : s'.debugControl = s.debugControl := by
      unfold debugControl
      rw [hthreads, hcurrent]
    have hdr : dr s' 7 = dr s 7 := by
      unfold dr
      rw [huser, hpid]
    rw [hcontrol, hdr, h.control]

theorem dr_eq_drOf (s : Process) (n : ℕ) : dr s n = drOf (s.user s.pid) n := rfl

theorem Alone.slotWords (h : Alone s) (n : ℕ) (v : Value) : ∃ w, s.slotWords n v = [w] := by
  obtain ⟨file, hfile, -⟩ := file_of_debugControl h.control
  refine ⟨storeWord s.casts v (file.words n), ?_⟩
  unfold Process.slotWords writtenThreads wordsOf
  rw [h.tids, h.current]
  rw [h.current] at hfile
  simp [hfile]

theorem Alone.slotWords_u64 (h : Alone s) (n : ℕ) (w : BitVec 64) :
    s.slotWords n (.u64 w) = [w] := by
  obtain ⟨file, hfile, -⟩ := file_of_debugControl h.control
  unfold Process.slotWords writtenThreads wordsOf
  rw [h.tids, h.current]
  rw [h.current] at hfile
  simp [hfile, storeWord_u64]

theorem Alone.find (h : Alone s) : ∃ th, s.threads.find (s.valueOr none) = some th := by
  obtain ⟨th, hth, -⟩ := debugControl_eq_some.mp h.control
  exact ⟨th, hth⟩

/-- A slot whose requests are stored as they are given. -/
structure SlotStored (s s' : Process) (i : ℕ) (masked : BitVec 64) : Prop where
  alone : Alone s'
  same : SameButRegisters s s'
  control : dr s' 7 = masked
  others : ∀ j < 4, j ≠ i → dr s' j = dr s j

theorem SlotWritten.stored (h : Alone s) {w : BitVec 64}
    (hw : SlotWritten s s' i v masked (slotRequests i masked [w])) (hi : i < 4)
    (hstored : s.handed (slotRequests i masked [w]) =
      some (overlayAll (slotRequests i masked [w]) (s.user s.pid))) :
    SlotStored s s' i masked ∧ dr s' i = w := by
  have huser : s'.user s'.pid = overlayAll (slotRequests i masked [w]) (s.user s.pid) := by
    have htaken := hw.taken
    rw [hstored] at htaken
    rw [hw.only.same.pid, Option.some.inj htaken]
  have hdr (m : ℕ) : dr s' m = if m = 7 then masked else if m = i then w else dr s m := by
    rw [dr_eq_drOf, huser, drOf_overlayAll]
    rfl
  refine ⟨⟨⟨?_, ?_, ?_⟩, hw.only.same, by simp [hdr], fun j hj hji => ?_⟩, ?_⟩
  · rw [hw.only.tids, hw.only.same.pid, h.tids]
  · rw [hw.only.current, hw.only.same.pid, h.current]
  · rw [hw.control h.control, hdr, if_pos rfl]
  · rw [hdr, if_neg (ne_seven hj), if_neg hji]
  · rw [hdr, if_neg (ne_seven hi), if_pos rfl]

theorem Alone.refused (h : Alone s) {n : Fin 8} (hn : (n : ℕ) ≠ 7) (hv : v.size ≤ 8) {w : BitVec 64}
    (hw : s.slotWords n v = [w])
    (hrefused : s.FirstRefused (slotRequests n masked [w])) :
    ∃ e s', writeRegisterById none (.dr n) v true s = .error e s' ∧ Alone s' ∧
      SameButRegisters s s' ∧ s'.user = s.user := by
  obtain ⟨th, hth⟩ := h.find
  have hword : w = storeWord s.casts v (th.regs.wordAt (drOffset n)) := by
    have hth' : s.threads.find s.pid = some th := by
      rw [← h.current]
      exact hth
    unfold Process.slotWords writtenThreads wordsOf debugFiles at hw
    rw [h.tids, h.current] at hw
    simpa [hth', eq_comm] using hw
  have hfirst : s.kernel.write (.word (drOffset n)) (s.storedFile th (defineDr n) v).data
      (s.user s.pid) = none := by
    obtain ⟨request, hhead, hnone⟩ := hrefused
    obtain rfl : (.word (drOffset n), fun o => byteOf w (o - drOffset n)) = request := by
      simpa [slotRequests, drRequests] using hhead
    rw [← hnone]
    apply RegisterKernel.write_congr
    rintro o ⟨hlo, hhi⟩
    have hlt : o - drOffset n < 8 := by omega
    have hstored := storedWord (s := s) (n := n) hv th n
    rw [if_pos rfl, ← hword] at hstored
    change _ = byteOf w (o - drOffset n)
    rw [← hstored, Registers.wordAt, byteOf_wordOf _ hlt, Nat.add_sub_cancel' hlo]
  have hfail := writeDr_refused hth hv hfirst
  have honly := within_writeRegisterById none (.dr n) v true s
  rw [after, hfail] at honly
  refine ⟨_, _, hfail, ⟨?_, ?_, ?_⟩, honly.same, rfl⟩
  · rw [honly.tids, honly.same.pid, h.tids]
  · rw [honly.current, honly.same.pid, h.current]
  · rw [debugControl_eq, debugFiles_withFile hth hv]
    obtain ⟨file, hfile, hcontrol⟩ := file_of_debugControl h.control
    have hfile' : s.debugFiles (s.valueOr none) = some file := hfile
    have hdr : dr (s.withFile (s.valueOr none) (s.storedFile th (defineDr n) v)) 7 = dr s 7 := rfl
    rw [hdr, ← hcontrol]
    change (changeFiles s.debugFiles [s.currentThread] _ s.currentThread).bind _ = _
    unfold changeFiles
    rw [if_pos (List.mem_singleton_self _), hfile]
    unfold DebugFile.control
    simp [DebugFile.store, Ne.symm hn]

/-- The operation has raised before any debug register was stored. -/
def LeftAlone (s s' : Process) : Prop := Alone s' ∧ SameButRegisters s s' ∧ s'.user = s.user

theorem Alone.set (h : Alone s) (address : VirtAddr) (mode : StoppointMode)
    (hsize : ValidSize size) (hsettles : ∀ l ∈ s.setPlan address mode size, s.Settles l) :
    (∃ e s', setHardwareStoppoint address mode size s = .error e s' ∧ LeftAlone s s') ∨
    ∃ i s', setHardwareStoppoint address mode size s = .ok i s' ∧ i < 4 ∧
      slotEnabled (dr s 7) i = false ∧ SlotStored s s' i
        (setSlot (dr s 7) i ((modeBits mode).setWidth 64) ((lengthBits size).setWidth 64)) ∧
      dr s' i = address := by
  obtain ⟨regs, hregs, hread⟩ := read_control h.control
  obtain ⟨-, hnone⟩ | ⟨i, hi, hoff, hfree⟩ := findFree_cases (dr s 7)
  · refine .inl ⟨noRegisters, s, ?_, h, rfl, rfl⟩
    unfold setHardwareStoppoint
    rw [bind_ok hregs, hread, bind_ok (ofExcept_ok _ _), hnone]
    rfl
  have hi8 : i < 8 := by omega
  have hwords := h.slotWords_u64 i address
  let masked := setSlot (dr s 7) i ((modeBits mode).setWidth 64) ((lengthBits size).setWidth 64)
  have hrequests : s.setRequests (dr s 7) i address mode size =
      slotRequests i masked [address] := by
    unfold setRequests
    rw [hwords]
  have hplan : s.setPlan address mode size = some (slotRequests i masked [address]) := by
    unfold setPlan
    rw [h.control, Option.bind_some, hfree]
    exact congrArg some hrequests
  obtain hrefused | hstored := hsettles _ hplan
  · left
    obtain ⟨e, s', hfail, hleft⟩ :=
      h.refused (n := ⟨i, hi8⟩) (ne_seven hi) (v := .u64 address) le_rfl hwords hrefused
    refine ⟨e, s', ?_, hleft⟩
    unfold setHardwareStoppoint
    rw [bind_ok hregs, hread, bind_ok (ofExcept_ok _ _), hfree, bind_ok (ofExcept_ok _ _),
      debugRegister_eq hi8, bind_ok (ofExcept_ok _ _), bind_error hfail]
  · right
    have hasks := asks_setHardwareStoppoint h.control hfree address mode hsize
    rw [hrequests] at hasks
    obtain ⟨s', hok, hwritten⟩ := hasks.written hstored
    obtain ⟨hslot, haddress⟩ := hwritten.stored h hi hstored
    exact ⟨i, s', hok, hi, hoff, hslot, haddress⟩

theorem Alone.clear (h : Alone s) (hi : i < 4) (hsettles : ∀ l ∈ s.clearPlan i, s.Settles l) :
    (∃ e s', clearHardwareStoppoint i s = .error e s' ∧ LeftAlone s s') ∨
    ∃ s', clearHardwareStoppoint i s = .ok () s' ∧ SlotStored s s' i (clearSlot (dr s 7) i) := by
  have hi8 : i < 8 := by omega
  obtain ⟨w, hwords⟩ := h.slotWords i (.i32 0#32)
  have hrequests : s.clearRequests (dr s 7) i = slotRequests i (clearSlot (dr s 7) i) [w] := by
    unfold clearRequests
    rw [hwords]
  have hplan : s.clearPlan i = some (slotRequests i (clearSlot (dr s 7) i) [w]) := by
    unfold clearPlan
    rw [if_pos ⟨by omega, by omega⟩, h.control, Int.toNat_natCast]
    exact congrArg some hrequests
  obtain hrefused | hstored := hsettles _ hplan
  · left
    obtain ⟨e, s', hfail, hleft⟩ :=
      h.refused (n := ⟨i, hi8⟩) (ne_seven hi) (v := .i32 0#32) (by decide) hwords hrefused
    refine ⟨e, s', ?_, hleft⟩
    unfold clearHardwareStoppoint
    rw [debugRegister_eq hi8, bind_ok (ofExcept_ok _ _), bind_error hfail]
  · right
    have hasks := asks_clearHardwareStoppoint h.control hi
    rw [hrequests] at hasks
    obtain ⟨s', hok, hwritten⟩ := hasks.written hstored
    exact ⟨s', hok, (hwritten.stored h hi hstored).1⟩

end KDebugger.Process
