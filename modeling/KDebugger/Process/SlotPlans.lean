import KDebugger.Process.DebugRegisters

namespace KDebugger.Process

open ByteStream Words Exec RegisterKernel

variable {s s' : Process} {c masked : BitVec 64} {i size : ℕ} {address : VirtAddr}
  {mode : StoppointMode} {index : ℤ} {l : List (UserPart × UserArea)} {v : Value}

/-- The slots that can be cleared. -/
def ClearIndex (index : ℤ) : Prop := 0 ≤ index ∧ index < 4

instance (index : ℤ) : Decidable (ClearIndex index) := inferInstanceAs (Decidable (_ ∧ _))

/-- What setting a stoppoint asks of the kernel: DR7 is to be known and to have a free slot. -/
def setPlan (s : Process) (address : VirtAddr) (mode : StoppointMode) (size : ℕ) :
    Option (List (UserPart × UserArea)) :=
  s.debugControl.bind fun c => (findFreeStoppointRegister c).toOption.map fun i =>
    s.setRequests c i address mode size

/-- What clearing a slot asks of the kernel. -/
def clearPlan (s : Process) (index : ℤ) : Option (List (UserPart × UserArea)) :=
  if ClearIndex index then s.debugControl.map fun c => s.clearRequests c index.toNat else none

/-- There is a plan, and the kernel takes each of its requests. -/
def Takes (s : Process) (plan : Option (List (UserPart × UserArea))) : Prop :=
  (plan.bind s.handed).isSome = true

instance (s : Process) (plan : Option (List (UserPart × UserArea))) : Decidable (s.Takes plan) :=
  inferInstanceAs (Decidable (_ = true))

theorem takes_some : s.Takes (some l) ↔ ∃ u, s.handed l = some u := Option.isSome_iff_exists

theorem not_takes_none : ¬ s.Takes none := Bool.false_ne_true

/-- Slot `i` has been written, in the files and by the requests. -/
structure SlotWritten (s s' : Process) (i : ℕ) (v : Value) (masked : BitVec 64)
    (l : List (UserPart × UserArea)) : Prop where
  only : RegistersOnly s s'
  taken : s.handed l = some (s'.user s.pid)
  files : s'.debugFiles = fun t => (s.debugFiles t).map (DebugFile.slot s.casts i v masked)

theorem Asks.written {α : Type} {a : α} {p : M α} (h : Asks l a
    (fun t => (s.debugFiles t).map (DebugFile.slot s.casts i v masked)) p s) {u : UserArea}
    (hu : s.handed l = some u) : ∃ s', p s = .ok a s' ∧ SlotWritten s s' i v masked l := by
  obtain ⟨s', hok, honly, huser, hfiles⟩ := h.taken u hu
  exact ⟨s', hok, honly, by rw [huser, hu], hfiles⟩

theorem findFree_error {e : Failure} (h : findFreeStoppointRegister c = .error e) :
    NoSlotFree c ∧ e = noRegisters := by
  have hnone : NoSlotFree c := by
    by_contra hfree
    obtain ⟨i, -, hi⟩ := findFree_some hfree
    rw [hi] at h
    cases h
  rw [findFree_none hnone] at h
  exact ⟨hnone, (Except.error.inj h).symm⟩

theorem findFree_cases (c : BitVec 64) :
    (NoSlotFree c ∧ findFreeStoppointRegister c = .error noRegisters) ∨
    ∃ i, i < 4 ∧ slotEnabled c i = false ∧ findFreeStoppointRegister c = .ok i := by
  cases h : findFreeStoppointRegister c with
  | error e =>
    obtain ⟨hnone, rfl⟩ := findFree_error h
    exact .inl ⟨hnone, rfl⟩
  | ok i => exact .inr ⟨i, (findFree_ok h).1, (findFree_ok h).2, rfl⟩

/-- A stoppoint of a valid size is set exactly where its plan is taken. -/
theorem setHardwareStoppoint_ends (address : VirtAddr) (mode : StoppointMode)
    (hsize : ValidSize size) :
    (s.Takes (s.setPlan address mode size) ∧ ∃ c i s', s.debugControl = some c ∧
      findFreeStoppointRegister c = .ok i ∧ setHardwareStoppoint address mode size s = .ok i s' ∧
      SlotWritten s s' i (.u64 address)
        (setSlot c i ((modeBits mode).setWidth 64) ((lengthBits size).setWidth 64))
        (s.setRequests c i address mode size)) ∨
    ¬ s.Takes (s.setPlan address mode size) ∧
      ∃ e s', setHardwareStoppoint address mode size s = .error e s' := by
  -- the cases are those of the code: DR7 unread, no slot free, a refusal, and the end
  unfold setPlan
  cases hc : s.debugControl with
  | none =>
    obtain ⟨e, hfail⟩ := read_no_control (s := s) (f := fun control => do
      let freeSpace ← ofExcept (findFreeStoppointRegister control)
      let id ← ofExcept (debugRegister freeSpace)
      writeRegisterById none id (.u64 address) true
      let sizeFlag ← ofExcept (encodeHardwareStoppointSize size)
      let masked := setSlot control freeSpace (encodeHardwareStoppointMode mode) sizeFlag
      writeRegisterById none (.dr 7) (.u64 masked) true
      writeOtherThreads id (.u64 address) masked
      pure freeSpace) hc
    exact .inr ⟨not_takes_none, e, s, hfail⟩
  | some c =>
    rw [Option.bind_some]
    obtain ⟨-, hnone⟩ | ⟨i, hi, hoff, hfree⟩ := findFree_cases c
    · rw [hnone]
      refine .inr ⟨not_takes_none, noRegisters, s, ?_⟩
      obtain ⟨regs, hregs, hread⟩ := read_control hc
      unfold setHardwareStoppoint
      rw [bind_ok hregs, hread, bind_ok (ofExcept_ok _ _), hnone]
      rfl
    · have hasks := asks_setHardwareStoppoint hc hfree address mode hsize
      rw [hfree]
      cases hu : s.handed (s.setRequests c i address mode size) with
      | none =>
        obtain ⟨s', hfail⟩ := hasks.refused hu
        refine .inr ⟨?_, _, s', hfail⟩
        rintro htakes
        obtain ⟨u, hsome⟩ := takes_some.mp htakes
        rw [hu] at hsome
        cases hsome
      | some u =>
        obtain ⟨s', hok, hwritten⟩ := hasks.written hu
        exact .inl ⟨takes_some.mpr ⟨u, hu⟩, c, i, s', rfl, hfree, hok, hwritten⟩

theorem debugControl_of_writeDr {n : Fin 8} (hn : (n : ℕ) ≠ 7) (hv : v.size ≤ 8)
    (hok : writeRegisterById none (.dr n) v true s = .ok () s') :
    s'.debugControl = s.debugControl := by
  cases hth : s.threads.find (s.valueOr none) with
  | none =>
    unfold writeRegisterById writeRegister at hok
    rw [registerInfoById_dr, bind_ok (ofExcept_ok _ _), bind_ok (get_eq s),
      bind_error (getRegisters_error hth)] at hok
    cases hok
  | some th =>
    have hasks := asks_writeDr (n := n) hth hv
    cases hu : s.handed (drRequests n (storeWord s.casts v (th.regs.wordAt (drOffset n)))) with
    | none =>
      obtain ⟨s₁, hfail⟩ := hasks.refused hu
      rw [hfail] at hok
      cases hok
    | some u =>
      obtain ⟨s₁, hdone, honly, -, hfiles⟩ := hasks.taken u hu
      obtain rfl : s₁ = s' := by
        rw [hdone] at hok
        cases hok
        rfl
      have hcurrent : s.valueOr none = s.currentThread := rfl
      rw [hcurrent] at hfiles
      rw [debugControl_eq, debugControl_eq, hfiles, honly.current]
      unfold changeFiles
      rw [if_pos (List.mem_singleton_self _), Option.bind_map]
      apply Option.bind_congr
      intro file _
      unfold DebugFile.control
      simp [DebugFile.store, Ne.symm hn]

theorem shiftIndex_error (h : ¬ ClearIndex index) : shiftIndex index = .error .undefined := by
  unfold ClearIndex at h
  cases index with
  | ofNat k =>
    have hk : ¬ k * 4 + 16 < 32 := by
      simp only [Int.ofNat_eq_natCast] at h
      omega
    exact if_neg hk
  | negSucc k => rfl

theorem clear_no_slot (h : ¬ ClearIndex index) :
    ∃ e s', clearHardwareStoppoint index s = .error e s' := by
  cases hclear : clearHardwareStoppoint index s with
  | error e s' => exact ⟨e, s', rfl⟩
  | ok u s' =>
    exfalso
    obtain ⟨id, s₁, -, hwrite⟩ := bind_eq_ok.mp hclear
    obtain ⟨_, s₂, -, hregs⟩ := bind_eq_ok.mp hwrite
    obtain ⟨regs, s₃, -, hread⟩ := bind_eq_ok.mp hregs
    obtain ⟨c, s₄, -, hshift⟩ := bind_eq_ok.mp hread
    rw [shiftIndex_error h, bind_error (ofExcept_error _ _)] at hshift
    cases hshift

theorem clear_no_control (hi : i < 4) (hnone : s.debugControl = none) :
    ∃ e s', clearHardwareStoppoint i s = .error e s' := by
  unfold clearHardwareStoppoint
  rw [debugRegister_eq (by omega), bind_ok (ofExcept_ok _ _)]
  cases hwrite : writeRegisterById none (.dr ⟨i, by omega⟩) (.i32 0#32) true s with
  | error e s₁ => exact ⟨e, s₁, bind_error hwrite⟩
  | ok u s₁ =>
    have hkeep := debugControl_of_writeDr (ne_seven hi) (by decide) hwrite
    obtain ⟨e, hread⟩ := read_no_control (hkeep.trans hnone)
    exact ⟨e, s₁, (bind_ok hwrite).trans hread⟩

theorem clearHardwareStoppoint_ends (index : ℤ) :
    (s.Takes (s.clearPlan index) ∧ ∃ c i s', s.debugControl = some c ∧ index = (i : ℕ) ∧ i < 4 ∧
      clearHardwareStoppoint index s = .ok () s' ∧
      SlotWritten s s' i (.i32 0#32) (clearSlot c i) (s.clearRequests c i)) ∨
    ¬ s.Takes (s.clearPlan index) ∧ ∃ e s', clearHardwareStoppoint index s = .error e s' := by
  unfold clearPlan
  by_cases hindex : ClearIndex index
  · obtain ⟨hnonneg, hlt⟩ := hindex
    obtain ⟨i, rfl⟩ := Int.eq_ofNat_of_zero_le hnonneg
    have hi : i < 4 := by omega
    rw [if_pos ⟨hnonneg, hlt⟩, Int.toNat_natCast]
    cases hc : s.debugControl with
    | none => exact .inr ⟨not_takes_none, clear_no_control hi hc⟩
    | some c =>
      have hasks := asks_clearHardwareStoppoint hc hi
      rw [Option.map_some]
      cases hu : s.handed (s.clearRequests c i) with
      | none =>
        obtain ⟨s', hfail⟩ := hasks.refused hu
        refine .inr ⟨fun htakes => ?_, _, s', hfail⟩
        obtain ⟨u, hsome⟩ := takes_some.mp htakes
        rw [hu] at hsome
        cases hsome
      | some u =>
        obtain ⟨s', hok, hwritten⟩ := hasks.written hu
        exact .inl ⟨takes_some.mpr ⟨u, hu⟩, c, i, s', rfl, rfl, hi, hok, hwritten⟩
  · rw [if_neg hindex]
    exact .inr ⟨not_takes_none, clear_no_slot hindex⟩

theorem SlotWritten.control (h : SlotWritten s s' i v masked l) (hc : s.debugControl = some c) :
    s'.debugControl = some masked := debugControl_slot hc h.only h.files

theorem SlotWritten.handed (h : SlotWritten s s' i v masked l) (l' : List (UserPart × UserArea)) :
    s'.handed l' = s.handed (l ++ l') := by
  rw [handed_append_eq, h.taken, Option.bind_some, h.only.handed rfl]

theorem byteOf_storeWord (casts : FloatCasts) (v : Value) (w : BitVec 64) {b : ℕ} (hb : b < 8) :
    byteOf (storeWord casts v w) b =
      if b < v.size then byteOf (widen casts (defineDr 0) v) b else byteOf w b :=
  byteOf_wordOf _ hb

theorem storeWord_storeWord (casts : FloatCasts) (v : Value) (w : BitVec 64) :
    storeWord casts v (storeWord casts v w) = storeWord casts v w := by
  apply word_ext
  intro b hb
  simp only [byteOf_storeWord casts v _ hb]
  split_ifs <;> rfl

theorem wordsOf_map {casts : FloatCasts} {g : DebugFile → DebugFile} {n : ℕ}
    (h : ∀ file, storeWord casts v ((g file).words n) = storeWord casts v (file.words n))
    (files : Tid → Option DebugFile) (ts : List Tid) :
    wordsOf casts (fun t => (files t).map g) n v ts = wordsOf casts files n v ts := by
  have hword (t : Tid) : ((files t).map g).map (fun file => storeWord casts v (file.words n)) =
      (files t).map fun file => storeWord casts v (file.words n) := by
    cases files t with
    | none => rfl
    | some file => exact congrArg some (h file)
  simp only [wordsOf, hword]

theorem SlotWritten.slotWords_eq (h : SlotWritten s s' i v masked l) {v' : Value} {n : ℕ}
    (hstore : ∀ file : DebugFile, storeWord s.casts v' ((file.slot s.casts i v masked).words n) =
      storeWord s.casts v' (file.words n)) : s'.slotWords n v' = s.slotWords n v' := by
  unfold slotWords writtenThreads
  rw [h.only.floatCasts, h.only.current, h.only.tids, h.files, wordsOf_map hstore]

theorem SlotWritten.slotWords_u64 (h : SlotWritten s s' i v masked l) (n : ℕ) (w : BitVec 64) :
    s'.slotWords n (.u64 w) = s.slotWords n (.u64 w) :=
  h.slotWords_eq fun _ => by simp only [storeWord_u64]

/-- The same value has been stored in one of the registers, and nothing in the others. -/
theorem SlotWritten.slotWords_same (h : SlotWritten s s' i v masked l) {n : ℕ} (hn : n < 4) :
    s'.slotWords n v = s.slotWords n v := by
  refine h.slotWords_eq fun file => ?_
  have hwords : (file.slot s.casts i v masked).words n =
      if n = i then storeWord s.casts v (file.words i) else file.words n := by
    simp only [DebugFile.slot, DebugFile.store, Function.update_apply, if_neg (ne_seven hn)]
  rw [hwords]
  split_ifs with hni
  · rw [storeWord_storeWord, hni]
  · rfl

/-- A debug register among the registers of a thread. -/
def drOf (u : UserArea) (n : ℕ) : BitVec 64 := wordOf fun i => u (drOffset n + i)

theorem drOf_overlay (u : UserArea) (n m : ℕ) (w : BitVec 64) :
    drOf ((UserPart.word (drOffset n)).overlay (fun o => byteOf w (o - drOffset n)) u) m =
      if m = n then w else drOf u m := by
  split_ifs with h
  · subst h
    conv_rhs => rw [← wordOf_byteOf w]
    apply wordOf_congr
    intro i hi
    have hcovers : (UserPart.word (drOffset m)).Covers (drOffset m + i) := ⟨by omega, by omega⟩
    refine (if_pos hcovers).trans ?_
    change byteOf w (drOffset m + i - drOffset m) = _
    rw [Nat.add_sub_cancel_left]
  · apply wordOf_congr
    intro i hi
    refine if_neg fun hcovers => ?_
    obtain ⟨hlo, hhi⟩ := hcovers
    unfold drOffset at hlo hhi
    omega

theorem drOf_overlayAll (u : UserArea) (n m : ℕ) (w : BitVec 64) :
    drOf (overlayAll (slotRequests n masked [w]) u) m =
      if m = 7 then masked else if m = n then w else drOf u m := by
  have hlist : slotRequests n masked [w] =
      [(.word (drOffset n), fun o => byteOf w (o - drOffset n)),
        (.word (drOffset n), fun o => byteOf w (o - drOffset n)),
        (.word (drOffset 7), fun o => byteOf masked (o - drOffset 7)),
        (.word (drOffset 7), fun o => byteOf masked (o - drOffset 7))] := rfl
  rw [hlist]
  simp only [overlayAll, List.foldl_cons, List.foldl_nil, UserPart.overlay_overlay, drOf_overlay]

theorem writeDr_refused {n : Fin 8} {otid : Option Tid} {th : ThreadState}
    (hth : s.threads.find (s.valueOr otid) = some th) (hv : v.size ≤ 8)
    (hrefused : s.kernel.write (.word (drOffset n))
      (s.storedFile th (defineDr n) v).data (s.user s.pid) = none) :
    writeRegisterById otid (.dr n) v true s = .error (requestError (.word 0))
      (s.withFile (s.valueOr otid) (s.storedFile th (defineDr n) v)) := by
  have hplaced : (defineDr n).Placed :=
    RegisterInfo.placed (registerInfoBy_mem (registerInfoById_dr n))
  unfold writeRegisterById
  rw [registerInfoById_dr, bind_ok (ofExcept_ok _ _), writeRegister_eq hth hv]
  apply bind_error
  rw [deliver_eq _ hplaced, dr_part]
  exact pokeRegisters_refused hrefused

/-- The first of the requests is refused. -/
def FirstRefused (s : Process) (l : List (UserPart × UserArea)) : Prop :=
  ∃ request ∈ l.head?, s.kernel.write request.1 request.2 (s.user s.pid) = none

/-- The kernel refuses the first of the requests, or it stores them all as they are given. -/
def Settles (s : Process) (l : List (UserPart × UserArea)) : Prop :=
  s.FirstRefused l ∨ s.handed l = some (overlayAll l (s.user s.pid))

theorem isDebug_of_slotRequests {words : List (BitVec 64)} :
    ∀ request ∈ slotRequests i masked words, request.1.IsDebug := by
  intro request hmem
  obtain ⟨w, -, hw⟩ := List.mem_flatMap.mp hmem
  have hdebug (n : ℕ) : (UserPart.word (drOffset n)).IsDebug := by
    unfold UserPart.IsDebug drOffset
    omega
  obtain hrequest | hrequest := List.mem_append.mp hw
  · rw [List.eq_of_mem_replicate hrequest]
    exact hdebug i
  · rw [List.eq_of_mem_replicate hrequest]
    exact hdebug 7

theorem settles_x86 {words : List (BitVec 64)} (hx86 : s.kernel = .x86)
    (h : (s.handed (slotRequests i masked words)).isSome = true) :
    s.Settles (slotRequests i masked words) := by
  right
  unfold Process.handed at h ⊢
  rw [hx86] at h ⊢
  exact x86_writes_debug isDebug_of_slotRequests h

end KDebugger.Process
