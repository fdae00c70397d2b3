import KDebugger.Process.RegisterFrames
import KDebugger.Process.BreakpointRuns

namespace KDebugger.Process

open ByteStream Words Exec Memory StoppointCollection

def wordToWrite (address : VirtAddr) (data : List Byte) : M (BitVec 64) :=
  if 8 ≤ data.length then pure (fromBytes 8 (data.take 8))
  else do
    let read ← readMemory address 8
    pure (fromBytes 8 (data ++ read.drop data.length))

/-- The loop of `write_memory`; a step takes at least a byte, which bounds it. -/
def writeWords : ℕ → VirtAddr → List Byte → M Unit
  | 0, _, _ => pure ()
  | fuel + 1, address, data =>
    if data = [] then pure ()
    else do
      -- the last word is filled up with what is there
      let word ← wordToWrite address data
      pokeData "Failed to write memory" address word
      writeWords fuel (address + 8#64) (data.drop 8)

def writeMemory (address : VirtAddr) (data : List Byte) : M Unit :=
  writeWords data.length address data

variable {s s' : Process} {a : VirtAddr} {data : List Byte}

theorem pokeData_ok {what : String} {w : BitVec 64} (h : pokeData what a w s = .ok () s') :
    s.memory.isMapped a 8 = true ∧ s' = { s with memory := s.memory.store a w } := by
  by_cases hm : s.memory.isMapped a 8 = true
  · rw [pokeData_eq hm] at h
    injection h with _ h
    exact ⟨hm, h.symm⟩
  · have hpoke : s.memory.poke a w = none := if_neg hm
    have herr : pokeData what a w s = .error (.raised what) s := by
      unfold pokeData
      rw [bind_ok (get_eq s), hpoke]
      rfl
    rw [herr] at h
    cases h

theorem within_wordToWrite (address : VirtAddr) (data : List Byte) :
    Within (fun s s' => s' = s) (wordToWrite address data) := by
  apply within_ite (unchanged.pure _)
  exact unchanged.bind (within_readMemory unchanged _ _) fun _ => unchanged.pure _

theorem wordToWrite_ok {w : BitVec 64} (hm : s.memory.isMapped a 8 = true)
    (h : wordToWrite a data s = .ok w s') :
    s.memory.store a w = s.memory.overlay a (data.take 8) := by
  unfold wordToWrite at h
  split_ifs at h with hlen
  · cases h
    exact store_fromBytes _ _ (by rw [List.length_take, Nat.min_eq_left hlen])
  · rw [bind_ok (readMemory_eq hm)] at h
    cases h
    rw [store_fromBytes _ _ (by simp; omega), overlay_drop_bytes,
      List.take_of_length_le (by omega)]

theorem writeWords_ok {fuel : ℕ} (hfuel : data.length ≤ fuel) (hlen : data.length ≤ 2 ^ 64)
    (h : writeWords fuel a data s = .ok () s') :
    s.memory.isMapped a data.length = true ∧
      s' = { s with memory := s.memory.overlay a data } := by
  -- by induction on the words of the data
  induction fuel generalizing a data s with
  | zero =>
    obtain rfl : data = [] := List.length_eq_zero_iff.mp (by omega)
    cases h
    exact ⟨rfl, by rw [overlay_nil]⟩
  | succ fuel ih =>
    unfold writeWords at h
    split_ifs at h with hnil
    · subst hnil
      cases h
      exact ⟨rfl, by rw [overlay_nil]⟩
    · obtain ⟨w, s₁, hword, hrest⟩ := bind_eq_ok.mp h
      obtain rfl : s₁ = s := (within_wordToWrite a data).ok hword
      obtain ⟨_, s₂, hpoke, hloop⟩ := bind_eq_ok.mp hrest
      obtain ⟨hm, rfl⟩ := pokeData_ok hpoke
      rw [wordToWrite_ok hm hword] at hloop
      have hpos : 0 < data.length := List.length_pos_iff.mpr hnil
      obtain ⟨hm', rfl⟩ := ih (by simp; omega) (by simp; omega) hloop
      by_cases h8 : 8 ≤ data.length
      · have htake : (data.take 8).length = 8 := by rw [List.length_take, Nat.min_eq_left h8]
        have hfits : (data.take 8).length + (data.drop 8).length ≤ 2 ^ 64 := by simp; omega
        have happend := overlay_append s₁.memory a hfits
        rw [htake, List.take_append_drop] at happend
        refine ⟨?_, by simp only [← happend]; rfl⟩
        rw [← Nat.add_sub_cancel' h8, isMapped_add, hm, Bool.true_and]
        rw [List.length_drop] at hm'
        exact hm'
      · have hdrop : data.drop 8 = [] := List.drop_of_length_le (by omega)
        have htake : data.take 8 = data := List.take_of_length_le (by omega)
        refine ⟨?_, by simp only [hdrop, htake, overlay_nil]⟩
        have hsplit : 8 = data.length + (8 - data.length) := by omega
        rw [hsplit, isMapped_add, Bool.and_eq_true] at hm
        exact hm.1

/-- An enabled software site. -/
def Armed (site : BreakpointSite) : Prop :=
  site.isEnabled = true ∧ site.isHardware = false

instance (site : BreakpointSite) : Decidable (Armed site) := inferInstanceAs (Decidable (_ ∧ _))

/-- Sites at distinct addresses, the enabled software ones with their trap in mapped
memory. -/
structure TrapsSet (s : Process) : Prop where
  distinct : (s.breakpointSites.map BreakpointSite.address).Nodup
  trap : ∀ site ∈ s.breakpointSites, Armed site → s.memory.byte site.address = 0xcc#8
  mapped : ∀ site ∈ s.breakpointSites, Armed site → s.memory.isMapped site.address 8 = true

/-- What a write is meant to leave: its data to be read, the traps in place, and the data
still there when sites are disabled later. -/
structure DataWritten (a : VirtAddr) (data : List Byte) (s : Process) : Prop where
  read : readMemoryWithoutTraps a data.length s = .ok data s
  traps : ∀ site ∈ s.breakpointSites, Armed site → s.memory.byte site.address = 0xcc#8
  disabled : ∀ is : List ℕ, ∀ i (hi : i < data.length),
    (∀ site ∈ (runAll disableSite s is).breakpointSites, Armed site → site.address ≠ plus a i) →
      (runAll disableSite s is).memory.byte (plus a i) = data[i]

/-- A trap in the range of the write is there again, as the byte of the data and as the
saved byte. -/
def WritesTraps (s : Process) (a : VirtAddr) (data : List Byte) : Prop :=
  ∀ site ∈ s.breakpointSites, Armed site → ∀ i (hi : i < data.length), site.address = plus a i →
    data[i] = 0xcc#8 ∧ site.savedData = 0xcc#8

/-- The data are in memory, and the saved bytes in their range agree with them. -/
structure Laid (a : VirtAddr) (data : List Byte) (s : Process) : Prop where
  byte : ∀ i (hi : i < data.length), s.memory.byte (plus a i) = data[i]
  saved : ∀ site ∈ s.breakpointSites, Armed site → ∀ i (hi : i < data.length),
    site.address = plus a i → data[i] = site.savedData

theorem siteAt_none {i : ℕ} (h : s.breakpointSites[i]? = none) :
    siteAt i s = .error .undefined s := by
  unfold siteAt
  rw [bind_ok (get_eq s), h]
  rfl

theorem peekData_error {what : String} (hm : ¬ s.memory.isMapped a 8 = true) :
    peekData what a s = .error (.raised what) s := by
  have hpeek : s.memory.peek a = none := if_neg hm
  unfold peekData
  rw [bind_ok (get_eq s), hpeek]
  rfl

open KDebugger.Splits

theorem Laid.replace {site site' : BreakpointSite} {l₁ l₂ : List BreakpointSite}
    (h : Laid a data s) (hsplit : s.breakpointSites = l₁ ++ site :: l₂) (hoff : ¬ Armed site')
    (hsites : s'.breakpointSites = l₁ ++ site' :: l₂)
    (hbyte : ∀ i (hi : i < data.length), s'.memory.byte (plus a i) = data[i]) :
    Laid a data s' where
  byte := hbyte
  saved := by
    rw [hsites]
    exact forall_mem_replace (hsplit ▸ h.saved) fun hon => absurd hon hoff

theorem laid_disableHardware {site : BreakpointSite} {l₁ l₂ : List BreakpointSite}
    (h : Laid a data s) (hsplit : s.breakpointSites = l₁ ++ site :: l₂)
    (hon : site.isEnabled = true) (hhw : site.isHardware = true) :
    Laid a data (after (disableSite l₁.length) s) := by
  unfold disableSite
  rw [after_bind_ok (siteAt_split hsplit)]
  simp only [hon, hhw, Bool.true_eq_false, if_false, if_true]
  cases hclear : clearHardwareStoppoint site.hardwareRegisterIndex s with
  | error e s₁ =>
    have hsame := (within_clearHardwareStoppoint site.hardwareRegisterIndex s).same
    rw [after, hclear] at hsame
    rw [after_bind_error hclear]
    exact ⟨hsame.memory ▸ h.byte, hsame.sites ▸ h.saved⟩
  | ok u s₁ =>
    have hsame := ((within_clearHardwareStoppoint _).ok hclear).same
    have hsplit₁ := hsame.sites.trans hsplit
    let s₂ : Process := { s₁ with
      breakpointSites := l₁ ++ { site with hardwareRegisterIndex := -1 } :: l₂ }
    rw [after_bind_ok hclear, after_bind_ok (modifySite_split hsplit₁ _), after,
      modifySite_split (s := s₂) rfl]
    refine h.replace hsplit ?_ rfl (hsame.memory ▸ h.byte)
    rintro ⟨hoff, -⟩
    exact absurd hoff Bool.false_ne_true

theorem laid_disableSoftware {site : BreakpointSite} {l₁ l₂ : List BreakpointSite}
    (h : Laid a data s) (hsplit : s.breakpointSites = l₁ ++ site :: l₂) (harmed : Armed site) :
    Laid a data (after (disableSite l₁.length) s) := by
  by_cases hm : s.memory.isMapped site.address 8 = true
  · simp only [after, disableSite_eq hsplit hm harmed.2 harmed.1]
    refine h.replace hsplit ?_ rfl fun i hi => ?_
    · rintro ⟨hoff, -⟩
      exact absurd hoff Bool.false_ne_true
    · by_cases hat : site.address = plus a i
      · have hin := h.saved site (by simp [hsplit]) harmed i hi hat
        simp only [setByte, hat, Function.update_self, hin]
      · simp only [setByte, Function.update_of_ne (Ne.symm hat)]
        exact h.byte i hi
  · unfold disableSite
    rw [after_bind_ok (siteAt_split hsplit)]
    simp only [harmed.1, harmed.2, Bool.false_eq_true, Bool.true_eq_false, if_false]
    rw [after_bind_error (peekData_error hm)]
    exact h

theorem laid_disableSite (h : Laid a data s) (i : ℕ) : Laid a data (after (disableSite i) s) := by
  cases hi : s.breakpointSites[i]? with
  | none =>
    unfold disableSite
    rw [after_bind_error (siteAt_none hi)]
    exact h
  | some site =>
    obtain ⟨l₁, l₂, hsplit, rfl⟩ := exists_split hi
    cases hon : site.isEnabled with
    | false =>
      unfold disableSite
      rw [after_bind_ok (siteAt_split hsplit), if_pos hon]
      exact h
    | true =>
      cases hhw : site.isHardware with
      | true => exact laid_disableHardware h hsplit hon hhw
      | false => exact laid_disableSoftware h hsplit ⟨hon, hhw⟩

theorem laid_disableSites (h : Laid a data s) (is : List ℕ) :
    Laid a data (runAll disableSite s is) := by
  induction is generalizing s with
  | nil => exact h
  | cons i is ih => exact ih (laid_disableSite h i)

theorem foldl_withoutTrap_same {sites : List BreakpointSite}
    (h : ∀ site ∈ sites, Armed site → ∀ i (hi : i < data.length), site.address = plus a i →
      data[i] = site.savedData) : sites.foldl (withoutTrap a) data = data := by
  induction sites with
  | nil => rfl
  | cons site sites ih =>
    have hput : withoutTrap a data site = data := by
      unfold withoutTrap
      split_ifs with hno
      · rfl
      · have harmed : Armed site := by simpa [Armed] using hno
        by_cases hk : (site.address - a).toNat < data.length
        · have hsaved := h site (List.mem_cons_self ..) harmed _ hk (plus_sub _ _).symm
          rw [← hsaved, List.set_getElem_self]
        · rw [List.set_eq_of_length_le (by omega)]
    rw [List.foldl_cons, hput]
    exact ih fun x hx => h x (List.mem_cons_of_mem site hx)

theorem not_armed_cleared (site : BreakpointSite) : ¬ Armed (BreakpointSite.cleared site) := by
  rintro ⟨hoff, -⟩
  exact absurd hoff Bool.false_ne_true

theorem writesTraps_of_dataWritten (h : TrapsSet s) (hlen : data.length < 2 ^ 64)
    (hsites : s'.breakpointSites = s.breakpointSites)
    (hmem : s'.memory = s.memory.overlay a data) (hdata : DataWritten a data s') :
    WritesTraps s a data := by
  intro site hsite harmed i hi hat
  have htrap : data[i] = 0xcc#8 := by
    rw [← overlay_byte_plus s.memory a hi (Nat.le_of_lt hlen), ← hmem, ← hat]
    exact hdata.traps site (hsites ▸ hsite) harmed
  refine ⟨htrap, ?_⟩
  obtain ⟨l₁, l₂, hsplit⟩ := List.append_of_mem hsite
  have hm : s'.memory.isMapped site.address 8 = true := by
    rw [hmem]
    exact h.mapped site hsite harmed
  have hdisable := disableSite_eq (hsites.trans hsplit) hm harmed.2 harmed.1
  have hlater := hdata.disabled [l₁.length] i hi
  simp only [runAll_cons, runAll_nil, after, hdisable] at hlater
  rw [← htrap, ← hlater]
  · simp only [setByte, ← hat, Function.update_self]
  -- nobody else is at the address of the site
  · have hdistinct := h.distinct
    rw [hsplit] at hdistinct
    rw [← hat]
    intro other hother hon
    simp only [List.mem_append, List.mem_cons] at hother
    obtain hmem | rfl | hmem := hother
    · exact key_ne hdistinct other (List.mem_append_left _ hmem)
    · exact absurd hon (not_armed_cleared site)
    · exact key_ne hdistinct other (List.mem_append_right _ hmem)

theorem dataWritten_of_writesTraps (h : TrapsSet s) (hlen : data.length < 2 ^ 64)
    (hmapped : s.memory.isMapped a data.length = true)
    (hsites : s'.breakpointSites = s.breakpointSites)
    (hmem : s'.memory = s.memory.overlay a data) (htraps : WritesTraps s a data) :
    DataWritten a data s' := by
  have hlaid : Laid a data s' := by
    refine ⟨fun i hi => ?_, fun site hsite harmed i hi hat => ?_⟩
    · rw [hmem]
      exact overlay_byte_plus _ _ hi (Nat.le_of_lt hlen)
    · obtain ⟨hd, hs⟩ := htraps site (hsites ▸ hsite) harmed i hi hat
      rw [hd, hs]
  refine ⟨?_, fun site hsite harmed => ?_, fun is i hi _ => (laid_disableSites hlaid is).byte i hi⟩
  · have hread : s'.memory.isMapped a data.length = true := by
      rw [hmem]
      exact hmapped
    unfold readMemoryWithoutTraps
    rw [bind_ok (readMemory_eq hread), hmem, bytes_overlay _ _ (Nat.le_of_lt hlen)]
    refine congrArg (fun l => EStateM.Result.ok l s') ?_
    exact foldl_withoutTrap_same fun site hsite => hlaid.saved site (List.mem_of_mem_filter hsite)
  · rw [hsites] at hsite
    by_cases hk : (site.address - a).toNat < data.length
    · have hat := (plus_sub site.address a).symm
      rw [hat, hlaid.byte _ hk]
      exact (htraps site hsite harmed _ hk hat).1
    · rw [hmem, overlay_byte_of_le _ (by omega)]
      exact h.trap site hsite harmed

/-- A write is what it is meant to be if and only if no trap is written over, but by
itself. -/
theorem dataWritten_iff (h : TrapsSet s) (hlen : data.length < 2 ^ 64)
    (hwrite : writeMemory a data s = .ok () s') :
    DataWritten a data s' ↔ WritesTraps s a data := by
  obtain ⟨hmapped, rfl⟩ := writeWords_ok le_rfl (Nat.le_of_lt hlen) hwrite
  exact ⟨writesTraps_of_dataWritten h hlen rfl rfl, dataWritten_of_writesTraps h hlen hmapped rfl rfl⟩

def siteOverZero : BreakpointSite where
  id := 1#32
  address := 0x1000#64
  isHardware := false
  isInternal := false
  isEnabled := true

def oneTrap : Process :=
  { untouched with
    breakpointSites := [siteOverZero]
    memory := untouched.memory.setByte 0x1000#64 0xcc#8 }

theorem oneTrap_trapsSet : TrapsSet oneTrap where
  distinct := by decide
  trap := by
    intro site hsite _
    rw [List.mem_singleton.mp hsite]
    rfl
  mapped _ _ _ := isMapped_of_all (fun _ => rfl) _ _

/-- Eight bytes written right after the site. -/
theorem dataWritten_iff_oneTrap : ∃ s', writeMemory 0x1001#64 (List.replicate 8 7#8) oneTrap =
    .ok () s' ∧ (DataWritten 0x1001#64 (List.replicate 8 7#8) s' ↔
      WritesTraps oneTrap 0x1001#64 (List.replicate 8 7#8)) :=
  ⟨_, rfl, dataWritten_iff oneTrap_trapsSet (by decide) rfl⟩

theorem dataWritten_not_for_all : ¬ ∀ (s s' : Process) (a : VirtAddr) (data : List Byte),
    TrapsSet s → data ≠ [] → data.length < 2 ^ 64 → writeMemory a data s = .ok () s' →
    DataWritten a data s' := by
  intro h
  have hdata := h oneTrap _ 0x1000#64 [7#8] oneTrap_trapsSet (by decide) (by decide) rfl
  have htrap := hdata.traps siteOverZero (List.mem_singleton.mpr rfl) (by decide)
  revert htrap
  decide

end KDebugger.Process
