import KDebugger.Process.SoftwareTraps

namespace KDebugger.Process

open ByteStream Words Exec Memory KDebugger.Splits StoppointCollection

theorem containsAddress_iff {T : Type} [Stoppoint T] {points : List T} {a : VirtAddr} :
    containsAddress points a = true ↔ ∃ point ∈ points, Stoppoint.address point = a := by
  simp [containsAddress, findByAddress, List.findIdx?_isSome]

variable {s : Process} {initial : Memory}

theorem found_some (i : ℕ) (s : Process) : found (some i) s = .ok i s := rfl

def SoftwareOp (s : Process) : StoppointOp → Prop
  | .createSite _ _ _ hardware _ => hardware = false
  | .enableSite a | .disableSite a | .removeSiteByAddress a =>
    containsAddress s.breakpointSites a = true
  | .removeSiteById id => (findById s.breakpointSites id).isSome = true
  | _ => False

/-- No enabled site is removed by its address. -/
def KeepsTraps (s : Process) : StoppointOp → Prop
  | .removeSiteByAddress a => ¬ TrapAt s.breakpointSites a
  | _ => True

theorem Trapped.append (h : Trapped initial s) {site : BreakpointSite}
    (hfresh : ∀ x ∈ s.breakpointSites, x.address ≠ site.address) (hsw : site.isHardware = false)
    (hoff : site.isEnabled = false) :
    Trapped initial { s with breakpointSites := s.breakpointSites ++ [site] } where
  software := forall_mem_snoc h.software hsw
  distinct := nodup_snoc h.distinct hfresh
  mapped := h.mapped
  saved := forall_mem_snoc h.saved fun hon => absurd (hoff.symm.trans hon) (by decide)
  memory a := by
    rw [h.memory a]
    simp only [trapAt_split, List.append_nil, hoff, Bool.false_eq_true, false_and, or_false]

theorem trapped_create (h : Trapped initial s) (parent : Option ℕ) (id : BitVec 32)
    (a : VirtAddr) (internal : Bool) :
    Trapped initial (after (createBreakpointSite parent id a false internal) s) := by
  unfold createBreakpointSite
  rw [after_bind_ok (get_eq s)]
  by_cases hc : containsAddress s.breakpointSites a = true
  · rw [if_pos hc]
    exact h
  · rw [if_neg hc]
    refine h.append ?_ rfl rfl
    intro site hsite ha
    exact hc (containsAddress_iff.mpr ⟨site, hsite, ha⟩)

theorem siteByAddress_eq {a : VirtAddr} (h : containsAddress s.breakpointSites a = true) :
    ∃ i site, findByAddress s.breakpointSites a = some i ∧ s.breakpointSites[i]? = some site ∧
      site.address = a ∧ siteByAddress a s = .ok i s := by
  obtain ⟨i, hi⟩ := Option.isSome_iff_exists.mp h
  obtain ⟨site, hsite, ha⟩ := getElem?_of_findIdx? hi
  refine ⟨i, site, hi, hsite, by simpa [Stoppoint.address] using ha, ?_⟩
  unfold siteByAddress
  rw [bind_ok (get_eq s), hi]
  rfl

theorem trapped_removeById (h : Trapped initial s) {id : BitVec 32}
    (hp : (findById s.breakpointSites id).isSome = true) :
    Trapped initial (after (removeSiteById id) s) := by
  obtain ⟨i, hi⟩ := Option.isSome_iff_exists.mp hp
  obtain ⟨site, hsite, -⟩ := getElem?_of_findIdx? hi
  obtain ⟨l₁, l₂, hsplit, rfl⟩ := exists_split hsite
  obtain ⟨s', site', hdisable, h', hsplit', hoff⟩ := trapped_disableSite h hsplit
  unfold removeSiteById
  rw [after_bind_ok (get_eq s), hi, after_bind_ok (found_some _ s), after_bind_ok hdisable]
  change Trapped initial { s' with breakpointSites := s'.breakpointSites.eraseIdx l₁.length }
  rw [hsplit', eraseIdx_split]
  exact h'.erase hsplit' hoff

theorem trapped_removeByAddress (h : Trapped initial s) {a : VirtAddr}
    (hp : containsAddress s.breakpointSites a = true) (hoff : ¬ TrapAt s.breakpointSites a) :
    Trapped initial (after (removeSiteByAddress a) s) := by
  obtain ⟨i, site, hi, hsite, rfl, -⟩ := siteByAddress_eq hp
  obtain ⟨l₁, l₂, hsplit, rfl⟩ := exists_split hsite
  have hdisabled : site.isEnabled = false := by
    by_contra hon
    exact hoff ⟨site, by simp [hsplit], by simpa using hon, rfl⟩
  unfold removeSiteByAddress
  rw [after_bind_ok (get_eq s), hi, after_bind_ok (found_some _ s)]
  change Trapped initial { s with breakpointSites := s.breakpointSites.eraseIdx l₁.length }
  rw [hsplit, eraseIdx_split]
  exact h.erase hsplit hdisabled

theorem trapped_step (s : Process) (op : StoppointOp) (h : Trapped initial s)
    (hop : SoftwareOp s op ∧ KeepsTraps s op) : Trapped initial (after (execStoppointOp op) s) := by
  -- one case an operation; only a removal by address leaves a trap behind
  obtain ⟨hsoft, hkeeps⟩ := hop
  cases op with
  | createSite parent id a hardware internal =>
    obtain rfl : hardware = false := hsoft
    exact trapped_create h parent id a internal
  | enableSite a =>
    obtain ⟨i, site, -, hsite, -, hby⟩ := siteByAddress_eq hsoft
    rw [execStoppointOp, after_bind_ok hby]
    exact trapped_enableSite h hsite
  | disableSite a =>
    obtain ⟨i, site, -, hsite, -, hby⟩ := siteByAddress_eq hsoft
    obtain ⟨l₁, l₂, hsplit, rfl⟩ := exists_split hsite
    obtain ⟨s', site', hdisable, h', -⟩ := trapped_disableSite h hsplit
    rw [execStoppointOp, after_bind_ok hby]
    simp only [after, hdisable]
    exact h'
  | removeSiteById id => exact trapped_removeById h hsoft
  | removeSiteByAddress a => exact trapped_removeByAddress h hsoft hkeeps
  | createWatchpoint _ _ _ => exact absurd hsoft id
  | enableWatchpoint _ => exact absurd hsoft id
  | disableWatchpoint _ => exact absurd hsoft id
  | removeWatchpointById _ => exact absurd hsoft id
  | removeWatchpointByAddress _ => exact absurd hsoft id

/-- Every byte read is the initial one, or a site that is still to come puts it back. -/
theorem foldl_withoutTrap {a : VirtAddr} {n : ℕ} (hn : n < 2 ^ 64) :
    ∀ {sites : List BreakpointSite} {buffer : List Byte}, buffer.length = n →
      (∀ site ∈ sites, site.isHardware = false) →
      (∀ site ∈ sites, site.isEnabled = true → site.savedData = initial.byte site.address) →
      (∀ i < n, buffer[i]? = some (initial.byte (plus a i)) ∨ TrapAt sites (plus a i)) →
      sites.foldl (withoutTrap a) buffer = initial.bytes a n := by
  -- by induction on the sites, each of which restores its own byte
  intro sites
  induction sites with
  | nil =>
    intro buffer hlen _ _ hbuffer
    apply List.ext_getElem?
    intro i
    by_cases hi : i < n
    · rw [bytes_getElem? initial a hi]
      obtain hb | ⟨site, hmem, -⟩ := hbuffer i hi
      · exact hb
      · exact absurd hmem List.not_mem_nil
    · rw [List.getElem?_eq_none (by simp [List.foldl_nil, hlen]; omega),
        List.getElem?_eq_none (by simp; omega)]
  | cons site sites ih =>
    intro buffer hlen hsoft hsaved hbuffer
    rw [List.foldl_cons]
    have hsoft' := fun x hx => hsoft x (List.mem_cons_of_mem site hx)
    have hsaved' := fun x hx => hsaved x (List.mem_cons_of_mem site hx)
    have hsw := hsoft site (List.mem_cons_self ..)
    cases hon : site.isEnabled with
    | false =>
      rw [withoutTrap, if_pos (.inl hon)]
      refine ih hlen hsoft' hsaved' fun i hi => (hbuffer i hi).imp_right ?_
      rintro ⟨x, hx, hxon, hxa⟩
      rcases List.mem_cons.mp hx with rfl | hx
      · rw [hon] at hxon
        exact absurd hxon (by decide)
      · exact ⟨x, hx, hxon, hxa⟩
    | true =>
      have hneg : ¬ (site.isEnabled = false ∨ site.isHardware = true) := by simp [hon, hsw]
      rw [withoutTrap, if_neg hneg]
      refine ih (by simpa using hlen) hsoft' hsaved' fun i hi => ?_
      by_cases hk : (site.address - a).toNat = i
      · left
        subst hk
        rw [List.getElem?_set_self (by omega), plus_sub]
        exact congrArg some (hsaved site (List.mem_cons_self ..) hon)
      · rw [List.getElem?_set_ne hk]
        refine (hbuffer i hi).imp_right ?_
        rintro ⟨x, hx, hxon, hxa⟩
        rcases List.mem_cons.mp hx with rfl | hx
        · rw [hxa, plus_sub_toNat a (by omega)] at hk
          exact absurd rfl hk
        · exact ⟨x, hx, hxon, hxa⟩

theorem readMemoryWithoutTraps_eq (h : Trapped initial s) {a : VirtAddr} {n : ℕ}
    (hregion : a.toNat + n < 2 ^ 64) :
    readMemoryWithoutTraps a n s = .ok (initial.bytes a n) s := by
  unfold readMemoryWithoutTraps
  rw [bind_ok (readMemory_eq (isMapped_of_all h.mapped a n)), bind_ok (get_eq s)]
  have hfold : (getInRegion s.breakpointSites a (a + BitVec.ofNat 64 n)).foldl (withoutTrap a)
      (s.memory.bytes a n) = initial.bytes a n := by
    apply foldl_withoutTrap (by omega) (bytes_length ..)
    · intro site hsite
      exact h.software site (List.mem_of_mem_filter hsite)
    · intro site hsite
      exact h.saved site (List.mem_of_mem_filter hsite)
    · intro i hi
      rw [bytes_getElem? _ _ hi, h.memory]
      by_cases htrap : TrapAt s.breakpointSites (plus a i)
      · right
        obtain ⟨site, hsite, hon, haddr⟩ := htrap
        refine ⟨site, List.mem_filter.mpr ⟨hsite, ?_⟩, hon, haddr⟩
        have hlo : (plus a i).toNat = a.toNat + i := by
          simp only [plus, BitVec.toNat_add, BitVec.toNat_ofNat]
          omega
        have hhi : (a + BitVec.ofNat 64 n).toNat = a.toNat + n := by
          simp only [BitVec.toNat_add, BitVec.toNat_ofNat]
          omega
        simp only [inRange, Stoppoint.address, haddr, Bool.and_eq_true, decide_eq_true_eq,
          BitVec.le_def, BitVec.lt_def, hlo, hhi]
        omega
      · left
        rw [if_neg htrap]
  rw [hfold]
  rfl

/-- What memory is in a state reached, and what is read of it. -/
structure TrapsInPlace (initial : Memory) (s : Process) : Prop where
  memory : ∀ a, s.memory.byte a = if TrapAt s.breakpointSites a then 0xcc#8 else initial.byte a
  saved : ∀ site ∈ s.breakpointSites, site.isEnabled = true →
    site.savedData = initial.byte site.address
  region : ∀ (a : VirtAddr) (n : ℕ), a.toNat + n < 2 ^ 64 →
    readMemoryWithoutTraps a n s = .ok (initial.bytes a n) s
  restored : (∀ site ∈ s.breakpointSites, site.isEnabled = false) →
    ∀ a, s.memory.byte a = initial.byte a

theorem Trapped.inPlace (h : Trapped initial s) : TrapsInPlace initial s where
  memory := h.memory
  saved := h.saved
  region _ _ := readMemoryWithoutTraps_eq h
  restored hoff a := by
    rw [h.memory a, if_neg]
    rintro ⟨site, hsite, hon, -⟩
    rw [hoff site hsite] at hon
    exact absurd hon (by decide)

theorem trapped_start (hmapped : ∀ a, s.memory.mapped a = true) (hempty : s.breakpointSites = []) :
    Trapped s.memory s where
  software := by simp [hempty]
  distinct := by simp [hempty]
  mapped := hmapped
  saved := by simp [hempty]
  memory a := by simp [hempty, TrapAt]

/-- Runs of operations on software sites. -/
theorem trapsInPlace_of_run (s : Process) (hmapped : ∀ a, s.memory.mapped a = true)
    (hempty : s.breakpointSites = []) (ops : List StoppointOp)
    (hops : AllSteps execStoppointOp (fun s op => SoftwareOp s op ∧ KeepsTraps s op) s ops) :
    TrapsInPlace s.memory (runAll execStoppointOp s ops) :=
  (runAll_invariant trapped_step ops s (trapped_start hmapped hempty) hops).inPlace

def untouched : Process where
  pid := 1
  currentThread := 1
  threads := ⟨[{ tid := 1, regs := { data := fun _ => 0#8, tid := 1 } }], by decide⟩
  casts := ⟨fun _ => 0#64, fun _ => 0#128, fun _ => 0#128, fun _ => 0#64⟩
  memory := ⟨fun _ => 0#8, fun _ => true⟩
  user _ _ := 0#8

/-- Two sites in one word, the first disabled and removed after the second is enabled. -/
def adjacentSites : List StoppointOp :=
  [.createSite none 1#32 0x1000#64 false false, .createSite none 2#32 0x1001#64 false false,
    .enableSite 0x1000#64, .enableSite 0x1001#64, .disableSite 0x1000#64,
    .removeSiteByAddress 0x1000#64, .removeSiteById 2#32]

theorem trapsInPlace_adjacentSites :
    TrapsInPlace untouched.memory (runAll execStoppointOp untouched adjacentSites) := by
  refine trapsInPlace_of_run untouched (fun _ => rfl) rfl adjacentSites ?_
  refine ⟨⟨rfl, trivial⟩, ⟨rfl, trivial⟩, ⟨rfl, trivial⟩, ⟨rfl, trivial⟩, ⟨rfl, trivial⟩,
    ⟨rfl, ?_⟩, ⟨rfl, trivial⟩, trivial⟩
  change ¬ TrapAt _ _
  decide

/-- An enabled site removed by its address leaves its trap behind. -/
theorem trapsInPlace_not_for_all : ¬ ∀ (s : Process) (ops : List StoppointOp),
    (∀ a, s.memory.mapped a = true) → s.breakpointSites = [] →
    AllSteps execStoppointOp SoftwareOp s ops →
    TrapsInPlace s.memory (runAll execStoppointOp s ops) := by
  intro h
  have hrun := h untouched [.createSite none 1#32 0x1000#64 false false, .enableSite 0x1000#64,
    .removeSiteByAddress 0x1000#64] (fun _ => rfl) rfl
    ⟨rfl, rfl, rfl, trivial⟩
  have hrestored := hrun.restored (by decide) 0x1000#64
  revert hrestored
  decide

end KDebugger.Process
