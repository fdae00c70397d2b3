import KDebugger.Process.Stoppoints
import KDebugger.Splits

namespace KDebugger.Process

open ByteStream Words Exec Memory KDebugger.Splits StoppointCollection

variable {s : Process} {site : BreakpointSite} {l₁ l₂ : List BreakpointSite}

theorem siteAt_split (h : s.breakpointSites = l₁ ++ site :: l₂) :
    siteAt l₁.length s = .ok site s := by
  apply siteAt_ok
  simp [h]

theorem findByAddress_split {T : Type} [Stoppoint T] {l₁ l₂ : List T} {x : T}
    (hdistinct : ((l₁ ++ x :: l₂).map Stoppoint.address).Nodup) :
    findByAddress (l₁ ++ x :: l₂) (Stoppoint.address x) = some l₁.length := by
  unfold findByAddress
  rw [List.findIdx?_eq_some_iff_getElem]
  refine ⟨by simp, by simp, fun j hj => ?_⟩
  have hother : l₁[j] ∈ l₁ ++ l₂ := List.mem_append_left _ (List.getElem_mem hj)
  rw [List.getElem_append_left hj]
  simpa using key_ne hdistinct _ hother

theorem modifySite_split (h : s.breakpointSites = l₁ ++ site :: l₂)
    (f : BreakpointSite → BreakpointSite) :
    modifySite l₁.length f s = .ok () { s with breakpointSites := l₁ ++ f site :: l₂ } := by
  rw [← modify_split, ← h]
  rfl

theorem peekData_eq {a : VirtAddr} (hm : s.memory.isMapped a 8 = true) (what : String) :
    peekData what a s = .ok (s.memory.word a) s := by
  have hpeek : s.memory.peek a = some (s.memory.word a) := if_pos hm
  unfold peekData
  rw [bind_ok (get_eq s), hpeek]
  rfl

theorem pokeData_eq {a : VirtAddr} (hm : s.memory.isMapped a 8 = true) (what : String)
    (w : BitVec 64) : pokeData what a w s = .ok () { s with memory := s.memory.store a w } := by
  have hpoke : s.memory.poke a w = some (s.memory.store a w) := if_pos hm
  unfold pokeData
  rw [bind_ok (get_eq s), hpoke]
  rfl

theorem pokeData_lowByte {a : VirtAddr} (hm : s.memory.isMapped a 8 = true) (what : String)
    (b : Byte) : pokeData what a (withLowByte (s.memory.word a) b) s =
      .ok () { s with memory := s.memory.setByte a b } := by
  rw [pokeData_eq hm, store_withLowByte]

theorem byteOf_word (m : Memory) (a : VirtAddr) : byteOf (m.word a) 0 = m.byte a := by
  rw [word, byteOf_wordOf _ (by decide), plus, BitVec.add_zero]

/-- The site after `enable`. -/
def BreakpointSite.trapped (site : BreakpointSite) (saved : Byte) : BreakpointSite :=
  { site with savedData := saved, isEnabled := true }

/-- The site after `disable`. -/
def BreakpointSite.cleared (site : BreakpointSite) : BreakpointSite :=
  { site with isEnabled := false }

theorem enableSite_eq (h : s.breakpointSites = l₁ ++ site :: l₂)
    (hm : s.memory.isMapped site.address 8 = true) (hsw : site.isHardware = false)
    (hoff : site.isEnabled = false) :
    enableSite l₁.length s = .ok ()
      { s with
        breakpointSites := l₁ ++ BreakpointSite.trapped site (s.memory.byte site.address) :: l₂
        memory := s.memory.setByte site.address 0xcc#8 } := by
  unfold enableSite
  rw [bind_ok (siteAt_split h)]
  simp only [hoff, hsw, Bool.false_eq_true, if_false]
  let saved : BreakpointSite := { site with savedData := s.memory.byte site.address }
  let s₁ : Process := { s with breakpointSites := l₁ ++ saved :: l₂ }
  have hsave : modifySite l₁.length
      (fun site' => { site' with savedData := byteOf (s.memory.word site.address) 0 }) s =
      .ok () s₁ := by
    rw [modifySite_split h, byteOf_word]
  have hpoke := pokeData_lowByte (s := s₁) hm "Enabling breakpoint site failed\n" 0xcc#8
  let s₂ : Process := { s₁ with memory := s.memory.setByte site.address 0xcc#8 }
  rw [bind_ok (peekData_eq hm _), bind_ok hsave]
  refine (bind_ok hpoke).trans ?_
  exact modifySite_split (s := s₂) rfl _

theorem disableSite_eq (h : s.breakpointSites = l₁ ++ site :: l₂)
    (hm : s.memory.isMapped site.address 8 = true) (hsw : site.isHardware = false)
    (hon : site.isEnabled = true) :
    disableSite l₁.length s = .ok ()
      { s with
        breakpointSites := l₁ ++ BreakpointSite.cleared site :: l₂
        memory := s.memory.setByte site.address site.savedData } := by
  unfold disableSite
  rw [bind_ok (siteAt_split h)]
  simp only [hon, hsw, Bool.false_eq_true, Bool.true_eq_false, if_false]
  let s₁ : Process := { s with memory := s.memory.setByte site.address site.savedData }
  rw [bind_ok (peekData_eq hm _), bind_ok (pokeData_lowByte hm _ _)]
  exact modifySite_split (s := s₁) h _

/-- An enabled site is at this address. -/
def TrapAt (sites : List BreakpointSite) (a : VirtAddr) : Prop :=
  ∃ site ∈ sites, site.isEnabled = true ∧ site.address = a

instance (sites : List BreakpointSite) (a : VirtAddr) : Decidable (TrapAt sites a) :=
  inferInstanceAs (Decidable (∃ site ∈ sites, _))

/-- Software sites at distinct addresses; the trap bytes lie over the initial memory. -/
structure Trapped (initial : Memory) (s : Process) : Prop where
  software : ∀ site ∈ s.breakpointSites, site.isHardware = false
  distinct : (s.breakpointSites.map BreakpointSite.address).Nodup
  mapped : ∀ a, s.memory.mapped a = true
  saved : ∀ site ∈ s.breakpointSites, site.isEnabled = true →
    site.savedData = initial.byte site.address
  memory : ∀ a, s.memory.byte a = if TrapAt s.breakpointSites a then 0xcc#8 else initial.byte a

theorem not_trapAt_others (h : ((l₁ ++ site :: l₂).map BreakpointSite.address).Nodup) :
    ¬ TrapAt (l₁ ++ l₂) site.address := by
  rintro ⟨other, hmem, -, haddr⟩
  exact key_ne h other hmem haddr

theorem trapAt_split (a : VirtAddr) :
    TrapAt (l₁ ++ site :: l₂) a ↔
      TrapAt (l₁ ++ l₂) a ∨ (site.isEnabled = true ∧ site.address = a) := by
  simp only [TrapAt, List.mem_append, List.mem_cons]
  constructor
  · rintro ⟨x, hx | rfl | hx, h⟩
    · exact .inl ⟨x, .inl hx, h⟩
    · exact .inr h
    · exact .inl ⟨x, .inr hx, h⟩
  · rintro (⟨x, hx | hx, h⟩ | h)
    · exact ⟨x, .inl hx, h⟩
    · exact ⟨x, .inr (.inr hx), h⟩
    · exact ⟨site, .inr (.inl rfl), h⟩

/-- The trap bytes over memory, when one member is replaced and the byte at its address. -/
theorem trapBytes_replace {mem initial : VirtAddr → Byte}
    (hdistinct : ((l₁ ++ site :: l₂).map BreakpointSite.address).Nodup)
    (hmem : ∀ a, mem a = if TrapAt (l₁ ++ site :: l₂) a then 0xcc#8 else initial a)
    {site' : BreakpointSite} {b : Byte} (haddr : site'.address = site.address)
    (hb : b = if site'.isEnabled = true then 0xcc#8 else initial site.address) (a : VirtAddr) :
    Function.update mem site.address b a =
      if TrapAt (l₁ ++ site' :: l₂) a then 0xcc#8 else initial a := by
  have hothers := not_trapAt_others hdistinct
  by_cases ha : a = site.address
  · subst ha
    rw [Function.update_self, hb]
    simp only [trapAt_split, hothers, haddr, false_or, and_true]
  · have hne : site.address ≠ a := Ne.symm ha
    rw [Function.update_of_ne ha, hmem a]
    simp only [trapAt_split, haddr, hne, and_false, or_false]

theorem Trapped.replace {initial : Memory} (h : Trapped initial s)
    (hsplit : s.breakpointSites = l₁ ++ site :: l₂) {site' : BreakpointSite} {b : Byte}
    (haddr : site'.address = site.address) (hhw : site'.isHardware = site.isHardware)
    (hsaved : site'.isEnabled = true → site'.savedData = initial.byte site.address)
    (hb : b = if site'.isEnabled = true then 0xcc#8 else initial.byte site.address) :
    Trapped initial { s with
      breakpointSites := l₁ ++ site' :: l₂
      memory := s.memory.setByte site.address b } where
  software := forall_mem_replace (hsplit ▸ h.software)
    (hhw.trans (h.software site (by simp [hsplit])))
  distinct := nodup_replace (hsplit ▸ h.distinct) haddr
  mapped := h.mapped
  saved := forall_mem_replace (hsplit ▸ h.saved) fun hon =>
    (hsaved hon).trans (congrArg initial.byte haddr.symm)
  memory := trapBytes_replace (hsplit ▸ h.distinct) (hsplit ▸ h.memory) haddr hb

theorem Trapped.erase {initial : Memory} (h : Trapped initial s)
    (hsplit : s.breakpointSites = l₁ ++ site :: l₂) (hoff : site.isEnabled = false) :
    Trapped initial { s with breakpointSites := l₁ ++ l₂ } where
  software := forall_mem_erase (hsplit ▸ h.software)
  distinct := nodup_erase (hsplit ▸ h.distinct)
  mapped := h.mapped
  saved := forall_mem_erase (hsplit ▸ h.saved)
  memory a := by
    rw [h.memory a, hsplit]
    simp only [trapAt_split, hoff, Bool.false_eq_true, false_and, or_false]

theorem trapped_enableSite {initial : Memory} (h : Trapped initial s) {i : ℕ}
    (hi : s.breakpointSites[i]? = some site) : Trapped initial (after (enableSite i) s) := by
  -- a whole word is written back and one byte of it is another
  obtain ⟨l₁, l₂, hsplit, rfl⟩ := exists_split hi
  cases hon : site.isEnabled with
  | true =>
    have hnothing : enableSite l₁.length s = .ok () s := by
      unfold enableSite
      rw [bind_ok (siteAt_split hsplit), if_pos hon]
      rfl
    simp only [after, hnothing]
    exact h
  | false =>
    have hsw : site.isHardware = false := h.software site (by simp [hsplit])
    have hdistinct := h.distinct
    rw [hsplit] at hdistinct
    have hbyte : s.memory.byte site.address = initial.byte site.address := by
      rw [h.memory, if_neg]
      rw [hsplit, trapAt_split]
      simp [not_trapAt_others hdistinct, hon]
    simp only [after, enableSite_eq hsplit (isMapped_of_all h.mapped _ _) hsw hon]
    exact h.replace hsplit rfl rfl (fun _ => hbyte) rfl

theorem trapped_disableSite {initial : Memory} (h : Trapped initial s)
    (hsplit : s.breakpointSites = l₁ ++ site :: l₂) :
    ∃ s' site', disableSite l₁.length s = .ok () s' ∧ Trapped initial s' ∧
      s'.breakpointSites = l₁ ++ site' :: l₂ ∧ site'.isEnabled = false := by
  cases hon : site.isEnabled with
  | false =>
    have hnothing : disableSite l₁.length s = .ok () s := by
      unfold disableSite
      rw [bind_ok (siteAt_split hsplit), if_pos hon]
      rfl
    exact ⟨s, site, hnothing, h, hsplit, hon⟩
  | true =>
    have hmem : site ∈ s.breakpointSites := by simp [hsplit]
    have hsaved := h.saved site hmem hon
    have hm := isMapped_of_all h.mapped site.address 8
    refine ⟨_, _, disableSite_eq hsplit hm (h.software site hmem) hon, ?_, rfl, rfl⟩
    exact h.replace hsplit rfl rfl (fun hno => absurd hno (by simp [BreakpointSite.cleared]))
      (by rw [hsaved]; rfl)

end KDebugger.Process
