import KDebugger.Process.BreakpointRuns
import KDebugger.Process.SingleThread

namespace KDebugger.Process

open Exec KDebugger.Splits StoppointCollection

def siteOwner (site : BreakpointSite) : Owner :=
  ⟨site.hardwareRegisterIndex, site.address, .execute, 1⟩

def watchOwner (point : Watchpoint) : Owner :=
  ⟨point.hardwareRegisterIndex, point.address, point.mode, point.size⟩

/-- The owners among the members of a collection: the enabled ones. -/
def enabledOwners {T : Type} [Stoppoint T] (f : T → Owner) (points : List T) : List Owner :=
  (points.filter Stoppoint.isEnabled).map f

/-- The enabled hardware sites and watchpoints. -/
def owners (s : Process) : List Owner :=
  enabledOwners siteOwner s.breakpointSites ++ enabledOwners watchOwner s.watchpoints

theorem enabledOwners_on {T : Type} [Stoppoint T] (f : T → Owner) (l₁ l₂ : List T) {x : T}
    (h : Stoppoint.isEnabled x = true) :
    (enabledOwners f (l₁ ++ x :: l₂)).Perm (f x :: enabledOwners f (l₁ ++ l₂)) := by
  simp only [enabledOwners, List.filter_append, List.filter_cons_of_pos h, List.map_append,
    List.map_cons]
  exact List.perm_middle

theorem enabledOwners_off {T : Type} [Stoppoint T] (f : T → Owner) (l₁ l₂ : List T) {x : T}
    (h : Stoppoint.isEnabled x = false) :
    enabledOwners f (l₁ ++ x :: l₂) = enabledOwners f (l₁ ++ l₂) := by
  have hneg : ¬ Stoppoint.isEnabled x = true := by simp [h]
  simp only [enabledOwners, List.filter_append, List.filter_cons_of_neg hneg]

/-- Hardware sites, one an address. -/
structure SitesOk (sites : List BreakpointSite) : Prop where
  hardware : ∀ site ∈ sites, site.isHardware = true
  distinct : (sites.map BreakpointSite.address).Nodup

/-- Watchpoints of valid sizes, one an address. -/
structure PointsOk (points : List Watchpoint) : Prop where
  sizes : ∀ point ∈ points, ValidSize point.size
  distinct : (points.map Watchpoint.address).Nodup

structure Slotted (s : Process) : Prop where
  alone : Alone s
  sites : SitesOk s.breakpointSites
  points : PointsOk s.watchpoints
  slots : SlotsOwned (dr s) (owners s)

variable {s s' : Process}

theorem Slotted.left (h : Slotted s) (hleft : LeftAlone s s') : Slotted s' := by
  obtain ⟨halone, hsame, huser⟩ := hleft
  have hdr : dr s' = dr s := by
    funext n
    unfold dr
    rw [huser, hsame.pid]
  have howners : owners s' = owners s := by
    unfold owners
    rw [hsame.sites, hsame.points]
  refine ⟨halone, hsame.sites ▸ h.sites, hsame.points ▸ h.points, ?_⟩
  rw [hdr, howners]
  exact h.slots

section Sites

variable {site : BreakpointSite} {l₁ l₂ : List BreakpointSite}

theorem slotted_enableSite (h : Slotted s) (hsplit : s.breakpointSites = l₁ ++ site :: l₂)
    (hsettles : site.isEnabled = false → ∀ l ∈ s.setPlan site.address .execute 1, s.Settles l) :
    Slotted (after (enableSite l₁.length) s) := by
  unfold enableSite
  rw [after_bind_ok (siteAt_split hsplit)]
  cases hon : site.isEnabled with
  | true => exact h
  | false =>
    have hsites := h.sites
    rw [hsplit] at hsites
    have hhw : site.isHardware = true := hsites.hardware site (by simp)
    simp only [hhw, Bool.false_eq_true, if_false, if_true]
    obtain ⟨e, s', herr, hleft⟩ | ⟨i, s', hset, hi, hfree, hstored, haddr⟩ :=
      h.alone.set site.address .execute (.inl rfl) (hsettles hon)
    · rw [after_bind_error (show setHardwareBreakpoint site.id site.address s = _ from herr)]
      exact h.left hleft
    · obtain ⟨hth', hsame, h7, hother⟩ := hstored
      have hsplit' : s'.breakpointSites = l₁ ++ site :: l₂ :=
        hsame.sites.trans hsplit
      let owned : BreakpointSite := { site with hardwareRegisterIndex := i, isEnabled := true }
      let s₁ : Process := { s' with
        breakpointSites := l₁ ++ { site with hardwareRegisterIndex := (i : ℤ) } :: l₂ }
      rw [after_bind_ok (show setHardwareBreakpoint site.id site.address s = _ from hset),
        after_bind_ok (modifySite_split hsplit' _), after, modifySite_split (s := s₁) rfl]
      refine ⟨hth'.congr rfl rfl rfl rfl, ?_, ?_, ?_⟩
      · exact ⟨forall_mem_replace hsites.hardware hhw, nodup_replace hsites.distinct rfl⟩
      · exact hsame.points ▸ h.points
      · have hinsert := h.slots.insert hi hfree (siteOwner owned) rfl h7 haddr hother
        apply hinsert.perm
        rw [owners, hsplit, enabledOwners_off siteOwner l₁ l₂ hon]
        have hperm := enabledOwners_on siteOwner l₁ l₂ (x := owned) rfl
        have hwatch : s'.watchpoints = s.watchpoints := hsame.points
        rw [← hwatch]
        exact (hperm.append_right _).symm

theorem slotted_disableSite (h : Slotted s) (hsplit : s.breakpointSites = l₁ ++ site :: l₂)
    (hsettles : site.isEnabled = true →
      ∀ l ∈ s.clearPlan site.hardwareRegisterIndex, s.Settles l) :
    (∃ e s', disableSite l₁.length s = .error e s' ∧ Slotted s') ∨
    ∃ s' site', disableSite l₁.length s = .ok () s' ∧ Slotted s' ∧
      s'.breakpointSites = l₁ ++ site' :: l₂ ∧ site'.isEnabled = false ∧
      site'.address = site.address := by
  -- the slot and its owner go together
  unfold disableSite
  rw [bind_ok (siteAt_split hsplit)]
  cases hon : site.isEnabled with
  | false => exact .inr ⟨s, site, rfl, h, hsplit, hon, rfl⟩
  | true =>
    have hsites := h.sites
    rw [hsplit] at hsites
    have hhw : site.isHardware = true := hsites.hardware site (by simp)
    have hslots : SlotsOwned (dr s) (siteOwner site ::
        (enabledOwners siteOwner (l₁ ++ l₂) ++ enabledOwners watchOwner s.watchpoints)) := by
      apply h.slots.perm
      rw [owners, hsplit]
      exact (enabledOwners_on siteOwner l₁ l₂ hon).append_right _
    obtain ⟨i, hslot⟩ := hslots.owned _ (List.mem_cons_self ..)
    have hindex : site.hardwareRegisterIndex = i := hslot.index
    have hsettles' := hsettles hon
    rw [hindex] at hsettles'
    simp only [hhw, Bool.true_eq_false, if_false, if_true]
    rw [hindex]
    obtain ⟨e, s', hclear, hleft⟩ | ⟨s', hclear, hth', hsame, h7, hother⟩ :=
      h.alone.clear hslot.lt hsettles'
    · exact .inl ⟨e, s', bind_error hclear, h.left hleft⟩
    right
    have hsplit' : s'.breakpointSites = l₁ ++ site :: l₂ :=
      hsame.sites.trans hsplit
    have hwatch : s'.watchpoints = s.watchpoints := hsame.points
    let s₁ : Process := { s' with
      breakpointSites := l₁ ++ { site with hardwareRegisterIndex := -1 } :: l₂ }
    let free : BreakpointSite := { site with hardwareRegisterIndex := -1, isEnabled := false }
    refine ⟨{ s' with breakpointSites := l₁ ++ free :: l₂ }, free, ?_, ⟨?_, ?_, ?_, ?_⟩, rfl,
      rfl, rfl⟩
    · rw [bind_ok hclear, bind_ok (modifySite_split hsplit' _)]
      exact modifySite_split (s := s₁) rfl _
    · exact hth'.congr rfl rfl rfl rfl
    · exact ⟨forall_mem_replace hsites.hardware hhw, nodup_replace hsites.distinct rfl⟩
    · exact hwatch ▸ h.points
    · have hremove := hslots.remove hslot.lt hindex h7 hother
      rw [← hwatch] at hremove
      have hoff : Stoppoint.isEnabled free = false := rfl
      unfold owners
      rw [enabledOwners_off siteOwner l₁ l₂ hoff]
      exact hremove

theorem slotted_eraseSite (h : Slotted s) (hsplit : s.breakpointSites = l₁ ++ site :: l₂)
    (hoff : site.isEnabled = false) : Slotted (after (eraseSite l₁.length) s) := by
  have hsites := h.sites
  rw [hsplit] at hsites
  have herase : after (eraseSite l₁.length) s = { s with breakpointSites := l₁ ++ l₂ } := by
    rw [← eraseIdx_split l₁ l₂ site, ← hsplit]
    rfl
  rw [herase]
  refine ⟨h.alone.congr rfl rfl rfl rfl, ?_, h.points, ?_⟩
  · exact ⟨forall_mem_erase hsites.hardware, nodup_erase hsites.distinct⟩
  · have hslots := h.slots
    rw [owners, hsplit, enabledOwners_off siteOwner l₁ l₂ hoff] at hslots
    exact hslots

theorem slotted_createSite (h : Slotted s) (parent : Option ℕ) (id : BitVec 32) (a : VirtAddr)
    (internal : Bool) : Slotted (after (createBreakpointSite parent id a true internal) s) := by
  unfold createBreakpointSite
  rw [after_bind_ok (get_eq s)]
  by_cases hc : containsAddress s.breakpointSites a = true
  · rw [if_pos hc]
    exact h
  · rw [if_neg hc]
    let new : BreakpointSite := { id, address := a, isHardware := true, isInternal := internal, parent }
    have hfresh : ∀ y ∈ s.breakpointSites, y.address ≠ new.address := fun y hy ha =>
      hc (containsAddress_iff.mpr ⟨y, hy, ha⟩)
    change Slotted { s with breakpointSites := s.breakpointSites ++ [new] }
    refine ⟨h.alone.congr rfl rfl rfl rfl, ?_, h.points, ?_⟩
    · exact ⟨forall_mem_snoc h.sites.hardware rfl, nodup_snoc h.sites.distinct hfresh⟩
    · have hoff : Stoppoint.isEnabled new = false := rfl
      unfold owners
      rw [enabledOwners_off siteOwner s.breakpointSites [] hoff, List.append_nil]
      exact h.slots

end Sites

section Watchpoints

variable {point : Watchpoint} {l₁ l₂ : List Watchpoint}

theorem watchpointAt_split (h : s.watchpoints = l₁ ++ point :: l₂) :
    watchpointAt l₁.length s = .ok point s := by
  have hget : s.watchpoints[l₁.length]? = some point := by simp [h]
  unfold watchpointAt
  rw [bind_ok (get_eq s), hget]
  rfl

theorem modifyWatchpoint_split (h : s.watchpoints = l₁ ++ point :: l₂)
    (f : Watchpoint → Watchpoint) :
    modifyWatchpoint l₁.length f s = .ok () { s with watchpoints := l₁ ++ f point :: l₂ } := by
  rw [← modify_split, ← h]
  rfl

theorem slotted_enableWatchpoint (h : Slotted s) (hsplit : s.watchpoints = l₁ ++ point :: l₂)
    (hsettles : point.isEnabled = false →
      ∀ l ∈ s.setPlan point.address point.mode point.size, s.Settles l) :
    Slotted (after (enableWatchpoint l₁.length) s) := by
  unfold enableWatchpoint
  rw [after_bind_ok (watchpointAt_split hsplit)]
  cases hon : point.isEnabled with
  | true => exact h
  | false =>
    have hpoints := h.points
    rw [hsplit] at hpoints
    have hsize : ValidSize point.size := hpoints.sizes point (by simp)
    simp only [Bool.false_eq_true, if_false]
    obtain ⟨e, s', herr, hleft⟩ | ⟨i, s', hset, hi, hfree, hstored, haddr⟩ :=
      h.alone.set point.address point.mode hsize (hsettles hon)
    · rw [after_bind_error (show setWatchpoint point.id point.address point.mode point.size s = _
        from herr)]
      exact h.left hleft
    · obtain ⟨hth', hsame, h7, hother⟩ := hstored
      have hsplit' : s'.watchpoints = l₁ ++ point :: l₂ := hsame.points.trans hsplit
      let owned : Watchpoint := { point with hardwareRegisterIndex := i, isEnabled := true }
      let s₁ : Process := { s' with
        watchpoints := l₁ ++ { point with hardwareRegisterIndex := (i : ℤ) } :: l₂ }
      rw [after_bind_ok (show setWatchpoint point.id point.address point.mode point.size s = _
        from hset), after_bind_ok (modifyWatchpoint_split hsplit' _), after,
        modifyWatchpoint_split (s := s₁) rfl]
      refine ⟨hth'.congr rfl rfl rfl rfl, ?_, ?_, ?_⟩
      · exact hsame.sites ▸ h.sites
      · exact ⟨forall_mem_replace hpoints.sizes hsize, nodup_replace hpoints.distinct rfl⟩
      · have hinsert := h.slots.insert hi hfree (watchOwner owned) rfl h7 haddr hother
        apply hinsert.perm
        rw [owners, hsplit, enabledOwners_off watchOwner l₁ l₂ hon]
        have hperm := enabledOwners_on watchOwner l₁ l₂ (x := owned) rfl
        rw [← hsame.sites]
        exact (List.perm_middle.symm).trans (hperm.append_left _).symm

theorem slotted_eraseWatchpoint (h : Slotted s) (hsplit : s.watchpoints = l₁ ++ point :: l₂)
    (hoff : point.isEnabled = false) : Slotted (after (eraseWatchpoint l₁.length) s) := by
  have hpoints := h.points
  rw [hsplit] at hpoints
  have herase : after (eraseWatchpoint l₁.length) s = { s with watchpoints := l₁ ++ l₂ } := by
    rw [← eraseIdx_split l₁ l₂ point, ← hsplit]
    rfl
  rw [herase]
  refine ⟨h.alone.congr rfl rfl rfl rfl, h.sites, ?_, ?_⟩
  · exact ⟨forall_mem_erase hpoints.sizes, nodup_erase hpoints.distinct⟩
  · have hslots := h.slots
    rw [owners, hsplit, enabledOwners_off watchOwner l₁ l₂ hoff] at hslots
    exact hslots

theorem Slotted.withId (h : Slotted s) (id : BitVec 32) :
    Slotted { s with lastWatchpointId := id } := by
  exact ⟨h.alone.congr rfl rfl rfl rfl, h.sites, h.points, h.slots⟩

theorem Slotted.withPoint (h : Slotted s) (hfresh : ∀ y ∈ s.watchpoints, y.address ≠ point.address)
    (hsize : ValidSize point.size) (hoff : point.isEnabled = false) :
    Slotted { s with watchpoints := s.watchpoints ++ [point] } := by
  refine ⟨h.alone.congr rfl rfl rfl rfl, h.sites, ?_, ?_⟩
  · exact ⟨forall_mem_snoc h.points.sizes hsize, nodup_snoc h.points.distinct hfresh⟩
  · unfold owners
    rw [enabledOwners_off watchOwner s.watchpoints [] hoff, List.append_nil]
    exact h.slots

/-- What `create_watchpoint` refuses: an address that is taken, one that is not aligned
to the size, and one that cannot be read. -/
def Refused (s : Process) (a : VirtAddr) (size : ℕ) : Prop :=
  containsAddress s.watchpoints a = true ∨ a &&& (BitVec.ofNat 64 size - 1#64) ≠ 0#64 ∨
    s.memory.readv (remoteChunks size a size) = none

/-- What a refused creation leaves: all but the counter of ids. -/
def SameButId (s s' : Process) : Prop := s' = { s with lastWatchpointId := s'.lastWatchpointId }

/-- Either creation is refused; or more than eight bytes have been copied; or the new
watchpoint is the last one. -/
theorem createWatchpoint_cases (s : Process) (a : VirtAddr) (mode : StoppointMode) (size : ℕ) :
    (Refused s a size ∧ ∃ what s', createWatchpoint a mode size s = .error (.raised what) s' ∧
      SameButId s s') ∨
    (¬ Refused s a size ∧ 8 < size ∧
      ∃ s', createWatchpoint a mode size s = .error .undefined s' ∧ SameButId s s') ∨
    (¬ Refused s a size ∧ size ≤ 8 ∧ ∃ point : Watchpoint, ∃ id : BitVec 32,
      point.address = a ∧ point.mode = mode ∧ point.size = size ∧ point.isEnabled = false ∧
      createWatchpoint a mode size s = .ok () { s with
        lastWatchpointId := id, watchpoints := s.watchpoints ++ [point] }) := by
  unfold createWatchpoint
  rw [bind_ok (get_eq s)]
  by_cases hc : containsAddress s.watchpoints a = true
  · rw [if_pos hc]
    exact .inl ⟨.inl hc, _, s, rfl, rfl⟩
  rw [if_neg hc]
  unfold newWatchpoint
  by_cases halign : a &&& (BitVec.ofNat 64 size - 1#64) ≠ 0#64
  · rw [if_pos halign]
    exact .inl ⟨.inr (.inl halign), _, s, rfl, rfl⟩
  let s₁ : Process := { s with lastWatchpointId := s.lastWatchpointId + 1#32 }
  have hset : (set s₁ : M Unit) s = .ok () s₁ := rfl
  rw [if_neg halign, bind_assoc, bind_ok (get_eq s), bind_assoc, bind_ok hset]
  unfold watchedData readMemory
  simp only [bind_assoc]
  rw [bind_ok (get_eq s₁)]
  cases hread : s₁.memory.readv (remoteChunks size a size) with
  | none => exact .inl ⟨.inr (.inr hread), _, s₁, rfl, rfl⟩
  | some bytes =>
    right
    have hadmitted : ¬ Refused s a size := by
      rintro (h | h | h)
      · exact hc h
      · exact halign h
      · exact absurd (hread.symm.trans h) (by simp)
    simp only [pure_bind]
    by_cases hlong : size ≤ 8
    · rw [if_pos hlong]
      exact .inr ⟨hadmitted, hlong, _, _, rfl, rfl, rfl, rfl, rfl⟩
    · rw [if_neg hlong]
      exact .inl ⟨hadmitted, by omega, s₁, rfl, rfl⟩

theorem SameButId.withId {s s' : Process} (h : SameButId s s') (hs : Slotted s) : Slotted s' := by
  rw [h]
  exact hs.withId _

theorem slotted_createWatchpoint (h : Slotted s) (a : VirtAddr) (mode : StoppointMode) {size : ℕ}
    (hsize : ValidSize size) : Slotted (after (createWatchpoint a mode size) s) := by
  obtain ⟨-, what, s₁, hcreate, hsame⟩ | ⟨-, hlong, -⟩ | ⟨hadmitted, -, new, id, hat, -, hof, hoff, hcreate⟩ :=
    createWatchpoint_cases s a mode size
  · rw [after, hcreate]
    exact hsame.withId h
  · unfold ValidSize at hsize
    omega
  · have hfresh : ∀ y ∈ s.watchpoints, y.address ≠ new.address := fun y hy ha =>
      hadmitted (.inl (containsAddress_iff.mpr ⟨y, hy, ha.trans hat⟩))
    rw [after, hcreate]
    exact (h.withId id).withPoint hfresh (hof ▸ hsize) hoff

end Watchpoints

end KDebugger.Process
