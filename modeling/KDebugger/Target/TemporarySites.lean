import KDebugger.Target.AddedSites
import KDebugger.Target.StepOut

namespace KDebugger.Target

open Exec StoppointCollection
open Process (Reading Kept OverPutsBack StaysOff TrapAt TrapsHeld Armed ArmedAt place)

/-- Where a site is, what belongs to it, and whether it is enabled. -/
def flags (site : BreakpointSite) : (BitVec 32 × VirtAddr × Bool × Bool × Option ℕ) × Bool :=
  (place site, site.isEnabled)

section Flags

variable {l l' : List BreakpointSite}

theorem trapAt_of_flags (h : l'.map flags = l.map flags) {a : VirtAddr} (ha : TrapAt l a) :
    TrapAt l' a := by
  obtain ⟨site, hsite, hon, rfl⟩ := ha
  obtain ⟨site', hsite', hsame⟩ := List.mem_map.mp (h ▸ List.mem_map_of_mem (f := flags) hsite)
  exact ⟨site', hsite', (congrArg Prod.snd hsame).trans hon, congrArg (·.1.2.1) hsame⟩

theorem flags_iff (hplaces : l.map place <+: l'.map place)
    (hdistinct : (l'.map BreakpointSite.address).Nodup)
    (hoff : ∀ (i : ℕ) (site : BreakpointSite), l[i]? = some site → site.isEnabled = false →
      ∃ site', l'[i]? = some site' ∧ site'.isEnabled = false) :
    l'.map flags = l.map flags ↔ (∀ a, TrapAt l a → TrapAt l' a) ∧ l'.length = l.length := by
  constructor
  · intro h
    have hlength := congrArg List.length h
    rw [List.length_map, List.length_map] at hlength
    exact ⟨fun a => trapAt_of_flags h, hlength⟩
  · rintro ⟨hon, hlength⟩
    have hsame : l'.map place = l.map place :=
      (hplaces.eq_of_length (by rw [List.length_map, List.length_map, hlength])).symm
    refine List.ext_getElem (by simpa using hlength) fun i hi hi' => ?_
    rw [List.length_map] at hi hi'
    rw [List.getElem_map, List.getElem_map]
    have hplace : place l'[i] = place l[i] := by
      have := congrArg (·[i]?) hsame
      simpa [hi, hi'] using this
    cases henabled : l[i].isEnabled with
    | false =>
      obtain ⟨site', hsite', hdisabled⟩ := hoff i l[i] (List.getElem?_eq_getElem hi') henabled
      rw [List.getElem?_eq_getElem hi] at hsite'
      obtain rfl := Option.some.inj hsite'
      exact Prod.ext hplace (hdisabled.trans henabled.symm)
    | true =>
      obtain ⟨site', hsite', hon', haddr⟩ := hon _ ⟨l[i], List.getElem_mem hi', henabled, rfl⟩
      have heq : site' = l'[i] := List.inj_on_of_nodup_map hdistinct hsite' (List.getElem_mem hi)
        (haddr.trans (Process.address_of_place hplace).symm)
      exact Prod.ext hplace ((heq ▸ hon').trans henabled.symm)

end Flags

variable {t t' : Target} {A : Around} {reading : Reading} {address : VirtAddr} {tid : Tid}

/-- What is known of the sites when the thread has stopped, or a call has failed. -/
structure Proceeded (t t' : Target) : Prop where
  tracked : t'.Tracked
  held : TrapsHeld t'.process
  pointers : t.siteObjects <+: t'.siteObjects
  places : t.process.breakpointSites.map place <+: t'.process.breakpointSites.map place
  off : ∀ (i : ℕ) (site : BreakpointSite), t.process.breakpointSites[i]? = some site →
    site.isEnabled = false → StaysOff i site t'.process

theorem places_growing (l : List (BitVec 32 × VirtAddr × Bool × Bool × Option ℕ)) :
    Process.Growing fun s => l <+: s.breakpointSites.map place where
  same hsites _ h := by rwa [hsites]
  runs hruns h := by rwa [hruns.same]
  adds hadds h := by
    obtain ⟨new, hnew⟩ := hadds.sites
    rw [hnew, List.map_append]
    exact h.trans (List.prefix_append _ _)

theorem Proceeded.flags_iff (hp : Proceeded t t') :
    t'.process.breakpointSites.map flags = t.process.breakpointSites.map flags ↔
      Kept (TrapAt t.process.breakpointSites) t'.process ∧
        t'.process.breakpointSites.length = t.process.breakpointSites.length := by
  rw [Target.flags_iff hp.places hp.held.distinct]
  · exact and_congr_left' ⟨fun hon => ⟨hp.held, hon⟩, Kept.enabled⟩
  · intro i site hi hoff
    obtain ⟨site', hi', -, hoff'⟩ := hp.off i site hi hoff
    exact ⟨site', hi', hoff'⟩

theorem Proceeded.length_le (hp : Proceeded t t') :
    t.process.breakpointSites.length ≤ t'.process.breakpointSites.length := by
  simpa using hp.places.length_le

theorem proceeded (hA : A.outside.LeavesSites) (reading : Reading) (tid : Tid) (ht : t.Tracked)
    (h : TrapsHeld t.process) : Proceeded t (after (proceed A reading tid) t) := by
  let before := t.process.breakpointSites.map place
  have hresume (otid : Option Tid) : Within (fun s s' : Process =>
      before <+: s.breakpointSites.map place → before <+: s'.breakpointSites.map place)
      (Process.resume A.outside otid) := by
    intro s hs
    have hsame := Process.places_resume hA.keepsPlaces otid s
    rwa [hsame]
  have hplaces := alive_proceed (P := t.siteObjects) hA reading tid (places_growing before) hresume t
    ⟨ht, h, List.prefix_rfl, List.prefix_rfl⟩
  refine ⟨hplaces.tracked, hplaces.held, hplaces.pointers, hplaces.rest, fun i site hi hoff => ?_⟩
  have hgrowing := Process.staysOff_growing i site
  have hstays := alive_proceed (P := t.siteObjects) hA reading tid hgrowing
    (fun otid => hgrowing.toLasting.resume (fun _ _ _ _ hat => Process.staysOff_stepOff
      hA.toLeavesTraps (fun i site => (Process.staysOff_growing i site).waitpid _) hat.get
        hat.enabled) hA.toLeavesTraps otid) t ⟨ht, h, List.prefix_rfl, site, hi, rfl, hoff⟩
  exact hstays.rest

/-- The site that is made, as it is enabled. -/
def temporary (t : Target) (address : VirtAddr) : BreakpointSite :=
  Process.BreakpointSite.trapped (t.newSite none address false true) (t.process.memory.byte address)

def withTemporary (t : Target) (address : VirtAddr) : Target :=
  { t.withSite (t.newSite none address false true) with
    process := { t.process with
      breakpointSites := t.process.breakpointSites ++ [t.temporary address]
      memory := t.process.memory.setByte address 0xcc#8 } }

theorem temporarySite_there (hthere : StoppointCollection.containsAddress t.process.breakpointSites address = true) :
    temporarySite address t = .ok none t := by
  unfold temporarySite
  rw [bind_ok (get_eq t), if_pos hthere]
  rfl

section Absent

variable (hnew : StoppointCollection.containsAddress t.process.breakpointSites address = false)
  (ht : t.Tracked)

include hnew ht

theorem temporarySite_absent : temporarySite address t = (do
    onProcess (Process.enableSite t.process.breakpointSites.length)
    pure (some t.objects)) (t.withSite (t.newSite none address false true)) := by
  have hcreate := createBreakpointSite_eq (t := t) none address false true
  rw [if_neg (by simp [hnew])] at hcreate
  unfold temporarySite enableSite
  rw [bind_ok (get_eq t), if_neg (by simp [hnew]), bind_ok hcreate, bind_assoc,
    bind_ok (siteIndex_new ht _)]

theorem temporarySite_mapped (hm : t.process.memory.isMapped address 8 = true) :
    temporarySite address t = .ok (some t.objects) (t.withTemporary address) := by
  let made := t.newSite none address false true
  have hsites : (t.withSite made).process.breakpointSites =
      t.process.breakpointSites ++ made :: [] := rfl
  have henable := Process.enableSite_eq hsites hm rfl rfl
  rw [temporarySite_absent hnew ht, bind_ok (onProcess_ok henable)]
  rfl

theorem temporarySite_unmapped (hm : t.process.memory.isMapped address 8 = false) :
    ∃ e t', temporarySite address t = .error e t' ∧
      t'.process.breakpointSites.length = t.process.breakpointSites.length + 1 := by
  let made := t.newSite none address false true
  have hoff : StaysOff t.process.breakpointSites.length made (t.withSite made).process :=
    ⟨made, by simp [withSite], rfl, rfl⟩
  have hcan : ¬ Process.CanEnable (t.withSite made).process made := by
    unfold Process.CanEnable
    rw [if_neg (by simp [made, newSite])]
    exact fun hno => Bool.false_ne_true (hm.symm.trans hno)
  obtain ⟨e, s', henable, hsites, -⟩ := Process.enableSite_of_not_can hoff hcan
  have herror : onProcess (Process.enableSite t.process.breakpointSites.length) (t.withSite made) =
      .error e { t.withSite made with process := s' } := by
    unfold onProcess
    rw [henable]
  refine ⟨e, { t.withSite made with process := s' }, ?_, ?_⟩
  · rw [temporarySite_absent hnew ht, bind_error herror]
  · change s'.breakpointSites.length = _
    rw [hsites]
    simp [withSite]

theorem over_withTemporary (h : TrapsHeld t.process)
    (hm : t.process.memory.isMapped address 8 = true) : Over t (t.withTemporary address) := by
  let made := t.newSite none address false true
  have hover : Over t (t.withSite made) := (Over.refl ht h).withSite rfl hnew
  have henable := over_enableSite ht le_rfl _ hover
  have hsites : (t.withSite made).process.breakpointSites =
      t.process.breakpointSites ++ made :: [] := rfl
  have hsite := Process.enableSite_eq hsites hm rfl rfl
  unfold enableSite at henable
  rw [after_bind_ok (siteIndex_new ht made), after, onProcess_ok hsite] at henable
  exact henable

end Absent

section Ends

variable {otid : Option Tid}

def putAway (address : VirtAddr) (tid : Tid) (remove : Option ℕ) (reason : StopReason) :
    TargetM Unit := do
  let arrived ← arrivedAt reason (some tid) address
  removeTemporary remove
  onProcess (Process.setReason tid
    (if arrived then { reason with trapReason := some .singleStep } else reason))

theorem runUntilAddress_cases {remove : Option ℕ} (hmade : temporarySite address t = .ok remove t') :
    runUntilAddress A reading address otid t =
      (proceed A reading (t.process.valueOr otid) >>=
        putAway address (t.process.valueOr otid) remove) t' := by
  rw [runUntilAddress_eq, bind_ok hmade]
  unfold proceed
  rw [bind_assoc]
  rfl

theorem sameTraps_setReason (reason : StopReason) : Within
    (fun t t' : Target => Process.SameTraps t.process t'.process) (onProcess (Process.setReason tid reason)) := by
  intro t
  rw [after_onProcess]
  exact Process.sameTraps.bind (Process.within_threadAt Process.sameTraps tid)
    (fun _ _ => ⟨rfl, rfl⟩) t.process

theorem arrivedAt_within (reason : StopReason) (otid : Option Tid) (address : VirtAddr) :
    Within (fun t t' : Target => t' = t) (arrivedAt reason otid address) := by
  refine within_ite (unchanged.bind (fun t => ?_) fun _ => unchanged.pure _) (unchanged.pure _)
  rw [after_onProcess, Process.within_getPc unchanged otid t.process]

/-- With a site there, the sites and the traps are left as they are after the wait. -/
theorem sameTraps_putAway_none (reason : StopReason) :
    Within (fun t t' : Target => Process.SameTraps t.process t'.process)
      (putAway address tid none reason) := by
  have hframe : Frame fun t t' : Target => Process.SameTraps t.process t'.process :=
    ⟨fun t => Process.sameTraps.refl t.process, Process.sameTraps.trans⟩
  refine hframe.bind (fun t => ?_) fun _ => hframe.bind (hframe.pure _) fun _ => sameTraps_setReason _
  rw [arrivedAt_within]
  exact hframe.refl t

/-- The program counter that is compared can be read. -/
def PcReadable (reason : StopReason) (tid : Tid) (t : Target) : Prop :=
  reason.isBreakpoint = true → ∃ pc, t.process.filePc tid = some (.ok pc)

theorem arrivedAt_readable {reason : StopReason} (h : PcReadable reason tid t)
    (address : VirtAddr) :
    ∃ b, arrivedAt reason (some tid) address t = .ok b t := by
  unfold arrivedAt
  split_ifs with hstop
  · obtain ⟨pc, hpc⟩ := h hstop
    rw [bind_ok (getPc_ok_iff.mpr ⟨hpc, rfl⟩)]
    exact ⟨_, rfl⟩
  · exact ⟨false, rfl⟩

theorem arrivedAt_unreadable {reason : StopReason} (h : ¬ PcReadable reason tid t)
    (address : VirtAddr) :
    ∃ e, arrivedAt reason (some tid) address t = .error e t := by
  have hsame := arrivedAt_within reason (some tid) address t
  cases hcheck : arrivedAt reason (some tid) address t with
  | error e t' =>
    rw [after, hcheck] at hsame
    change t' = t at hsame
    exact ⟨e, by rw [hsame]⟩
  | ok b t' =>
    refine absurd (fun hstop => ?_) h
    unfold arrivedAt at hcheck
    rw [if_pos hstop] at hcheck
    obtain ⟨pc, t₁, hpc, -⟩ := bind_eq_ok.mp hcheck
    exact ⟨pc, (getPc_ok_iff.mp hpc).1⟩

theorem putAway_some (address : VirtAddr) {n object : ℕ} {reason : StopReason} {site : BreakpointSite}
    (ht : t.Tracked) (h : TrapsHeld t.process) (hobject : t.siteObjects[n]? = some object)
    (hsite : t.process.breakpointSites[n]? = some site) (hpc : PcReadable reason tid t) :
    Process.SameTraps (t.erased n).process
      (after (putAway address tid (some object) reason) t).process := by
  obtain ⟨b, harrived⟩ := arrivedAt_readable hpc address
  have hremove : removeTemporary (some object) t = .ok () (t.erased n) :=
    removeSite_eq ht h.distinct hobject hsite
  unfold putAway
  rw [after_bind_ok harrived, after_bind_ok hremove]
  exact sameTraps_setReason _ _

theorem putAway_unreadable {reason : StopReason} (remove : Option ℕ)
    (h : ¬ PcReadable reason tid t) : after (putAway address tid remove reason) t = t := by
  obtain ⟨e, hcheck⟩ := arrivedAt_unreadable h address
  unfold putAway
  rw [after_bind_error hcheck]

end Ends

/-- An enabled site is at the address, and still is when the thread has been let go. -/
def StopsAt (A : Around) (address : VirtAddr) (t : Target) (otid : Option Tid) : Prop :=
  TrapAt t.process.breakpointSites address ∧
    ∀ t', onProcess (Process.resume A.outside otid) t = .ok () t' →
      TrapAt t'.process.breakpointSites address

/-- Whenever a thread is let go an enabled site is at the address, and in the end the sites and
the trap bytes are as they were. -/
structure UntilRestores (A : Around) (reading : Reading) (address : VirtAddr) (otid : Option Tid)
    (t : Target) : Prop where
  stops : ∀ remove t₁, temporarySite address t = .ok remove t₁ →
    Throughout (StopsAt A address) A reading (t.process.valueOr otid) t₁
  sites : (after (runUntilAddress A reading address otid) t).process.breakpointSites.map flags =
    t.process.breakpointSites.map flags
  traps : ∀ a, ArmedAt t.process a ∨
    StoppointCollection.containsAddress t.process.breakpointSites address = false ∧ a = address →
    t.process.memory.isMapped a 8 = true →
      (after (runUntilAddress A reading address otid) t).process.memory.isMapped a 8 = true →
        (after (runUntilAddress A reading address otid) t).process.memory.byte a =
          t.process.memory.byte a

/-- An enabled site is there; the sites that threads are stepped over are put back, and no hit
handler makes one. -/
structure Undisturbed (A : Around) (reading : Reading) (address : VirtAddr) (tid : Tid)
    (t : Target) : Prop where
  there : TrapAt t.process.breakpointSites address
  putBack : Throughout (fun t' otid => OverPutsBack (TrapAt t.process.breakpointSites) A.outside
    t'.process (t'.process.valueOr otid)) A reading tid t
  noneAdded : (after (proceed A reading tid) t).process.breakpointSites.length =
    t.process.breakpointSites.length

/-- No site is there, and its memory is; the thread is let go and waited for without an
exception, and no hit handler makes a site.  The byte is that of a trap. -/
structure TakenAway (A : Around) (reading : Reading) (address : VirtAddr) (tid : Tid)
    (t : Target) : Prop where
  free : StoppointCollection.containsAddress t.process.breakpointSites address = false
  mapped : t.process.memory.isMapped address 8 = true
  returns : ∃ reason t', proceed A reading tid (t.withTemporary address) = .ok reason t' ∧
    t'.process.breakpointSites.length = t.process.breakpointSites.length + 1 ∧
    PcReadable reason tid t' ∧
    (t'.process.memory.isMapped address 8 = true → t.process.memory.byte address = 0xcc#8)

theorem armedAt_of_flags {s s' : Process}
    (h : s'.breakpointSites.map flags = s.breakpointSites.map flags) {a : VirtAddr}
    (ha : ArmedAt s a) : ArmedAt s' a := by
  obtain ⟨site, hsite, harmed, rfl⟩ := ha
  obtain ⟨site', hsite', hsame⟩ := List.mem_map.mp (h ▸ List.mem_map_of_mem (f := flags) hsite)
  refine ⟨site', hsite', ⟨?_, ?_⟩, congrArg (·.1.2.1) hsame⟩
  · exact (congrArg Prod.snd hsame).trans harmed.1
  · exact (congrArg (·.1.2.2.1) hsame).trans harmed.2

theorem byte_of_armedAt {s : Process} (h : TrapsHeld s) {a : VirtAddr} (ha : ArmedAt s a)
    (hm : s.memory.isMapped a 8 = true) : s.memory.byte a = 0xcc#8 := by
  obtain ⟨site, hsite, harmed, rfl⟩ := ha
  exact h.trap site hsite harmed hm

section Restores

variable {otid : Option Tid} (hA : A.outside.LeavesSites) (ht : t.Tracked)
  (h : TrapsHeld t.process)

include hA ht h

theorem throughout_stopsAt (hon : TrapAt t.process.breakpointSites address) :
    Throughout (StopsAt A address) A reading tid t := by
  have hkept : Alive t.siteObjects (Kept (· = address)) t :=
    ⟨ht, h, List.prefix_rfl, h, fun a ha => ha ▸ hon⟩
  refine (throughout_kept hA reading tid hkept).mono fun t' otid halive => ?_
  refine ⟨halive.rest.enabled _ rfl, fun t'' hrun => ?_⟩
  have hback := leads_alive_resume hA halive otid
  unfold Leads at hback
  rw [hrun] at hback
  exact hback.rest.enabled _ rfl

theorem untilRestores_there
    (hthere : StoppointCollection.containsAddress t.process.breakpointSites address = true) :
    UntilRestores A reading address otid t ↔
      Undisturbed A reading address (t.process.valueOr otid) t := by
  -- nothing is made and nothing erased
  let tid := t.process.valueOr otid
  have hmade := temporarySite_there hthere
  have hall : Alive t.siteObjects (Kept (TrapAt t.process.breakpointSites)) t :=
    ⟨ht, h, List.prefix_rfl, h, fun _ => id⟩
  have hproceeded := proceeded hA reading tid ht h
  have hend : Process.SameTraps (after (proceed A reading tid) t).process
      (after (runUntilAddress A reading address otid) t).process := by
    have hframe : Frame fun t t' : Target => Process.SameTraps t.process t'.process :=
      ⟨fun t => Process.sameTraps.refl t.process, Process.sameTraps.trans⟩
    have hcall : after (runUntilAddress A reading address otid) t =
        after (proceed A reading tid >>= putAway address tid none) t := by
      rw [after, runUntilAddress_cases hmade]
      rfl
    rw [hcall]
    exact hframe.after_bind (fun reason => sameTraps_putAway_none reason) t
  have hflags : (after (runUntilAddress A reading address otid) t).process.breakpointSites.map
      flags = t.process.breakpointSites.map flags ↔
        Throughout (fun t' otid => OverPutsBack (TrapAt t.process.breakpointSites) A.outside
          t'.process (t'.process.valueOr otid)) A reading tid t ∧
        (after (proceed A reading tid) t).process.breakpointSites.length =
          t.process.breakpointSites.length := by
    rw [hend.1, hproceeded.flags_iff, ← alive_proceed_iff hA reading tid hall]
    refine and_congr_left' ⟨fun hkept => ?_, Alive.rest⟩
    exact ⟨hproceeded.tracked, hproceeded.held, hproceeded.pointers, hkept⟩
  constructor
  · intro hrestores
    obtain ⟨hput, hnone⟩ := hflags.mp hrestores.sites
    exact ⟨(hrestores.stops none t hmade).1.1, hput, hnone⟩
  · rintro ⟨hon, hput, hnone⟩
    have hsame := hflags.mpr ⟨hput, hnone⟩
    refine ⟨?_, hsame, ?_⟩
    · intro remove t₁ hmade'
      rw [hmade] at hmade'
      cases hmade'
      exact throughout_stopsAt hA ht h hon
    · rintro a (harmed | ⟨hno, -⟩) hm hm'
      · have hheld := Process.held_growing.same hend.1 hend.2 hproceeded.held
        rw [byte_of_armedAt h harmed hm, byte_of_armedAt hheld (armedAt_of_flags hsame harmed) hm']
      · rw [hthere] at hno
        cases hno

end Restores

section Temporary

variable (hnew : StoppointCollection.containsAddress t.process.breakpointSites address = false)
  (ht : t.Tracked)

include ht

theorem Proceeded.made (hp : Proceeded (t.withTemporary address) t') :
    t'.siteObjects[t.process.breakpointSites.length]? = some t.objects ∧
      ∃ site, t'.process.breakpointSites[t.process.breakpointSites.length]? = some site := by
  constructor
  · obtain ⟨more, hmore⟩ := hp.pointers
    rw [← hmore, ← ht.parallel]
    change ((t.siteObjects ++ [t.objects]) ++ more)[t.siteObjects.length]? = _
    simp
  · have hlength := hp.length_le
    change (t.process.breakpointSites ++ [_]).length ≤ _ at hlength
    rw [List.length_append, List.length_singleton] at hlength
    exact ⟨_, List.getElem?_eq_getElem hlength⟩

omit ht in
theorem erased_flags (hsame : t'.process.breakpointSites.map flags =
      (t.withTemporary address).process.breakpointSites.map flags) :
    (t'.erased t.process.breakpointSites.length).process.breakpointSites.map flags =
      t.process.breakpointSites.map flags := by
  have hlist : t'.process.breakpointSites.map flags =
      t.process.breakpointSites.map flags ++ [flags (t.temporary address)] := by
    rw [hsame]
    exact List.map_append
  change (t'.process.breakpointSites.eraseIdx _).map flags = _
  rw [List.eraseIdx_eq_take_drop_succ, List.map_append, List.map_take, List.map_drop, hlist]
  simp

end Temporary

section Taken

variable {otid : Option Tid} (hA : A.outside.LeavesSites) (ht : t.Tracked)
  (h : TrapsHeld t.process)
  (hnew : StoppointCollection.containsAddress t.process.breakpointSites address = false)

include hA ht h hnew

theorem proceeded_temporary {reason : StopReason}
    (hm : t.process.memory.isMapped address 8 = true)
    (hrun : proceed A reading tid (t.withTemporary address) = .ok reason t') :
    Proceeded (t.withTemporary address) t' := by
  have hover := over_withTemporary hnew ht h hm
  have hproceeded := proceeded hA reading tid hover.tracked hover.held
  rwa [after, hrun] at hproceeded

/-- Where the calls before the removal return, only the new trap is left behind. -/
theorem restores_taken {reason : StopReason} (hm : t.process.memory.isMapped address 8 = true)
    (hrun : proceed A reading tid (t.withTemporary address) = .ok reason t') {s : Process}
    (hend : Process.SameTraps (t'.erased t.process.breakpointSites.length).process s) :
    (s.breakpointSites.map flags = t.process.breakpointSites.map flags ∧
      ∀ a, ArmedAt t.process a ∨
        StoppointCollection.containsAddress t.process.breakpointSites address = false ∧
          a = address →
        t.process.memory.isMapped a 8 = true → s.memory.isMapped a 8 = true →
          s.memory.byte a = t.process.memory.byte a) ↔
      t'.process.breakpointSites.length = t.process.breakpointSites.length + 1 ∧
        (t'.process.memory.isMapped address 8 = true → t.process.memory.byte address = 0xcc#8) := by
  -- the trap stays in memory, which is right only where the byte was one before
  have hover := over_withTemporary hnew ht h hm
  have hproceeded := proceeded_temporary hA ht h hnew hm hrun
  have hkept : Alive (t.withTemporary address).siteObjects
      (Kept (TrapAt (t.withTemporary address).process.breakpointSites)) t' :=
    alive_proceed_ok hA ⟨hover.tracked, hover.held, List.prefix_rfl, hover.held, fun _ => id⟩ hrun
  have hlength : (t.withTemporary address).process.breakpointSites.length =
      t.process.breakpointSites.length + 1 := List.length_append
  -- the traps of the call and the new one are still there
  have htraps (hsame : t'.process.breakpointSites.map flags =
      (t.withTemporary address).process.breakpointSites.map flags) {a : VirtAddr}
      (ha : ArmedAt (t.withTemporary address).process a)
      (hmapped : t'.process.memory.isMapped a 8 = true) : t'.process.memory.byte a = 0xcc#8 :=
    byte_of_armedAt hproceeded.held (armedAt_of_flags hsame ha) hmapped
  have htemporary : ArmedAt (t.withTemporary address).process address :=
    ⟨t.temporary address, List.mem_append_right _ (List.mem_singleton_self _), ⟨rfl, rfl⟩, rfl⟩
  have hsame_iff : t'.process.breakpointSites.map flags =
      (t.withTemporary address).process.breakpointSites.map flags ↔
        t'.process.breakpointSites.length = t.process.breakpointSites.length + 1 := by
    rw [hproceeded.flags_iff, hlength]
    exact and_iff_right hkept.rest
  rw [hend.1, hend.2]
  change _ ∧ (∀ a, _ → _ → t'.process.memory.isMapped a 8 = true →
    t'.process.memory.byte a = _) ↔ _
  constructor
  · rintro ⟨hflags, hbytes⟩
    have hsize : t'.process.breakpointSites.length = t.process.breakpointSites.length + 1 := by
      obtain ⟨-, site, hsite⟩ := hproceeded.made ht
      have hlt := (List.getElem?_eq_some_iff.mp hsite).1
      have hcount := congrArg List.length hflags
      rw [List.length_map, List.length_map] at hcount
      change (t'.process.breakpointSites.eraseIdx _).length = _ at hcount
      rw [List.length_eraseIdx_of_lt hlt] at hcount
      omega
    refine ⟨hsize, fun hmapped => ?_⟩
    rw [← hbytes address (.inr ⟨hnew, rfl⟩) hm hmapped]
    exact htraps (hsame_iff.mpr hsize) htemporary hmapped
  · rintro ⟨hsize, hbyte⟩
    have hsame := hsame_iff.mpr hsize
    refine ⟨erased_flags hsame, fun a ha hmapped hmapped' => ?_⟩
    obtain harmed | ⟨-, rfl⟩ := ha
    · obtain ⟨site, hsite, hsite'⟩ := harmed
      rw [htraps hsame ⟨site, List.mem_append_left _ hsite, hsite'⟩ hmapped',
        byte_of_armedAt h ⟨site, hsite, hsite'⟩ hmapped]
    · rw [htraps hsame htemporary hmapped', hbyte hmapped']

theorem not_restores_left (hm : t.process.memory.isMapped address 8 = true)
    (hleft : (after (runUntilAddress A reading address otid) t).process.breakpointSites =
      (after (proceed A reading (t.process.valueOr otid))
        (t.withTemporary address)).process.breakpointSites) :
    ¬ UntilRestores A reading address otid t := by
  intro hrestores
  have hover := over_withTemporary hnew ht h hm
  have hlength := (proceeded hA reading (t.process.valueOr otid) hover.tracked hover.held).length_le
  have hcount := congrArg List.length hrestores.sites
  rw [List.length_map, List.length_map, hleft] at hcount
  change (t.process.breakpointSites ++ [_]).length ≤ _ at hlength
  rw [List.length_append, List.length_singleton] at hlength
  omega

theorem untilRestores_taken {reason : StopReason}
    (hm : t.process.memory.isMapped address 8 = true)
    (hrun : proceed A reading (t.process.valueOr otid) (t.withTemporary address) = .ok reason t')
    (hpc : PcReadable reason (t.process.valueOr otid) t') :
    UntilRestores A reading address otid t ↔
      t'.process.breakpointSites.length = t.process.breakpointSites.length + 1 ∧
        (t'.process.memory.isMapped address 8 = true → t.process.memory.byte address = 0xcc#8) := by
  have hmade := temporarySite_mapped hnew ht hm
  have hover := over_withTemporary hnew ht h hm
  have hproceeded := proceeded_temporary hA ht h hnew hm hrun
  obtain ⟨hobject, site, hsite⟩ := hproceeded.made ht
  have hend := putAway_some address hproceeded.tracked hproceeded.held hobject hsite hpc
  rw [← after_bind_ok hrun, after, ← runUntilAddress_cases hmade] at hend
  rw [← restores_taken hA ht h hnew hm hrun hend]
  constructor
  · exact fun hrestores => ⟨hrestores.sites, hrestores.traps⟩
  · rintro ⟨hsites, htraps⟩
    refine ⟨fun remove t₁ hmade' => ?_, hsites, htraps⟩
    rw [hmade] at hmade'
    cases hmade'
    refine throughout_stopsAt hA hover.tracked hover.held ?_
    exact ⟨t.temporary address, List.mem_append_right _ (List.mem_singleton_self _), rfl, rfl⟩

theorem untilRestores_absent : UntilRestores A reading address otid t ↔
    TakenAway A reading address (t.process.valueOr otid) t := by
  cases hm : t.process.memory.isMapped address 8 with
  | false =>
    refine iff_of_false (fun hrestores => ?_) fun htaken => ?_
    · obtain ⟨e, t', herror, hlength⟩ := temporarySite_unmapped hnew ht hm
      have hcall : after (runUntilAddress A reading address otid) t = t' := by
        rw [after, runUntilAddress_eq, bind_error herror]
      have hcount := congrArg List.length hrestores.sites
      rw [List.length_map, List.length_map, hcall] at hcount
      omega
    · exact absurd (hm.symm.trans htaken.mapped) (by decide)
  | true =>
    have hcall : after (runUntilAddress A reading address otid) t =
        after (proceed A reading (t.process.valueOr otid) >>=
          putAway address (t.process.valueOr otid) (some t.objects)) (t.withTemporary address) := by
      rw [after, runUntilAddress_cases (temporarySite_mapped hnew ht hm)]
      rfl
    cases hrun : proceed A reading (t.process.valueOr otid) (t.withTemporary address) with
    | error e t' =>
      refine iff_of_false (not_restores_left hA ht h hnew hm ?_) fun htaken => ?_
      · rw [hcall, after_bind_error hrun, after, hrun]
      · obtain ⟨reason, t'', hok, -⟩ := htaken.returns
        cases hrun.symm.trans hok
    | ok reason t' =>
      by_cases hpc : PcReadable reason (t.process.valueOr otid) t'
      · rw [untilRestores_taken hA ht h hnew hm hrun hpc]
        constructor
        · rintro ⟨hsize, hbyte⟩
          exact ⟨hnew, hm, reason, t', hrun, hsize, hpc, hbyte⟩
        · rintro ⟨-, -, reason', t'', hok, hsize, -, hbyte⟩
          cases hrun.symm.trans hok
          exact ⟨hsize, hbyte⟩
      · refine iff_of_false (not_restores_left hA ht h hnew hm ?_) fun htaken => ?_
        · rw [hcall, after_bind_ok hrun, putAway_unreadable _ hpc, after, hrun]
        · obtain ⟨reason', t'', hok, -, hpc', -⟩ := htaken.returns
          cases hrun.symm.trans hok
          exact hpc hpc'

end Taken

/-- All is as before exactly where an enabled site was there before and nothing is added or lost
on the way, or where a new one is taken away whose byte was that of a trap. -/
theorem untilRestores_iff {otid : Option Tid} (hA : A.outside.LeavesSites) (ht : t.Tracked)
    (h : TrapsHeld t.process) :
    UntilRestores A reading address otid t ↔
      Undisturbed A reading address (t.process.valueOr otid) t ∨
        TakenAway A reading address (t.process.valueOr otid) t := by
  cases hthere : StoppointCollection.containsAddress t.process.breakpointSites address with
  | true =>
    rw [untilRestores_there hA ht h hthere]
    exact (or_iff_left fun htaken => Bool.noConfusion (hthere.symm.trans htaken.free)).symm
  | false =>
    rw [untilRestores_absent hA ht h hthere]
    refine (or_iff_right fun hundisturbed => ?_).symm
    obtain ⟨site, hsite, -, haddress⟩ := hundisturbed.there
    rw [Process.containsAddress_iff.mpr ⟨site, hsite, haddress⟩] at hthere
    cases hthere

theorem quiet_leavesSites : Process.quiet.LeavesSites where
  toLeavesTraps := Process.quiet_onlyAddsSites.toLeavesTraps
  hooks := ⟨fun _ => Process.sameTraps.refl, fun _ => Process.sameTraps.refl,
    fun _ => Process.sameTraps.refl⟩

/-- No sites; the thread comes by 24. -/
def comingBy : Target :=
  { stoppedTarget twoRows with
    process := { Process.untouched with
      events := [{ tid := 1, status := 0x57f#32, siCode := 0x80, regs := recursiveFile 25#8 }] } }

theorem comingBy_tracked : comingBy.Tracked := ⟨rfl, .nil, nofun⟩

theorem comingBy_trapsHeld : TrapsHeld comingBy.process := ⟨.nil, nofun⟩

theorem untilRestores_iff_comingBy : UntilRestores quietAround .asMeant 24#64 none comingBy ↔
    Undisturbed quietAround .asMeant 24#64 1 comingBy ∨
      TakenAway quietAround .asMeant 24#64 1 comingBy :=
  untilRestores_iff quiet_leavesSites comingBy_tracked comingBy_trapsHeld

/-- The thread stops at the address, and the byte there stays that of the trap. -/
theorem untilRestores_not_for_all : ¬ ∀ (A : Around) (reading : Reading) (address : VirtAddr)
    (otid : Option Tid) (t : Target), A.outside.LeavesSites → t.Tracked → TrapsHeld t.process →
      UntilRestores A reading address otid t := by
  intro h
  have hrestores := h quietAround .asMeant 24#64 none comingBy quiet_leavesSites
    comingBy_tracked comingBy_trapsHeld
  have hbyte := hrestores.traps 24#64 (.inr ⟨rfl, rfl⟩) (by decide +kernel) (by decide +kernel)
  exact absurd hbyte (by decide +kernel)

end KDebugger.Target
