import KDebugger.Target.ResolvingTwice

namespace KDebugger

open Exec

namespace Process

/-- The first `n` sites are the same, flags and saved bytes included. -/
def SameBefore (n : ℕ) (s s' : Process) : Prop :=
  s'.breakpointSites.take n = s.breakpointSites.take n

theorem sameBefore (n : ℕ) : Frame (SameBefore n) where
  refl _ := rfl
  trans h h' := Eq.trans h' h

theorem sameBefore_modifySite {n i : ℕ} (hi : n ≤ i) (f : BreakpointSite → BreakpointSite) :
    Within (SameBefore n) (modifySite i f) := by
  intro s
  change (s.breakpointSites.modify i f).take n = s.breakpointSites.take n
  apply List.ext_getElem?
  intro j
  rw [List.getElem?_take, List.getElem?_take]
  split_ifs with hj
  · have hij : i ≠ j := by omega
    rw [List.getElem?_modify]
    simp [hij]
  · rfl

theorem sameBefore_pokeData (n : ℕ) (what : String) (a : VirtAddr) (w : BitVec 64) :
    Within (SameBefore n) (pokeData what a w) := by
  intro s
  unfold pokeData
  rw [after_bind_ok (get_eq s)]
  cases s.memory.poke a w <;> rfl

theorem sameBefore_enableSite {n i : ℕ} (hi : n ≤ i) : Within (SameBefore n) (enableSite i) := by
  have hmodify := fun f => sameBefore_modifySite (n := n) hi f
  apply (sameBefore n).bind (within_siteAt (sameBefore n) i)
  intro site
  apply within_ite ((sameBefore n).pure _)
  apply within_ite
  · apply (sameBefore n).bind
    · intro s
      have hsites := (within_setHardwareStoppoint site.address .execute 1 s).same.sites
      exact congrArg (List.take n) hsites
    · exact fun index => (sameBefore n).bind (hmodify _) fun _ => hmodify _
  · apply (sameBefore n).bind (within_peekData (sameBefore n) _ _)
    intro data
    apply (sameBefore n).bind (hmodify _)
    intro _
    exact (sameBefore n).bind (sameBefore_pokeData n _ _ _) fun _ => hmodify _

end Process

namespace Target

/-- What was there is there still, in the process and in the breakpoint, and comes first. -/
structure OnlyAdds (r r' : Resolving) : Prop where
  tracked : r.target.Tracked → r'.target.Tracked
  sites : r.target.Tracked →
    r.target.process.breakpointSites <+: r'.target.process.breakpointSites
  own : r.this.sites <+: r'.this.sites

theorem onlyAdds : Frame OnlyAdds where
  refl _ := ⟨id, fun _ => List.prefix_rfl, List.prefix_rfl⟩
  trans h h' := ⟨h'.tracked ∘ h.tracked, fun ht => (h.sites ht).trans (h'.sites (h.tracked ht)),
    h.own.trans h'.own⟩

theorem siteIndex_new {t : Target} (ht : t.Tracked) (site : BreakpointSite) :
    siteIndex t.objects (t.withSite site) =
      .ok t.process.breakpointSites.length (t.withSite site) := by
  have hidx : (t.siteObjects ++ [t.objects]).idxOf? t.objects = some t.siteObjects.length := by
    rw [List.idxOf?_eq_some_iff]
    refine ⟨by simp, by simp, fun j hj hobject => ?_⟩
    rw [List.getElem_append_left hj] at hobject
    have hfresh := ht.fresh _ (List.getElem_mem hj)
    omega
  unfold siteIndex
  rw [bind_ok (get_eq _)]
  simp only [Target.withSite, hidx, ht.parallel]
  rfl

theorem sameBefore_enableSite_new {t : Target} (ht : t.Tracked) (site : BreakpointSite) :
    t.process.breakpointSites <+:
      (after (enableSite t.objects) (t.withSite site)).process.breakpointSites := by
  let n := t.process.breakpointSites.length
  have hkept : Process.SameBefore n (t.withSite site).process
      (after (Process.enableSite n) (t.withSite site).process) :=
    Process.sameBefore_enableSite le_rfl _
  have hfirst : (t.withSite site).process.breakpointSites.take n = t.process.breakpointSites :=
    List.take_left
  have htaken := List.take_prefix n (after (Process.enableSite n) (t.withSite site).process).breakpointSites
  rw [hkept, hfirst] at htaken
  unfold enableSite
  rw [after_bind_ok (siteIndex_new ht site), after_onProcess]
  exact htaken

/-- Either the address is taken, or the site is pushed and after that, at most, enabled. -/
theorem after_addSite (address : VirtAddr) (r : Resolving) :
    (StoppointCollection.containsAddress r.target.process.breakpointSites address = true ∧
      after (addSite address) r = r) ∨
    (StoppointCollection.containsAddress r.target.process.breakpointSites address = false ∧
      (after (addSite address) r = pushed r address ∨
        after (addSite address) r = { pushed r address with
          target := after (enableSite r.target.objects) (pushed r address).target })) := by
  have hcreate := createBreakpointSite_eq (t := r.target) (some r.this.object) address
    r.this.isHardware r.this.isInternal
  unfold addSite
  rw [after_bind_ok (get_eq r)]
  split_ifs at hcreate with hthere
  · have hraised : onTarget (createBreakpointSite (some r.this.object) address r.this.isHardware
        r.this.isInternal) r =
          .error (.raised (Process.siteExists (some r.this.object) ++ toString address.toNat)) r := by
      unfold onTarget
      rw [hcreate]
    exact .inl ⟨hthere, after_bind_error hraised⟩
  · have hadded : onTarget (createBreakpointSite (some r.this.object) address r.this.isHardware
        r.this.isInternal) r = .ok r.target.objects { r with target := (pushed r address).target } := by
      unfold onTarget
      rw [hcreate]
      rfl
    refine .inr ⟨by simpa using hthere, ?_⟩
    rw [after_bind_ok hadded]
    change after (if r.this.isEnabled then onTarget (enableSite r.target.objects) else pure ())
      (pushed r address) = _ ∨ _
    split_ifs
    · exact .inr (after_onTarget _ _)
    · exact .inl rfl

theorem onlyAdds_addSite (address : VirtAddr) : Within OnlyAdds (addSite address) := by
  intro r
  have hpushed : OnlyAdds r (pushed r address) :=
    ⟨fun ht => ht.withSite _, fun _ => List.prefix_append _ _, List.prefix_append _ _⟩
  obtain ⟨-, hsame⟩ | ⟨-, hsame | hsame⟩ := after_addSite address r
  · rw [hsame]
    exact onlyAdds.refl r
  · rw [hsame]
    exact hpushed
  · rw [hsame]
    have henable := within_enableSite r.target.objects (pushed r address).target
    exact ⟨fun ht => (hpushed.tracked ht).same henable,
      fun ht => sameBefore_enableSite_new ht _, hpushed.own⟩

theorem onlyAdds_resolveAddress (address : VirtAddr) : Within OnlyAdds (resolveAddress address) :=
  onlyAdds.bind onlyAdds.get fun _ => within_ite (onlyAdds_addSite address) (onlyAdds.pure _)

theorem OnlyMarks.onlyAdds {r : Resolving} {t : Target} (h : OnlyMarks r.target t) :
    OnlyAdds r { r with target := t } where
  tracked ht := by
    unfold OnlyMarks at h
    rw [h]
    exact ⟨ht.parallel, ht.nodup, ht.fresh⟩
  sites _ := by
    unfold OnlyMarks at h
    rewrite [h]
    exact List.prefix_rfl
  own := List.prefix_rfl

theorem onlyAdds_resolveAt (address : VirtAddr) : Within OnlyAdds (resolveAt address) := by
  apply onlyAdds.bind onlyAdds.get
  intro r₀
  apply onlyAdds.bind
  · intro r
    rw [after_onTarget]
    exact (marks_containsAddress address r₀.this.sites r.target).onlyAdds
  intro there
  apply within_ite (onlyAdds.pure _)
  exact onlyAdds.bind (fun r => ⟨id, fun _ => List.prefix_rfl, List.prefix_rfl⟩)
    fun _ => onlyAdds_addSite address

theorem onlyAdds_resolve : Within OnlyAdds resolve := by
  -- each kind pushes the sites of its addresses
  intro r
  cases hkind : r.this.kind with
  | address address =>
    have hresolve : resolve r = resolveAddress address r := by
      unfold resolve
      rw [bind_ok (get_eq r), hkind]
    have hadds := onlyAdds_resolveAddress address r
    unfold after at hadds ⊢
    rwa [hresolve]
  | function _ | line _ _ =>
    have hloads := onlyAdds.forM
      (fun x => onlyAdds.bind (onlyAdds.ofExcept x) onlyAdds_resolveAt)
      (loads r.target.files r.this.kind) r
    unfold after at hloads ⊢
    rw [resolve_eq (by simp [hkind])]
    exact hloads

theorem resolve_again {r r' : Resolving} (ht : r.target.Tracked) (h : resolve r = .ok () r')
    {r'' : Resolving} (ht'' : r''.target.Tracked) (hlater : LaterIn r' r'') (n : ℕ) :
    (List.range n).forM (fun _ => resolve) r'' = .ok () r'' := by
  have hagain := (repeats_resolve r r' ht h).2 r'' ht'' hlater
  induction List.range n with
  | nil => rfl
  | cons i l ih => exact (bind_ok hagain).trans ih

/-- A call that returns is repeated without effect in the same files, also after other
breakpoints got sites; in whichever files, a call adds sites and touches none. -/
theorem resolve_idempotent {r r' : Resolving} (ht : r.target.Tracked)
    (h : resolve r = .ok () r') :
    (∀ n, (List.range n).forM (fun _ => resolve) r' = .ok () r') ∧
      (∀ r'' n, r''.target.Tracked → LaterIn r' r'' →
        (List.range n).forM (fun _ => resolve) r'' = .ok () r'') ∧
      ∀ files r'', resolve { r' with target := { r'.target with files } } = .ok () r'' →
        r'.target.process.breakpointSites <+: r''.target.process.breakpointSites ∧
          r'.this.sites <+: r''.this.sites := by
  have htracked := (repeats_resolve r r' ht h).1.tracked
  refine ⟨resolve_again ht h htracked (laterIn.refl r'),
    fun r'' n ht'' hlater => resolve_again ht h ht'' hlater n, fun files r'' hloaded => ?_⟩
  have hadds := onlyAdds_resolve.ok hloaded
  exact ⟨hadds.sites ⟨htracked.parallel, htracked.nodup, htracked.fresh⟩, hadds.own⟩

def onLine : Breakpoint where
  object := 0
  id := 1#32
  isHardware := false
  isInternal := false
  kind := .line [] 1

theorem resolve_onLine : ∃ r, resolve ⟨stoppedTarget twoRows, onLine⟩ = .ok () r ∧
    r.this.sites = [0, 1] := ⟨_, rfl, rfl⟩

theorem resolve_idempotent_onLine :
    ∃ r, resolve ⟨stoppedTarget twoRows, onLine⟩ = .ok () r ∧ r.this.sites = [0, 1] ∧
      (∀ n, (List.range n).forM (fun _ => resolve) r = .ok () r) ∧
      (∀ r'' n, r''.target.Tracked → LaterIn r r'' →
        (List.range n).forM (fun _ => resolve) r'' = .ok () r'') ∧
      ∀ files r'', resolve { r with target := { r.target with files } } = .ok () r'' →
        r.target.process.breakpointSites <+: r''.target.process.breakpointSites ∧
          r.this.sites <+: r''.this.sites := by
  obtain ⟨r, hresolve, hsites⟩ := resolve_onLine
  exact ⟨r, hresolve, hsites, resolve_idempotent (stoppedTarget_tracked twoRows) hresolve⟩

end Target
end KDebugger
