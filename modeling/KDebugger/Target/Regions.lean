import KDebugger.Target.Removals

namespace KDebugger

open Exec

/-- The region holds, in order and each once, the members with the property. -/
def Selects {T : Type} (P : T → Prop) (points region : List T) : Prop :=
  ∃ p : T → Bool, (∀ x ∈ points, p x = true ↔ P x) ∧ region = points.filter p

/-- Some address from `low` on, and before `high`, is one of these. -/
def SomeAddress (low high : VirtAddr) (isAt : VirtAddr → Prop) : Prop :=
  ∃ a, low ≤ a ∧ a < high ∧ isAt a

namespace StoppointCollection

variable {T : Type} [Stoppoint T]

def atAddress (point : T) (address : VirtAddr) : Bool := Stoppoint.address point == address

theorem inRange_iff (low high : VirtAddr) (point : T) :
    inRange low high point = true ↔ SomeAddress low high fun a => atAddress point a = true := by
  unfold inRange atAddress
  simp only [Bool.and_eq_true, decide_eq_true_eq, beq_iff_eq]
  constructor
  · rintro ⟨hlow, hhigh⟩
    exact ⟨_, hlow, hhigh, rfl⟩
  · rintro ⟨a, hlow, hhigh, rfl⟩
    exact ⟨hlow, hhigh⟩

theorem selects_getInRegion (points : List T) (low high : VirtAddr) :
    Selects (fun point => SomeAddress low high fun a => atAddress point a = true) points
      (getInRegion points low high) :=
  ⟨inRange low high, fun point _ => inRange_iff low high point, rfl⟩

end StoppointCollection

namespace Target

variable {t : Target} {b : Breakpoint} {low high : VirtAddr} {bs : List Breakpoint}

def siteInRange (low high : VirtAddr) : Question Target ℕ :=
  siteQuestion (StoppointCollection.inRange low high)

def breakpointInRange (low high : VirtAddr) (b : Breakpoint) : TargetM Bool := do
  let sites ← (siteInRange low high).select b.sites
  pure sites.isEmpty

/-- No pointer of the breakpoint leads to a site that is gone. -/
def SitesThere (t : Target) (b : Breakpoint) : Prop := ∀ o ∈ b.sites, (t.member o).isSome = true

def sitesWithin (low high : VirtAddr) (t : Target) (b : Breakpoint) : List ℕ :=
  b.sites.filter ((siteInRange low high).answer t)

def inRangeQuestion (low high : VirtAddr) : Question Target Breakpoint where
  ask := breakpointInRange low high
  answer t b := (sitesWithin low high t b).isEmpty
  sound := SitesThere
  ask_ok t b h := by
    unfold breakpointInRange
    rw [bind_ok (Question.select_ok (q := siteInRange low high) h)]
    rfl
  ask_undefined t b h := by
    obtain ⟨t', hfail⟩ := Question.select_undefined (q := siteInRange low high) (s := t) h
    exact ⟨t', bind_error hfail⟩

def breakpointsInRegion (low high : VirtAddr) (bs : List Breakpoint) : TargetM (List Breakpoint) :=
  (inRangeQuestion low high).select bs

/-- `breakpoint::at_address` says yes. -/
def BreakpointAt (t : Target) (b : Breakpoint) (a : VirtAddr) : Prop :=
  containsAddress a b.sites t = .ok true t

def RegionRight (low high : VirtAddr) (bs : List Breakpoint) (t : Target) : Prop :=
  ∃ region, breakpointsInRegion low high bs t = .ok region t ∧
    Selects (fun b => SomeAddress low high (BreakpointAt t b)) bs region

theorem breakpointAt_iff (h : SitesThere t b) (a : VirtAddr) :
    BreakpointAt t b a ↔ ∃ o ∈ b.sites, ∃ site, t.member o = some site ∧
      StoppointCollection.atAddress site a = true := by
  unfold BreakpointAt
  obtain ⟨-, hasked⟩ | ⟨hlost, -⟩ := containsAddress_search a t b.sites
  · rw [hasked]
    simp [StoppointCollection.atAddress, Stoppoint.address, Option.any_eq_true]
  · exact absurd (Question.reached_of_sound (q := siteQuestion (·.address == a)) h) hlost

theorem someAddress_iff (h : SitesThere t b) :
    SomeAddress low high (BreakpointAt t b) ↔ sitesWithin low high t b ≠ [] := by
  have hwithin : sitesWithin low high t b ≠ [] ↔ ∃ o ∈ b.sites, ∃ site, t.member o = some site ∧
      StoppointCollection.inRange low high site = true := by
    simp [sitesWithin, siteInRange, siteQuestion, List.filter_eq_nil_iff, Option.any_eq_true]
  rw [hwithin]
  constructor
  · rintro ⟨a, hlow, hhigh, hat⟩
    obtain ⟨o, ho, site, hsite, ha⟩ := (breakpointAt_iff h a).mp hat
    exact ⟨o, ho, site, hsite,
      (StoppointCollection.inRange_iff low high site).mpr ⟨a, hlow, hhigh, ha⟩⟩
  · rintro ⟨o, ho, site, hsite, hin⟩
    obtain ⟨a, hlow, hhigh, ha⟩ := (StoppointCollection.inRange_iff low high site).mp hin
    exact ⟨a, hlow, hhigh, (breakpointAt_iff h a).mpr ⟨o, ho, site, hsite, ha⟩⟩

theorem regionRight_iff (low high : VirtAddr) (bs : List Breakpoint) (t : Target) :
    RegionRight low high bs t ↔ bs = [] := by
  -- a breakpoint with no site in the region says yes
  constructor
  · rintro ⟨region, hregion, p, hp, rfl⟩
    by_cases hsound : ∀ b ∈ bs, SitesThere t b
    · have hsame : bs.filter ((inRangeQuestion low high).answer t) = bs.filter p := by
        have hdone := (Question.select_ok (q := inRangeQuestion low high) hsound).symm.trans hregion
        exact (EStateM.Result.ok.inj hdone).1
      rw [List.eq_nil_iff_forall_not_mem]
      intro b hb
      have hopposite : (inRangeQuestion low high).answer t b = true ↔ ¬ p b = true := by
        rw [hp b hb]
        exact List.isEmpty_iff.trans (iff_not_comm.mp (someAddress_iff (hsound b hb)))
      have hmem : b ∈ bs.filter ((inRangeQuestion low high).answer t) ↔ b ∈ bs.filter p := by
        rw [hsame]
      rw [List.mem_filter, List.mem_filter, and_iff_right hb, and_iff_right hb, hopposite] at hmem
      exact not_iff_self hmem
    · obtain ⟨t', hfail⟩ :=
        Question.select_undefined (q := inRangeQuestion low high) (s := t) hsound
      cases hfail.symm.trans hregion
  · rintro rfl
    exact ⟨[], rfl, fun _ => true, by simp, rfl⟩

/-- `get_in_region` of every collection. -/
theorem getInRegion_iff (low high : VirtAddr) :
    (∀ sites : List BreakpointSite,
      Selects (fun site => SomeAddress low high fun a => StoppointCollection.atAddress site a = true)
        sites (StoppointCollection.getInRegion sites low high)) ∧
    (∀ points : List Watchpoint,
      Selects (fun point => SomeAddress low high fun a =>
        StoppointCollection.atAddress point a = true)
        points (StoppointCollection.getInRegion points low high)) ∧
    ∀ (bs : List Breakpoint) (t : Target), RegionRight low high bs t ↔ bs = [] :=
  ⟨fun sites => StoppointCollection.selects_getInRegion sites low high,
    fun points => StoppointCollection.selects_getInRegion points low high,
    regionRight_iff low high⟩

theorem getInRegion_not_for_all : ¬ ∀ (low high : VirtAddr) (bs : List Breakpoint) (t : Target),
    low ≤ high → RegionRight low high bs t := by
  intro h
  have hright := h 0x1000#64 0x2000#64 halfMapped.breakpoints halfMapped (by decide)
  have hempty := (regionRight_iff _ _ _ _).mp hright
  cases hempty

end Target
end KDebugger
