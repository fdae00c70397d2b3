import KDebugger.Process.RegisterFrames
import KDebugger.Target.Breakpoints

namespace KDebugger.Target

open Exec

variable {t t' : Target}

/-- The pointer leads to this site of the process. -/
def Points (t : Target) (object : ℕ) (site : BreakpointSite) : Prop :=
  ∃ i : ℕ, t.siteObjects[i]? = some object ∧ t.process.breakpointSites[i]? = some site

/-- It leads to a site at this address. -/
def PointsTo (t : Target) (object : ℕ) (address : VirtAddr) : Prop :=
  ∃ site, t.Points object site ∧ site.address = address

/-- The sites of the process are objects made before, all different. -/
structure Tracked (t : Target) : Prop where
  parallel : t.siteObjects.length = t.process.breakpointSites.length
  nodup : t.siteObjects.Nodup
  fresh : ∀ object ∈ t.siteObjects, object < t.objects

theorem Tracked.unique (h : t.Tracked) {object : ℕ} {site site' : BreakpointSite}
    (hp : t.Points object site) (hp' : t.Points object site') : site' = site := by
  obtain ⟨i, hi, hsite⟩ := hp
  obtain ⟨j, hj, hsite'⟩ := hp'
  have hlt : i < t.siteObjects.length := (List.getElem?_eq_some_iff.mp hi).1
  obtain rfl : i = j := (List.getElem?_inj hlt h.nodup).mp (hi.trans hj.symm)
  exact Option.some.inj (hsite'.symm.trans hsite)

theorem onProcess_ok {α : Type} {p : Process.M α} {a : α} {s : Process}
    (h : p t.process = .ok a s) : onProcess p t = .ok a { t with process := s } := by
  unfold onProcess
  rw [h]

theorem after_onProcess {α : Type} (p : Process.M α) :
    after (onProcess p) t = { t with process := after p t.process } := by
  unfold after onProcess
  cases p t.process <;> rfl

theorem onTarget_ok {α : Type} {p : TargetM α} {r r' : Resolving} {a : α}
    (h : onTarget p r = .ok a r') : ∃ t, p r.target = .ok a t ∧ r' = { r with target := t } := by
  unfold onTarget at h
  cases hp : p r.target with
  | ok b t =>
    rw [hp] at h
    cases h
    exact ⟨t, rfl, rfl⟩
  | error e t =>
    rw [hp] at h
    cases h

theorem after_onTarget {α : Type} (p : TargetM α) (r : Resolving) :
    after (onTarget p) r = { r with target := after p r.target } := by
  unfold after onTarget
  cases p r.target <;> rfl

theorem siteIndex_eq (h : t.Tracked) {object : ℕ} {site : BreakpointSite}
    (hp : t.Points object site) :
    ∃ i, siteIndex object t = .ok i t ∧ t.process.breakpointSites[i]? = some site := by
  obtain ⟨i, hi, hsite⟩ := hp
  refine ⟨i, ?_, hsite⟩
  have hlt : i < t.siteObjects.length := (List.getElem?_eq_some_iff.mp hi).1
  have hidx : t.siteObjects.idxOf? object = some i := by
    rw [List.idxOf?_eq_some_iff]
    refine ⟨hlt, ?_, fun j hj hobject => ?_⟩
    · rw [List.getElem?_eq_getElem hlt] at hi
      exact Option.some.inj hi
    · have hj' : t.siteObjects[j]? = some object := by
        rw [List.getElem?_eq_getElem (by omega), hobject]
      have := (List.getElem?_inj hlt h.nodup).mp (hi.trans hj'.symm)
      omega
  unfold siteIndex
  rw [bind_ok (get_eq t), hidx]
  rfl

theorem siteOf_eq (h : t.Tracked) {object : ℕ} {site : BreakpointSite}
    (hp : t.Points object site) : siteOf object t = .ok site t := by
  obtain ⟨i, hindex, hsite⟩ := siteIndex_eq h hp
  unfold siteOf
  rw [bind_ok hindex]
  exact onProcess_ok (Process.siteAt_ok hsite)

theorem containsAddress_eq (h : t.Tracked) (address : VirtAddr) {objects : List ℕ}
    {addresses : List VirtAddr} (hall : List.Forall₂ t.PointsTo objects addresses) :
    containsAddress address objects t = .ok (decide (address ∈ addresses)) t := by
  induction hall with
  | nil => rfl
  | @cons object a objects addresses hfirst _ ih =>
    obtain ⟨site, hp, rfl⟩ := hfirst
    unfold containsAddress
    rw [bind_ok (siteOf_eq h hp)]
    by_cases haddress : site.address = address
    · rw [if_pos haddress]
      simp only [haddress, List.mem_cons, true_or, decide_true]
      rfl
    · rw [if_neg haddress, ih]
      simp only [List.mem_cons, Ne.symm haddress, false_or]

def newSite (t : Target) (parent : Option ℕ) (address : VirtAddr) (hardware internal : Bool) :
    BreakpointSite where
  id := t.uninitialisedId t.objects
  address := address
  isHardware := hardware
  isInternal := internal
  parent := parent

def withSite (t : Target) (site : BreakpointSite) : Target :=
  { t with
    process := { t.process with breakpointSites := t.process.breakpointSites ++ [site] }
    siteObjects := t.siteObjects ++ [t.objects]
    objects := t.objects + 1 }

theorem createBreakpointSite_eq (parent : Option ℕ) (address : VirtAddr)
    (hardware internal : Bool) :
    createBreakpointSite parent address hardware internal t =
      if StoppointCollection.containsAddress t.process.breakpointSites address then
        .error (.raised (Process.siteExists parent ++ toString address.toNat)) t
      else .ok t.objects (t.withSite (t.newSite parent address hardware internal)) := by
  unfold createBreakpointSite
  rw [bind_ok (get_eq t)]
  cases hcontains : StoppointCollection.containsAddress t.process.breakpointSites address with
  | true =>
    have hraise : onProcess (Process.createBreakpointSite parent (t.uninitialisedId t.objects)
        address hardware internal) t =
          .error (.raised (Process.siteExists parent ++ toString address.toNat)) t := by
      unfold onProcess Process.createBreakpointSite
      rw [bind_ok (get_eq _), hcontains]
      rfl
    rw [bind_error hraise]
    rfl
  | false =>
    have hdone : onProcess (Process.createBreakpointSite parent (t.uninitialisedId t.objects)
        address hardware internal) t = .ok () { t with process := { t.process with
          breakpointSites :=
            t.process.breakpointSites ++ [t.newSite parent address hardware internal] } } := by
      unfold onProcess Process.createBreakpointSite
      rw [bind_ok (get_eq _), hcontains]
      rfl
    rw [bind_ok hdone]
    rfl

theorem Tracked.withSite (h : t.Tracked) (site : BreakpointSite) : (t.withSite site).Tracked where
  parallel := by simp [Target.withSite, h.parallel]
  nodup := by
    refine List.nodup_append.mpr ⟨h.nodup, by simp, ?_⟩
    rintro o ho o' ho' rfl
    obtain rfl : o = t.objects := by simpa using ho'
    exact absurd (h.fresh _ ho) (by omega)
  fresh o ho := by
    change o < t.objects + 1
    obtain ho | ho := List.mem_append.mp ho
    · have := h.fresh o ho
      omega
    · obtain rfl : o = t.objects := by simpa using ho
      omega

theorem Points.withSite {object : ℕ} {site : BreakpointSite} (hp : t.Points object site)
    (site' : BreakpointSite) : (t.withSite site').Points object site := by
  obtain ⟨i, hi, hsite⟩ := hp
  refine ⟨i, ?_, ?_⟩
  · exact (List.getElem?_append_left (List.getElem?_eq_some_iff.mp hi).1).trans hi
  · exact (List.getElem?_append_left (List.getElem?_eq_some_iff.mp hsite).1).trans hsite

theorem Tracked.points_new (h : t.Tracked) (site : BreakpointSite) :
    (t.withSite site).Points t.objects site := by
  refine ⟨t.siteObjects.length, ?_, ?_⟩
  · simp [Target.withSite]
  · simp [Target.withSite, h.parallel]

/-- The sites stay where they are, and nothing else changes but the process. -/
structure SameSites (t t' : Target) : Prop where
  same : t' = { t with process := t'.process, usedDestroyed := t'.usedDestroyed }
  places : t'.process.breakpointSites.map Process.place =
    t.process.breakpointSites.map Process.place

theorem sameSites : Frame SameSites where
  refl _ := ⟨rfl, rfl⟩
  trans h h' := ⟨by rw [h'.same, h.same], h'.places.trans h.places⟩

theorem within_siteIndex (object : ℕ) : Within SameSites (siteIndex object) := by
  intro t
  unfold siteIndex
  rw [after_bind_ok (get_eq t)]
  cases t.siteObjects.idxOf? object with
  | some i => exact sameSites.refl t
  | none => exact ⟨rfl, rfl⟩

theorem within_onProcess {α : Type} {p : Process.M α}
    (hp : ∀ s, (after p s).breakpointSites.map Process.place =
      s.breakpointSites.map Process.place) : Within SameSites (onProcess p) := by
  intro t
  rw [after_onProcess]
  exact ⟨rfl, hp t.process⟩

theorem within_enableSite (object : ℕ) : Within SameSites (enableSite object) :=
  sameSites.bind (within_siteIndex object) fun i =>
    within_onProcess fun s => (Process.within_enableSite i s).places

theorem SameSites.objects (h : SameSites t t') : t'.siteObjects = t.siteObjects := by rw [h.same]

theorem Tracked.same (h : t.Tracked) (hsame : SameSites t t') : t'.Tracked where
  parallel := by
    have hlength := congrArg List.length hsame.places
    rw [List.length_map, List.length_map] at hlength
    rw [hsame.objects, h.parallel, hlength]
  nodup := hsame.objects ▸ h.nodup
  fresh := by
    rw [hsame.same]
    exact h.fresh

theorem Points.same {object : ℕ} {site : BreakpointSite} (hp : t.Points object site)
    (hsame : SameSites t t') :
    ∃ site', t'.Points object site' ∧ Process.place site' = Process.place site := by
  obtain ⟨i, hi, hsite⟩ := hp
  have hplace := congrArg (·[i]?) hsame.places
  simp only [List.getElem?_map, hsite, Option.map_some] at hplace
  obtain ⟨site', hsite', hplace'⟩ := Option.map_eq_some_iff.mp hplace
  exact ⟨site', ⟨i, hsame.objects ▸ hi, hsite'⟩, hplace'⟩

theorem PointsTo.same {object : ℕ} {address : VirtAddr} (hp : t.PointsTo object address)
    (hsame : SameSites t t') : t'.PointsTo object address := by
  obtain ⟨site, hp, rfl⟩ := hp
  obtain ⟨site', hp', hplace⟩ := hp.same hsame
  exact ⟨site', hp', congrArg (·.2.1) hplace⟩

end KDebugger.Target
