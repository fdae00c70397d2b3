import KDebugger.Process.SignalFrames

namespace KDebugger.Process

open Exec Memory KDebugger.Splits StoppointCollection

/-- The thread has been continued and has not stopped. -/
def running (t : Tid) : List Moment → Bool
  | [] => false
  | ⟨.resumed u, _⟩ :: log => u = t || running t log
  | ⟨.waited e, _⟩ :: log => e.tid ≠ t && running t log
  | _ :: log => running t log

/-- No thread runs. -/
def Calm (s : Process) : Prop := ∀ t, running t s.log = false

def ArmedAt (s : Process) (a : VirtAddr) : Prop :=
  ∃ site ∈ s.breakpointSites, Armed site ∧ site.address = a

/-- At each moment after `base` at which some thread runs, the traps are in memory. -/
def Guarded (armed : VirtAddr → Prop) (base log : List Moment) : Prop :=
  ∃ new, log = new ++ base ∧ ∀ later m earlier, new = later ++ m :: earlier →
    (∃ t, running t (m :: earlier ++ base) = true) → ∀ a, armed a → m.memory.byte a = 0xcc#8

theorem Guarded.cons {armed : VirtAddr → Prop} {base log : List Moment}
    (h : Guarded armed base log) {m : Moment}
    (hm : (∃ t, running t (m :: log) = true) → ∀ a, armed a → m.memory.byte a = 0xcc#8) :
    Guarded armed base (m :: log) := by
  obtain ⟨new, rfl, hnew⟩ := h
  refine ⟨m :: new, rfl, fun later m' earlier hsplit hrun => ?_⟩
  cases later with
  | nil =>
    obtain ⟨rfl, rfl⟩ := List.cons.inj hsplit
    exact hm hrun
  | cons m₁ later =>
    obtain ⟨-, hsplit⟩ := List.cons.inj hsplit
    exact hnew later m' earlier hsplit hrun

theorem Guarded.moment {armed : VirtAddr → Prop} {base log later earlier : List Moment}
    {m : Moment} (h : Guarded armed base log) (hlog : log = later ++ m :: (earlier ++ base))
    (hrun : ∃ t, running t (m :: earlier ++ base) = true) {a : VirtAddr} (ha : armed a) :
    m.memory.byte a = 0xcc#8 := by
  obtain ⟨new, hnew, hall⟩ := h
  have hsplit : new = later ++ m :: earlier := by
    rw [← List.append_left_inj base, ← hnew, hlog]
    simp
  exact hall later m earlier hsplit hrun a ha

/-- Threads that run may write memory, except over a trap. -/
structure Spares (s s' : Process) : Prop where
  same : s' = { s with memory := s'.memory }
  mapped : s'.memory.mapped = s.memory.mapped
  traps : ∀ a, ArmedAt s a → s'.memory.byte a = s.memory.byte a

/-- A callback may create sites and enable those. -/
structure Arms (s s' : Process) : Prop where
  sites : ∃ new, s'.breakpointSites = s.breakpointSites ++ new
  traps : TrapsSet s → TrapsSet s'
  mapped : s'.memory.mapped = s.memory.mapped
  log : s'.log = s.log

structure Outside.SparesTraps (O : Outside) : Prop where
  cont : ∀ b t, Within Spares (O.cont b t)
  singleStep : ∀ t, Within Spares (O.singleStep t)
  hooks : O.Hooks Arms

/-- What is known when a step of the debugger begins and whichever way it ends. -/
structure Watched (armed : VirtAddr → Prop) (base : List Moment) (s : Process) : Prop where
  traps : TrapsSet s
  guarded : Guarded armed base s.log

/-- No trap is removed. -/
structure Whole (armed : VirtAddr → Prop) (base : List Moment) (s : Process) : Prop extends
    Watched armed base s where
  armed : ∀ a, armed a → ArmedAt s a

/-- The trap of the site at a position is removed, and nobody runs. -/
structure Window (armed : VirtAddr → Prop) (base : List Moment) (i : ℕ) (s : Process) : Prop extends
    Watched armed base s where
  calm : Calm s
  site : ∃ site, s.breakpointSites[i]? = some site ∧ site.isEnabled = false ∧
    site.isHardware = false ∧ s.memory.isMapped site.address 8 = true ∧
    ∀ a, armed a → a ≠ site.address → ArmedAt s a

variable {O : Outside} {armed : VirtAddr → Prop} {base : List Moment} {s s' : Process} {i : ℕ}

theorem TrapsSet.byte (h : TrapsSet s) {a : VirtAddr} (ha : ArmedAt s a) :
    s.memory.byte a = 0xcc#8 := by
  obtain ⟨site, hmem, harmed, rfl⟩ := ha
  exact h.trap site hmem harmed

theorem TrapsSet.same (h : TrapsSet s) (hsites : s'.breakpointSites = s.breakpointSites)
    (hmapped : s'.memory.mapped = s.memory.mapped)
    (hbyte : ∀ a, ArmedAt s a → s'.memory.byte a = s.memory.byte a) : TrapsSet s' where
  distinct := by
    rw [hsites]
    exact h.distinct
  trap := by
    rw [hsites]
    intro site hsite harmed
    rw [hbyte _ ⟨site, hsite, harmed, rfl⟩]
    exact h.trap site hsite harmed
  mapped := by
    rw [hsites]
    intro site hsite harmed
    have hm := h.mapped site hsite harmed
    unfold isMapped at hm ⊢
    rwa [hmapped]

/-- What depends on sites, memory and calls only, and on a call only whether it lets a
thread run. -/
structure Steady (K : Process → Prop) : Prop where
  call : ∀ {s s' : Process} {call : Call}, (∀ t, call ≠ .resumed t) →
    s'.breakpointSites = s.breakpointSites → s'.memory = s.memory →
    s'.log = ⟨call, s.memory⟩ :: s.log → K s → K s'
  same : ∀ {s s' : Process}, s'.breakpointSites = s.breakpointSites → s'.memory = s.memory →
    s'.log = s.log → K s → K s'
  spares : ∀ {s s' : Process}, Spares s s' → K s → K s'
  arms : ∀ {s s' : Process}, Arms s s' → K s → K s'

theorem armedAt_congr (hsites : s'.breakpointSites = s.breakpointSites) (a : VirtAddr) :
    ArmedAt s' a ↔ ArmedAt s a := by
  unfold ArmedAt
  rw [hsites]

theorem ArmedAt.arms (h : Arms s s') {a : VirtAddr} (ha : ArmedAt s a) : ArmedAt s' a := by
  obtain ⟨new, hnew⟩ := h.sites
  obtain ⟨site, hmem, harmed⟩ := ha
  refine ⟨site, ?_, harmed⟩
  rw [hnew]
  exact List.mem_append_left _ hmem

theorem Watched.same (h : Watched armed base s) (hsites : s'.breakpointSites = s.breakpointSites)
    (hmapped : s'.memory.mapped = s.memory.mapped)
    (hbyte : ∀ a, ArmedAt s a → s'.memory.byte a = s.memory.byte a)
    (hguarded : Guarded armed base s'.log) : Watched armed base s' :=
  ⟨h.traps.same hsites hmapped hbyte, hguarded⟩

theorem Watched.arms (h : Watched armed base s) (harms : Arms s s') : Watched armed base s' where
  traps := harms.traps h.traps
  guarded := by
    rw [harms.log]
    exact h.guarded

theorem Whole.call (h : Whole armed base s) {call : Call}
    (hsites : s'.breakpointSites = s.breakpointSites) (hmemory : s'.memory = s.memory)
    (hlog : s'.log = ⟨call, s.memory⟩ :: s.log) : Whole armed base s' where
  toWatched := by
    refine h.toWatched.same hsites (by rw [hmemory]) (fun _ _ => by rw [hmemory]) ?_
    rw [hlog]
    exact h.guarded.cons fun _ a ha => h.traps.byte (h.armed a ha)
  armed a ha := (armedAt_congr hsites a).mpr (h.armed a ha)

theorem whole_steady : Steady (Whole armed base) where
  call _ hsites hmemory hlog h := h.call hsites hmemory hlog
  same hsites hmemory hlog h := by
    refine ⟨h.toWatched.same hsites (by rw [hmemory]) (fun _ _ => by rw [hmemory]) ?_,
      fun a ha => (armedAt_congr hsites a).mpr (h.armed a ha)⟩
    rw [hlog]
    exact h.guarded
  spares := by
    intro s s' hspares h
    have hsites : s'.breakpointSites = s.breakpointSites := by rw [hspares.same]
    refine ⟨h.toWatched.same hsites hspares.mapped hspares.traps ?_,
      fun a ha => (armedAt_congr hsites a).mpr (h.armed a ha)⟩
    rw [hspares.same]
    exact h.guarded
  arms harms h := ⟨h.toWatched.arms harms, fun a ha => (h.armed a ha).arms harms⟩

theorem Calm.call (h : Calm s) {call : Call} (hcall : ∀ t, call ≠ .resumed t)
    (hlog : s'.log = ⟨call, s.memory⟩ :: s.log) : Calm s' := by
  intro t
  rw [hlog]
  cases call with
  | resumed u => exact absurd rfl (hcall u)
  | waited e => simp [running, h t]
  | cont u => exact h t
  | singleStep u => exact h t
  | sigstop u => exact h t
  | reported reason => exact h t

theorem window_steady : Steady (Window armed base i) where
  -- only the traps of the one site are off
  call := by
    intro s s' call hcall hsites hmemory hlog h
    have hcalm := h.calm.call hcall hlog
    refine ⟨?_, hcalm, ?_⟩
    · refine h.toWatched.same hsites (by rw [hmemory]) (fun _ _ => by rw [hmemory]) ?_
      rw [hlog]
      refine h.guarded.cons ?_
      rintro ⟨t, ht⟩
      rw [← hlog, hcalm t] at ht
      cases ht
    · rw [hsites, hmemory]
      simp only [armedAt_congr hsites]
      exact h.site
  same := by
    intro s s' hsites hmemory hlog h
    refine ⟨?_, ?_, ?_⟩
    · refine h.toWatched.same hsites (by rw [hmemory]) (fun _ _ => by rw [hmemory]) ?_
      rw [hlog]
      exact h.guarded
    · unfold Calm
      rw [hlog]
      exact h.calm
    · rw [hsites, hmemory]
      simp only [armedAt_congr hsites]
      exact h.site
  spares := by
    intro s s' hspares h
    have hsites : s'.breakpointSites = s.breakpointSites := by rw [hspares.same]
    have hlog : s'.log = s.log := by rw [hspares.same]
    refine ⟨?_, ?_, ?_⟩
    · refine h.toWatched.same hsites hspares.mapped hspares.traps ?_
      rw [hlog]
      exact h.guarded
    · unfold Calm
      rw [hlog]
      exact h.calm
    · obtain ⟨site, hget, hoff, hsw, hmapped, hothers⟩ := h.site
      refine ⟨site, hsites ▸ hget, hoff, hsw, ?_, fun a ha hne =>
        (armedAt_congr hsites a).mpr (hothers a ha hne)⟩
      unfold isMapped at hmapped ⊢
      rwa [hspares.mapped]
  arms := by
    intro s s' harms h
    refine ⟨h.toWatched.arms harms, ?_, ?_⟩
    · unfold Calm
      rw [harms.log]
      exact h.calm
    · obtain ⟨site, hget, hoff, hsw, hmapped, hothers⟩ := h.site
      obtain ⟨new, hnew⟩ := harms.sites
      refine ⟨site, ?_, hoff, hsw, ?_, fun a ha hne => (hothers a ha hne).arms harms⟩
      · rw [hnew, List.getElem?_append_left (List.getElem?_eq_some_iff.mp hget).1]
        exact hget
      · unfold isMapped at hmapped ⊢
        rwa [harms.mapped]

namespace Steady

variable {K : Process → Prop} (hK : Steady K)

include hK

theorem record {call : Call} (hcall : ∀ t, call ≠ .resumed t) :
    Within (fun s s' => K s → K s') (record call) :=
  fun _ => hK.call hcall rfl rfl rfl

theorem inspects {s s' : Process} (h : Inspects s s') (hs : K s) : K s' := by
  obtain ⟨new, hnew, hreports⟩ := h.reports
  have hlog : K { s with log := new ++ s.log } := by
    clear hnew
    induction new with
    | nil => exact hs
    | cons m new ih =>
      have hnew := ih fun m hm => hreports m (List.mem_cons_of_mem _ hm)
      obtain ⟨hreport, hmemory⟩ := hreports m (List.mem_cons_self ..)
      obtain ⟨call, memory⟩ := m
      obtain rfl : memory = s.memory := hmemory
      refine hK.call (s := { s with log := new ++ s.log }) ?_ rfl rfl rfl hnew
      rintro t rfl
      exact hreport
  exact hK.same (s := { s with log := new ++ s.log }) h.sites h.memory hnew hlog

theorem waitpid (toAwait : Option Tid) : Within (fun s s' => K s → K s') (waitpid toAwait) := by
  intro s hs
  obtain hblocked | ⟨i, e, -, -, hwait⟩ := waitpid_cases toAwait s
  · rwa [after, hblocked]
  · rw [after, hwait]
    exact hK.call (s := s) (by simp) rfl rfl rfl hs

theorem modifyThread (tid : Tid) (f : ThreadState → ThreadState) :
    Within (fun s s' => K s → K s') (modifyThread tid f) := fun _ => hK.same rfl rfl rfl

variable {O : Outside} (hO : O.SparesTraps)

include hO

theorem steps : O.Steps fun s s' => K s → K s' where
  frame := keeps K
  continued _ := hK.record (by simp)
  stepped _ := hK.record (by simp)
  cont _ _ s := hK.spares (hO.cont _ _ s)
  singleStep t s := hK.spares (hO.singleStep t s)
  waitpid := hK.waitpid
  modifyThread := hK.modifyThread

theorem hooks : O.Hooks fun s s' => K s → K s' where
  notifyStop reason s := hK.arms (hO.hooks.notifyStop reason s)
  notifyHit parent s := hK.arms (hO.hooks.notifyHit parent s)
  lifecycle reason s := hK.arms (hO.hooks.lifecycle reason s)

end Steady

theorem TrapsSet.replace (h : TrapsSet s) {l₁ l₂ : List BreakpointSite} {site : BreakpointSite}
    (hsplit : s.breakpointSites = l₁ ++ site :: l₂) (site' : BreakpointSite) (b : Byte)
    (haddr : site'.address = site.address)
    (hb : Armed site' → b = 0xcc#8 ∧ s.memory.isMapped site.address 8 = true) :
    TrapsSet { s with
      breakpointSites := l₁ ++ site' :: l₂
      memory := s.memory.setByte site.address b } := by
  have hdistinct := h.distinct
  have htrap := h.trap
  have hmapped := h.mapped
  rw [hsplit] at hdistinct htrap hmapped
  refine ⟨nodup_replace hdistinct haddr, ?_, ?_⟩
  · intro x hx harmed
    simp only [setByte]
    obtain hx | rfl | hx := List.mem_append.mp hx |>.imp_right List.mem_cons.mp
    · have hne := key_ne hdistinct x (List.mem_append_left _ hx)
      rw [Function.update_of_ne hne]
      exact htrap x (List.mem_append_left _ hx) harmed
    · rw [haddr, Function.update_self]
      exact (hb harmed).1
    · have hne := key_ne hdistinct x (List.mem_append_right _ hx)
      rw [Function.update_of_ne hne]
      exact htrap x (List.mem_append_right _ (List.mem_cons_of_mem _ hx)) harmed
  · intro x hx harmed
    obtain hx | rfl | hx := List.mem_append.mp hx |>.imp_right List.mem_cons.mp
    · exact hmapped x (List.mem_append_left _ hx) harmed
    · rw [haddr]
      exact (hb harmed).2
    · exact hmapped x (List.mem_append_right _ (List.mem_cons_of_mem _ hx)) harmed

theorem ArmedAt.replace {a : VirtAddr} (h : ArmedAt s a) {l₁ l₂ : List BreakpointSite}
    {site site' : BreakpointSite} (hsplit : s.breakpointSites = l₁ ++ site :: l₂)
    (hne : a ≠ site.address) : ∃ x ∈ l₁ ++ site' :: l₂, Armed x ∧ x.address = a := by
  obtain ⟨x, hx, hax, rfl⟩ := h
  rw [hsplit] at hx
  refine ⟨x, ?_, hax, rfl⟩
  obtain hx | rfl | hx := List.mem_append.mp hx |>.imp_right List.mem_cons.mp
  · exact List.mem_append_left _ hx
  · exact absurd rfl hne
  · exact List.mem_append_right _ (List.mem_cons_of_mem _ hx)

theorem window_disable (h : Whole armed base s) (hcalm : Calm s) {site : BreakpointSite}
    (hi : s.breakpointSites[i]? = some site) (harmed : Armed site) :
    Leads (Window armed base i) (Watched armed base) (disableSite i) s := by
  obtain ⟨l₁, l₂, hsplit, rfl⟩ := exists_split hi
  have hmem : site ∈ s.breakpointSites := List.mem_of_getElem? hi
  have hmapped := h.traps.mapped site hmem harmed
  unfold Leads
  rw [disableSite_eq hsplit hmapped harmed.2 harmed.1]
  have htraps := h.traps.replace hsplit (BreakpointSite.cleared site) site.savedData rfl fun ha => absurd ha (not_armed_cleared site)
  refine ⟨⟨htraps, h.guarded⟩, hcalm, BreakpointSite.cleared site, ?_, rfl, harmed.2, hmapped, ?_⟩
  · simp
  · intro a ha hne
    exact (h.armed a ha).replace hsplit hne

theorem window_enable (h : Window armed base i s) :
    Leads (Whole armed base) (Watched armed base) (enableSite i) s := by
  obtain ⟨site, hi, hoff, hsw, hmapped, hothers⟩ := h.site
  obtain ⟨l₁, l₂, hsplit, rfl⟩ := exists_split hi
  unfold Leads
  rw [enableSite_eq hsplit hmapped hsw hoff]
  let site' := BreakpointSite.trapped site (s.memory.byte site.address)
  have harmed : Armed site' := ⟨rfl, hsw⟩
  have htraps := h.traps.replace hsplit site' 0xcc#8 rfl fun _ => ⟨rfl, hmapped⟩
  refine ⟨⟨htraps, h.guarded⟩, fun a ha => ?_⟩
  by_cases hne : a = site.address
  · exact ⟨site', by simp [site'], harmed, hne.symm⟩
  · exact (hothers a ha hne).replace hsplit hne

end KDebugger.Process
