import KDebugger.Process.PagedReads
import KDebugger.Target.LinkMap
import KDebugger.Target.Pointers

namespace KDebugger.Loading

open Exec Memory

/-- A `link_map`, with the text its name points to. -/
structure LinkEntry where
  name : List Byte
  addr : VirtAddr

/-- A text with its NUL. -/
structure TextAt (m : Memory) (a : VirtAddr) (bytes : List Byte) : Prop where
  noNul : 0#8 ∉ bytes
  mapped : m.isMapped a (bytes.length + 1) = true
  spelled : m.bytes a (bytes.length + 1) = bytes ++ [0#8]

def ChainAt (m : Memory) : VirtAddr → List LinkEntry → Prop
  | p, [] => p = 0#64
  | p, x :: entries => p ≠ 0#64 ∧ m.isMapped p 40 = true ∧ m.word p = x.addr ∧
    TextAt m (m.word (plus p 8)) x.name ∧ ChainAt m (m.word (plus p 24)) entries

/-- The link map of the traced process, which the debugger knows where to find. -/
structure LinkMap {D : Type} (s : Loading D) (entries : List LinkEntry) : Prop where
  paged : s.target.process.memory.Paged
  known : s.rendezvous ≠ 0#64
  mapped : s.target.process.memory.isMapped s.rendezvous 40 = true
  chain : ChainAt s.target.process.memory
    (s.target.process.memory.word (plus s.rendezvous 8)) entries

/-- The name fits into what is read for it. -/
def LinkEntry.Short (x : LinkEntry) : Prop := x.name.length < 4096

instance (x : LinkEntry) : Decidable x.Short := inferInstanceAs (Decidable (_ < _))

variable {D : Type} {H : Host D} {s s' : Loading D}

theorem readMemory_of_process {a : VirtAddr} {n : ℕ} {bytes : List Byte}
    (h : Process.readMemory a n s.target.process = .ok bytes s.target.process) :
    readMemory a n s = .ok bytes s := by
  unfold readMemory onTarget Target.onProcess
  rw [h]

theorem readMemory_mapped {a : VirtAddr} {n : ℕ}
    (h : s.target.process.memory.isMapped a n = true) :
    readMemory a n s = .ok (s.target.process.memory.bytes a n) s :=
  readMemory_of_process (Process.readMemory_eq h)

theorem member_bytes (m : Memory) (p : VirtAddr) {n place : ℕ} (h : place + 8 ≤ n) :
    member (m.bytes p n) place = m.word (plus p place) := by
  have hsplit : n = place + (n - place) := by omega
  unfold member
  rw [hsplit, drop_bytes, take_bytes _ _ (by omega)]
  rfl

theorem readText {m : Memory} (hs : s.target.process.memory = m) (hm : m.Paged) {a : VirtAddr}
    {bytes : List Byte} (h : TextAt m a bytes) :
    ∃ buffer, readMemory a 4096 s = .ok buffer s ∧
      textOf buffer = if bytes.length < 4096 then .ok bytes else .error .undefined := by
  subst hs
  split_ifs with hshort
  · obtain ⟨buffer, hread, htake⟩ := Process.readMemory_paged hm (Nat.succ_pos bytes.length)
      (show bytes.length + 1 ≤ 4096 from hshort) h.mapped
    refine ⟨buffer, readMemory_of_process hread, ?_⟩
    have hbuffer : buffer = bytes ++ 0#8 :: buffer.drop (bytes.length + 1) := by
      have hsplit := (List.take_append_drop (bytes.length + 1) buffer).symm
      rw [htake, h.spelled, List.append_assoc] at hsplit
      exact hsplit
    have hall : ∀ b ∈ bytes, (b != 0#8) = true := by
      intro b hb
      rw [bne_iff_ne]
      rintro rfl
      exact h.noNul hb
    unfold textOf
    rw [if_pos (by rw [hbuffer]; simp), hbuffer, List.takeWhile_append_of_pos hall,
      List.takeWhile_cons_of_neg (by simp), List.append_nil]
  · have hmapped : s.target.process.memory.isMapped a 4096 = true := by
      have hlong : bytes.length + 1 = 4096 + (bytes.length + 1 - 4096) := by omega
      have hall := h.mapped
      rw [hlong, isMapped_add, Bool.and_eq_true] at hall
      exact hall.1
    refine ⟨_, readMemory_mapped hmapped, ?_⟩
    have htake : s.target.process.memory.bytes a 4096 = bytes.take 4096 := by
      rw [← take_bytes _ a (show 4096 ≤ bytes.length + 1 by omega), h.spelled,
        List.take_append_of_le_length (by omega)]
    unfold textOf
    rw [htake, if_neg fun hmem => h.noNul (List.mem_of_mem_take hmem)]

def turn (H : Host D) (x : LinkEntry) : LoadingM D Unit := do
  ofExcept (if x.Short then .ok () else .error .undefined)
  loadEntry H x.name x.addr

/-- Loading changes files and the collection only. -/
def SameTarget (s s' : Loading D) : Prop :=
  s'.target = s.target ∧ s'.rendezvous = s.rendezvous

theorem sameTarget : Frame (SameTarget (D := D)) where
  refl _ := ⟨rfl, rfl⟩
  trans h h' := ⟨h'.1.trans h.1, h'.2.trans h.2⟩

theorem after_onTarget {α : Type} (p : Target.TargetM α) (s : Loading D) :
    after (onTarget p) s = { s with target := after p s.target } := by
  unfold after onTarget
  cases p s.target <;> rfl

/-- Writing the vdso to a file changes files only. -/
def OnlyDisk (s s' : Loading D) : Prop := s' = { s with disk := s'.disk }

theorem onlyDisk : Frame (OnlyDisk (D := D)) where
  refl _ := rfl
  trans h h' := by
    unfold OnlyDisk at h h' ⊢
    rw [h', h]

theorem OnlyDisk.sameTarget (h : OnlyDisk s s') : SameTarget s s' := by
  rw [h]
  exact ⟨rfl, rfl⟩

theorem within_readMemory (a : VirtAddr) (n : ℕ) :
    Within (OnlyDisk (D := D)) (readMemory a n) := by
  intro s
  have hprocess : after (Process.readMemory a n) s.target.process = s.target.process :=
    Process.within_readMemory unchanged a n _
  unfold readMemory
  rw [after_onTarget, Target.after_onProcess, hprocess]
  exact rfl

theorem within_makeDirectory : Within OnlyDisk (makeDirectory H) := by
  intro s
  unfold makeDirectory
  rw [after_bind_ok (get_eq s)]
  cases H.makeDirectory s.disk with
  | none => exact onlyDisk.refl s
  | some made => exact rfl

theorem within_writeFile (path : Path) (bytes : List Byte) :
    Within OnlyDisk (writeFile H path bytes) := fun _ => rfl

theorem within_dumpVdso (address : VirtAddr) : Within OnlyDisk (dumpVdso H address) := by
  apply onlyDisk.bind within_makeDirectory
  intro directory
  apply onlyDisk.bind (within_writeFile _ _)
  intro _
  apply onlyDisk.bind (within_readMemory _ _)
  intro header
  apply onlyDisk.bind (within_readMemory _ _)
  intro bytes
  exact onlyDisk.bind (within_writeFile _ _) fun _ => onlyDisk.pure _

theorem within_push (path : Path) (address : VirtAddr) :
    Within SameTarget (push H path address) := by
  apply sameTarget.bind sameTarget.get
  intro s
  exact sameTarget.bind (sameTarget.ofExcept _) fun _ _ => ⟨rfl, rfl⟩

theorem within_loadNamed (name : Path) (address : VirtAddr) :
    Within SameTarget (loadNamed H name address) := by
  apply sameTarget.bind sameTarget.get
  intro s
  apply within_ite (sameTarget.pure _)
  exact within_ite (sameTarget.bind (fun s => (within_dumpVdso _ s).sameTarget) fun _ => within_push _ _)
    (sameTarget.bind (sameTarget.pure _) fun _ => within_push _ _)

theorem within_turn (x : LinkEntry) : Within SameTarget (turn H x) := by
  apply sameTarget.bind (sameTarget.ofExcept _)
  intro _
  exact within_ite (sameTarget.pure _) (within_loadNamed _ _)

theorem loadEntries_eq : ∀ {entries : List LinkEntry} {fuel : ℕ} {p : VirtAddr} {s : Loading D},
    s.target.process.memory.Paged → ChainAt s.target.process.memory p entries →
    entries.length < fuel → loadEntries H fuel p s = entries.forM (turn H) s := by
  -- by induction on the entries of the chain
  intro entries
  induction entries with
  | nil =>
    intro fuel p s _ hchain hfuel
    obtain ⟨fuel, rfl⟩ : ∃ k, fuel = k + 1 := ⟨fuel - 1, by omega⟩
    exact congrFun (if_pos hchain) s
  | cons x entries ih =>
    rintro fuel p s hm ⟨hne, hmapped, haddr, htext, hrest⟩ hfuel
    rw [List.length_cons] at hfuel
    obtain ⟨fuel, rfl⟩ : ∃ k, fuel = k + 1 := ⟨fuel - 1, by omega⟩
    obtain ⟨buffer, hbuffer, htextOf⟩ := readText rfl hm htext
    change _ = (turn H x >>= fun _ => entries.forM (turn H)) s
    have hname : member (s.target.process.memory.bytes p 40) 8 =
        s.target.process.memory.word (plus p 8) := member_bytes _ p (by omega)
    have hnext : member (s.target.process.memory.bytes p 40) 24 =
        s.target.process.memory.word (plus p 24) := member_bytes _ p (by omega)
    have hfirst : member (s.target.process.memory.bytes p 40) 0 = x.addr := by
      rw [member_bytes _ p (by omega), plus, BitVec.add_zero]
      exact haddr
    unfold loadEntries
    rw [if_neg hne, bind_ok (readMemory_mapped hmapped), hname, bind_ok hbuffer, htextOf, hnext, hfirst]
    by_cases hshort : x.name.length < 4096
    · have hturn : turn H x s = loadEntry H x.name x.addr s := by
        unfold turn
        rw [if_pos (show x.Short from hshort), bind_ok (ofExcept_ok () s)]
      rw [if_pos hshort, bind_ok (ofExcept_ok x.name s)]
      cases hload : loadEntry H x.name x.addr s with
      | error e s₁ => rw [bind_error hload, bind_error (hturn.trans hload)]
      | ok u s₁ =>
        have hsame : s₁.target = s.target := ((within_turn x).ok (hturn.trans hload)).1
        rw [bind_ok hload, bind_ok (hturn.trans hload)]
        exact ih (hsame ▸ hm) (hsame ▸ hrest) (by omega)
    · have hturn : turn H x s = .error .undefined s := by
        unfold turn
        rw [if_neg (show ¬ x.Short from hshort), bind_error (ofExcept_error .undefined s)]
      rw [if_neg hshort, bind_error (ofExcept_error .undefined s), bind_error hturn]

/-- `reload_dynamic_libraries`, over the entries of the link map. -/
theorem reloadDynamicLibraries_eq {entries : List LinkEntry} (h : LinkMap s entries) {fuel : ℕ}
    (hfuel : entries.length < fuel) : reloadDynamicLibraries H fuel s =
      (entries.forM (turn H) >>= fun _ => resolveBreakpoints H) s := by
  have hhead : member (s.target.process.memory.bytes s.rendezvous 40) 8 =
      s.target.process.memory.word (plus s.rendezvous 8) := member_bytes _ _ (by omega)
  unfold reloadDynamicLibraries
  rw [bind_ok (get_eq s), if_neg h.known, bind_ok (readMemory_mapped h.mapped), hhead]
  cases hloop : entries.forM (turn H) s with
  | ok u s₁ => rw [bind_ok hloop, bind_ok ((loadEntries_eq h.paged h.chain hfuel).trans hloop)]
  | error e s₁ =>
    rw [bind_error hloop, bind_error ((loadEntries_eq h.paged h.chain hfuel).trans hloop)]

end KDebugger.Loading
