import KDebugger.Process.Registers

namespace KDebugger

open Words

namespace Process

/-- One of the two enable bits is set. -/
def slotEnabled (control : BitVec 64) (i : ℕ) : Bool :=
  control.getLsbD (2 * i) || control.getLsbD (2 * i + 1)

def slotMode (control : BitVec 64) (i : ℕ) : BitVec 2 := control.extractLsb' (16 + 4 * i) 2

def slotLength (control : BitVec 64) (i : ℕ) : BitVec 2 := control.extractLsb' (18 + 4 * i) 2

end Process

namespace UserPart

def given (part : UserPart) (data : UserArea) : UserArea :=
  fun o => if part.Covers o then data o else 0#8

def overlay (part : UserPart) (stored registers : UserArea) : UserArea :=
  fun o => if part.Covers o then stored o else registers o

def IsDebug : UserPart → Prop
  | word offset => debugregOffset ≤ offset
  | fprs | gprs => False

instance : (part : UserPart) → Decidable part.IsDebug
  | word offset => inferInstanceAs (Decidable (debugregOffset ≤ offset))
  | fprs | gprs => inferInstanceAs (Decidable False)

/-- The words of `rsp`, `rip` and the general-purpose registers. -/
def IsPlain : UserPart → Prop
  | word offset => offset % 8 = 0 ∧ (offset < 120 ∨ offset = 128 ∨ offset = 152)
  | fprs | gprs => False

instance : (part : UserPart) → Decidable part.IsPlain
  | word offset =>
    inferInstanceAs (Decidable (offset % 8 = 0 ∧ (offset < 120 ∨ offset = 128 ∨ offset = 152)))
  | fprs | gprs => inferInstanceAs (Decidable False)

variable {part : UserPart} {data data' registers : UserArea}

theorem given_congr (h : ∀ o, part.Covers o → data o = data' o) :
    part.given data = part.given data' := by
  funext o
  unfold given
  split_ifs with ho
  · exact h o ho
  · rfl

theorem overlay_given (data registers : UserArea) :
    part.overlay (part.given data) registers = part.overlay data registers := by
  funext o
  unfold overlay given
  split_ifs <;> rfl

theorem overlay_overlay (stored stored' registers : UserArea) :
    part.overlay stored' (part.overlay stored registers) = part.overlay stored' registers := by
  funext o
  unfold overlay
  split_ifs <;> rfl

end UserPart

/-- What the kernel makes of a request: the bytes that it then has in the part, or none where
it refuses. -/
structure RegisterKernel where
  answer : UserPart → (given registers : UserArea) → Option UserArea
  /-- only for a debug register it matters what the registers are -/
  steady : ∀ part, ¬ part.IsDebug → ∀ given u u' : UserArea,
    (answer part given u).isSome = (answer part given u').isSome
  /-- plain registers are stored as they are given, as long as there is a thread -/
  plain : (∀ part, part.IsPlain → ∀ given u, answer part given u = some given) ∨
    ∀ part, part.IsPlain → ∀ given u, answer part given u = none

namespace RegisterKernel

def write (K : RegisterKernel) (part : UserPart) (data registers : UserArea) : Option UserArea :=
  (K.answer part (part.given data) registers).map fun stored => part.overlay stored registers

/-- The registers after some requests, each of which is taken. -/
def writes (K : RegisterKernel) : List (UserPart × UserArea) → UserArea → Option UserArea
  | [], registers => some registers
  | (part, data) :: requests, registers =>
    (K.write part data registers).bind (K.writes requests)

variable {K : RegisterKernel} {part : UserPart} {data data' u u' : UserArea}

theorem write_congr (h : ∀ o, part.Covers o → data o = data' o) :
    K.write part data u = K.write part data' u := by
  unfold write
  rw [UserPart.given_congr h]

theorem write_elsewhere (h : K.write part data u = some u') {o : ℕ} (ho : ¬ part.Covers o) :
    u' o = u o := by
  obtain ⟨stored, -, rfl⟩ := Option.map_eq_some_iff.mp h
  exact if_neg ho

theorem write_isSome (h : ¬ part.IsDebug) (u u' : UserArea) :
    (K.write part data u).isSome = (K.write part data u').isSome := by
  unfold write
  rw [Option.isSome_map, Option.isSome_map, K.steady part h]

/-- Every plain register is stored as it is given. -/
def StoresPlain (K : RegisterKernel) : Prop :=
  ∀ part : UserPart, part.IsPlain → ∀ data u, K.write part data u = some (part.overlay data u)

theorem storesPlain_or (K : RegisterKernel) : K.StoresPlain ∨
    ∀ part : UserPart, part.IsPlain → ∀ data u, K.write part data u = none := by
  unfold StoresPlain write
  obtain hstores | hrefuses := K.plain
  · left
    intro part hpart data u
    rw [hstores part hpart, Option.map_some, UserPart.overlay_given]
  · right
    intro part hpart data u
    rw [hrefuses part hpart]
    rfl

theorem storesPlain_iff (K : RegisterKernel) (h : part.IsPlain) :
    K.StoresPlain ↔ (K.write part data u).isSome = true := by
  constructor
  · intro hstores
    rw [hstores part h]
    rfl
  · intro htaken
    refine K.storesPlain_or.resolve_right fun hrefuses => ?_
    rw [hrefuses part h] at htaken
    cases htaken

instance (K : RegisterKernel) : Decidable K.StoresPlain :=
  decidable_of_iff ((K.write (.word 0) (fun _ => 0#8) (fun _ => 0#8)).isSome = true)
    (K.storesPlain_iff (by decide)).symm

theorem writes_append (l l' : List (UserPart × UserArea)) (u : UserArea) :
    K.writes (l ++ l') u = (K.writes l u).bind (K.writes l') := by
  induction l generalizing u with
  | nil => rfl
  | cons request l ih =>
    obtain ⟨part, data⟩ := request
    change (K.write part data u).bind (K.writes (l ++ l')) = _
    rw [writes, Option.bind_assoc]
    exact Option.bind_congr fun u' _ => ih u'

/-- The registers where each request is stored as it is given. -/
def overlayAll (l : List (UserPart × UserArea)) (u : UserArea) : UserArea :=
  l.foldl (fun u request => request.1.overlay request.2 u) u

theorem writes_replicate_congr (h : ∀ o, part.Covers o → data o = data' o) (k : ℕ) (u : UserArea) :
    K.writes (List.replicate k (part, data)) u = K.writes (List.replicate k (part, data')) u := by
  induction k generalizing u with
  | zero => rfl
  | succ k ih =>
    rw [List.replicate_succ, List.replicate_succ, writes, writes, write_congr h]
    exact Option.bind_congr fun u' _ => ih u'

/-- `TASK_SIZE_MAX`. -/
def taskSize : ℕ := 0x7ffffffff000

/-- The kernel arms no slot for input and output, no execution slot of more than a byte, and
no slot at an address that its length does not divide. -/
def slotAllowed (control address : BitVec 64) (i : ℕ) : Bool :=
  let length := Process.slotLength control i
  !Process.slotEnabled control i ||
    (Process.slotMode control i != 0b10#2 &&
      (Process.slotMode control i != 0b00#2 || length == 0b00#2) &&
      address &&& (if length = 0b10#2 then 7#64 else length.setWidth 64) == 0#64)

def debugWord (registers : UserArea) (n : ℕ) : BitVec 64 :=
  wordOf fun j => registers (debugregOffset + 8 * n + j)

/-- Whether `putreg` or `ptrace_set_debugreg` takes a word. -/
def wordAllowed (offset : ℕ) (w : BitVec 64) (registers : UserArea) : Bool :=
  if offset = Gpr.cs.offset ∨ offset = Gpr.ss.offset then w &&& 3#64 == 3#64
  else if offset ∈ [Gpr.ds.offset, Gpr.es.offset, Gpr.fs.offset, Gpr.gs.offset] then
    w == 0#64 || w &&& 3#64 == 3#64
  else if offset = 168 ∨ offset = 176 then w.toNat < taskSize
  else if offset < debugregOffset then true
  else if offset < debugregOffset + 32 then
    w.toNat < taskSize && slotAllowed (debugWord registers 7) w ((offset - debugregOffset) / 8)
  else if offset < debugregOffset + 48 then false
  else if offset < debugregOffset + 56 then true
  else (List.range 4).all fun i => slotAllowed w (debugWord registers i) i

/-- `FLAG_MASK`: the flags that a debugger can change. -/
def flagMask : BitVec 64 := 0x54dd5#64

/-- Where the segment registers are, which have two bytes. -/
def segments : List ℕ := [Gpr.cs, .ss, .ds, .es, .fs, .gs].map Gpr.offset

/-- What `putreg` leaves of what it is given. -/
def kept (given registers : UserArea) : UserArea := fun o =>
  if Gpr.eflags.offset ≤ o ∧ o < Gpr.eflags.offset + 8 then
    let mask := byteOf flagMask (o - Gpr.eflags.offset)
    (given o &&& mask) ||| (registers o &&& ~~~mask)
  else if segments.any fun start => start + 2 ≤ o ∧ o < start + 8 then 0#8
  else given o

def mxcsrOffset : ℕ := i387Offset + 24

def x86Answer (part : UserPart) (given registers : UserArea) : Option UserArea :=
  match part with
  | .word offset =>
    if wordAllowed offset (wordOf fun i => given (offset + i)) registers then
      some (if offset ∈ Gpr.eflags.offset :: segments then kept given registers else given)
    else none
  | .fprs =>
    -- the upper half of mxcsr is reserved
    if given (mxcsrOffset + 2) = 0#8 ∧ given (mxcsrOffset + 3) = 0#8 then some given else none
  | .gprs =>
    -- the kernel stops at the word it refuses and keeps those before it; no caller goes on then
    if (List.range (regsSize / 8)).all fun i =>
      wordAllowed (8 * i) (wordOf fun j => given (8 * i + j)) registers
    then some (kept given registers) else none

theorem wordAllowed_steady {offset : ℕ} (h : offset < debugregOffset) (w : BitVec 64)
    (u u' : UserArea) : wordAllowed offset w u = wordAllowed offset w u' := by
  unfold wordAllowed
  simp only [h, if_true]

theorem x86Answer_plain {part : UserPart} (h : part.IsPlain) (given u : UserArea) :
    x86Answer part given u = some given := by
  cases part with
  | word offset =>
    have hallowed (w : BitVec 64) : wordAllowed offset w u = true := by
      obtain ⟨-, hplain⟩ := h
      have hlow : offset < debugregOffset := by
        unfold debugregOffset
        omega
      unfold wordAllowed
      simp only [Gpr.offset, List.mem_cons, List.not_mem_nil, or_false]
      rw [if_neg (by omega), if_neg (by omega), if_neg (by omega), if_pos hlow]
    have hwhole : offset ∉ Gpr.eflags.offset :: segments := by
      obtain ⟨-, hplain⟩ := h
      simp only [segments, Gpr.offset, List.map_cons, List.map_nil, List.mem_cons, List.not_mem_nil,
        or_false]
      omega
    simp only [x86Answer, hallowed, if_true, if_neg hwhole]
  | fprs => exact h.elim
  | gprs => exact h.elim

theorem x86Answer_steady {part : UserPart} (h : ¬ part.IsDebug) (given u u' : UserArea) :
    (x86Answer part given u).isSome = (x86Answer part given u').isSome := by
  cases part with
  | word offset =>
    have hlow : offset < debugregOffset := Nat.lt_of_not_ge h
    simp only [x86Answer, wordAllowed_steady hlow _ u u']
    split_ifs <;> rfl
  | fprs => rfl
  | gprs =>
    have hall : ((List.range (regsSize / 8)).all fun i =>
          wordAllowed (8 * i) (wordOf fun j => given (8 * i + j)) u) =
        (List.range (regsSize / 8)).all fun i =>
          wordAllowed (8 * i) (wordOf fun j => given (8 * i + j)) u' := by
      rw [Bool.eq_iff_iff, List.all_eq_true, List.all_eq_true]
      refine forall₂_congr fun i hi => ?_
      have hlow : 8 * i < debugregOffset := by
        have := List.mem_range.mp hi
        unfold regsSize at this
        unfold debugregOffset
        omega
      rw [wordAllowed_steady hlow _ u u']
    simp only [x86Answer, hall]
    split_ifs <;> rfl

/-- The checks of x86-64, for a thread that is there. -/
def x86 : RegisterKernel where
  answer := x86Answer
  steady _ h := x86Answer_steady h
  plain := .inl fun _ h => x86Answer_plain h

theorem x86_storesPlain : x86.StoresPlain := by
  intro part h data u
  change (x86Answer part (part.given data) u).map _ = _
  rw [x86Answer_plain h, Option.map_some, UserPart.overlay_given]

theorem x86_write_debug (h : part.IsDebug) {u'' : UserArea}
    (htaken : x86.write part data u = some u'') : u'' = part.overlay data u := by
  cases part with
  | word offset =>
    have hwhole : offset ∉ Gpr.eflags.offset :: segments := by
      unfold UserPart.IsDebug debugregOffset at h
      simp only [segments, Gpr.offset, List.map_cons, List.map_nil, List.mem_cons, List.not_mem_nil,
        or_false]
      omega
    obtain ⟨stored, hstored, rfl⟩ := Option.map_eq_some_iff.mp htaken
    simp only [x86, x86Answer, if_neg hwhole] at hstored
    split_ifs at hstored
    obtain rfl := Option.some.inj hstored
    exact UserPart.overlay_given ..
  | fprs => exact h.elim
  | gprs => exact h.elim

theorem x86_writes_debug {l : List (UserPart × UserArea)} (h : ∀ request ∈ l, request.1.IsDebug)
    (htaken : (x86.writes l u).isSome = true) : x86.writes l u = some (overlayAll l u) := by
  induction l generalizing u with
  | nil => rfl
  | cons request l ih =>
    obtain ⟨hfirst, hrest⟩ := List.forall_mem_cons.mp h
    obtain ⟨u'', hall⟩ := Option.isSome_iff_exists.mp htaken
    obtain ⟨u₁, hwrite, hl⟩ := Option.bind_eq_some_iff.mp hall
    obtain rfl := x86_write_debug hfirst hwrite
    exact (Option.bind_eq_some_iff.mpr ⟨_, hwrite, ih hrest (by rw [hl]; rfl)⟩)

def gone : RegisterKernel where
  answer _ _ _ := none
  steady _ _ _ _ _ := rfl
  plain := .inr fun _ _ _ _ => rfl

end RegisterKernel
end KDebugger
