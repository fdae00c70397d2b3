import KDebugger.Computation
import Mathlib.Data.Nat.Bitwise

namespace KDebugger

abbrev Byte := BitVec 8

/-- A finite memory area.  Positions may be unreadable, and all from `size` on are. -/
structure Image where
  size : ℕ
  read : ℕ → Option Byte
  bounded : ∀ i, size ≤ i → read i = none

/-- The image that holds exactly the given bytes, from position 0 on. -/
def Image.ofList (bytes : List Byte) : Image where
  size := bytes.length
  read i := bytes[i]?
  bounded _ h := List.getElem?_eq_none h

structure Cursor where
  image : Image
  pos : ℕ
  stop : ℕ

/-- The same cursor `n` bytes further. -/
def Cursor.advance (c : Cursor) (n : ℕ) : Cursor := { c with pos := c.pos + n }

namespace Cursor

@[simp] theorem advance_image (c : Cursor) (n : ℕ) : (c.advance n).image = c.image := rfl

@[simp] theorem advance_pos (c : Cursor) (n : ℕ) : (c.advance n).pos = c.pos + n := rfl

@[simp] theorem advance_stop (c : Cursor) (n : ℕ) : (c.advance n).stop = c.stop := rfl

@[simp] theorem advance_zero (c : Cursor) : c.advance 0 = c := rfl

@[simp] theorem advance_advance (c : Cursor) (m n : ℕ) :
    (c.advance m).advance n = c.advance (m + n) := by
  simp [advance, Nat.add_assoc]

end Cursor

abbrev Reader (α : Type) := EStateM Failure Cursor α

namespace ByteStream

open Exec

/-- The bytes `bs` lie in the image at `p`. -/
def BytesAt (img : Image) : ℕ → List Byte → Prop
  | _, [] => True
  | p, b :: bs => img.read p = some b ∧ BytesAt img (p + 1) bs

@[simp] theorem bytesAt_nil (img : Image) (p : ℕ) : BytesAt img p [] := trivial

@[simp] theorem bytesAt_cons (img : Image) (p : ℕ) (b : Byte) (bs : List Byte) :
    BytesAt img p (b :: bs) ↔ img.read p = some b ∧ BytesAt img (p + 1) bs := Iff.rfl

@[simp] theorem bytesAt_append (img : Image) (p : ℕ) (bs bs' : List Byte) :
    BytesAt img p (bs ++ bs') ↔ BytesAt img p bs ∧ BytesAt img (p + bs.length) bs' := by
  induction bs generalizing p with
  | nil => simp
  | cons b bs ih =>
    have h : p + 1 + bs.length = p + (bs.length + 1) := by omega
    simp [ih, and_assoc, h]

theorem BytesAt.pos_lt_size {img : Image} {p : ℕ} {b : Byte} {bs : List Byte}
    (h : BytesAt img p (b :: bs)) : p < img.size := by
  by_contra hp
  have := img.bounded p (by omega)
  simp [h.1] at this

/-- Bytes that can be read lie inside the image. -/
theorem BytesAt.end_le_size {img : Image} {p : ℕ} {bs : List Byte}
    (h : BytesAt img p bs) (hne : bs ≠ []) : p + bs.length ≤ img.size := by
  induction bs generalizing p with
  | nil => exact absurd rfl hne
  | cons b bs ih =>
    have hp := h.pos_lt_size
    cases bs with
    | nil => exact hp
    | cons b' bs =>
      have := ih h.2 (by simp)
      simp only [List.length_cons] at this ⊢
      omega

theorem bytesAt_of_agree {img img' : Image} {bs : List Byte} : ∀ {p : ℕ}, BytesAt img p bs →
    (∀ i < p + bs.length, img'.read i = img.read i) → BytesAt img' p bs := by
  induction bs with
  | nil => exact fun _ _ => trivial
  | cons b bs ih =>
    intro p hat hagree
    rw [List.length_cons] at hagree
    exact ⟨(hagree p (by omega)).trans hat.1, ih hat.2 fun i hi => hagree i (by omega)⟩

theorem bytesAt_of_read {img : Image} {bs : List Byte} {p : ℕ}
    (h : ∀ i < bs.length, img.read (p + i) = bs[i]?) : BytesAt img p bs := by
  induction bs generalizing p with
  | nil => trivial
  | cons b bs ih =>
    refine ⟨by simpa using h 0 (by simp), ih fun i hi => ?_⟩
    have hnext := h (i + 1) (by simpa using hi)
    rw [show p + 1 + i = p + (i + 1) by omega, hnext]
    simp

theorem bytesAt_ofList {bytes bs : List Byte} {p : ℕ}
    (h : ∀ i < bs.length, bytes[p + i]? = bs[i]?) : BytesAt (Image.ofList bytes) p bs :=
  bytesAt_of_read h

theorem bytesAt_ofList_append (xs bs ys : List Byte) :
    BytesAt (Image.ofList (xs ++ (bs ++ ys))) xs.length bs := by
  refine bytesAt_ofList fun i hi => ?_
  rw [List.getElem?_append_right (by omega), Nat.add_sub_cancel_left,
    List.getElem?_append_left hi]

/-- One byte; outside the image the access is undefined. -/
def readByte : Reader Byte := fun c =>
  match c.image.read c.pos with
  | some b => .ok b (c.advance 1)
  | none => .error .undefined c

/-- The next `n` bytes. -/
def readBytes : ℕ → Reader (List Byte)
  | 0 => pure []
  | n + 1 => do
    let b ← readByte
    let bs ← readBytes n
    pure (b :: bs)

def skip (n : ℕ) : Reader Unit := modify (·.advance n)

def position : Reader ℕ := do
  let c ← get
  pure c.pos

theorem skip_eq (n : ℕ) (c : Cursor) : skip n c = .ok () (c.advance n) := rfl

theorem position_eq (c : Cursor) : position c = .ok c.pos c := rfl

/-- Where `bs` lies, inside the area of the cursor, `p` returns `a` and consumes
exactly `bs`.  All other positions of the image may be unreadable. -/
def Reads {α : Type} (p : Reader α) (bs : List Byte) (a : α) : Prop :=
  ∀ c : Cursor, BytesAt c.image c.pos bs → c.pos + bs.length ≤ c.stop →
    p c = .ok a (c.advance bs.length)

variable {α β : Type}

theorem reads_pure (a : α) : Reads (pure a) [] a := fun _ _ _ => rfl

theorem reads_bind {p : Reader α} {f : α → Reader β} {bs bs' : List Byte} {a : α} {b : β}
    (hp : Reads p bs a) (hf : Reads (f a) bs' b) : Reads (p >>= f) (bs ++ bs') b := by
  intro c hat hstop
  simp only [bytesAt_append] at hat
  simp only [List.length_append] at hstop
  rw [bind_ok (hp c hat.1 (by omega)), hf _ hat.2 (by simpa [Nat.add_assoc] using hstop)]
  simp

/-- The last reader of a sequence, its result passed on through `f`. -/
theorem reads_map {p : Reader α} {bs : List Byte} {a : α} (f : α → β) (hp : Reads p bs a) :
    Reads (do let x ← p; pure (f x)) bs (f a) := by
  have h := reads_bind hp (f := fun x => pure (f x)) (reads_pure (f a))
  rwa [List.append_nil] at h

/-- `Reads` from one position on, for a reader whose result depends on it. -/
def ReadsAt {α : Type} (start : ℕ) (p : Reader α) (bs : List Byte) (a : α) : Prop :=
  ∀ c : Cursor, c.pos = start → BytesAt c.image c.pos bs → c.pos + bs.length ≤ c.stop →
    p c = .ok a (c.advance bs.length)

theorem readsAt_pure (start : ℕ) (a : α) : ReadsAt start (pure a) [] a := fun _ _ _ _ => rfl

theorem readsAt_bind {start : ℕ} {p : Reader α} {f : α → Reader β} {bs bs' : List Byte} {a : α}
    {b : β} (hp : Reads p bs a) (hf : ReadsAt (start + bs.length) (f a) bs' b) :
    ReadsAt start (p >>= f) (bs ++ bs') b := by
  intro c hpos hat hstop
  simp only [bytesAt_append] at hat
  simp only [List.length_append] at hstop
  have hrest := hf (c.advance bs.length) (by rw [Cursor.advance_pos, hpos]) hat.2
    (by simpa [Nat.add_assoc] using hstop)
  rw [bind_ok (hp c hat.1 (by omega)), hrest]
  simp

theorem readsAt_position {start : ℕ} {f : ℕ → Reader α} {bs : List Byte} {a : α}
    (hf : ReadsAt start (f start) bs a) : ReadsAt start (position >>= f) bs a := by
  intro c hpos hat hstop
  have hposition : position c = .ok start c := congrArg (EStateM.Result.ok · c) hpos
  rw [bind_ok hposition]
  exact hf c hpos hat hstop

theorem reads_readByte (b : Byte) : Reads readByte [b] b := by
  intro c hat _
  simp [readByte, hat.1]

theorem reads_readBytes (bs : List Byte) : Reads (readBytes bs.length) bs bs := by
  induction bs with
  | nil => exact reads_pure []
  | cons b bs ih => exact reads_bind (reads_readByte b) (reads_map (b :: ·) ih)

theorem reads_skip (bs : List Byte) : Reads (skip bs.length) bs () := fun _ _ _ => rfl

/-- A reader ended with the value or the failure `x`, with a value at the cursor `c`. -/
def EndsAs {α : Type} (result : EStateM.Result Failure Cursor α) (x : Except Failure α)
    (c : Cursor) : Prop :=
  match x with
  | .ok a => result = .ok a c
  | .error e => ∃ c', result = .error e c'

/-- `Reads` for a reader that may also fail on `bs`: it gives `x`. -/
def Gives {α : Type} (p : Reader α) (bs : List Byte) (x : Except Failure α) : Prop :=
  ∀ c : Cursor, BytesAt c.image c.pos bs → c.pos + bs.length ≤ c.stop →
    EndsAs (p c) x (c.advance bs.length)

theorem Reads.gives {p : Reader α} {bs : List Byte} {a : α} (h : Reads p bs a) :
    Gives p bs (.ok a) := h

theorem gives_ofExcept (x : Except Failure α) : Gives (ofExcept x) [] x := by
  intro c _ _
  cases x with
  | ok a => exact ofExcept_ok a c
  | error e => exact ⟨c, rfl⟩

theorem gives_ofExcept_bind {x : Except Failure α} {f : α → Reader β} {bs : List Byte}
    {y : α → Except Failure β} (h : ∀ a, Gives (f a) bs (y a)) :
    Gives (ofExcept x >>= f) bs (x.bind y) := by
  cases x with
  | ok a => exact h a
  | error e => exact fun c _ _ => ⟨c, rfl⟩

theorem gives_bind {p : Reader α} {f : α → Reader β} {bs bs' : List Byte} {a : α}
    {x : Except Failure β} (hp : Reads p bs a) (hf : Gives (f a) bs' x) :
    Gives (p >>= f) (bs ++ bs') x := by
  intro c hat hstop
  simp only [bytesAt_append] at hat
  simp only [List.length_append] at hstop ⊢
  have hp' := hp c hat.1 (by omega)
  have hstop' : c.pos + bs.length + bs'.length ≤ c.stop := by omega
  have hf' := hf (c.advance bs.length) hat.2 hstop'
  rwa [bind_ok hp', ← Cursor.advance_advance]

/-- The number whose base-256 digits are `bs`, the least significant first. -/
def leValue : List Byte → ℕ
  | [] => 0
  | b :: bs => b.toNat + 256 * leValue bs

/-- The `n` little-endian bytes of `v`. -/
def leBytes : ℕ → ℕ → List Byte
  | 0, _ => []
  | n + 1, v => BitVec.ofNat 8 v :: leBytes n (v / 256)

@[simp] theorem leBytes_length (n v : ℕ) : (leBytes n v).length = n := by
  induction n generalizing v with
  | zero => rfl
  | succ n ih => simp [leBytes, ih]

theorem leValue_leBytes (n v : ℕ) : leValue (leBytes n v) = v % 256 ^ n := by
  induction n generalizing v with
  | zero => simp [leValue, leBytes, Nat.mod_one]
  | succ n ih =>
    have hpow : 256 ^ (n + 1) = 256 * 256 ^ n := by rw [Nat.pow_succ, Nat.mul_comm]
    rw [leBytes, leValue, ih, BitVec.toNat_ofNat, hpow, Nat.mod_mul]

/-- The word that `n` bytes copied from memory spell. -/
def fromBytes (n : ℕ) (bs : List Byte) : BitVec (8 * n) := BitVec.ofNat (8 * n) (leValue bs)

theorem fromBytes_leBytes (n : ℕ) (v : BitVec (8 * n)) : fromBytes n (leBytes n v.toNat) = v := by
  apply BitVec.eq_of_toNat_eq
  have h256 : 256 ^ n = 2 ^ (8 * n) := by rw [Nat.pow_mul]
  simp [fromBytes, leValue_leBytes, h256, Nat.mod_eq_of_lt v.isLt]

/-- A word of `n` bytes at the cursor. -/
def fixedInt (n : ℕ) : Reader (BitVec (8 * n)) := do
  let bs ← readBytes n
  pure (fromBytes n bs)

theorem reads_fixedInt (n : ℕ) (v : BitVec (8 * n)) :
    Reads (fixedInt n) (leBytes n v.toNat) v := by
  have h := reads_map (fromBytes n) (reads_readBytes (leBytes n v.toNat))
  rw [fromBytes_leBytes, leBytes_length] at h
  exact h

/-- Words are read up to the end of the image, whatever the area of the cursor. -/
theorem readBytes_at {bs : List Byte} {c : Cursor} (hat : BytesAt c.image c.pos bs) :
    readBytes bs.length c = .ok bs (c.advance bs.length) := by
  induction bs generalizing c with
  | nil => rfl
  | cons b bs ih =>
    have hbyte : readByte c = .ok b (c.advance 1) := by simp [readByte, hat.1]
    have hrest := ih (c := c.advance 1) hat.2
    rw [List.length_cons, readBytes, bind_ok hbyte, bind_ok hrest, Cursor.advance_advance,
      Nat.add_comm 1]
    rfl

theorem fixedInt_at {n : ℕ} {v : BitVec (8 * n)} {c : Cursor}
    (hat : BytesAt c.image c.pos (leBytes n v.toNat)) : fixedInt n c = .ok v (c.advance n) := by
  have h := readBytes_at hat
  rw [leBytes_length] at h
  rw [fixedInt, bind_ok h, fromBytes_leBytes]
  rfl

theorem leBytes_leValue (bs : List Byte) : leBytes bs.length (leValue bs) = bs := by
  induction bs with
  | nil => rfl
  | cons b bs ih =>
    have hb := b.isLt
    have hbyte : BitVec.ofNat 8 (leValue (b :: bs)) = b := by
      apply BitVec.eq_of_toNat_eq
      simp only [leValue, BitVec.toNat_ofNat]
      omega
    have hrest : leValue (b :: bs) / 256 = leValue bs := by
      simp only [leValue]
      omega
    rw [List.length_cons, leBytes, hbyte, hrest, ih]

theorem leValue_lt (bs : List Byte) : leValue bs < 256 ^ bs.length := by
  induction bs with
  | nil => simp [leValue]
  | cons b bs ih =>
    have hb := b.isLt
    rw [leValue, List.length_cons, Nat.pow_succ]
    omega

theorem leBytes_fromBytes {n : ℕ} {bs : List Byte} (h : bs.length = n) :
    leBytes n (fromBytes n bs).toNat = bs := by
  subst h
  have hlt : leValue bs < 2 ^ (8 * bs.length) := by
    rw [Nat.pow_mul]
    exact leValue_lt bs
  rw [fromBytes, BitVec.toNat_ofNat, Nat.mod_eq_of_lt hlt, leBytes_leValue]

/-- A reader that fails only where a byte cannot be read. -/
def OnlyUndefined {α : Type} (p : Reader α) : Prop :=
  ∀ c c' e, p c = .error e c' → e = .undefined

theorem OnlyUndefined.bind {α β : Type} {p : Reader α} {f : α → Reader β} (hp : OnlyUndefined p)
    (hf : ∀ a, OnlyUndefined (f a)) : OnlyUndefined (p >>= f) := by
  intro c c' e h
  cases hc : p c with
  | ok a c₁ =>
    rw [bind_ok hc] at h
    exact hf a _ _ _ h
  | error e' c₁ =>
    rw [bind_error hc] at h
    cases h
    exact hp _ _ _ hc

theorem onlyUndefined_pure {α : Type} (a : α) : OnlyUndefined (pure a) := by
  intro c c' e h
  cases h

theorem onlyUndefined_throw {α : Type} : OnlyUndefined (throw .undefined : Reader α) := by
  intro c c' e h
  cases h
  rfl

theorem onlyUndefined_readByte : OnlyUndefined readByte := by
  intro c c' e h
  unfold readByte at h
  split at h <;> cases h
  rfl

theorem onlyUndefined_readBytes : ∀ n, OnlyUndefined (readBytes n)
  | 0 => onlyUndefined_pure []
  | n + 1 => onlyUndefined_readByte.bind fun _ =>
      (onlyUndefined_readBytes n).bind fun _ => onlyUndefined_pure _

theorem onlyUndefined_fixedInt (n : ℕ) : OnlyUndefined (fixedInt n) :=
  (onlyUndefined_readBytes n).bind fun _ => onlyUndefined_pure _

theorem readBytes_ok {n : ℕ} : ∀ {c c' : Cursor} {bs : List Byte}, readBytes n c = .ok bs c' →
    bs.length = n ∧ BytesAt c.image c.pos bs ∧ c' = c.advance n := by
  -- a cursor does not look at its own end, so only the image bounds a read
  induction n with
  | zero =>
    intro c c' bs h
    cases h
    exact ⟨rfl, trivial, rfl⟩
  | succ n ih =>
    intro c c' bs h
    obtain ⟨b, c₁, hb, h₁⟩ := bind_eq_ok.mp h
    obtain ⟨rest, c₂, hrest, h₂⟩ := bind_eq_ok.mp h₁
    cases h₂
    have hbyte : c.image.read c.pos = some b ∧ c₁ = c.advance 1 := by
      unfold readByte at hb
      split at hb
      · cases hb
        exact ⟨by assumption, rfl⟩
      · cases hb
    obtain ⟨hread, rfl⟩ := hbyte
    obtain ⟨hlen, hat, rfl⟩ := ih hrest
    refine ⟨by rw [List.length_cons, hlen], ⟨hread, hat⟩, ?_⟩
    rw [Cursor.advance_advance, Nat.add_comm]

theorem fixedInt_ok {n : ℕ} {c c' : Cursor} {v : BitVec (8 * n)} (h : fixedInt n c = .ok v c') :
    BytesAt c.image c.pos (leBytes n v.toNat) ∧ c' = c.advance n := by
  obtain ⟨bs, c₁, hbs, h₁⟩ := bind_eq_ok.mp h
  cases h₁
  obtain ⟨hlen, hat, rfl⟩ := readBytes_ok hbs
  rw [leBytes_fromBytes hlen]
  exact ⟨hat, rfl⟩

end ByteStream
end KDebugger
