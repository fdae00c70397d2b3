import KDebugger.ByteStream

namespace KDebugger.ByteStream

open Exec

variable {α β : Type}

/-- The position goes forward, in one image and one area. -/
def Onward (c c' : Cursor) : Prop := c'.image = c.image ∧ c'.stop = c.stop ∧ c.pos ≤ c'.pos

theorem onward : Frame Onward where
  refl _ := ⟨rfl, rfl, Nat.le_refl _⟩
  trans h h' := ⟨h'.1.trans h.1, h'.2.1.trans h.2.1, h.2.2.trans h'.2.2⟩

theorem onward_advance (c : Cursor) (n : ℕ) : Onward c (c.advance n) :=
  ⟨rfl, rfl, Nat.le_add_right _ _⟩

theorem onward_readByte : Within Onward readByte := by
  intro c
  unfold after readByte
  cases c.image.read c.pos with
  | none => exact onward.refl c
  | some b => exact onward_advance c 1

theorem onward_readBytes : ∀ n, Within Onward (readBytes n)
  | 0 => onward.pure _
  | n + 1 => onward.bind onward_readByte fun _ =>
      onward.bind (onward_readBytes n) fun _ => onward.pure _

theorem onward_fixedInt (n : ℕ) : Within Onward (fixedInt n) :=
  onward.bind (onward_readBytes n) fun _ => onward.pure _

/-- Cursors at one place, whatever their areas. -/
def SamePlace (c c' : Cursor) : Prop := c'.image = c.image ∧ c'.pos = c.pos

/-- The reader does not look at the end of its area. -/
abbrev Blind (p : Reader α) : Prop := MatchesUpTo SamePlace Eq p p

theorem Blind.bind {p : Reader α} {f : α → Reader β} (hp : Blind p) (hf : ∀ a, Blind (f a)) :
    Blind (p >>= f) := by
  refine MatchesUpTo.bind hp ?_
  rintro a _ rfl
  exact hf a

theorem Blind.ite {P : Prop} [Decidable P] {p q : Reader α} (hp : Blind p) (hq : Blind q) :
    Blind (if P then p else q) := by
  split
  · exact hp
  · exact hq

theorem blind_pure (a : α) : Blind (pure a : Reader α) := MatchesUpTo.pure rfl

theorem blind_throw (e : Failure) : Blind (throw e : Reader α) := fun _ _ h => ⟨rfl, h⟩

theorem blind_readByte : Blind readByte := by
  rintro c c' ⟨himage, hpos⟩
  unfold readByte
  rw [himage, hpos]
  cases c.image.read c.pos with
  | none => exact ⟨rfl, himage, hpos⟩
  | some b => exact ⟨rfl, himage, congrArg (· + 1) hpos⟩

theorem blind_readBytes : ∀ n, Blind (readBytes n)
  | 0 => blind_pure _
  | n + 1 => blind_readByte.bind fun _ => (blind_readBytes n).bind fun _ => blind_pure _

theorem blind_fixedInt (n : ℕ) : Blind (fixedInt n) :=
  (blind_readBytes n).bind fun _ => blind_pure _

theorem Reads.at_blind {p : Reader α} {bs : List Byte} {a : α} (h : Reads p bs a) (hp : Blind p)
    (honward : Within Onward p) {c : Cursor} (hat : BytesAt c.image c.pos bs) :
    p c = .ok a (c.advance bs.length) := by
  have hwide := h ⟨c.image, c.pos, c.pos + bs.length⟩ hat (Nat.le_refl _)
  have hplace : SamePlace ⟨c.image, c.pos, c.pos + bs.length⟩ c := ⟨rfl, rfl⟩
  obtain ⟨b, c', hc', rfl, himage, hpos⟩ := hp.ok hplace hwide
  obtain ⟨-, hstop, -⟩ := honward.ok hc'
  obtain ⟨image, pos, stop⟩ := c'
  simp only at himage hpos hstop
  rw [hc', himage, hpos, hstop]
  rfl

/-- The reader takes the spellings in `S`, and nothing else that ends in its area. -/
structure Format (p : Reader α) (S : List Byte → α → Prop) : Prop where
  onward : Within Onward p
  reads : ∀ {bs a}, S bs a → Reads p bs a
  spelled : ∀ {c c' a}, p c = .ok a c' → c'.pos ≤ c.stop →
    ∃ bs, S bs a ∧ BytesAt c.image c.pos bs ∧ c' = c.advance bs.length

/-- No bytes at all, for one value. -/
def Bare (a : α) (bs : List Byte) (b : α) : Prop := bs = [] ∧ b = a

/-- The spellings of `value x` by `bytes x`. -/
def SpelledBy {γ : Type} (bytes : γ → List Byte) (value : γ → α) (bs : List Byte) (a : α) : Prop :=
  ∃ x, bs = bytes x ∧ a = value x

namespace Format

variable {p : Reader α} {S : List Byte → α → Prop}

theorem congr (h : Format p S) {S' : List Byte → α → Prop} (hS : ∀ bs a, S bs a ↔ S' bs a) :
    Format p S' where
  onward := h.onward
  reads hbs := h.reads ((hS _ _).mpr hbs)
  spelled hp hstop := by
    obtain ⟨bs, hbs, hrest⟩ := h.spelled hp hstop
    exact ⟨bs, (hS _ _).mp hbs, hrest⟩

theorem bind (h : Format p S) {f : α → Reader β} {T : α → List Byte → β → Prop}
    (hf : ∀ a, Format (f a) (T a)) :
    Format (p >>= f) fun bs b => ∃ bs₁ bs₂ a, bs = bs₁ ++ bs₂ ∧ S bs₁ a ∧ T a bs₂ b where
  onward := ByteStream.onward.bind h.onward fun a => (hf a).onward
  reads := by
    rintro bs b ⟨bs₁, bs₂, a, rfl, h₁, h₂⟩
    exact reads_bind (h.reads h₁) ((hf a).reads h₂)
  spelled := by
    intro c c'' b hb hstop
    obtain ⟨a, c', ha, hb⟩ := bind_eq_ok.mp hb
    obtain ⟨-, harea, hpos⟩ := (hf a).onward.ok hb
    obtain ⟨-, harea', -⟩ := h.onward.ok ha
    obtain ⟨bs₁, h₁, hat₁, rfl⟩ := h.spelled ha (hpos.trans hstop)
    obtain ⟨bs₂, h₂, hat₂, rfl⟩ := (hf a).spelled hb (by rwa [harea'])
    refine ⟨bs₁ ++ bs₂, ⟨bs₁, bs₂, a, rfl, h₁, h₂⟩, (bytesAt_append _ _ _ _).mpr ⟨hat₁, hat₂⟩, ?_⟩
    rw [Cursor.advance_advance, List.length_append]

/-- The last reader of a sequence, its result passed on through `f`. -/
theorem map {γ : Type} {bytes : γ → List Byte} {value : γ → α} (h : Format p (SpelledBy bytes value))
    (f : α → β) : Format (do let a ← p; pure (f a)) (SpelledBy bytes fun x => f (value x)) where
  onward := ByteStream.onward.bind h.onward fun _ => ByteStream.onward.pure _
  reads := by
    rintro _ _ ⟨x, rfl, rfl⟩
    exact reads_map f (h.reads ⟨x, rfl, rfl⟩)
  spelled := by
    intro c c'' b hb hstop
    obtain ⟨a, c', ha, hb⟩ := bind_eq_ok.mp hb
    cases hb
    obtain ⟨_, ⟨x, rfl, rfl⟩, hrest⟩ := h.spelled ha hstop
    exact ⟨bytes x, ⟨x, rfl, rfl⟩, hrest⟩

end Format

theorem format_pure (a : α) : Format (pure a) (Bare a) where
  onward := onward.pure a
  reads := by
    rintro _ _ ⟨rfl, rfl⟩
    exact reads_pure _
  spelled h _ := by
    cases h
    exact ⟨[], ⟨rfl, rfl⟩, trivial, rfl⟩

theorem format_throw (e : Failure) : Format (throw e : Reader α) fun _ _ => False where
  onward := onward.throw e
  reads h := h.elim
  spelled h _ := by cases h

theorem format_pass {x : Except Failure α} {f : α → Reader β} {T : α → List Byte → β → Prop}
    (hf : ∀ a, x = .ok a → Format (f a) (T a)) :
    Format (ofExcept x >>= f) fun bs b => ∃ a, x = .ok a ∧ T a bs b := by
  cases x with
  | error e => exact (format_throw e).congr (by simp)
  | ok a => exact (hf a rfl).congr (by simp)

theorem format_fixedInt (n : ℕ) :
    Format (fixedInt n) (SpelledBy (fun v : BitVec (8 * n) => leBytes n v.toNat) fun v => v) where
  onward := onward_fixedInt n
  reads := by
    rintro _ _ ⟨v, rfl, rfl⟩
    exact reads_fixedInt n _
  spelled := by
    intro c c' v h _
    obtain ⟨hat, rfl⟩ := fixedInt_ok h
    exact ⟨_, ⟨v, rfl, rfl⟩, hat, by rw [leBytes_length]⟩

end KDebugger.ByteStream
