import Mathlib.Tactic.Common

namespace KDebugger

/-- How a computation ends when it does not return. -/
inductive Failure where
  /-- an exception that carries a message -/
  | raised (what : String)
  /-- an exception of a checked element access -/
  | outOfRange
  /-- undefined behaviour: an access outside every object, a shift past the width -/
  | undefined
  /-- a wait that nothing ends -/
  | blocked
  /-- the program ends itself -/
  | aborted
  /-- the step bound of a loop was reached -/
  | exhausted
deriving DecidableEq, Repr

namespace Exec

variable {σ α β : Type}

/-- The state a computation leaves behind, whichever way it ends. -/
def after (p : EStateM Failure σ α) (s : σ) : σ :=
  match p s with
  | .ok _ s' => s'
  | .error _ s' => s'

/-- The value or the failure, without the state. -/
def outcome (p : EStateM Failure σ α) (s : σ) : Except Failure α :=
  match p s with
  | .ok a _ => .ok a
  | .error e _ => .error e

theorem bind_ok {p : EStateM Failure σ α} {f : α → EStateM Failure σ β} {s s' : σ} {a : α}
    (h : p s = .ok a s') : (p >>= f) s = f a s' := by
  simp [bind, EStateM.bind, h]

theorem bind_error {p : EStateM Failure σ α} {f : α → EStateM Failure σ β} {s s' : σ}
    {e : Failure} (h : p s = .error e s') : (p >>= f) s = .error e s' := by
  simp [bind, EStateM.bind, h]

theorem outcome_bind_ok {p : EStateM Failure σ α} {f : α → EStateM Failure σ β} {s s' : σ} {a : α}
    (h : p s = .ok a s') : outcome (p >>= f) s = outcome (f a) s' := by
  unfold outcome
  rw [bind_ok h]

theorem outcome_bind_error {p : EStateM Failure σ α} {f : α → EStateM Failure σ β} {s s' : σ}
    {e : Failure} (h : p s = .error e s') : outcome (p >>= f) s = .error e := by
  unfold outcome
  rw [bind_error h]

theorem outcome_eq_ok_iff {p : EStateM Failure σ α} {s : σ} {a : α} :
    outcome p s = .ok a ↔ ∃ s', p s = .ok a s' := by
  unfold outcome
  cases p s with
  | ok b s' => exact ⟨fun heq => ⟨s', by rw [Except.ok.inj heq]⟩, fun ⟨_, heq⟩ => by cases heq; rfl⟩
  | error e s' => exact iff_of_false nofun nofun

/-- A sequence returns exactly when both of its halves do. -/
theorem bind_eq_ok {p : EStateM Failure σ α} {f : α → EStateM Failure σ β} {s s'' : σ} {b : β} :
    (p >>= f) s = .ok b s'' ↔ ∃ a s', p s = .ok a s' ∧ f a s' = .ok b s'' := by
  cases h : p s with
  | ok a s' => simp [bind_ok h]
  | error e s' => simp [bind_error h]

/-- The same where there is no state. -/
theorem except_bind_eq_ok {x : Except Failure α} {f : α → Except Failure β} {b : β} :
    (x >>= f) = .ok b ↔ ∃ a, x = .ok a ∧ f a = .ok b := by
  cases x with
  | ok a => simp [bind, Except.bind]
  | error e => simp [bind, Except.bind]

theorem after_bind_ok {p : EStateM Failure σ α} {f : α → EStateM Failure σ β} {s s' : σ} {a : α}
    (h : p s = .ok a s') : after (p >>= f) s = after (f a) s' := by
  simp [after, bind_ok h]

theorem after_bind_error {p : EStateM Failure σ α} {f : α → EStateM Failure σ β} {s s' : σ}
    {e : Failure} (h : p s = .error e s') : after (p >>= f) s = s' := by
  simp [after, bind_error h]

/-- The second half leaves the state as the first one does. -/
theorem after_bind_unchanged {p : EStateM Failure σ α} {f : α → EStateM Failure σ β}
    (hf : ∀ a s, after (f a) s = s) (s : σ) : after (p >>= f) s = after p s := by
  cases h : p s with
  | ok a s' => rw [after_bind_ok h, hf, after, h]
  | error e s' => rw [after_bind_error h, after, h]

theorem get_eq (s : σ) : (get : EStateM Failure σ σ) s = .ok s s := rfl

theorem throw_eq (e : Failure) (s : σ) : (throw e : EStateM Failure σ α) s = .error e s := rfl

theorem ofExcept_ok (a : α) (s : σ) :
    (ofExcept (.ok a : Except Failure α) : EStateM Failure σ α) s = .ok a s := rfl

theorem ofExcept_error (e : Failure) (s : σ) :
    (ofExcept (.error e : Except Failure α) : EStateM Failure σ α) s = .error e s := rfl

theorem outcome_ofExcept_bind (x : Except Failure α) (f : α → EStateM Failure σ β) (s : σ) :
    outcome (ofExcept x >>= f) s = x.bind fun a => outcome (f a) s := by
  cases x <;> rfl

theorem ofExcept_eq_ok {x : Except Failure α} {a : α} {s s' : σ} :
    (ofExcept x : EStateM Failure σ α) s = .ok a s' ↔ x = .ok a ∧ s' = s := by
  cases x with
  | ok b =>
    rw [ofExcept_ok]
    simp [eq_comm]
  | error e =>
    rw [ofExcept_error]
    simp

/-- A relation between states that any number of steps can be in. -/
structure Frame (R : σ → σ → Prop) : Prop where
  refl : ∀ s, R s s
  trans : ∀ {s₁ s₂ s₃}, R s₁ s₂ → R s₂ s₃ → R s₁ s₃

/-- The state left behind is related to the one before, also by a failure half way. -/
def Within (R : σ → σ → Prop) (p : EStateM Failure σ α) : Prop := ∀ s, R s (after p s)

theorem within_ite {R : σ → σ → Prop} {c : Prop} [Decidable c] {p q : EStateM Failure σ α}
    (hp : Within R p) (hq : Within R q) : Within R (if c then p else q) := by
  split
  · exact hp
  · exact hq

namespace Frame

variable {R : σ → σ → Prop} (hR : Frame R)

include hR

theorem pure (a : α) : Within R (pure a : EStateM Failure σ α) := fun s => hR.refl s

theorem throw (e : Failure) : Within R (throw e : EStateM Failure σ α) := fun s => hR.refl s

theorem get : Within R (get : EStateM Failure σ σ) := fun s => hR.refl s

theorem ofExcept (x : Except Failure α) : Within R (ofExcept x : EStateM Failure σ α) := by
  cases x with
  | ok a => exact hR.pure a
  | error e => exact hR.throw e

/-- A sequence, the second half being run only where the first one leads. -/
theorem bind_at {p : EStateM Failure σ α} {f : α → EStateM Failure σ β} {s : σ}
    (hp : R s (after p s)) (hf : ∀ a s', p s = .ok a s' → R s' (after (f a) s')) :
    R s (after (p >>= f) s) := by
  cases h : p s with
  | ok a s' =>
    rw [after_bind_ok h]
    rw [after, h] at hp
    exact hR.trans hp (hf a s' h)
  | error e s' =>
    rw [after_bind_error h]
    rwa [after, h] at hp

theorem bind {p : EStateM Failure σ α} {f : α → EStateM Failure σ β}
    (hp : Within R p) (hf : ∀ a, Within R (f a)) : Within R (p >>= f) :=
  fun s => hR.bind_at (hp s) fun a s' _ => hf a s'

/-- The second half of a sequence, from the state that the first one leaves. -/
theorem after_bind {p : EStateM Failure σ α} {f : α → EStateM Failure σ β}
    (hf : ∀ a, Within R (f a)) (s : σ) : R (after p s) (after (p >>= f) s) := by
  cases h : p s with
  | ok a s' =>
    rw [after_bind_ok h, after, h]
    exact hf a s'
  | error e s' =>
    rw [after_bind_error h, after, h]
    exact hR.refl s'

theorem forM {ι : Type} {f : ι → EStateM Failure σ PUnit} (hf : ∀ i, Within R (f i)) :
    ∀ l : List ι, Within R (l.forM f) := by
  intro l
  induction l with
  | nil => exact hR.pure _
  | cons i l ih => exact hR.bind (hf i) fun _ => ih

end Frame

theorem keeps (I : σ → Prop) : Frame fun s s' => I s → I s' where
  refl _ := id
  trans h h' := h' ∘ h

theorem unchanged : Frame fun s s' : σ => s' = s where
  refl _ := rfl
  trans h h' := h'.trans h

theorem Within.ok {R : σ → σ → Prop} {p : EStateM Failure σ α} {s s' : σ} {a : α}
    (hp : Within R p) (h : p s = .ok a s') : R s s' := by
  have hs := hp s
  rwa [after, h] at hs

/-- The computation leads to `ok` when it returns, and to `bad` when it fails. -/
def Leads (ok bad : σ → Prop) (p : EStateM Failure σ α) (s : σ) : Prop :=
  match p s with
  | .ok _ s' => ok s'
  | .error _ s' => bad s'

section Leads

variable {ok ok' bad : σ → Prop}

theorem Leads.bind {p : EStateM Failure σ α} {f : α → EStateM Failure σ β} {s : σ}
    (hp : Leads ok bad p s) (hf : ∀ a s', p s = .ok a s' → ok s' → Leads ok' bad (f a) s') :
    Leads ok' bad (p >>= f) s := by
  unfold Leads at hp
  cases h : p s with
  | ok a s' =>
    rw [h] at hp
    have hrest := hf a s' h hp
    unfold Leads at hrest ⊢
    rwa [bind_ok h]
  | error e s' =>
    rw [h] at hp
    unfold Leads
    rwa [bind_error h]

theorem leads_bind_ok {p : EStateM Failure σ α} {f : α → EStateM Failure σ β} {s s' : σ} {a : α}
    (h : p s = .ok a s') : Leads ok bad (p >>= f) s ↔ Leads ok bad (f a) s' := by
  unfold Leads
  rw [bind_ok h]

theorem Leads.of_after {p : EStateM Failure σ α} {s : σ} (h : ok (after p s))
    (hbad : ∀ s, ok s → bad s) : Leads ok bad p s := by
  unfold Exec.after at h
  unfold Leads
  cases hp : p s with
  | ok a s' => rwa [hp] at h
  | error e s' =>
    rw [hp] at h
    exact hbad s' h

/-- What is kept whichever way the computation ends. -/
theorem Leads.of_within {p : EStateM Failure σ α} {s : σ}
    (hp : Within (fun s s' => ok s → ok s') p) (hbad : ∀ s, ok s → bad s) (hs : ok s) :
    Leads ok bad p s := .of_after (hp s hs) hbad

theorem Leads.after {p : EStateM Failure σ α} {s : σ} (hp : Leads ok bad p s)
    (hok : ∀ s, ok s → bad s) : bad (after p s) := by
  unfold Leads at hp
  unfold Exec.after
  cases h : p s with
  | ok a s' =>
    rw [h] at hp
    exact hok s' hp
  | error e s' => rwa [h] at hp

end Leads

/-- Whatever is returned is in `P`. -/
def Returns (P : α → Prop) (p : EStateM Failure σ α) : Prop := ∀ s a s', p s = .ok a s' → P a

section Returns

variable {P : α → Prop} {Q : β → Prop}

theorem returns_true (p : EStateM Failure σ α) : Returns (fun _ => True) p :=
  fun _ _ _ _ => trivial

theorem Returns.bind {p : EStateM Failure σ α} {f : α → EStateM Failure σ β} (hp : Returns P p)
    (hf : ∀ a, P a → Returns Q (f a)) : Returns Q (p >>= f) := by
  intro s b s'' h
  obtain ⟨a, s', ha, hb⟩ := bind_eq_ok.mp h
  exact hf a (hp s a s' ha) s' b s'' hb

/-- The value of the first half does not matter. -/
theorem Returns.of_rest {p : EStateM Failure σ α} {f : α → EStateM Failure σ β}
    (hf : ∀ a, Returns Q (f a)) : Returns Q (p >>= f) := (returns_true p).bind fun a _ => hf a

theorem Returns.pure {a : α} (h : P a) : Returns P (Pure.pure a : EStateM Failure σ α) := by
  intro s b s' hb
  cases hb
  exact h

theorem Returns.throw (e : Failure) : Returns P (MonadExcept.throw e : EStateM Failure σ α) := by
  intro s b s' hb
  cases hb

theorem Returns.ite {c : Prop} [Decidable c] {p q : EStateM Failure σ α} (hp : Returns P p)
    (hq : Returns P q) : Returns P (if c then p else q) := by
  split
  · exact hp
  · exact hq

end Returns

section Matches

variable {τ : Type} {R : σ → τ → Prop}

/-- From related states both end alike, and in related states again. -/
def Matches (R : σ → τ → Prop) (p : EStateM Failure σ α) (q : EStateM Failure τ α) : Prop :=
  ∀ s t, R s t → outcome p s = outcome q t ∧ R (after p s) (after q t)

theorem Matches.bind {p : EStateM Failure σ α} {q : EStateM Failure τ α}
    {f : α → EStateM Failure σ β} {g : α → EStateM Failure τ β} (hp : Matches R p q)
    (hf : ∀ a, Matches R (f a) (g a)) : Matches R (p >>= f) (q >>= g) := by
  intro s t h
  obtain ⟨hout, hafter⟩ := hp s t h
  unfold outcome at hout
  unfold Exec.after at hafter
  cases hps : p s with
  | ok a s' =>
    rw [hps] at hout hafter
    cases hqt : q t with
    | ok b t' =>
      rw [hqt] at hout hafter
      obtain rfl : a = b := Except.ok.inj hout
      have hrest := hf a s' t' hafter
      unfold outcome Exec.after at hrest ⊢
      rwa [bind_ok hps, bind_ok hqt]
    | error e t' =>
      rw [hqt] at hout
      cases hout
  | error e s' =>
    rw [hps] at hout hafter
    cases hqt : q t with
    | ok b t' =>
      rw [hqt] at hout
      cases hout
    | error e' t' =>
      rw [hqt] at hout hafter
      obtain rfl : e = e' := Except.error.inj hout
      unfold outcome Exec.after
      rw [bind_error hps, bind_error hqt]
      exact ⟨rfl, hafter⟩

theorem Matches.pure (a : α) :
    Matches R (Pure.pure a : EStateM Failure σ α) (Pure.pure a : EStateM Failure τ α) :=
  fun _ _ h => ⟨rfl, h⟩

theorem Matches.throw (e : Failure) : Matches R
    (MonadExcept.throw e : EStateM Failure σ α) (MonadExcept.throw e : EStateM Failure τ α) :=
  fun _ _ h => ⟨rfl, h⟩

theorem Matches.ofExcept (x : Except Failure α) : Matches R
    (MonadExcept.ofExcept x : EStateM Failure σ α) (MonadExcept.ofExcept x) := by
  cases x with
  | ok a => exact Matches.pure a
  | error e => exact Matches.throw e

/-- The value of an `Except` is known to the rest. -/
theorem Matches.ofExcept_bind {x : Except Failure α} {f : α → EStateM Failure σ β}
    {g : α → EStateM Failure τ β} (hf : ∀ a, x = .ok a → Matches R (f a) (g a)) :
    Matches R (MonadExcept.ofExcept x >>= f) (MonadExcept.ofExcept x >>= g) := by
  cases x with
  | ok a => exact hf a rfl
  | error e => exact fun _ _ h => ⟨rfl, h⟩

end Matches

section MatchesUpTo

variable {τ γ δ : Type} {R : σ → τ → Prop} {V : α → β → Prop} {W : γ → δ → Prop}

/-- From related states both end alike: with related values, and in related states again. -/
def MatchesUpTo (R : σ → τ → Prop) (V : α → β → Prop) (p : EStateM Failure σ α)
    (q : EStateM Failure τ β) : Prop :=
  ∀ s t, R s t → match p s, q t with
    | .ok a s', .ok b t' => V a b ∧ R s' t'
    | .error e s', .error e' t' => e = e' ∧ R s' t'
    | _, _ => False

theorem MatchesUpTo.bind {p : EStateM Failure σ α} {q : EStateM Failure τ β}
    {f : α → EStateM Failure σ γ} {g : β → EStateM Failure τ δ} (hp : MatchesUpTo R V p q)
    (hf : ∀ a b, V a b → MatchesUpTo R W (f a) (g b)) : MatchesUpTo R W (p >>= f) (q >>= g) := by
  intro s t h
  have hends := hp s t h
  cases hps : p s with
  | ok a s' =>
    cases hqt : q t with
    | ok b t' =>
      rw [hps, hqt] at hends
      rw [bind_ok hps, bind_ok hqt]
      exact hf a b hends.1 s' t' hends.2
    | error e t' =>
      rw [hps, hqt] at hends
      exact hends.elim
  | error e s' =>
    cases hqt : q t with
    | ok b t' =>
      rw [hps, hqt] at hends
      exact hends.elim
    | error e' t' =>
      rw [hps, hqt] at hends
      rw [bind_error hps, bind_error hqt]
      exact hends

theorem MatchesUpTo.pure {a : α} {b : β} (h : V a b) : MatchesUpTo R V
    (Pure.pure a : EStateM Failure σ α) (Pure.pure b : EStateM Failure τ β) := fun _ _ hst => ⟨h, hst⟩

theorem MatchesUpTo.ofExcept_bind {x : Except Failure α} {f : α → EStateM Failure σ γ}
    {g : α → EStateM Failure τ δ} (hf : ∀ a, x = .ok a → MatchesUpTo R W (f a) (g a)) :
    MatchesUpTo R W (MonadExcept.ofExcept x >>= f) (MonadExcept.ofExcept x >>= g) := by
  cases x with
  | ok a => exact hf a rfl
  | error e => exact fun _ _ h => ⟨rfl, h⟩

theorem MatchesUpTo.ok {p : EStateM Failure σ α} {q : EStateM Failure τ β}
    (h : MatchesUpTo R V p q) {s s' : σ} {t : τ} {a : α} (hst : R s t) (hp : p s = .ok a s') :
    ∃ b t', q t = .ok b t' ∧ V a b ∧ R s' t' := by
  have hends := h s t hst
  rw [hp] at hends
  cases hqt : q t with
  | ok b t' =>
    rw [hqt] at hends
    exact ⟨b, t', rfl, hends⟩
  | error e t' =>
    rw [hqt] at hends
    exact hends.elim

end MatchesUpTo

/-- `ok` is asked of each turn of a loop in the state it starts from. -/
def LoopSteps {ι : Type} (f : ι → EStateM Failure σ Unit) (ok : σ → ι → Prop) :
    σ → List ι → Prop
  | _, [] => True
  | s, i :: l => ok s i ∧ ∀ s', f i s = .ok () s' → LoopSteps f ok s' l

theorem LoopSteps.take {ι : Type} {f : ι → EStateM Failure σ Unit} {ok : σ → ι → Prop} :
    ∀ {l : List ι} {s : σ} (k : ℕ), LoopSteps f ok s l → LoopSteps f ok s (l.take k) := by
  intro l
  induction l with
  | nil => intro s k h; simpa using h
  | cons i l ih =>
    intro s k h
    cases k with
    | zero => trivial
    | succ k => exact ⟨h.1, fun s' hs' => ih k (h.2 s' hs')⟩

theorem forM_invariant {ι : Type} {f : ι → EStateM Failure σ Unit} {ok : σ → ι → Prop}
    {I : σ → Prop} (step : ∀ s i, I s → ok s i → I (after (f i) s)) :
    ∀ (l : List ι) (s : σ), I s → LoopSteps f ok s l → I (after (l.forM f) s) := by
  intro l
  induction l with
  | nil => intro s hs _; exact hs
  | cons i l ih =>
    intro s hs h
    have hi := step s i hs h.1
    change I (after (f i >>= fun _ => l.forM f) s)
    cases hf : f i s with
    | ok a s' =>
      rw [after_bind_ok hf]
      rw [after, hf] at hi
      exact ih s' hi (h.2 s' hf)
    | error e s' =>
      rw [after_bind_error hf]
      rwa [after, hf] at hi

theorem Leads.forM {ι : Type} {f : ι → EStateM Failure σ Unit} {turn : σ → ι → Prop}
    {ok bad : σ → Prop} (step : ∀ s i, ok s → turn s i → Leads ok bad (f i) s) :
    ∀ (l : List ι) (s : σ), ok s → LoopSteps f turn s l → Leads ok bad (l.forM f) s := by
  intro l
  induction l with
  | nil => intro s hs _; exact hs
  | cons i l ih =>
    intro s hs h
    exact (step s i hs h.1).bind fun _ s' hi hs' => ih s' hs' (h.2 s' hi)

theorem Leads.forM_mem {ι : Type} {f : ι → EStateM Failure σ Unit} {ok bad : σ → Prop} :
    ∀ {l : List ι}, (∀ i ∈ l, ∀ s, ok s → Leads ok bad (f i) s) →
      ∀ s, ok s → Leads ok bad (l.forM f) s := by
  intro l
  induction l with
  | nil => intro _ s hs; exact hs
  | cons i l ih =>
    intro h s hs
    exact (h i (List.mem_cons_self ..) s hs).bind fun _ s' _ hs' =>
      ih (fun j hj => h j (List.mem_cons_of_mem i hj)) s' hs'

/-- The state after a list of operations, a failed operation ending only itself. -/
def runAll {Op : Type} (exec : Op → EStateM Failure σ Unit) (s : σ) (ops : List Op) : σ :=
  ops.foldl (fun s op => after (exec op) s) s

@[simp] theorem runAll_nil {Op : Type} (exec : Op → EStateM Failure σ Unit) (s : σ) :
    runAll exec s [] = s := rfl

@[simp] theorem runAll_cons {Op : Type} (exec : Op → EStateM Failure σ Unit) (s : σ) (op : Op)
    (ops : List Op) : runAll exec s (op :: ops) = runAll exec (after (exec op) s) ops := rfl

/-- `ok` is asked of each operation in the state it starts from. -/
def AllSteps {Op : Type} (exec : Op → EStateM Failure σ Unit) (ok : σ → Op → Prop) :
    σ → List Op → Prop
  | _, [] => True
  | s, op :: ops => ok s op ∧ AllSteps exec ok (after (exec op) s) ops

theorem runAll_concat {Op : Type} (exec : Op → EStateM Failure σ Unit) (s : σ) (ops : List Op)
    (op : Op) : runAll exec s (ops ++ [op]) = after (exec op) (runAll exec s ops) := by
  simp [runAll]

theorem allSteps_concat {Op : Type} {exec : Op → EStateM Failure σ Unit} {ok : σ → Op → Prop}
    {op : Op} : ∀ {ops : List Op} {s : σ},
      AllSteps exec ok s (ops ++ [op]) ↔ AllSteps exec ok s ops ∧ ok (runAll exec s ops) op := by
  intro ops
  induction ops with
  | nil => intro s; simp [AllSteps]
  | cons o ops ih => intro s; simp only [List.cons_append, AllSteps, ih, runAll_cons, and_assoc]

theorem AllSteps.and_forall {Op : Type} {exec : Op → EStateM Failure σ Unit}
    {ok : σ → Op → Prop} {P : Op → Prop} : ∀ {ops : List Op} {s : σ},
      AllSteps exec ok s ops → (∀ op ∈ ops, P op) → AllSteps exec (fun s op => ok s op ∧ P op) s ops := by
  intro ops
  induction ops with
  | nil => exact fun _ _ => trivial
  | cons op ops ih =>
    exact fun h hall => ⟨⟨h.1, hall op List.mem_cons_self⟩,
      ih h.2 fun op' hop => hall op' (List.mem_cons_of_mem _ hop)⟩

theorem runAll_invariant {Op : Type} {exec : Op → EStateM Failure σ Unit}
    {ok : σ → Op → Prop} {I : σ → Prop}
    (step : ∀ s op, I s → ok s op → I (after (exec op) s)) :
    ∀ (ops : List Op) (s : σ), I s → AllSteps exec ok s ops → I (runAll exec s ops) := by
  intro ops
  induction ops with
  | nil => intro s hs _; exact hs
  | cons op ops ih =>
    intro s hs h
    exact ih _ (step s op hs h.1) h.2

end Exec
end KDebugger
