import KDebugger.Dwarf.Indexing
import KDebugger.Dwarf.NameChains

namespace KDebugger.Dwarf

open ByteStream Exec

/-- What `index_die` takes for a function. -/
def Die.isFunction (d : Die) : Bool :=
  match d.abbrevEntry with
  | none => false
  | some entry =>
    ((entry.attrSpecs.any fun spec => spec.attr == dwAtLowPc) ||
        entry.attrSpecs.any fun spec => spec.attr == dwAtRanges) &&
      (entry.tag == dwTagSubprogram || entry.tag == dwTagInlinedSubroutine)

def Die.key (d : Die) : Option IndexEntry :=
  match d.cu, d.pos with
  | some cu, some pos => some ⟨cu, pos⟩
  | _, _ => none

/-- Functions, each with the stack there is for its name, and what ends the pass early. -/
structure Trace where
  functions : List (ℕ × Die) := []
  stop : Option Failure := none

namespace Trace

def andThen (T U : Trace) : Trace :=
  match T.stop with
  | none => ⟨T.functions ++ U.functions, U.stop⟩
  | some _ => T

def ended (e : Failure) : Trace := { stop := some e }

end Trace

namespace DwarfInfo

variable {dw : DwarfInfo}

def traceSiblings (dw : DwarfInfo) (body : Die → Trace) : ℕ → Die → Trace
  | 0, _ => .ended .exhausted
  | n + 1, d =>
    match d.abbrevEntry with
    | none => {}
    | some _ => (body d).andThen <|
      match dw.increment dw.fuel d with
      | .error e => .ended e
      | .ok d' => traceSiblings dw body n d'

def traceChildren (dw : DwarfInfo) (body : Die → Trace) (d : Die) : Trace :=
  match d.abbrevEntry, d.cu with
  | some entry, some cu =>
    if entry.hasChildren then
      match dw.parseDieAt cu d.next with
      | .error e => .ended e
      | .ok first => dw.traceSiblings body dw.fuel first
    else {}
  | _, _ => .ended .undefined

/-- The functions `index_die` comes to. -/
def traceDie (dw : DwarfInfo) : ℕ → Die → Trace
  | 0, _ => .ended .exhausted
  | depth + 1, d =>
    match d.abbrevEntry with
    | none => .ended .undefined
    | some _ =>
      Trace.andThen { functions := if d.isFunction then [(depth, d)] else [] }
        (dw.traceChildren (traceDie dw depth) d)

def traceUnits (dw : DwarfInfo) (depth : ℕ) : List CompileUnit → Trace
  | [] => {}
  | cu :: cus =>
    Trace.andThen
      (match dw.root cu with
        | .error e => .ended e
        | .ok root => dw.traceDie depth root)
      (traceUnits dw depth cus)

/-- The functions `index` comes to. -/
def trace (dw : DwarfInfo) (depth : ℕ) : Trace := dw.traceUnits depth dw.compileUnits

def entryOf (dw : DwarfInfo) (x : ℕ × Die) : Except Failure (List Byte × IndexEntry) :=
  match x.2.key with
  | none => .error .undefined
  | some key =>
    match dw.name x.1 x.2 with
    | .error e => .error e
    | .ok none => .error .undefined
    | .ok (some s) => .ok (s, key)

/-- The entries up to the first function without one. -/
def emplaced (dw : DwarfInfo) : List (ℕ × Die) → FunctionIndex
  | [] => []
  | x :: l =>
    match dw.entryOf x with
    | .error _ => []
    | .ok entry => entry :: emplaced dw l

/-- What the first function without an entry fails with. -/
def failureAmong (dw : DwarfInfo) : List (ℕ × Die) → Option Failure
  | [] => none
  | x :: l =>
    match dw.entryOf x with
    | .error e => some e
    | .ok _ => failureAmong dw l

/-- What ends the pass, if it does not come to its end. -/
def failure (dw : DwarfInfo) (T : Trace) : Option Failure :=
  match dw.failureAmong T.functions with
  | some e => some e
  | none => T.stop

def play (dw : DwarfInfo) (T : Trace) : EStateM Failure FunctionIndex Unit := do
  T.functions.forM fun x => dw.emplaceFunction x.1 x.2
  match T.stop with
  | none => pure ()
  | some e => throw e

theorem play_andThen (T U : Trace) : dw.play (T.andThen U) = dw.play T >>= fun _ => dw.play U := by
  obtain ⟨fs, stop⟩ := T
  cases stop with
  | none =>
    unfold play Trace.andThen
    simp only [List.forM_eq_forM, List.forM_append, bind_assoc, pure_bind]
  | some e =>
    funext m
    unfold play Trace.andThen
    dsimp only
    cases hrun : (fs.forM fun x => dw.emplaceFunction x.1 x.2) m with
    | error e' m' =>
      rw [bind_error hrun]
      exact (bind_error (bind_error hrun)).symm
    | ok u m' =>
      have hthrow : ((fs.forM fun x => dw.emplaceFunction x.1 x.2) >>= fun _ => throw e) m =
          (.error e m' : EStateM.Result Failure FunctionIndex Unit) := bind_ok hrun
      rw [hthrow]
      exact (bind_error hthrow).symm

theorem forSiblings_play {body : Die → EStateM Failure FunctionIndex Unit} {T : Die → Trace}
    (h : ∀ d, body d = dw.play (T d)) :
    ∀ (n : ℕ) (d : Die), dw.forSiblings body n d = dw.play (dw.traceSiblings T n d) := by
  intro n
  induction n with
  | zero => exact fun d => rfl
  | succ n ih =>
    intro d
    unfold forSiblings traceSiblings
    cases d.abbrevEntry with
    | none => rfl
    | some entry =>
      dsimp only
      rw [play_andThen, h d]
      cases dw.increment dw.fuel d with
      | error e => rfl
      | ok d' =>
        dsimp only
        rw [← ih d']
        rfl

theorem forChildren_play {body : Die → EStateM Failure FunctionIndex Unit} {T : Die → Trace}
    (h : ∀ d, body d = dw.play (T d)) (d : Die) :
    dw.forChildren body d = dw.play (dw.traceChildren T d) := by
  unfold forChildren traceChildren
  cases d.abbrevEntry with
  | none => rfl
  | some entry =>
    cases d.cu with
    | none => rfl
    | some cu =>
      dsimp only
      split_ifs
      · cases dw.parseDieAt cu d.next with
        | error e => rfl
        | ok first =>
          dsimp only
          rw [← forSiblings_play h]
          rfl
      · rfl

theorem indexDie_play (n : ℕ) (d : Die) : dw.indexDie n d = dw.play (dw.traceDie n d) := by
  induction n generalizing d with
  | zero => rfl
  | succ n ih =>
    unfold indexDie traceDie
    cases hentry : d.abbrevEntry with
    | none => rfl
    | some entry =>
      have hfunction : d.isFunction =
          (((entry.attrSpecs.any fun spec => spec.attr == dwAtLowPc) ||
            entry.attrSpecs.any fun spec => spec.attr == dwAtRanges) &&
          (entry.tag == dwTagSubprogram || entry.tag == dwTagInlinedSubroutine)) := by
        rw [Die.isFunction, hentry]
      dsimp only
      rw [play_andThen, ← forChildren_play ih, Die.contains_entry hentry, Die.contains_entry hentry,
        hfunction]
      simp only [ofExcept, pure_bind]
      split_ifs
      · funext m
        unfold play
        simp
      · rfl

theorem passOver_play (n : ℕ) (cus : List CompileUnit) :
    passOver dw cus n = dw.play (dw.traceUnits n cus) := by
  induction cus with
  | nil => rfl
  | cons cu cus ih =>
    unfold traceUnits
    rw [play_andThen, ← ih]
    unfold passOver
    rw [List.forM_eq_forM, List.forM_cons]
    cases dw.root cu with
    | error e => rfl
    | ok root =>
      dsimp only
      rw [← indexDie_play]
      rfl

theorem index_play (n : ℕ) : dw.index n [] = dw.play (dw.trace n) [] := by
  rw [index_empty, passOver_play]
  rfl

theorem emplaceFunction_entry (dw : DwarfInfo) (x : ℕ × Die) (m : FunctionIndex) :
    dw.emplaceFunction x.1 x.2 m =
      match dw.entryOf x with
      | .error e => .error e m
      | .ok entry => .ok () (m ++ [entry]) := by
  unfold emplaceFunction entryOf Die.key
  cases x.2.cu with
  | none => rfl
  | some cu =>
    cases x.2.pos with
    | none => rfl
    | some pos =>
      dsimp only
      cases dw.name x.1 x.2 with
      | error e => rfl
      | ok r => cases r <;> rfl

theorem emplaceAll (dw : DwarfInfo) (l : List (ℕ × Die)) (m : FunctionIndex) :
    (l.forM fun x => dw.emplaceFunction x.1 x.2) m =
      match dw.failureAmong l with
      | none => .ok () (m ++ dw.emplaced l)
      | some e => .error e (m ++ dw.emplaced l) := by
  induction l generalizing m with
  | nil => simp [failureAmong, emplaced, pure, EStateM.pure]
  | cons x l ih =>
    have hturn := dw.emplaceFunction_entry x m
    unfold failureAmong emplaced
    rw [List.forM_eq_forM, List.forM_cons]
    cases hentry : dw.entryOf x with
    | error e =>
      rw [hentry] at hturn
      rw [bind_error hturn, List.append_nil]
    | ok entry =>
      rw [hentry] at hturn
      rw [bind_ok hturn, ← List.forM_eq_forM, ih, List.append_assoc]
      rfl

theorem play_eq (T : Trace) : dw.play T [] =
    match dw.failure T with
    | none => .ok () (dw.emplaced T.functions)
    | some e => .error e (dw.emplaced T.functions) := by
  -- what was emplaced before the failure stays in the map
  have hall := dw.emplaceAll T.functions []
  rw [List.nil_append] at hall
  unfold play failure
  cases hamong : dw.failureAmong T.functions with
  | some e =>
    rw [hamong] at hall
    exact bind_error hall
  | none =>
    rw [hamong] at hall
    rw [bind_ok hall]
    cases T.stop <;> rfl

end DwarfInfo

/-- What the children iterator of a DIE comes to. -/
inductive Child (dw : DwarfInfo) (d : Die) : Die → Prop where
  | first {entry : Abbrev} {cu : CompileUnit} {c : Die} (hentry : d.abbrevEntry = some entry)
      (hcu : d.cu = some cu) (hkids : entry.hasChildren = true)
      (hfirst : dw.parseDieAt cu d.next = .ok c) : Child dw d c
  | next {c c' : Die} (h : Child dw d c) (hthere : c.abbrevEntry ≠ none)
      (hnext : dw.increment dw.fuel c = .ok c') : Child dw d c'

/-- The DIEs of the units, whichever of the others can be parsed. -/
inductive InUnits (dw : DwarfInfo) : Die → Prop where
  | root {cu : CompileUnit} {d : Die} (hcu : cu ∈ dw.compileUnits) (h : dw.root cu = .ok d) :
      InUnits dw d
  | child {d c : Die} (hd : InUnits dw d) (hc : Child dw d c) : InUnits dw c

def Function (dw : DwarfInfo) (d : Die) : Prop := InUnits dw d ∧ d.isFunction = true

/-- Every function of every unit, each once and by its name. -/
structure CompleteIndex (dw : DwarfInfo) (m : FunctionIndex) : Prop where
  once : (m.map Prod.snd).Nodup
  sound : ∀ x ∈ m, ∃ d n, Function dw d ∧ d.key = some x.2 ∧ dw.name n d = .ok (some x.1)
  all : ∀ d, Function dw d → ∃ x ∈ m, d.key = some x.2

/-- The index after a call that raised in `index`, and any calls since. -/
inductive AfterRaise (dw : DwarfInfo) (n : ℕ) : FunctionIndex → Prop where
  | raised {e : Failure} {m : FunctionIndex} (h : dw.index n [] = .error e m) (he : e.Thrown) :
      AfterRaise dw n m
  | again {e : Failure} {m m' : FunctionIndex} (hm : AfterRaise dw n m)
      (h : dw.index n m = .error e m') (he : e.Thrown) : AfterRaise dw n m'
  | answered {m m' : FunctionIndex} (hm : AfterRaise dw n m) (h : dw.index n m = .ok () m') :
      AfterRaise dw n m'

/-- No call after one that raised answers from an index that is not complete. -/
def NeverPartial (dw : DwarfInfo) (n : ℕ) : Prop :=
  ∀ m, AfterRaise dw n m → ∀ m', dw.index n m = .ok () m' → CompleteIndex dw m'

/-- The first function has no entry, or there is none. -/
def NothingBefore (dw : DwarfInfo) (T : Trace) : Prop :=
  ∀ x, T.functions.head? = some x → ∃ e, dw.entryOf x = .error e

/-- All functions that there are have an entry, and none comes twice. -/
structure NothingBehind (dw : DwarfInfo) (T : Trace) : Prop where
  named : ∀ x ∈ T.functions, ∃ entry, dw.entryOf x = .ok entry
  once : (T.functions.map fun x => x.2.key).Nodup
  all : ∀ d, Function dw d → ∃ x ∈ T.functions, x.2.key = d.key

section Walks

variable {dw : DwarfInfo}

theorem Trace.mem_andThen {T U : Trace} {x : ℕ × Die} (h : x ∈ (T.andThen U).functions) :
    x ∈ T.functions ∨ x ∈ U.functions := by
  unfold Trace.andThen at h
  cases hstop : T.stop with
  | none =>
    rw [hstop] at h
    exact List.mem_append.mp h
  | some e =>
    rw [hstop] at h
    exact .inl h

theorem mem_traceSiblings {T : Die → Trace} {d : Die} {x : ℕ × Die} : ∀ {n : ℕ} {c : Die},
    Child dw d c → x ∈ (dw.traceSiblings T n c).functions →
      ∃ c', Child dw d c' ∧ c'.abbrevEntry ≠ none ∧ x ∈ (T c').functions := by
  intro n
  induction n with
  | zero => exact fun _ h => absurd h List.not_mem_nil
  | succ n ih =>
    intro c hc h
    unfold DwarfInfo.traceSiblings at h
    cases hentry : c.abbrevEntry with
    | none =>
      rw [hentry] at h
      exact absurd h List.not_mem_nil
    | some entry =>
      have hthere : c.abbrevEntry ≠ none := by simp [hentry]
      rw [hentry] at h
      obtain h | h := Trace.mem_andThen h
      · exact ⟨c, hc, hthere, h⟩
      · cases hnext : dw.increment dw.fuel c with
        | error e =>
          rw [hnext] at h
          exact absurd h List.not_mem_nil
        | ok c' =>
          rw [hnext] at h
          exact ih (.next hc hthere hnext) h

theorem mem_traceChildren {T : Die → Trace} {d : Die} {x : ℕ × Die}
    (h : x ∈ (dw.traceChildren T d).functions) :
    ∃ c, Child dw d c ∧ x ∈ (T c).functions := by
  unfold DwarfInfo.traceChildren at h
  cases hentry : d.abbrevEntry with
  | none =>
    rw [hentry] at h
    exact absurd h List.not_mem_nil
  | some entry =>
    cases hcu : d.cu with
    | none =>
      rw [hentry, hcu] at h
      exact absurd h List.not_mem_nil
    | some cu =>
      rw [hentry, hcu] at h
      dsimp only at h
      split_ifs at h with hkids
      · cases hfirst : dw.parseDieAt cu d.next with
        | error e =>
          rw [hfirst] at h
          exact absurd h List.not_mem_nil
        | ok first =>
          rw [hfirst] at h
          obtain ⟨c, hc, -, hx⟩ := mem_traceSiblings (.first hentry hcu hkids hfirst) h
          exact ⟨c, hc, hx⟩
      · exact absurd h List.not_mem_nil

theorem function_of_traceDie {x : ℕ × Die} : ∀ {n : ℕ} {d : Die}, InUnits dw d →
    x ∈ (dw.traceDie n d).functions → Function dw x.2 := by
  intro n
  induction n with
  | zero => exact fun _ h => absurd h List.not_mem_nil
  | succ n ih =>
    intro d hd h
    unfold DwarfInfo.traceDie at h
    cases hentry : d.abbrevEntry with
    | none =>
      rw [hentry] at h
      exact absurd h List.not_mem_nil
    | some entry =>
      rw [hentry] at h
      obtain h | h := Trace.mem_andThen h
      · dsimp only at h
        split_ifs at h with hfunction
        · obtain rfl := List.mem_singleton.mp h
          exact ⟨hd, hfunction⟩
        · exact absurd h List.not_mem_nil
      · obtain ⟨c, hc, hx⟩ := mem_traceChildren h
        exact ih (.child hd hc) hx

theorem function_of_trace {n : ℕ} {x : ℕ × Die} (h : x ∈ (dw.trace n).functions) :
    Function dw x.2 := by
  have hunits : ∀ cus : List CompileUnit, cus ⊆ dw.compileUnits →
      x ∈ (dw.traceUnits n cus).functions → Function dw x.2 := by
    intro cus
    induction cus with
    | nil => exact fun _ h => absurd h List.not_mem_nil
    | cons cu cus ih =>
      intro hsub h
      obtain h | h := Trace.mem_andThen h
      · cases hroot : dw.root cu with
        | error e =>
          rw [hroot] at h
          exact absurd h List.not_mem_nil
        | ok root =>
          rw [hroot] at h
          exact function_of_traceDie (.root (hsub List.mem_cons_self) hroot) h
      · exact ih (fun y hy => hsub (List.mem_cons_of_mem cu hy)) h
  exact hunits _ (fun _ h => h) h

def Parsed (dw : DwarfInfo) (d : Die) : Prop := ∃ cu p, dw.parseDieAt cu p = .ok d

theorem parsed_of_increment {n : ℕ} {c c' : Die} (hthere : c.abbrevEntry ≠ none)
    (h : dw.increment n c = .ok c') : Parsed dw c' := by
  cases n with
  | zero => exact nomatch h
  | succ n =>
    rw [DwarfInfo.increment] at h
    cases hentry : c.abbrevEntry with
    | none => exact absurd hentry hthere
    | some entry =>
      cases hcu : c.cu with
      | none =>
        rw [hentry, hcu] at h
        cases h
      | some cu =>
        rw [hentry, hcu] at h
        dsimp only at h
        split_ifs at h with hkids
        · exact ⟨cu, c.next, h⟩
        · rw [Die.contains_entry hentry] at h
          cases hsibling : entry.attrSpecs.any fun spec => spec.attr == dwAtSibling with
          | true =>
            rw [hsibling] at h
            cases ha : c.attrOf dwAtSibling with
            | error e =>
              rw [ha] at h
              cases h
            | ok a =>
              rw [ha] at h
              obtain ⟨cu', -, p, -, hparse⟩ := DwarfInfo.located_of_asReference ha h
              exact ⟨cu', p, hparse⟩
          | false =>
            rw [hsibling] at h
            cases hsub : dw.parseDieAt cu c.next with
            | error e =>
              rw [hsub] at h
              cases h
            | ok sub =>
              cases hlast : dw.skipSiblings n sub with
              | error e => simp [hsub, hlast, bind, Except.bind] at h
              | ok last => exact ⟨cu, last.next, by simpa [hsub, hlast, bind, Except.bind] using h⟩

theorem Child.parsed {d c : Die} (h : Child dw d c) : Parsed dw c := by
  cases h with
  | first _ _ _ hfirst => exact ⟨_, _, hfirst⟩
  | next _ hthere hnext => exact parsed_of_increment hthere hnext

theorem InUnits.parsed {d : Die} (h : InUnits dw d) : Parsed dw d := by
  cases h with
  | root _ hroot => exact ⟨_, _, hroot⟩
  | child _ hc => exact hc.parsed

theorem parse_of_key {d : Die} {key : IndexEntry} (h : Parsed dw d) (hkey : d.key = some key) :
    dw.parseDieAt key.cu key.pos = .ok d := by
  obtain ⟨cu, p, hparse⟩ := h
  obtain ⟨-, hcu, hpos⟩ := DwarfInfo.parseDieAt_placed hparse
  unfold Die.key at hkey
  cases hdcu : d.cu with
  | none =>
    rw [hdcu] at hkey
    cases hkey
  | some cu' =>
    cases hdpos : d.pos with
    | none =>
      rw [hdcu, hdpos] at hkey
      cases hkey
    | some p' =>
      rw [hdcu, hdpos] at hkey
      cases hkey
      rw [hcu cu' hdcu, hpos p' hdpos]
      exact hparse

theorem Function.eq_of_key {d d' : Die} {key : IndexEntry} (h : Function dw d) (h' : Function dw d')
    (hd : d.key = some key) (hd' : d'.key = some key) : d = d' :=
  Except.ok.inj ((parse_of_key h.1.parsed hd).symm.trans (parse_of_key h'.1.parsed hd'))

theorem entryOf_ok {x : ℕ × Die} {entry : List Byte × IndexEntry} (h : dw.entryOf x = .ok entry) :
    x.2.key = some entry.2 ∧ dw.name x.1 x.2 = .ok (some entry.1) := by
  unfold DwarfInfo.entryOf at h
  cases hkey : x.2.key with
  | none =>
    rw [hkey] at h
    cases h
  | some key =>
    rw [hkey] at h
    cases hname : dw.name x.1 x.2 with
    | error e =>
      rw [hname] at h
      cases h
    | ok r =>
      rw [hname] at h
      cases r with
      | none => cases h
      | some s =>
        cases h
        exact ⟨rfl, rfl⟩

/-- What is thrown for a function is thrown by `name`. -/
theorem entryOf_thrown {x : ℕ × Die} {e : Failure} (h : dw.entryOf x = .error e) (he : e.Thrown) :
    dw.name x.1 x.2 = .error e := by
  unfold DwarfInfo.entryOf at h
  cases hkey : x.2.key with
  | none =>
    rw [hkey] at h
    cases h
    exact he.elim
  | some key =>
    rw [hkey] at h
    cases hname : dw.name x.1 x.2 with
    | error e' =>
      rw [hname] at h
      exact congrArg Except.error (Except.error.inj h)
    | ok r =>
      rw [hname] at h
      cases r with
      | none =>
        cases h
        exact he.elim
      | some s => cases h

theorem mem_emplaced {entry : List Byte × IndexEntry} : ∀ {l : List (ℕ × Die)},
    entry ∈ dw.emplaced l → ∃ x ∈ l, dw.entryOf x = .ok entry := by
  intro l
  induction l with
  | nil => exact fun h => absurd h List.not_mem_nil
  | cons x l ih =>
    intro h
    unfold DwarfInfo.emplaced at h
    cases hx : dw.entryOf x with
    | error e =>
      rw [hx] at h
      exact absurd h List.not_mem_nil
    | ok entry' =>
      rw [hx] at h
      obtain rfl | h := List.mem_cons.mp h
      · exact ⟨x, List.mem_cons_self, hx⟩
      · obtain ⟨y, hy, hentry⟩ := ih h
        exact ⟨y, List.mem_cons_of_mem x hy, hentry⟩

theorem emplaced_cases (dw : DwarfInfo) (l : List (ℕ × Die)) :
    ((dw.failureAmong l = none ∧ ∀ x ∈ l, ∃ entry, dw.entryOf x = .ok entry) ∧
      (l.map fun x => x.2.key) = (dw.emplaced l).map fun entry => some entry.2) ∨
    ∃ x ∈ l, ∃ e, dw.failureAmong l = some e ∧ dw.entryOf x = .error e := by
  induction l with
  | nil => exact .inl ⟨⟨rfl, fun x hx => absurd hx List.not_mem_nil⟩, rfl⟩
  | cons x l ih =>
    unfold DwarfInfo.failureAmong DwarfInfo.emplaced
    cases hx : dw.entryOf x with
    | error e => exact .inr ⟨x, List.mem_cons_self, e, rfl, hx⟩
    | ok entry =>
      obtain ⟨⟨hnone, hall⟩, hkeys⟩ | ⟨y, hy, e, hfailure, hentry⟩ := ih
      · refine .inl ⟨⟨hnone, List.forall_mem_cons.mpr ⟨⟨entry, hx⟩, hall⟩⟩, ?_⟩
        rw [List.map_cons, List.map_cons, hkeys, (entryOf_ok hx).1]
      · exact .inr ⟨y, List.mem_cons_of_mem x hy, e, hfailure, hentry⟩

theorem emplaced_eq_nil_iff (T : Trace) :
    dw.emplaced T.functions = [] ↔ NothingBefore dw T := by
  unfold NothingBefore
  cases T.functions with
  | nil => simp [DwarfInfo.emplaced]
  | cons x l =>
    unfold DwarfInfo.emplaced
    cases hx : dw.entryOf x <;> simp [hx]

theorem index_trace (dw : DwarfInfo) (n : ℕ) : dw.index n [] =
    match dw.failure (dw.trace n) with
    | none => .ok () (dw.emplaced (dw.trace n).functions)
    | some e => .error e (dw.emplaced (dw.trace n).functions) := by
  rw [DwarfInfo.index_play, DwarfInfo.play_eq]

theorem AfterRaise.eq {n : ℕ} {m : FunctionIndex} (h : AfterRaise dw n m) :
    ∃ e, dw.index n [] = .error e m ∧ e.Thrown := by
  induction h with
  | raised h he => exact ⟨_, h, he⟩
  | @again e m m' _ h he ih =>
    by_cases hm : m = []
    · rw [hm] at h
      exact ⟨e, h, he⟩
    · cases (index_again n hm).symm.trans h
  | @answered m m' _ h ih =>
    by_cases hm : m = []
    · obtain ⟨e, hfail, -⟩ := ih
      rw [hm] at h
      cases hfail.symm.trans h
    · cases (index_again n hm).symm.trans h
      exact ih

theorem neverPartial_of_raise {n : ℕ} {e : Failure} {m : FunctionIndex}
    (h : dw.index n [] = .error e m) (he : e.Thrown) :
    NeverPartial dw n ↔ m = [] ∨ CompleteIndex dw m := by
  constructor
  · intro hnever
    by_cases hm : m = []
    · exact .inl hm
    · exact .inr (hnever m (.raised h he) m (index_again n hm))
  · intro hm m' hafter m'' hanswer
    obtain ⟨e', hraise, -⟩ := hafter.eq
    cases hraise.symm.trans h
    obtain rfl | hcomplete := hm
    · cases hraise.symm.trans hanswer
    · by_cases hempty : m = []
      · rw [hempty] at hanswer hraise
        cases hraise.symm.trans hanswer
      · cases (index_again n hempty).symm.trans hanswer
        exact hcomplete

theorem complete_iff {n : ℕ} {e : Failure} (hfailure : dw.failure (dw.trace n) = some e)
    (he : e.Thrown) : CompleteIndex dw (dw.emplaced (dw.trace n).functions) ↔
      NothingBehind dw (dw.trace n) := by
  obtain ⟨⟨hnone, hnamed⟩, hkeys⟩ | ⟨x, hx, e', hamong, hentry⟩ :=
    emplaced_cases dw (dw.trace n).functions
  · have honce : ((dw.trace n).functions.map fun x => x.2.key).Nodup ↔
        ((dw.emplaced (dw.trace n).functions).map Prod.snd).Nodup := by
      have hcompose : ((dw.emplaced (dw.trace n).functions).map fun entry => some entry.2) =
          ((dw.emplaced (dw.trace n).functions).map Prod.snd).map some := by
        rw [List.map_map]
        rfl
      rw [hkeys, hcompose, List.nodup_map_iff (Option.some_injective _)]
    have hmem (key : IndexEntry) : (∃ x ∈ (dw.trace n).functions, x.2.key = some key) ↔
        ∃ entry ∈ dw.emplaced (dw.trace n).functions, some key = some entry.2 := by
      have hsame := congrArg (fun keys => some key ∈ keys) hkeys
      simp only [List.mem_map] at hsame
      simpa only [eq_comm] using iff_of_eq hsame
    constructor
    · intro h
      refine ⟨hnamed, honce.mpr h.once, fun d hd => ?_⟩
      obtain ⟨entry, hin, hkey⟩ := h.all d hd
      rw [hkey]
      exact (hmem entry.2).mpr ⟨entry, hin, rfl⟩
    · intro h
      refine ⟨honce.mp h.once, fun entry hin => ?_, fun d hd => ?_⟩
      · obtain ⟨x, hx, hentry⟩ := mem_emplaced hin
        obtain ⟨hkey, hname⟩ := entryOf_ok hentry
        exact ⟨x.2, x.1, function_of_trace hx, hkey, hname⟩
      · obtain ⟨x, hx, hkey⟩ := h.all d hd
        obtain ⟨entry, hentry⟩ := hnamed x hx
        rw [← hkey, (entryOf_ok hentry).1]
        exact (hmem entry.2).mp ⟨x, hx, (entryOf_ok hentry).1⟩
  · -- the function whose name raised is there and has no entry
    have hsame : e' = e := by
      unfold DwarfInfo.failure at hfailure
      rw [hamong] at hfailure
      exact Option.some.inj hfailure
    rw [hsame] at hentry
    refine iff_of_false (fun h => ?_) fun h => ?_
    · have hfunction := function_of_trace hx
      obtain ⟨entry, hin, hkey⟩ := h.all x.2 hfunction
      obtain ⟨d, k, hd, hdkey, hname⟩ := h.sound entry hin
      obtain rfl := hfunction.eq_of_key hd hkey hdkey
      have hthrown := entryOf_thrown hentry he
      rw [DwarfInfo.name_eq_chase] at hname hthrown
      have hnamed : Conclusive (chase dw.nameStep k x.2) := by
        rw [hname]
        trivial
      have hraised : Conclusive (chase dw.nameStep x.1 x.2) := by
        rw [hthrown]
        exact he
      have hunique := chase_unique hnamed hraised
      rw [hname, hthrown] at hunique
      cases hunique
    · obtain ⟨entry, hnamed⟩ := h.named x hx
      cases hnamed.symm.trans hentry

theorem neverPartial_iff (dw : DwarfInfo) (n : ℕ) : NeverPartial dw n ↔
    (∀ e, dw.failure (dw.trace n) = some e → ¬ e.Thrown) ∨
      NothingBefore dw (dw.trace n) ∨ NothingBehind dw (dw.trace n) := by
  have hindex := index_trace dw n
  cases hfailure : dw.failure (dw.trace n) with
  | none =>
    rw [hfailure] at hindex
    refine iff_of_true (fun m hm => ?_) (.inl fun e he => nomatch he)
    obtain ⟨e, hraise, -⟩ := hm.eq
    cases hraise.symm.trans hindex
  | some e =>
    rw [hfailure] at hindex
    by_cases he : e.Thrown
    · have hthrown : ¬ ∀ e', some e = some e' → ¬ e'.Thrown := fun h => h e rfl he
      rw [or_iff_right hthrown, ← emplaced_eq_nil_iff, ← complete_iff hfailure he]
      exact neverPartial_of_raise hindex he
    · refine iff_of_true (fun m hm => ?_) (.inl ?_)
      · obtain ⟨e', hraise, he'⟩ := hm.eq
        cases hraise.symm.trans hindex
        exact absurd he' he
      · rintro e' ⟨⟩
        exact he

end Walks

/-- A unit with two functions, of which only the name of the first one is a string. -/
def halfNamed : CompileUnit where
  data := ⟨0, 20⟩
  abbrevTable :=
    [⟨1#64, 0x11#64, true, []⟩,
      ⟨2#64, dwTagSubprogram, false, [⟨dwAtName, 0x08#64⟩, ⟨dwAtLowPc, 0x0b#64⟩]⟩,
      ⟨3#64, dwTagSubprogram, false, [⟨dwAtName, 0x0b#64⟩, ⟨dwAtLowPc, 0x0b#64⟩]⟩]

def unreadableName : DwarfInfo where
  elf := 0
  image := Image.ofList [16#8, 0#8, 0#8, 0#8, 4#8, 0#8, 0#8, 0#8, 0#8, 0#8, 8#8,
    1#8, 2#8, 0x66#8, 0#8, 0#8, 3#8, 0#8, 0#8, 0#8]
  getSectionContents _ := none
  compileUnits := [halfNamed]

theorem index_unreadableName : unreadableName.index 3 [] =
    .error (.raised "Invalid string type") [([0x66#8], ⟨halfNamed, 12⟩)] :=
  rfl

def secondDie : Die where
  pos := some 16
  cu := some halfNamed
  abbrevEntry := some ⟨3#64, dwTagSubprogram, false, [⟨dwAtName, 0x0b#64⟩, ⟨dwAtLowPc, 0x0b#64⟩]⟩
  attrLocs := [17, 18]
  next := 19

theorem function_second : Function unreadableName secondDie := by
  have hroot : unreadableName.root halfNamed = .ok ⟨some 11, some halfNamed,
      some ⟨1#64, 0x11#64, true, []⟩, [], 12⟩ := by
    decide
  have hfirst : unreadableName.parseDieAt halfNamed 12 = .ok ⟨some 12, some halfNamed,
      some ⟨2#64, dwTagSubprogram, false, [⟨dwAtName, 0x08#64⟩, ⟨dwAtLowPc, 0x0b#64⟩]⟩,
      [13, 15], 16⟩ := by
    decide
  refine ⟨.child (.root (List.mem_singleton_self _) hroot) (.next (.first rfl rfl rfl hfirst)
    (by simp) ?_), by decide⟩
  decide

/-- The second call answers from what the first one has left. -/
theorem neverPartial_not_for_all : ¬ ∀ (dw : DwarfInfo) (n : ℕ), NeverPartial dw n := by
  intro h
  have hraise := index_unreadableName
  have hcomplete := h unreadableName 3 _ (.raised hraise trivial) _ (index_again 3 (by simp))
  obtain ⟨entry, hin, hkey⟩ := hcomplete.all secondDie function_second
  obtain rfl := List.mem_singleton.mp hin
  cases hkey

end KDebugger.Dwarf
