import KDebugger.Parse

namespace KDebugger

open Numerals

namespace ParseVector

/-- `if(*ch == ',') ++ch; else if(*ch != ']') Invalid();` -/
def skipComma : List Byte → Except Failure (List Byte)
  | [] => .error .undefined
  | c :: rest =>
    if c = commaChar then .ok rest
    else if c = closeChar then .ok (c :: rest)
    else .error (.raised "Invalid format\n")

theorem length_of_nextByte {uninitialised b : Byte} {ch rest : List Byte}
    (h : nextByte uninitialised ch = .ok (b, rest)) : rest.length + 4 = ch.length := by
  unfold nextByte at h
  split_ifs at h with hlong hall
  cases hbyte : toByte uninitialised (ch.take 4) 16 with
  | none => rw [hbyte] at h; cases h
  | some b' =>
    rw [hbyte] at h
    cases h
    rw [List.length_drop]
    omega

theorem length_of_skipComma {ch rest : List Byte} (h : skipComma ch = .ok rest) :
    rest.length ≤ ch.length := by
  cases ch with
  | nil => cases h
  | cons c ch =>
    change (if c = commaChar then Except.ok ch
      else if c = closeChar then Except.ok (c :: ch) else _) = Except.ok rest at h
    split_ifs at h
    all_goals
      cases h
      simp

/-- The loop of the other `parse_vector`: it ends where it is at a bracket. -/
def untilClose (uninitialised : Byte) : List Byte → Except Failure (List Byte × List Byte)
  | [] => .error .undefined
  | c :: ch =>
    if c = closeChar then .ok ([], c :: ch)
    else
      match _hbyte : nextByte uninitialised (c :: ch) with
      | .error e => .error e
      | .ok (b, behind) =>
        match _hcomma : skipComma behind with
        | .error e => .error e
        | .ok next => (untilClose uninitialised next).map fun (bytes, ch) => (b :: bytes, ch)
termination_by ch => ch.length
decreasing_by
  have hstride := length_of_nextByte _hbyte
  have hnext := length_of_skipComma _hcomma
  omega

end ParseVector

open ParseVector

/-- `parse_vector` without a length. -/
def parseVector (uninitialised : Byte) (behind text : List Byte) : Except Failure (List Byte) :=
  match text ++ behind with
  | [] => .error .undefined
  | c :: ch =>
    if c ≠ openChar then .error (.raised "Invalid format\n")
    else do
      let (bytes, ch) ← untilClose uninitialised ch
      if (ch.drop 1).length ≠ behind.length then .error (.raised "Invalid format\n")
      else .ok bytes

namespace ParseVector

/-- The prefix and two digits. -/
def Item (p : List Byte) : Prop :=
  ∃ c d, isDigit 16 c ∧ isDigit 16 d ∧ p = [zeroChar, xChar, c, d]

def itemValue (p : List Byte) : Byte := BitVec.ofNat 8 (numeral 16 (p.drop 2))

/-- A list of bytes as it is to be typed. -/
def Spells (bytes text : List Byte) : Prop :=
  ∃ items : List (List Byte), (∀ p ∈ items, Item p) ∧ bytes = items.map itemValue ∧
    text = openChar :: ([commaChar].intercalate items ++ [closeChar])

/-- Digits only, behind a prefix where there is one: what `to_integral` goes over to its end. -/
def Digits (p : List Byte) : Prop := ∀ c ∈ skipPrefix 16 p, isDigit 16 c

instance (p : List Byte) : Decidable (Digits p) := by
  unfold Digits
  infer_instance

/-- Four characters that are taken for a byte. -/
structure Piece (p : List Byte) : Prop where
  length : p.length = 4
  digits : Digits p

/-- What can be left of a text that ends within a piece, or right behind it. -/
structure Fragment (p : List Byte) : Prop where
  length : p.length ≤ 4
  digits : Digits p

/-- Pieces, each with a comma behind it. -/
def terminated (pieces : List (List Byte)) : List Byte := pieces.flatMap (· ++ [commaChar])

/-- The text ends where the scanner still reads; `most` bounds the pieces before. -/
def CutOff (most : ℕ → Prop) (text : List Byte) : Prop :=
  text = [] ∨ ∃ (pieces : List (List Byte)) (fragment : List Byte), most pieces.length ∧
    (∀ p ∈ pieces, Piece p) ∧ Fragment fragment ∧ text = openChar :: (terminated pieces ++ fragment)

/-- Pieces between the brackets, one of them without its prefix. -/
def Unprefixed (pieces : List (List Byte)) (text : List Byte) : Prop :=
  (∀ p ∈ pieces, Piece p) ∧ (∃ p ∈ pieces, ¬ Item p) ∧
    text = openChar :: ([commaChar].intercalate pieces ++ [closeChar])

/-- A comma behind the last of the pieces. -/
def Trailing (pieces : List (List Byte)) (text : List Byte) : Prop :=
  (∀ p ∈ pieces, Piece p) ∧ pieces ≠ [] ∧ text = openChar :: (terminated pieces ++ [closeChar])

/-- The bytes are returned that the text stands for, and for a text that stands for none an
error is raised. -/
structure Scans (spells : List Byte → Prop) (r : Except Failure (List Byte)) : Prop where
  returns : ∀ bytes, r = .ok bytes ↔ spells bytes
  raises : (∀ bytes, ¬ spells bytes) → ∃ what, r = .error (.raised what)

variable {u b : Byte} {p ch rest : List Byte}

def readAs (u : Byte) (p : List Byte) : Byte := (fromChars ⟨8, false⟩ 16 (skipPrefix 16 p) u).2

theorem toByte_eq (u : Byte) (p : List Byte) :
    toByte u p 16 = if Digits p then some (readAs u p) else none := by
  have hptr : (fromChars ⟨8, false⟩ 16 (skipPrefix 16 p) u).1.ptr = [] ↔ Digits p := by
    unfold fromChars Digits
    rw [← List.dropWhile_eq_nil_iff]
    simp only [Bool.false_and, Bool.false_eq_true, if_false]
    split_ifs with hnone
    · -- without a digit nothing is consumed, and nothing is left only of nothing
      have hall := List.takeWhile_append_dropWhile (p := isDigit 16) (l := skipPrefix 16 p)
      rw [hnone, List.nil_append] at hall
      rw [hall]
    all_goals rfl
  rw [toByte, toIntegral]
  by_cases hdigits : Digits p
  · rw [if_pos hdigits]
    exact if_neg (not_not.mpr (hptr.mpr hdigits))
  · rw [if_neg hdigits]
    exact if_pos fun h => hdigits (hptr.mp h)

theorem nextByte_piece (u : Byte) (hp : Piece p) (rest : List Byte) :
    nextByte u (p ++ rest) = .ok (readAs u p, rest) := by
  have hlong : 4 ≤ (p ++ rest).length := by
    rw [List.length_append, hp.length]
    omega
  have htake : (p ++ rest).take 4 = p := by rw [← hp.length, List.take_left]
  have hdrop : (p ++ rest).drop 4 = rest := by rw [← hp.length, List.drop_left]
  rw [nextByte, if_pos hlong, htake, hdrop, toByte_eq, if_pos hp.digits]

theorem nextByte_short (u : Byte) (hshort : p.length < 4) (hdigits : Digits p) :
    nextByte u p = .error .undefined := by
  rw [nextByte, if_neg (Nat.not_le.mpr hshort), if_pos (List.all_eq_true.mpr hdigits)]

theorem nextByte_cases (u : Byte) (ch : List Byte) :
    (∃ p rest, Piece p ∧ ch = p ++ rest) ∨ (ch.length < 4 ∧ Digits ch) ∨
      ∃ what, nextByte u ch = .error (.raised what) := by
  by_cases hlong : 4 ≤ ch.length
  · by_cases hdigits : Digits (ch.take 4)
    · have hlength : (ch.take 4).length = 4 := by simpa using hlong
      exact .inl ⟨ch.take 4, ch.drop 4, ⟨hlength, hdigits⟩, (List.take_append_drop 4 ch).symm⟩
    · refine .inr (.inr ⟨"bad_optional_access", ?_⟩)
      rw [nextByte, if_pos hlong, toByte_eq, if_neg hdigits]
  · by_cases hdigits : Digits ch
    · exact .inr (.inl ⟨Nat.not_le.mp hlong, hdigits⟩)
    · refine .inr (.inr ⟨"bad_optional_access", ?_⟩)
      rw [nextByte, if_neg hlong, if_neg fun h => hdigits (List.all_eq_true.mp h)]

theorem Fragment.cases (h : Fragment p) : (p.length < 4 ∧ Digits p) ∨ Piece p := by
  have hle := h.length
  by_cases hlength : p.length = 4
  · exact .inr ⟨hlength, h.digits⟩
  · exact .inl ⟨by omega, h.digits⟩

theorem Piece.fragment (h : Piece p) : Fragment p := ⟨h.length.le, h.digits⟩

theorem Digits.head_ne {c : Byte} (h : Digits (c :: p)) : c ≠ closeChar := by
  rintro rfl
  have hskip : skipPrefix 16 (closeChar :: p) = closeChar :: p := by
    cases p with
    | nil => rfl
    | cons d p => simp [skipPrefix, (by decide : closeChar ≠ zeroChar)]
  have hdigit := h closeChar (by rw [hskip]; exact List.mem_cons_self)
  exact absurd hdigit (by decide)

/-- A byte and the character behind it. -/
def byteThen (u c : Byte) (ch : List Byte) : Except Failure (Byte × List Byte) := do
  let (b, ch) ← nextByte u ch
  let ch ← expect c ch
  .ok (b, ch)

theorem byteThen_piece (u c : Byte) (hp : Piece p) (rest : List Byte) :
    byteThen u c (p ++ c :: rest) = .ok (readAs u p, rest) := by
  unfold byteThen
  rw [nextByte_piece u hp]
  simp only [bind, Except.bind, expect_cons]

theorem byteThen_fragment (u c : Byte) (hp : Fragment p) : byteThen u c p = .error .undefined := by
  unfold byteThen
  obtain ⟨hshort, hdigits⟩ | hpiece := hp.cases
  · rw [nextByte_short u hshort hdigits]
    rfl
  · have hread := nextByte_piece u hpiece []
    rw [List.append_nil] at hread
    rw [hread]
    rfl

theorem byteThen_cases (u c : Byte) (ch : List Byte) :
    (∃ p rest, Piece p ∧ ch = p ++ c :: rest) ∨ Fragment ch ∨
      ∃ what, byteThen u c ch = .error (.raised what) := by
  obtain ⟨p, rest, hp, rfl⟩ | ⟨hshort, hdigits⟩ | ⟨what, hraised⟩ := nextByte_cases u ch
  · unfold byteThen
    rw [nextByte_piece u hp]
    cases rest with
    | nil =>
      rw [List.append_nil]
      exact .inr (.inl hp.fragment)
    | cons d rest =>
      by_cases hd : d = c
      · exact .inl ⟨p, rest, hp, by rw [hd]⟩
      · refine .inr (.inr ⟨"Invalid format!\n", ?_⟩)
        simp only [bind, Except.bind, expect, if_neg hd]
  · exact .inr (.inl ⟨hshort.le, hdigits⟩)
  · refine .inr (.inr ⟨what, ?_⟩)
    unfold byteThen
    rw [hraised]
    rfl

theorem terminated_cons (p : List Byte) (pieces : List (List Byte)) (rest : List Byte) :
    terminated (p :: pieces) ++ rest = p ++ commaChar :: (terminated pieces ++ rest) := by
  simp [terminated]

theorem separated_succ (u : Byte) (n : ℕ) (ch : List Byte) :
    separated u (n + 1) ch = (byteThen u commaChar ch).bind fun (b, ch) =>
      (separated u n ch).map fun (bytes, ch) => (b :: bytes, ch) := by
  rw [separated, byteThen]
  cases nextByte u ch with
  | error e => rfl
  | ok read =>
    obtain ⟨b, ch⟩ := read
    simp only [bind, Except.bind]
    cases expect commaChar ch with
    | error e => rfl
    | ok ch =>
      simp only
      cases separated u n ch with
      | error e => rfl
      | ok r => rfl

variable {pieces : List (List Byte)}

theorem separated_terminated (u : Byte) (hall : ∀ p ∈ pieces, Piece p) (rest : List Byte) :
    separated u pieces.length (terminated pieces ++ rest) = .ok (pieces.map (readAs u), rest) := by
  induction pieces with
  | nil => rfl
  | cons p pieces ih =>
    have hp := hall p List.mem_cons_self
    have hrest := ih fun q hq => hall q (List.mem_cons_of_mem p hq)
    rw [List.length_cons, terminated_cons, separated_succ, byteThen_piece u commaChar hp]
    simp only [Except.bind, hrest, Except.map, List.map_cons]

theorem separated_cutOff (u : Byte) (hall : ∀ p ∈ pieces, Piece p) (hp : Fragment p) {n : ℕ}
    (hfew : pieces.length < n) : separated u n (terminated pieces ++ p) = .error .undefined := by
  induction pieces generalizing n with
  | nil =>
    obtain ⟨n, rfl⟩ := Nat.exists_eq_add_of_lt hfew
    rw [show terminated [] ++ p = p from rfl, separated_succ, byteThen_fragment u commaChar hp]
    rfl
  | cons q pieces ih =>
    obtain ⟨n, rfl⟩ : ∃ k, n = k + 1 := ⟨n - 1, by omega⟩
    have hrest := ih (fun r hr => hall r (List.mem_cons_of_mem q hr))
      (Nat.lt_of_succ_lt_succ (by simpa using hfew) : pieces.length < n)
    rw [terminated_cons, separated_succ, byteThen_piece u commaChar (hall q List.mem_cons_self)]
    simp only [Except.bind, hrest, Except.map]

/-- The loop takes its pieces, or meets the end of the text, or raises. -/
theorem separated_cases (u : Byte) (n : ℕ) (ch : List Byte) :
    (∃ pieces rest, pieces.length = n ∧ (∀ p ∈ pieces, Piece p) ∧ ch = terminated pieces ++ rest) ∨
    (∃ pieces p, pieces.length < n ∧ (∀ p ∈ pieces, Piece p) ∧ Fragment p ∧
      ch = terminated pieces ++ p) ∨
    ∃ what, separated u n ch = .error (.raised what) := by
  induction n generalizing ch with
  | zero => exact .inl ⟨[], ch, rfl, by simp, rfl⟩
  | succ n ih =>
    obtain ⟨p, rest, hp, rfl⟩ | hfragment | ⟨what, hraised⟩ := byteThen_cases u commaChar ch
    · have hcons : ∀ pieces : List (List Byte), (∀ q ∈ pieces, Piece q) →
          ∀ q ∈ p :: pieces, Piece q := fun pieces hall => List.forall_mem_cons.mpr ⟨hp, hall⟩
      obtain ⟨pieces, behind, hlength, hall, rfl⟩ | ⟨pieces, q, hfew, hall, hq, rfl⟩ |
        ⟨what, hraised⟩ := ih rest
      · exact .inl ⟨p :: pieces, behind, by simp [hlength], hcons pieces hall,
          (terminated_cons p pieces behind).symm⟩
      · exact .inr (.inl ⟨p :: pieces, q, by simpa using hfew, hcons pieces hall, hq,
          (terminated_cons p pieces q).symm⟩)
      · refine .inr (.inr ⟨what, ?_⟩)
        rw [separated_succ, byteThen_piece u commaChar hp]
        simp only [Except.bind, hraised, Except.map]
    · exact .inr (.inl ⟨[], ch, by simp, by simp, hfragment, rfl⟩)
    · refine .inr (.inr ⟨what, ?_⟩)
      rw [separated_succ, hraised]
      rfl

theorem intercalate_cons (p q : List Byte) (pieces : List (List Byte)) :
    [commaChar].intercalate (p :: q :: pieces) =
      p ++ commaChar :: [commaChar].intercalate (q :: pieces) := by
  simp [List.intercalate]

/-- Pieces up to a bracket, with a comma behind the last of them or without. -/
inductive Closed : List (List Byte) → List Byte → List Byte → Prop
  | trailing {pieces : List (List Byte)} (hall : ∀ p ∈ pieces, Piece p) (rest : List Byte) :
      Closed pieces (terminated pieces ++ closeChar :: rest) rest
  | joined {pieces : List (List Byte)} (hall : ∀ p ∈ pieces, Piece p) (hne : pieces ≠ [])
      (rest : List Byte) :
      Closed pieces ([commaChar].intercalate pieces ++ closeChar :: rest) rest

theorem untilClose_nil (u : Byte) : untilClose u [] = .error .undefined := by rw [untilClose]

theorem untilClose_closeChar (u : Byte) (ch : List Byte) :
    untilClose u (closeChar :: ch) = .ok ([], closeChar :: ch) := by
  rw [untilClose, if_pos rfl]

theorem untilClose_cons (u : Byte) {c : Byte} (hc : c ≠ closeChar) (ch : List Byte) :
    untilClose u (c :: ch) = (nextByte u (c :: ch)).bind fun (b, behind) =>
      (skipComma behind).bind fun next =>
        (untilClose u next).map fun (bytes, ch) => (b :: bytes, ch) := by
  rw [untilClose, if_neg hc]
  split
  · next hread => rw [hread]; rfl
  · next hread =>
    rw [hread]
    simp only [Except.bind]
    split
    · next hskip => rw [hskip]
    · next hskip => rw [hskip]

theorem Piece.exists_cons (hp : Piece p) : ∃ c q, p = c :: q ∧ c ≠ closeChar := by
  cases p with
  | nil => exact absurd hp.length (by decide)
  | cons c q => exact ⟨c, q, rfl, hp.digits.head_ne⟩

theorem untilClose_piece (u : Byte) (hp : Piece p) (rest : List Byte) :
    untilClose u (p ++ rest) = (skipComma rest).bind fun next =>
      (untilClose u next).map fun (bytes, ch) => (readAs u p :: bytes, ch) := by
  obtain ⟨c, q, hcons, hc⟩ := hp.exists_cons
  have hread := nextByte_piece u hp rest
  have hhead : p ++ rest = c :: (q ++ rest) := by rw [hcons, List.cons_append]
  rw [hhead] at hread ⊢
  rw [untilClose_cons u hc, hread]
  rfl

theorem untilClose_fragment (u : Byte) (hp : Fragment p) : untilClose u p = .error .undefined := by
  obtain ⟨hshort, hdigits⟩ | hpiece := hp.cases
  · cases p with
    | nil => exact untilClose_nil u
    | cons c q =>
      rw [untilClose_cons u hdigits.head_ne, nextByte_short u hshort hdigits]
      rfl
  · have hread := untilClose_piece u hpiece []
    rw [List.append_nil] at hread
    rw [hread]
    rfl

theorem untilClose_comma (u : Byte) (hp : Piece p) (rest : List Byte) :
    untilClose u (p ++ commaChar :: rest) =
      (untilClose u rest).map fun (bytes, ch) => (readAs u p :: bytes, ch) := by
  have hskip : skipComma (commaChar :: rest) = .ok rest := by simp [skipComma]
  rw [untilClose_piece u hp, hskip]
  rfl

theorem untilClose_bracket (u : Byte) (hp : Piece p) (rest : List Byte) :
    untilClose u (p ++ closeChar :: rest) = .ok ([readAs u p], closeChar :: rest) := by
  have hskip : skipComma (closeChar :: rest) = .ok (closeChar :: rest) := by
    simp [skipComma, (by decide : closeChar ≠ commaChar)]
  rw [untilClose_piece u hp, hskip]
  simp only [Except.bind, untilClose_closeChar, Except.map]

theorem untilClose_closed (u : Byte) (h : Closed pieces ch rest) :
    untilClose u ch = .ok (pieces.map (readAs u), closeChar :: rest) := by
  cases h with
  | trailing hall rest =>
    induction pieces with
    | nil => exact untilClose_closeChar u rest
    | cons p pieces ih =>
      have hrest := ih fun q hq => hall q (List.mem_cons_of_mem p hq)
      rw [terminated_cons, untilClose_comma u (hall p List.mem_cons_self), hrest]
      rfl
  | joined hall hne rest =>
    induction pieces with
    | nil => exact absurd rfl hne
    | cons p pieces ih =>
      have hp := hall p List.mem_cons_self
      cases pieces with
      | nil => simpa [List.intercalate] using untilClose_bracket u hp rest
      | cons q pieces =>
        have hrest := ih (fun r hr => hall r (List.mem_cons_of_mem p hr)) (List.cons_ne_nil q pieces)
        rw [intercalate_cons, List.append_assoc, List.cons_append, untilClose_comma u hp, hrest]
        rfl

theorem untilClose_cutOff (u : Byte) (hall : ∀ p ∈ pieces, Piece p) (hp : Fragment p) :
    untilClose u (terminated pieces ++ p) = .error .undefined := by
  induction pieces with
  | nil => exact untilClose_fragment u hp
  | cons q pieces ih =>
    have hrest := ih fun r hr => hall r (List.mem_cons_of_mem q hr)
    rw [terminated_cons, untilClose_comma u (hall q List.mem_cons_self), hrest]
    rfl

theorem Closed.cons (hp : Piece p) (h : Closed pieces ch rest) :
    Closed (p :: pieces) (p ++ commaChar :: ch) rest := by
  cases h with
  | trailing hall rest =>
    rw [← terminated_cons]
    exact .trailing (List.forall_mem_cons.mpr ⟨hp, hall⟩) rest
  | joined hall hne rest =>
    obtain ⟨q, pieces, rfl⟩ := List.exists_cons_of_ne_nil hne
    rw [← List.cons_append, ← List.append_assoc, ← intercalate_cons]
    exact .joined (List.forall_mem_cons.mpr ⟨hp, hall⟩) (List.cons_ne_nil p _) rest

/-- The loop comes to a bracket, or meets the end of the text, or raises. -/
theorem untilClose_cases (u : Byte) (ch : List Byte) :
    (∃ pieces rest, Closed pieces ch rest) ∨
    (∃ pieces p, (∀ p ∈ pieces, Piece p) ∧ Fragment p ∧ ch = terminated pieces ++ p) ∨
    ∃ what, untilClose u ch = .error (.raised what) := by
  -- a turn that goes on leaves a shorter text
  induction hn : ch.length using Nat.strong_induction_on generalizing ch with
  | _ n ih =>
    cases ch with
    | nil => exact .inr (.inl ⟨[], [], by simp, ⟨by simp, by decide⟩, rfl⟩)
    | cons c ch =>
      by_cases hc : c = closeChar
      · subst hc
        exact .inl ⟨[], ch, @Closed.trailing [] (by simp) ch⟩
      obtain ⟨p, rest, hp, heq⟩ | ⟨hshort, hdigits⟩ | ⟨what, hraised⟩ := nextByte_cases u (c :: ch)
      · rw [heq] at hn ⊢
        cases rest with
        | nil => exact .inr (.inl ⟨[], p ++ [], by simp, by simpa using hp.fragment, rfl⟩)
        | cons d rest =>
          by_cases hcomma : d = commaChar
          · subst hcomma
            have hless : rest.length < n := by
              rw [← hn, List.length_append, List.length_cons]
              omega
            obtain ⟨pieces, behind, hclosed⟩ | ⟨pieces, q, hall, hq, rfl⟩ | ⟨what, hraised⟩ :=
              ih rest.length hless rest rfl
            · exact .inl ⟨p :: pieces, behind, hclosed.cons hp⟩
            · exact .inr (.inl ⟨p :: pieces, q, List.forall_mem_cons.mpr ⟨hp, hall⟩, hq,
                (terminated_cons p pieces q).symm⟩)
            · refine .inr (.inr ⟨what, ?_⟩)
              rw [untilClose_comma u hp, hraised]
              rfl
          by_cases hclose : d = closeChar
          · subst hclose
            have hone : Closed [p] ([commaChar].intercalate [p] ++ closeChar :: rest) rest :=
              .joined (by simpa using hp) (List.cons_ne_nil p []) rest
            exact .inl ⟨[p], rest, by simpa [List.intercalate] using hone⟩
          · refine .inr (.inr ⟨"Invalid format\n", ?_⟩)
            have hskip : skipComma (d :: rest) = .error (.raised "Invalid format\n") :=
              (if_neg hcomma).trans (if_neg hclose)
            rw [untilClose_piece u hp, hskip]
            rfl
      · exact .inr (.inl ⟨[], c :: ch, by simp, ⟨hshort.le, hdigits⟩, rfl⟩)
      · refine .inr (.inr ⟨what, ?_⟩)
        rw [untilClose_cons u hc, hraised]
        rfl

theorem intercalate_comma (hne : pieces ≠ []) :
    [commaChar].intercalate pieces ++ [commaChar] = terminated pieces := by
  induction pieces with
  | nil => exact absurd rfl hne
  | cons p pieces ih =>
    cases pieces with
    | nil => simp [List.intercalate, terminated]
    | cons q pieces =>
      rw [intercalate_cons, List.append_assoc, List.cons_append, ih (List.cons_ne_nil q pieces)]
      simp [terminated]

theorem length_terminated (hall : ∀ p ∈ pieces, Piece p) :
    (terminated pieces).length = 5 * pieces.length := by
  induction pieces with
  | nil => rfl
  | cons p pieces ih =>
    have hrest := ih fun q hq => hall q (List.mem_cons_of_mem p hq)
    have hcons := terminated_cons p pieces []
    rw [List.append_nil, List.append_nil] at hcons
    rw [hcons, List.length_append, List.length_cons, List.length_cons, hrest,
      (hall p List.mem_cons_self).length]
    omega

theorem length_intercalate (hall : ∀ p ∈ pieces, Piece p) (hne : pieces ≠ []) :
    ([commaChar].intercalate pieces).length + 1 = 5 * pieces.length := by
  rw [← length_terminated hall, ← intercalate_comma hne, List.length_append, List.length_singleton]

theorem terminated_inj {pieces' : List (List Byte)} (hall : ∀ p ∈ pieces, Piece p)
    (hall' : ∀ p ∈ pieces', Piece p) (h : terminated pieces = terminated pieces') :
    pieces = pieces' := by
  induction pieces generalizing pieces' with
  | nil =>
    have hlength := length_terminated hall'
    rw [← h] at hlength
    exact (List.length_eq_zero_iff.mp (by simpa [terminated] using hlength.symm)).symm
  | cons p pieces ih =>
    cases pieces' with
    | nil =>
      have hlength := length_terminated hall
      rw [h] at hlength
      simp [terminated] at hlength
    | cons p' pieces' =>
      have hp := hall p List.mem_cons_self
      have hp' := hall' p' List.mem_cons_self
      have hcons : p ++ commaChar :: terminated pieces = p' ++ commaChar :: terminated pieces' := by
        simpa [terminated] using h
      obtain ⟨hhead, htail⟩ := List.append_inj hcons (hp.length.trans hp'.length.symm)
      rw [hhead, ih (fun q hq => hall q (List.mem_cons_of_mem p hq))
        (fun q hq => hall' q (List.mem_cons_of_mem p' hq)) (List.cons.inj htail).2]

theorem intercalate_inj {pieces' : List (List Byte)} (hall : ∀ p ∈ pieces, Piece p)
    (hall' : ∀ p ∈ pieces', Piece p) (hne : pieces ≠ []) (hne' : pieces' ≠ [])
    (h : [commaChar].intercalate pieces = [commaChar].intercalate pieces') : pieces = pieces' := by
  apply terminated_inj hall hall'
  rw [← intercalate_comma hne, ← intercalate_comma hne', h]

theorem Closed.unique {pieces' : List (List Byte)} (h : Closed pieces ch [])
    (h' : Closed pieces' ch []) : pieces = pieces' := by
  cases h with
  | trailing hall _ =>
    generalize heq : terminated pieces ++ [closeChar] = ch at h'
    cases h' with
    | trailing hall' _ => exact terminated_inj hall hall' (List.append_cancel_right heq)
    | joined hall' hne' _ =>
      have hlength := length_intercalate hall' hne'
      rw [← List.append_cancel_right heq, length_terminated hall] at hlength
      omega
  | joined hall hne _ =>
    generalize heq : [commaChar].intercalate pieces ++ [closeChar] = ch at h'
    cases h' with
    | trailing hall' _ =>
      have hlength := length_intercalate hall hne
      rw [List.append_cancel_right heq, length_terminated hall'] at hlength
      omega
    | joined hall' hne' _ =>
      exact intercalate_inj hall hall' hne hne' (List.append_cancel_right heq)

theorem skipPrefix_item (c d : Byte) : skipPrefix 16 [zeroChar, xChar, c, d] = [c, d] := by
  simp [skipPrefix]

theorem Item.piece (h : Item p) : Piece p := by
  obtain ⟨c, d, hc, hd, rfl⟩ := h
  refine ⟨rfl, ?_⟩
  intro e he
  rw [skipPrefix_item] at he
  simp only [List.mem_cons, List.not_mem_nil, or_false] at he
  obtain rfl | rfl := he
  · exact hc
  · exact hd

theorem numeral_pair_lt {c d : Byte} (hc : isDigit 16 c) (hd : isDigit 16 d) :
    numeral 16 [c, d] < 256 := by
  have hvalue : ∀ e : Byte, isDigit 16 e → (digitValue e).getD 0 < 16 := by
    intro e he
    unfold isDigit at he
    cases hvalue : digitValue e with
    | none => decide
    | some v => simpa [hvalue] using he
  have hclt := hvalue c hc
  have hdlt := hvalue d hd
  simp [numeral, Nat.ofDigits]
  omega

theorem readAs_item (u : Byte) (h : Item p) : readAs u p = itemValue p := by
  obtain ⟨c, d, hc, hd, rfl⟩ := h
  have hfits : IntegerType.Fits ⟨8, false⟩ (numeral 16 [c, d]) := by
    have := numeral_pair_lt hc hd
    simp only [IntegerType.Fits]
    norm_num
    omega
  rw [readAs, skipPrefix_item, fromChars_of_digits (List.cons_ne_nil c [d]) (by simp [hc, hd]), if_pos hfits]
  exact BitVec.ofInt_natCast 8 _

variable {spells : List Byte → Prop} {r : Except Failure (List Byte)}
  {accepted strict : List (List Byte) → Prop} {cut : Prop}

/-- A scanner that takes the accepted lists of pieces and reads on where the text is cut off
scans what it should when no text is cut off and no accepted list is one that it should not
take. -/
theorem scans_iff_of_cases (u : Byte)
    (haccepted : ∀ pieces, accepted pieces → r = .ok (pieces.map (readAs u)))
    (hcut : cut → r = .error .undefined)
    (hcases : (∃ pieces, accepted pieces) ∨ cut ∨ ∃ what, r = .error (.raised what))
    (hunique : ∀ pieces pieces', accepted pieces → accepted pieces' → pieces = pieces')
    (hspells : ∀ bytes, spells bytes ↔
      ∃ pieces, accepted pieces ∧ strict pieces ∧ bytes = pieces.map (readAs u)) :
    Scans spells r ↔ ¬ cut ∧ ∀ pieces, accepted pieces → strict pieces := by
  constructor
  · intro h
    constructor
    · intro hcutoff
      have hundefined := hcut hcutoff
      by_cases hany : ∃ bytes, spells bytes
      · obtain ⟨bytes, hbytes⟩ := hany
        rw [(h.returns bytes).mpr hbytes] at hundefined
        cases hundefined
      · obtain ⟨what, hraised⟩ := h.raises (not_exists.mp hany)
        rw [hraised] at hundefined
        cases hundefined
    · intro pieces hpieces
      obtain ⟨pieces', hpieces', hstrict, -⟩ :=
        (hspells _).mp ((h.returns _).mp (haccepted pieces hpieces))
      rwa [hunique pieces pieces' hpieces hpieces']
  · rintro ⟨hwhole, hall⟩
    obtain ⟨pieces, hpieces⟩ | hcutoff | ⟨what, hraised⟩ := hcases
    · have hspelled := (hspells _).mpr ⟨pieces, hpieces, hall pieces hpieces, rfl⟩
      have hresult := haccepted pieces hpieces
      refine ⟨fun bytes => ⟨fun hbytes => ?_, fun hbytes => ?_⟩, fun hno => absurd hspelled (hno _)⟩
      · rw [hresult] at hbytes
        rwa [← Except.ok.inj hbytes]
      · obtain ⟨pieces', hpieces', -, rfl⟩ := (hspells bytes).mp hbytes
        rw [hresult, hunique pieces pieces' hpieces hpieces']
    · exact absurd hcutoff hwhole
    · refine ⟨fun bytes => ⟨fun hbytes => ?_, fun hbytes => ?_⟩, fun _ => ⟨what, hraised⟩⟩
      · rw [hraised] at hbytes
        cases hbytes
      · obtain ⟨pieces, hpieces, -, rfl⟩ := (hspells bytes).mp hbytes
        exact haccepted pieces hpieces

theorem map_itemValue (u : Byte) (h : ∀ p ∈ pieces, Item p) :
    pieces.map itemValue = pieces.map (readAs u) := by
  apply List.map_congr_left
  intro p hp
  exact (readAs_item u (h p hp)).symm

variable {text : List Byte}

/-- What `parse_vector` takes: a text that its loop goes over up to the last character. -/
def TakenWhole (text : List Byte) (pieces : List (List Byte)) : Prop :=
  ∃ ch, Closed pieces ch [] ∧ text = openChar :: ch

theorem parseVector_openChar (u : Byte) (ch : List Byte) :
    parseVector u [] (openChar :: ch) = (untilClose u ch).bind fun (bytes, ch) =>
      if (ch.drop 1).length ≠ 0 then .error (.raised "Invalid format\n") else .ok bytes := by
  rw [parseVector, List.append_nil]
  rfl

theorem parseVector_taken (u : Byte) (h : TakenWhole text pieces) :
    parseVector u [] text = .ok (pieces.map (readAs u)) := by
  obtain ⟨ch, hclosed, rfl⟩ := h
  rw [parseVector_openChar, untilClose_closed u hclosed]
  rfl

theorem parseVector_cutOff (u : Byte) (h : CutOff (fun _ => True) text) :
    parseVector u [] text = .error .undefined := by
  obtain rfl | ⟨pieces, p, -, hall, hp, rfl⟩ := h
  · rfl
  · rw [parseVector_openChar, untilClose_cutOff u hall hp]
    rfl

theorem parseVector_cases (u : Byte) (text : List Byte) :
    (∃ pieces, TakenWhole text pieces) ∨ CutOff (fun _ => True) text ∨
      ∃ what, parseVector u [] text = .error (.raised what) := by
  cases text with
  | nil => exact .inr (.inl (.inl rfl))
  | cons c ch =>
    by_cases hc : c = openChar
    · subst hc
      obtain ⟨pieces, rest, hclosed⟩ | ⟨pieces, p, hall, hp, rfl⟩ | ⟨what, hraised⟩ :=
        untilClose_cases u ch
      · cases rest with
        | nil => exact .inl ⟨pieces, ch, hclosed, rfl⟩
        | cons d rest =>
          refine .inr (.inr ⟨"Invalid format\n", ?_⟩)
          rw [parseVector_openChar, untilClose_closed u hclosed]
          rfl
      · exact .inr (.inl (.inr ⟨pieces, p, trivial, hall, hp, rfl⟩))
      · refine .inr (.inr ⟨what, ?_⟩)
        rw [parseVector_openChar, hraised]
        rfl
    · refine .inr (.inr ⟨"Invalid format\n", ?_⟩)
      rw [parseVector, List.append_nil]
      exact if_pos hc

/-- The pieces are items, and joined by commas. -/
def Strict (text : List Byte) (pieces : List (List Byte)) : Prop :=
  (∀ p ∈ pieces, Item p) ∧ text = openChar :: ([commaChar].intercalate pieces ++ [closeChar])

theorem TakenWhole.of_strict (h : Strict text pieces) : TakenWhole text pieces := by
  refine ⟨_, ?_, h.2⟩
  have hall := fun p hp => (h.1 p hp).piece
  by_cases hne : pieces = []
  · subst hne
    exact @Closed.trailing [] (by simp) []
  · exact .joined hall hne []

theorem spells_iff (u : Byte) (text bytes : List Byte) : Spells bytes text ↔
    ∃ pieces, TakenWhole text pieces ∧ Strict text pieces ∧ bytes = pieces.map (readAs u) := by
  constructor
  · rintro ⟨items, hitems, rfl, htext⟩
    exact ⟨items, .of_strict ⟨hitems, htext⟩, ⟨hitems, htext⟩, map_itemValue u hitems⟩
  · rintro ⟨pieces, -, ⟨hitems, htext⟩, rfl⟩
    exact ⟨pieces, hitems, (map_itemValue u hitems).symm, htext⟩

theorem TakenWhole.unique {pieces' : List (List Byte)} (h : TakenWhole text pieces)
    (h' : TakenWhole text pieces') : pieces = pieces' := by
  obtain ⟨ch, hclosed, rfl⟩ := h
  obtain ⟨ch', hclosed', heq⟩ := h'
  rw [← (List.cons.inj heq).2] at hclosed'
  exact hclosed.unique hclosed'

theorem Trailing.taken (h : Trailing pieces text) : TakenWhole text pieces :=
  ⟨_, .trailing h.1 [], h.2.2⟩

theorem Unprefixed.ne_nil (h : Unprefixed pieces text) : pieces ≠ [] := by
  obtain ⟨-, ⟨p, hp, -⟩, -⟩ := h
  exact List.ne_nil_of_mem hp

theorem Unprefixed.taken (h : Unprefixed pieces text) : TakenWhole text pieces :=
  ⟨_, .joined h.1 h.ne_nil [], h.2.2⟩

theorem Trailing.not_strict (h : Trailing pieces text) : ¬ Strict text pieces := by
  rintro ⟨-, htext⟩
  obtain ⟨hall, hne, htrailing⟩ := h
  rw [htrailing] at htext
  have hlength := length_intercalate hall hne
  rw [← List.append_cancel_right (List.cons.inj htext).2, length_terminated hall] at hlength
  omega

/-- What is taken without being strict has a comma too many or lacks a prefix somewhere. -/
theorem takenStrict_iff (text : List Byte) :
    (∀ pieces, TakenWhole text pieces → Strict text pieces) ↔
      ∀ pieces, ¬ Unprefixed pieces text ∧ ¬ Trailing pieces text := by
  constructor
  · intro h pieces
    constructor
    · intro hunprefixed
      obtain ⟨p, hp, hno⟩ := hunprefixed.2.1
      exact hno ((h pieces hunprefixed.taken).1 p hp)
    · intro htrailing
      exact htrailing.not_strict (h pieces htrailing.taken)
  · rintro h pieces ⟨ch, hclosed, rfl⟩
    cases hclosed with
    | trailing hall _ =>
      by_cases hne : pieces = []
      · subst hne
        exact ⟨by simp, rfl⟩
      · exact absurd ⟨hall, hne, rfl⟩ (h pieces).2
    | joined hall hne _ =>
      refine ⟨fun p hp => ?_, rfl⟩
      by_contra hno
      exact (h pieces).1 ⟨hall, ⟨p, hp, hno⟩, rfl⟩

theorem scans_parseVector_iff (u : Byte) (text : List Byte) :
    Scans (Spells · text) (parseVector u [] text) ↔ ¬ CutOff (fun _ => True) text ∧
      ∀ pieces, ¬ Unprefixed pieces text ∧ ¬ Trailing pieces text := by
  rw [← takenStrict_iff]
  exact scans_iff_of_cases u (fun _ => parseVector_taken u) (parseVector_cutOff u)
    (parseVector_cases u text) (fun _ _ => TakenWhole.unique) (spells_iff u text)

variable {n : ℕ}

/-- What `parse_vector<N>` takes. -/
structure TakenOf (n : ℕ) (text : List Byte) (pieces : List (List Byte)) : Prop where
  length : pieces.length = n
  all : ∀ p ∈ pieces, Piece p
  text : text = openChar :: ([commaChar].intercalate pieces ++ [closeChar])

theorem parseVectorOf_openChar (u : Byte) (n : ℕ) (ch : List Byte) :
    parseVectorOf (n + 1) u [] (openChar :: ch) = (separated u n ch).bind fun (bytes, ch) =>
      (byteThen u closeChar ch).bind fun (last, ch) =>
        if ch.length ≠ 0 then .error (.raised "Invalid format!\n") else .ok (bytes ++ [last]) := by
  rw [parseVectorOf, List.append_nil]
  simp only [bind, Except.bind, expect_cons, Nat.add_sub_cancel, List.length_nil]
  cases separated u n ch with
  | error e => rfl
  | ok r =>
    obtain ⟨bytes, ch⟩ := r
    simp only [byteThen, bind, Except.bind]
    cases nextByte u ch with
    | error e => rfl
    | ok read =>
      obtain ⟨b, ch⟩ := read
      simp only
      cases expect closeChar ch with
      | error e => rfl
      | ok ch => rfl

theorem intercalate_concat (init : List (List Byte)) (last : List Byte) :
    [commaChar].intercalate (init ++ [last]) = terminated init ++ last := by
  have hcomma := intercalate_comma (List.append_ne_nil_of_right_ne_nil init
    (List.cons_ne_nil last []))
  have hsplit : terminated (init ++ [last]) = terminated init ++ last ++ [commaChar] := by
    simp [terminated]
  exact List.append_cancel_right (hcomma.trans hsplit)

theorem parseVectorOf_taken (u : Byte) (h : TakenOf (n + 1) text pieces) :
    parseVectorOf (n + 1) u [] text = .ok (pieces.map (readAs u)) := by
  obtain ⟨hlength, hall, rfl⟩ := h
  obtain ⟨init, last, rfl⟩ : ∃ init last, pieces = init ++ [last] := by
    have hne : pieces ≠ [] := List.ne_nil_of_length_eq_add_one hlength
    exact ⟨pieces.dropLast, pieces.getLast hne, (List.dropLast_concat_getLast hne).symm⟩
  obtain rfl : init.length = n := by simpa using hlength
  have hinit : ∀ p ∈ init, Piece p := fun p hp => hall p (List.mem_append_left [last] hp)
  have hlast : Piece last := hall last (by simp)
  rw [parseVectorOf_openChar, intercalate_concat, List.append_assoc,
    separated_terminated u hinit (last ++ [closeChar])]
  simp only [Except.bind, byteThen_piece u closeChar hlast [], List.map_append]
  rfl

theorem parseVectorOf_cutOff (u : Byte) (h : CutOff (· < n + 1) text) :
    parseVectorOf (n + 1) u [] text = .error .undefined := by
  obtain rfl | ⟨pieces, p, hfew, hall, hp, rfl⟩ := h
  · rfl
  rw [parseVectorOf_openChar]
  -- the text ends within the loop, or behind it
  obtain hwithin | rfl := Nat.lt_or_eq_of_le (Nat.lt_succ_iff.mp hfew)
  · rw [separated_cutOff u hall hp hwithin]
    rfl
  · rw [separated_terminated u hall p]
    simp only [Except.bind, byteThen_fragment u closeChar hp]

theorem parseVectorOf_cases (u : Byte) (n : ℕ) (text : List Byte) :
    (∃ pieces, TakenOf (n + 1) text pieces) ∨ CutOff (· < n + 1) text ∨
      ∃ what, parseVectorOf (n + 1) u [] text = .error (.raised what) := by
  -- the end of the text is compared with only behind the last bracket
  cases text with
  | nil => exact .inr (.inl (.inl rfl))
  | cons c ch =>
    by_cases hc : c = openChar
    · subst hc
      obtain ⟨init, rest, hlength, hall, rfl⟩ | ⟨pieces, p, hfew, hall, hp, rfl⟩ |
        ⟨what, hraised⟩ := separated_cases u n ch
      · have hloop := separated_terminated u hall rest
        rw [hlength] at hloop
        obtain ⟨last, behind, hlast, rfl⟩ | hfragment | ⟨what, hraised⟩ :=
          byteThen_cases u closeChar rest
        · cases behind with
          | nil =>
            refine .inl ⟨init ++ [last], by simp [hlength], ?_, ?_⟩
            · intro p hp
              obtain hp | hp := List.mem_append.mp hp
              · exact hall p hp
              · rwa [List.mem_singleton.mp hp]
            · rw [intercalate_concat, List.append_assoc]
          | cons d behind =>
            refine .inr (.inr ⟨"Invalid format!\n", ?_⟩)
            rw [parseVectorOf_openChar, hloop]
            simp only [Except.bind, byteThen_piece u closeChar hlast]
            rfl
        · exact .inr (.inl (.inr ⟨init, rest, by omega, hall, hfragment, rfl⟩))
        · refine .inr (.inr ⟨what, ?_⟩)
          rw [parseVectorOf_openChar, hloop]
          simp only [Except.bind, hraised]
      · exact .inr (.inl (.inr ⟨pieces, p, by omega, hall, hp, rfl⟩))
      · refine .inr (.inr ⟨what, ?_⟩)
        rw [parseVectorOf_openChar, hraised]
        rfl
    · refine .inr (.inr ⟨"Invalid format!\n", ?_⟩)
      rw [parseVectorOf, List.append_nil]
      simp only [bind, Except.bind, expect, if_neg hc]

theorem TakenOf.taken (h : TakenOf (n + 1) text pieces) : TakenWhole text pieces :=
  ⟨_, .joined h.all (List.ne_nil_of_length_eq_add_one h.length) [], h.text⟩

theorem scans_parseVectorOf_iff (u : Byte) (n : ℕ) (text : List Byte) :
    Scans (fun bytes => Spells bytes text ∧ bytes.length = n + 1) (parseVectorOf (n + 1) u [] text) ↔
      ¬ CutOff (· < n + 1) text ∧ ∀ pieces, pieces.length = n + 1 → ¬ Unprefixed pieces text := by
  have hspells : ∀ bytes, (Spells bytes text ∧ bytes.length = n + 1) ↔
      ∃ pieces, TakenOf (n + 1) text pieces ∧ (∀ p ∈ pieces, Item p) ∧
        bytes = pieces.map (readAs u) := by
    intro bytes
    constructor
    · rintro ⟨⟨items, hitems, rfl, htext⟩, hlength⟩
      exact ⟨items, ⟨by simpa using hlength, fun p hp => (hitems p hp).piece, htext⟩, hitems,
        map_itemValue u hitems⟩
    · rintro ⟨pieces, htaken, hitems, rfl⟩
      exact ⟨⟨pieces, hitems, (map_itemValue u hitems).symm, htaken.text⟩,
        by rw [List.length_map, htaken.length]⟩
  have hlaw := scans_iff_of_cases u (fun _ => parseVectorOf_taken u) (parseVectorOf_cutOff u)
    (parseVectorOf_cases u n text) (fun _ _ h h' => h.taken.unique h'.taken) hspells
  rw [hlaw]
  apply and_congr_right
  intro _
  constructor
  · rintro h pieces hlength ⟨hall, ⟨p, hp, hno⟩, htext⟩
    exact hno (h pieces ⟨hlength, hall, htext⟩ p hp)
  · intro h pieces htaken p hp
    by_contra hno
    exact h pieces htaken.length ⟨htaken.all, ⟨p, hp, hno⟩, htaken.text⟩

end ParseVector

/-- For every text, whatever the variable of `to_integral` holds. -/
theorem parsesVectors_iff (uninitialised : Byte) (text : List Byte) :
    (Scans (Spells · text) (parseVector uninitialised [] text) ↔
      ¬ CutOff (fun _ => True) text ∧ ∀ pieces, ¬ Unprefixed pieces text ∧ ¬ Trailing pieces text) ∧
    ∀ n, (Scans (fun bytes => Spells bytes text ∧ bytes.length = n + 1)
        (parseVectorOf (n + 1) uninitialised [] text) ↔
      ¬ CutOff (· < n + 1) text ∧ ∀ pieces, pieces.length = n + 1 → ¬ Unprefixed pieces text) :=
  ⟨scans_parseVector_iff uninitialised text, fun n => scans_parseVectorOf_iff uninitialised n text⟩

/-- `memory write 0x1000 [0x12,]`. -/
theorem parsesVector_not_for_all :
    ¬ ∀ (uninitialised : Byte) (text : List Byte),
      Scans (Spells · text) (parseVector uninitialised [] text) := by
  intro h
  let item : List Byte := [zeroChar, xChar, 0x31#8, 0x32#8]
  have hitem : Item item := ⟨0x31#8, 0x32#8, by decide, by decide, rfl⟩
  have htrailing : Trailing [item] (openChar :: (terminated [item] ++ [closeChar])) :=
    ⟨by simpa using hitem.piece, List.cons_ne_nil item [], rfl⟩
  exact (((scans_parseVector_iff 0#8 _).mp (h 0#8 _)).2 [item]).2 htrailing

end KDebugger
