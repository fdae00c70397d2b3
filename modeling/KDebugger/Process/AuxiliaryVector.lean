import KDebugger.Assignments
import KDebugger.ByteStream

namespace KDebugger.Process

open ByteStream

/-- An `ifstream`, by the bytes that are left and whether no read has failed. -/
structure InputStream where
  rest : List Byte
  good : Bool

def InputStream.ofFile : Option (List Byte) → InputStream
  | none => ⟨[], false⟩
  | some bytes => ⟨bytes, true⟩

/-- `read`: the bytes that are stored. -/
def InputStream.read (n : ℕ) (stream : InputStream) : List Byte × InputStream :=
  if stream.good then (stream.rest.take n, ⟨stream.rest.drop n, n ≤ stream.rest.length⟩)
  else ([], stream)

/-- A 64-bit variable over whose first bytes these are stored; as long as they are not all
stored, a variable that was not initialised stays indeterminate. -/
def overwritten (v : Option (BitVec 64)) (bytes : List Byte) : Option (BitVec 64) :=
  if bytes.length = 8 then some (fromBytes 8 bytes)
  else v.map fun w => fromBytes 8 (bytes ++ (leBytes 8 w.toNat).drop bytes.length)

abbrev Auxv := BitVec 32 → Option (BitVec 64)

/-- The variables of `get_auxv`. -/
structure AuxvReader where
  stream : InputStream
  id : Option (BitVec 64) := none
  value : Option (BitVec 64) := none
  ret : Auxv := fun _ => none

namespace AuxvReader

def readId (r : AuxvReader) : AuxvReader :=
  let (bytes, stream) := r.stream.read 8
  { r with stream, id := overwritten r.id bytes }

def readValue (r : AuxvReader) : AuxvReader :=
  let (bytes, stream) := r.stream.read 8
  { r with stream, value := overwritten r.value bytes }

end AuxvReader

def atNull : BitVec 64 := 0#64

def auxvKey (id : BitVec 64) : BitVec 32 := id.setWidth 32

def auxvLoop : ℕ → AuxvReader → Except Failure Auxv
  | 0, _ => .error .exhausted
  | n + 1, r =>
    match r.id with
    | none => .error .undefined
    | some id =>
      if id = atNull then .ok r.ret
      else
        let r := r.readValue
        -- the stream is not looked at: after a failed read the variable has what was there
        match r.value with
        | none => .error .undefined
        | some value => auxvLoop n { r with ret := assign r.ret (auxvKey id, value) }.readId

/-- `get_auxv`, with what `/proc/<pid>/auxv` holds, if it can be opened. -/
def getAuxv (turns : ℕ) (file : Option (List Byte)) : Except Failure Auxv :=
  auxvLoop turns { stream := .ofFile file : AuxvReader }.readId

abbrev AuxvEntry := BitVec 64 × BitVec 64

def entryBytes (e : AuxvEntry) : List Byte := leBytes 8 e.1.toNat ++ leBytes 8 e.2.toNat

def vectorBytes (entries : List AuxvEntry) : List Byte := entries.flatMap entryBytes

/-- None of the entries is the last one. -/
def Inner (entries : List AuxvEntry) : Prop := ∀ e ∈ entries, e.1 ≠ atNull

def nullId : List Byte := leBytes 8 atNull.toNat

/-- The file holds these entries and then `AT_NULL`. -/
def Complete (file : Option (List Byte)) (entries : List AuxvEntry) : Prop :=
  Inner entries ∧ ∃ rest, file = some (vectorBytes entries ++ nullId ++ rest)

/-- The file ends in an id behind the last of these entries, and the bytes that are there and
the upper bytes of the id before are zero. -/
def CutInZeros (file : Option (List Byte)) (entries : List AuxvEntry) : Prop :=
  Inner entries ∧ ∃ rest, file = some (vectorBytes entries ++ rest) ∧ rest.length < 8 ∧
    (∀ b ∈ rest, b = 0#8) ∧ ∃ e, entries.getLast? = some e ∧ e.1.toNat < 256 ^ rest.length

/-- `get_auxv` ends, and for a complete vector with the last value of each id. -/
def AuxvRight (file : Option (List Byte)) : Prop :=
  ∃ ret turns, (∀ n, turns ≤ n → getAuxv n file = .ok ret) ∧
    ∀ entries, Complete file entries → ∀ e ∈ entries, ret (auxvKey e.1) = lastValue entries e.1

/-- Ids that are the same as an `int` have the same last value. -/
def KeysAgree (entries : List AuxvEntry) : Prop :=
  ∀ e ∈ entries, ∀ e' ∈ entries, auxvKey e.1 = auxvKey e'.1 →
    lastValue entries e.1 = lastValue entries e'.1

theorem leValue_append (bs bs' : List Byte) :
    leValue (bs ++ bs') = leValue bs + 256 ^ bs.length * leValue bs' := by
  induction bs with
  | nil => simp [leValue]
  | cons b bs ih =>
    rw [List.cons_append, leValue, leValue, ih, List.length_cons, Nat.pow_succ', Nat.mul_add,
      Nat.mul_assoc, Nat.add_assoc]

theorem leValue_eq_zero {bs : List Byte} : leValue bs = 0 ↔ ∀ b ∈ bs, b = 0#8 := by
  induction bs with
  | nil => simp [leValue]
  | cons b bs ih =>
    have hb : b.toNat = 0 ↔ b = 0#8 := by rw [← BitVec.toNat_inj]; rfl
    rw [leValue, List.forall_mem_cons, ← ih, ← hb]
    omega

theorem leValue_drop_leBytes {n v : ℕ} (hv : v < 256 ^ n) (k : ℕ) :
    leValue ((leBytes n v).drop k) = v / 256 ^ k := by
  induction k generalizing n v with
  | zero => rw [List.drop_zero, leValue_leBytes, Nat.mod_eq_of_lt hv, Nat.pow_zero, Nat.div_one]
  | succ k ih =>
    cases n with
    | zero =>
      obtain rfl : v = 0 := by simpa using hv
      simp [leBytes, leValue]
    | succ n =>
      rw [Nat.pow_succ] at hv
      rw [leBytes, List.drop_succ_cons, ih (by omega), Nat.div_div_eq_div_mul, Nat.pow_succ']

theorem patched_eq_zero {w : BitVec 64} {bytes : List Byte} (h : bytes.length < 8) :
    fromBytes 8 (bytes ++ (leBytes 8 w.toNat).drop bytes.length) = 0#64 ↔
      (∀ b ∈ bytes, b = 0#8) ∧ w.toNat < 256 ^ bytes.length := by
  have hlength : (bytes ++ (leBytes 8 w.toNat).drop bytes.length).length = 8 := by
    rw [List.length_append, List.length_drop, leBytes_length]
    omega
  have hlt := leValue_lt (bytes ++ (leBytes 8 w.toNat).drop bytes.length)
  have hzero : fromBytes 8 (bytes ++ (leBytes 8 w.toNat).drop bytes.length) = 0#64 ↔
      leValue (bytes ++ (leBytes 8 w.toNat).drop bytes.length) = 0 := by
    rw [hlength] at hlt
    have hmod := Nat.mod_eq_of_lt (show _ < 2 ^ (8 * 8) from hlt)
    rw [fromBytes, ← BitVec.toNat_inj, BitVec.toNat_ofNat, hmod]
    rfl
  have hpow : 0 < 256 ^ bytes.length := Nat.pow_pos (by decide)
  rw [hzero, leValue_append, leValue_drop_leBytes w.isLt, Nat.add_eq_zero_iff, leValue_eq_zero,
    Nat.mul_eq_zero, Nat.div_eq_zero_iff]
  apply and_congr_right
  intro _
  omega

theorem read_append (n : ℕ) {bytes : List Byte} (h : bytes.length = n) (rest : List Byte) :
    (⟨bytes ++ rest, true⟩ : InputStream).read n = (bytes, ⟨rest, true⟩) := by
  subst h
  simp [InputStream.read]

theorem read_short {n : ℕ} {rest : List Byte} (h : rest.length < n) :
    (⟨rest, true⟩ : InputStream).read n = (rest, ⟨[], false⟩) := by
  simp only [InputStream.read, if_true, List.take_of_length_le h.le, List.drop_of_length_le h.le,
    decide_eq_false (Nat.not_le.mpr h)]

theorem overwritten_word (v : Option (BitVec 64)) (w : BitVec 64) :
    overwritten v (leBytes 8 w.toNat) = some w := by
  rw [overwritten, if_pos (leBytes_length 8 _)]
  exact congrArg some (fromBytes_leBytes 8 w)

theorem overwritten_nil (v : Option (BitVec 64)) : overwritten v [] = v := by
  cases v with
  | none => rfl
  | some w => exact congrArg some (fromBytes_leBytes 8 w)

def between (rest : List Byte) (last : Option AuxvEntry) (ret : Auxv) : AuxvReader where
  stream := ⟨rest, true⟩
  id := last.map Prod.fst
  value := last.map Prod.snd
  ret := ret

variable {rest : List Byte} {last : Option AuxvEntry} {ret : Auxv} {e : AuxvEntry}
  {entries : List AuxvEntry}

theorem auxvLoop_entry (n : ℕ) (he : e.1 ≠ atNull) :
    auxvLoop (n + 1) (between (entryBytes e ++ rest) last ret).readId =
      auxvLoop n (between rest (some e) (assign ret (auxvKey e.1, e.2))).readId := by
  have hid : (between (entryBytes e ++ rest) last ret).readId =
      { between (leBytes 8 e.2.toNat ++ rest) last ret with id := some e.1 } := by
    unfold AuxvReader.readId between
    simp only [entryBytes, List.append_assoc, read_append 8 (leBytes_length 8 _), overwritten_word]
  have hvalue : ({ between (leBytes 8 e.2.toNat ++ rest) last ret with
      id := some e.1 } : AuxvReader).readValue = between rest (some e) ret := by
    unfold AuxvReader.readValue between
    simp only [read_append 8 (leBytes_length 8 _), overwritten_word]
    rfl
  rw [hid, auxvLoop]
  simp only [if_neg he, hvalue]
  rfl

theorem auxvLoop_entries (n : ℕ) (h : Inner entries) :
    auxvLoop (n + entries.length) (between (vectorBytes entries ++ rest) last ret).readId =
      auxvLoop n (between rest (entries.getLast?.or last)
        ((rekeyed auxvKey entries).foldl assign ret)).readId := by
  induction entries generalizing last ret with
  | nil => rfl
  | cons e entries ih =>
    obtain ⟨he, hrest⟩ := List.forall_mem_cons.mp h
    have hlast : (e :: entries).getLast?.or last = entries.getLast?.or (some e) := by
      cases hlast : entries.getLast? with
      | none => simp [List.getLast?_cons, hlast]
      | some e' => simp [List.getLast?_cons, hlast]
    have hbytes : vectorBytes (e :: entries) ++ rest =
        entryBytes e ++ (vectorBytes entries ++ rest) := List.append_assoc _ _ _
    rw [List.length_cons, ← Nat.add_assoc, hbytes, auxvLoop_entry _ he, ih hrest, hlast]
    rfl

theorem getAuxv_entries (n : ℕ) (h : Inner entries) :
    getAuxv (n + entries.length) (some (vectorBytes entries ++ rest)) =
      auxvLoop n (between rest entries.getLast? (lastValue (rekeyed auxvKey entries))).readId := by
  have hstart : { stream := .ofFile (some (vectorBytes entries ++ rest)) : AuxvReader } =
      between (vectorBytes entries ++ rest) none fun _ => none := rfl
  unfold getAuxv
  rw [hstart, auxvLoop_entries n h, Option.or_none, foldl_assign]

/-- No read brings anything any more, and the id is not the last one. -/
def Stuck (r : AuxvReader) : Prop := r.stream.good = false ∧ r.id ≠ some atNull

theorem readId_of_failed {r : AuxvReader} (h : r.stream.good = false) : r.readId = r := by
  unfold AuxvReader.readId InputStream.read
  simp only [h, Bool.false_eq_true, if_false, overwritten_nil]

theorem readValue_of_failed {r : AuxvReader} (h : r.stream.good = false) : r.readValue = r := by
  unfold AuxvReader.readValue InputStream.read
  simp only [h, Bool.false_eq_true, if_false, overwritten_nil]

theorem Stuck.never {r : AuxvReader} (h : Stuck r) (n : ℕ) : auxvLoop n r ≠ .ok ret := by
  induction n generalizing r with
  | zero => nofun
  | succ n ih =>
    obtain ⟨hgood, hid⟩ := h
    rw [auxvLoop]
    cases hr : r.id with
    | none => nofun
    | some id =>
      have hne : id ≠ atNull := fun h => hid (by rw [hr, h])
      simp only [if_neg hne, readValue_of_failed hgood]
      cases r.value with
      | none => nofun
      | some value =>
        let r' : AuxvReader :=
          { r with value := some value, ret := assign r.ret (auxvKey id, value) }
        have hstay : r'.readId = r' := readId_of_failed hgood
        show auxvLoop n r'.readId ≠ .ok ret
        rw [hstay]
        exact ih ⟨hgood, hid⟩

theorem auxvLoop_null (n : ℕ) : auxvLoop (n + 1) (between (nullId ++ rest) last ret).readId = .ok ret := by
  have hid : (between (nullId ++ rest) last ret).readId.id = some atNull := by
    unfold AuxvReader.readId between nullId
    simp only [read_append 8 (leBytes_length 8 _), overwritten_word]
  rw [auxvLoop, hid]
  rfl

theorem auxvLoop_no_value {id : BitVec 64} (hid : id ≠ atNull) (hshort : rest.length < 8) (n : ℕ)
    (ret' : Auxv) :
    auxvLoop n (between (leBytes 8 id.toNat ++ rest) last ret).readId ≠ .ok ret' := by
  have hread : (between (leBytes 8 id.toNat ++ rest) last ret).readId =
      { between rest last ret with id := some id } := by
    unfold AuxvReader.readId between
    simp only [read_append 8 (leBytes_length 8 _), overwritten_word]
  rw [hread]
  cases n with
  | zero => nofun
  | succ n =>
    rw [auxvLoop]
    have hvalue : ({ between rest last ret with id := some id } : AuxvReader).readValue =
        { between rest last ret with
          stream := ⟨[], false⟩, id := some id, value := overwritten (last.map Prod.snd) rest } := by
      unfold AuxvReader.readValue between
      simp only [read_short hshort]
    simp only [if_neg hid, hvalue]
    cases overwritten (last.map Prod.snd) rest with
    | none => nofun
    | some value =>
      apply Stuck.never
      rw [readId_of_failed rfl]
      exact ⟨rfl, fun h => hid (Option.some.inj h)⟩

/-- The bytes that are there and the upper ones of the id before make `AT_NULL`. -/
def MakesNull (rest : List Byte) (last : Option AuxvEntry) : Prop :=
  (∀ b ∈ rest, b = 0#8) ∧ ∃ e, last = some e ∧ e.1.toNat < 256 ^ rest.length

theorem overwritten_short (hshort : rest.length < 8) :
    overwritten (last.map Prod.fst) rest = some atNull ↔ MakesNull rest last := by
  unfold overwritten MakesNull
  rw [if_neg (by omega)]
  cases last with
  | none => simp
  | some e =>
    simp only [Option.map_some, Option.some.injEq, exists_eq_left']
    exact patched_eq_zero hshort

theorem readId_short (hshort : rest.length < 8) : (between rest last ret).readId =
    { between rest last ret with
      stream := ⟨[], false⟩, id := overwritten (last.map Prod.fst) rest } := by
  unfold AuxvReader.readId between
  simp only [read_short hshort]

theorem auxvLoop_cut (hshort : rest.length < 8) (h : MakesNull rest last) (n : ℕ) :
    auxvLoop (n + 1) (between rest last ret).readId = .ok ret := by
  rw [readId_short hshort, (overwritten_short hshort).mpr h]
  rfl

theorem auxvLoop_cut_stuck (hshort : rest.length < 8) (h : ¬ MakesNull rest last) (n : ℕ)
    (ret' : Auxv) : auxvLoop n (between rest last ret).readId ≠ .ok ret' := by
  rw [readId_short hshort]
  exact Stuck.never ⟨rfl, fun hnull => h ((overwritten_short hshort).mp hnull)⟩ n

theorem exists_word {bytes : List Byte} (h : 8 ≤ bytes.length) :
    ∃ (w : BitVec 64) (rest : List Byte), bytes = leBytes 8 w.toNat ++ rest := by
  refine ⟨fromBytes 8 (bytes.take 8), bytes.drop 8, ?_⟩
  have htake : (bytes.take 8).length = 8 := by
    rw [List.length_take]
    omega
  have hword := leBytes_fromBytes htake
  refine (List.take_append_drop 8 bytes).symm.trans ?_
  rw [hword]

theorem exists_entries (bytes : List Byte) : ∃ entries rest, Inner entries ∧
    bytes = vectorBytes entries ++ rest ∧ ((∃ rest', rest = nullId ++ rest') ∨
      (∃ id tail, id ≠ atNull ∧ rest = leBytes 8 id.toNat ++ tail ∧ tail.length < 8) ∨
      rest.length < 8) := by
  induction hn : bytes.length using Nat.strong_induction_on generalizing bytes with
  | _ n ih =>
    have hnil : Inner [] := by simp [Inner]
    by_cases hshort : bytes.length < 8
    · exact ⟨[], bytes, hnil, rfl, .inr (.inr hshort)⟩
    obtain ⟨id, tail, rfl⟩ := exists_word (Nat.not_lt.mp hshort)
    by_cases hid : id = atNull
    · subst hid
      exact ⟨[], _, hnil, rfl, .inl ⟨tail, rfl⟩⟩
    by_cases htail : tail.length < 8
    · exact ⟨[], _, hnil, rfl, .inr (.inl ⟨id, tail, hid, rfl, htail⟩)⟩
    obtain ⟨value, left, rfl⟩ := exists_word (Nat.not_lt.mp htail)
    have hless : left.length < n := by
      rw [← hn, List.length_append, List.length_append, leBytes_length, leBytes_length]
      omega
    obtain ⟨entries, rest, hinner, rfl, hend⟩ := ih _ hless left rfl
    refine ⟨(id, value) :: entries, rest, List.forall_mem_cons.mpr ⟨hid, hinner⟩, ?_, hend⟩
    simp [vectorBytes, entryBytes]

theorem getAuxv_complete {file : Option (List Byte)} (h : Complete file entries) (n : ℕ) :
    getAuxv (n + 1 + entries.length) file = .ok (lastValue (rekeyed auxvKey entries)) := by
  obtain ⟨hinner, rest, rfl⟩ := h
  rw [List.append_assoc, getAuxv_entries _ hinner, auxvLoop_null]

theorem getAuxv_cut {file : Option (List Byte)} (h : CutInZeros file entries) (n : ℕ) :
    getAuxv (n + 1 + entries.length) file = .ok (lastValue (rekeyed auxvKey entries)) := by
  obtain ⟨hinner, rest, rfl, hshort, hzeros, hlast⟩ := h
  rw [getAuxv_entries _ hinner, auxvLoop_cut hshort ⟨hzeros, hlast⟩]

theorem ends_of_ok {file : Option (List Byte)} {turns : ℕ}
    (h : ∀ n, turns ≤ n → getAuxv n file = .ok ret) :
    ∃ entries, Complete file entries ∨ CutInZeros file entries := by
  cases file with
  | none =>
    have hstuck : Stuck ({ stream := .ofFile none : AuxvReader }.readId) := ⟨rfl, nofun⟩
    exact absurd (h turns le_rfl) (hstuck.never turns)
  | some bytes =>
    obtain ⟨entries, rest, hinner, rfl, hend⟩ := exists_entries bytes
    have hok := h (turns + entries.length) (by omega)
    rw [getAuxv_entries turns hinner] at hok
    obtain ⟨rest', rfl⟩ | ⟨id, tail, hid, rfl, htail⟩ | hshort := hend
    · exact ⟨entries, .inl ⟨hinner, rest', by rw [List.append_assoc]⟩⟩
    · exact absurd hok (auxvLoop_no_value hid htail turns ret)
    · by_cases hnull : MakesNull rest entries.getLast?
      · exact ⟨entries, .inr ⟨hinner, rest, rfl, hshort, hnull.1, hnull.2⟩⟩
      · exact absurd hok (auxvLoop_cut_stuck hshort hnull turns ret)

/-- `get_auxv` does what it is for exactly where an id `AT_NULL` comes to be read, be it one
that the end of the file makes, and ids that do not fit an `int` do no harm. -/
theorem auxvRight_iff (file : Option (List Byte)) :
    AuxvRight file ↔ (∃ entries, Complete file entries ∨ CutInZeros file entries) ∧
      ∀ entries, Complete file entries → KeysAgree entries := by
  constructor
  · rintro ⟨ret, turns, hok, hvalues⟩
    refine ⟨ends_of_ok hok, fun entries h => ?_⟩
    have hret := (hok _ (by omega)).symm.trans (getAuxv_complete h turns)
    have hvalues' := hvalues entries h
    rw [Except.ok.inj hret] at hvalues'
    exact (lastValue_rekeyed_iff auxvKey).mp hvalues'
  · rintro ⟨⟨entries, hends⟩, hagree⟩
    have hok (n : ℕ) (hn : 1 + entries.length ≤ n) :
        getAuxv n file = .ok (lastValue (rekeyed auxvKey entries)) := by
      obtain ⟨k, rfl⟩ : ∃ k, n = k + 1 + entries.length := ⟨n - (1 + entries.length), by omega⟩
      exact hends.elim (getAuxv_complete · k) (getAuxv_cut · k)
    refine ⟨_, _, hok, fun entries' h => ?_⟩
    have hret := (hok _ (by omega)).symm.trans (getAuxv_complete h (1 + entries.length))
    rw [Except.ok.inj hret]
    exact (lastValue_rekeyed_iff auxvKey).mpr (hagree entries' h)

/-- A vector that is cut off behind its first entry is read for ever. -/
theorem auxvRight_not_for_all : ¬ ∀ file, AuxvRight file := by
  intro h
  let first : List AuxvEntry := [(3#64, 0x400040#64)]
  obtain ⟨ret, turns, hok, -⟩ := h (some (vectorBytes first))
  have hinner : Inner first := by simp [first, Inner, atNull]
  have hloop := hok (turns + first.length) (by omega)
  rw [← List.append_nil (vectorBytes first), getAuxv_entries turns hinner] at hloop
  refine auxvLoop_cut_stuck (by simp) ?_ turns ret hloop
  rintro ⟨-, e, he, hlt⟩
  obtain rfl : (3#64, 0x400040#64) = e := Option.some.inj he
  simp at hlt

end KDebugger.Process
