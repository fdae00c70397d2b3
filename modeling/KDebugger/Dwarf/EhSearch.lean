import KDebugger.Bisection
import KDebugger.Dwarf.EhFrame

namespace KDebugger.Dwarf

open Exec Bisection

def middleRow (low high : ℕ) : ℕ := (low + high) % 2 ^ 64 / 2

theorem middleRow_eq {low high : ℕ} (h : low + high < 2 ^ 64) :
    middleRow low high = (low + high) / 2 := by
  rw [middleRow, Nat.mod_eq_of_lt h]

def rowOrder (x v : BitVec 64) : Ordering := if v < x then .lt else if x < v then .gt else .eq

def comparedRows (entry : ℕ → Except Failure (BitVec 64)) (x : BitVec 64) (i : ℕ) :
    Except Failure Ordering :=
  (entry i).map (rowOrder x)

/-- What the ends of the loop are to `operator []`. -/
def searchResult : SearchEnd Failure → Except Failure ℕ
  | .row k => .ok k
  | .before => .error (.raised "Address not found in eh_hdr")
  | .failed e => .error e

abbrev Searches (entry : ℕ → Except Failure (BitVec 64)) (x : BitVec 64) :
    ℕ → ℕ → List ℕ → SearchEnd Failure → Prop :=
  Bisects middleRow (comparedRows entry x)

variable {entry : ℕ → Except Failure (BitVec 64)} {x : BitVec 64}

theorem rowOrder_eq_lt {v : BitVec 64} : rowOrder x v = .lt ↔ v < x := by
  unfold rowOrder
  split_ifs <;> simp_all

theorem rowOrder_eq_gt {v : BitVec 64} : rowOrder x v = .gt ↔ x < v := by
  unfold rowOrder
  split_ifs with h
  · simpa using BitVec.le_of_lt h
  · simpa using ‹x < v›
  · simpa using ‹¬ x < v›

theorem searchRows_turn {fuel low high : ℕ} (hle : low ≤ high) :
    searchRows entry x (fuel + 1) low high =
      match comparedRows entry x (middleRow low high) with
      | .error e => .error e
      | .ok .lt => searchRows entry x fuel (middleRow low high + 1) high
      | .ok .gt =>
        if middleRow low high = 0 then .error (.raised "Address not found in eh_hdr")
        else searchRows entry x fuel low (middleRow low high - 1)
      | .ok .eq => .ok (middleRow low high) := by
  have hmiddle : (low + high) % 2 ^ 64 / 2 = middleRow low high := rfl
  rw [searchRows, if_pos hle]
  unfold comparedRows rowOrder
  simp only [hmiddle]
  cases hentry : entry (middleRow low high) with
  | error e => rfl
  | ok v =>
    simp only [bind, Except.bind, Except.map]
    split_ifs <;> rfl

theorem searchRows_of_searches {low high fuel : ℕ} {reads : List ℕ} {r : SearchEnd Failure}
    (h : Searches entry x low high reads r) (hfuel : reads.length < fuel) :
    searchRows entry x fuel low high = searchResult r := by
  -- by induction on the search, a turn of the loop for a step of it
  induction h generalizing fuel with
  | empty hlt =>
    obtain ⟨fuel, rfl⟩ : ∃ k, fuel = k + 1 := ⟨fuel - 1, by omega⟩
    rw [searchRows, if_neg (Nat.not_le.mpr hlt)]
    rfl
  | failed hle he | found hle he =>
    obtain ⟨fuel, rfl⟩ : ∃ k, fuel = k + 1 := ⟨fuel - 1, by omega⟩
    rw [searchRows_turn hle, he]
    rfl
  | before hle he hzero =>
    obtain ⟨fuel, rfl⟩ : ∃ k, fuel = k + 1 := ⟨fuel - 1, by omega⟩
    rw [searchRows_turn hle, he]
    exact if_pos hzero
  | upper hle he rest ih =>
    rw [List.length_cons] at hfuel
    obtain ⟨fuel, rfl⟩ : ∃ k, fuel = k + 1 := ⟨fuel - 1, by omega⟩
    rw [searchRows_turn hle, he]
    exact ih (by omega)
  | lower hle he hpos rest ih =>
    rw [List.length_cons] at hfuel
    obtain ⟨fuel, rfl⟩ : ∃ k, fuel = k + 1 := ⟨fuel - 1, by omega⟩
    rw [searchRows_turn hle, he]
    exact (if_neg hpos).trans (ih (by omega))

theorem EhHdr.find_of_searches {F : EhFile} {h : EhHdr} {text : BitVec 64} {size : ℕ}
    (htext : F.sectionStart ".text" = some text)
    (hsize : ehFramePointerEncodingSize h.encoding = .ok size) (elf : ElfId) {reads : List ℕ}
    {r : SearchEnd Failure}
    (hs : Searches (h.rowAddress F text size) x 0 (h.count - 1#64).toNat reads r)
    (hlength : reads.length ≤ (h.count - 1#64).toNat + 1) :
    h.find F ⟨some elf, x⟩ =
      (searchResult r).bind fun row => (h.rowOffset F text size row).map BitVec.toNat := by
  have hsearch := searchRows_of_searches hs (Nat.lt_succ_of_le hlength)
  unfold EhHdr.find
  rw [htext]
  simp only [hsize, hsearch, bind, Except.bind]
  cases searchResult r with
  | error e => rfl
  | ok row => cases h.rowOffset F text size row <;> rfl

/-- The loop over `count` rows ends, and every row it reads or returns is one of them. -/
def StaysBelow (count : BitVec 64) (entry : ℕ → Except Failure (BitVec 64)) (x : BitVec 64) : Prop :=
  ∃ reads r, Searches entry x 0 (count - 1#64).toNat reads r ∧ (∀ i ∈ reads, i < count.toNat) ∧
    ∀ k, r = .row k → k < count.toNat

theorem exists_searches (entry : ℕ → Except Failure (BitVec 64)) (x : BitVec 64) {high : ℕ}
    (hhigh : high < 2 ^ 63) : ∃ reads r, Searches entry x 0 high reads r ∧
      (∀ i ∈ reads, i ≤ high) ∧ (∀ k, r = .row k → k ≤ high) ∧ reads.length ≤ high + 1 := by
  refine exists_bisects (fun low h hle htop => ?_) _ (high + 1) (by omega)
    (Nat.le_refl high)
  rw [middleRow_eq (by omega)]
  omega

/-- Where the last row is `2 ^ 63` or more and all rows are below the address, the bounds
never meet. -/
theorem not_searches_below {low high : ℕ} {reads : List ℕ} {r : SearchEnd Failure}
    (hhigh : 2 ^ 63 ≤ high) (hle : low ≤ high)
    (h : Searches (fun _ => .ok 0#64) 1#64 low high reads r) : False := by
  have hlt : ∀ i, comparedRows (fun _ => .ok 0#64) 1#64 i = .ok .lt := fun _ => rfl
  induction h with
  | empty h => omega
  | failed h he | found h he | before h he | lower h he =>
    rw [hlt] at he
    cases he
  | @upper low high _ _ h _ _ ih =>
    refine ih hhigh ?_
    have hmiddle : middleRow low high < 2 ^ 63 := by
      unfold middleRow
      omega
    omega

/-- Whatever the rows hold, the search stays among them if and only if there are some, and
no more than `2 ^ 63`. -/
theorem staysBelow_iff (count : BitVec 64) :
    (∀ entry x, StaysBelow count entry x) ↔ 0#64 < count ∧ count ≤ 0x8000000000000000#64 := by
  constructor
  · intro h
    obtain ⟨reads, r, hsearch, hreads, -⟩ := h (fun _ => .ok 0#64) 1#64
    have hmem := hreads _ (hsearch.middle_mem (Nat.zero_le _))
    have hpos : 0 < count.toNat := by omega
    refine ⟨BitVec.lt_def.mpr hpos, ?_⟩
    by_contra hlarge
    refine not_searches_below ?_ (Nat.zero_le _) hsearch
    bv_omega
  · rintro ⟨hpos, hle⟩ entry x
    have hhigh : (count - 1#64).toNat < 2 ^ 63 := by bv_omega
    obtain ⟨reads, r, hsearch, hreads, hrow, -⟩ := exists_searches entry x hhigh
    have hlast : (count - 1#64).toNat < count.toNat := by bv_omega
    exact ⟨reads, r, hsearch, fun i hi => Nat.lt_of_le_of_lt (hreads i hi) hlast,
      fun k hk => Nat.lt_of_le_of_lt (hrow k hk) hlast⟩

def emptyFile : EhFile where
  dw := {
    elf := 0
    image := .ofList [1#8, 0x1b#8, 0x03#8, 0x3b#8, 0#8, 0#8, 0#8, 0#8, 0#8, 0#8, 0#8, 0#8]
    getSectionContents name := if name = ".eh_frame_hdr" then some ⟨0, 12⟩ else none
    compileUnits := [] }
  sectionStart name :=
    if name = ".eh_frame_hdr" then some 0#64 else if name = ".text" then some 0x1000#64 else none

/-- In a table without rows the first row that is read is number `2 ^ 63 - 1`. -/
theorem staysBelow_not_for_all : ¬ ∀ (F : EhFile) (h : EhHdr) (text : BitVec 64) (size : ℕ),
    F.parseEhHdr = .ok h → F.sectionStart ".text" = some text →
      ehFramePointerEncodingSize h.encoding = .ok size →
        ∀ x, StaysBelow h.count (h.rowAddress F text size) x := by
  intro h
  obtain ⟨reads, r, hsearch, hreads, -⟩ :=
    h emptyFile ⟨0, 12, 0#64, 0x3b#8⟩ 0x1000#64 4 rfl rfl rfl 0x1000#64
  exact Nat.not_lt_zero _ (hreads _ (hsearch.middle_mem (Nat.zero_le _)))

end KDebugger.Dwarf
