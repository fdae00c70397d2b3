import KDebugger.Address
import KDebugger.OrderedMap
import Mathlib.Data.List.Pairwise
import Mathlib.Data.Nat.Basic

namespace KDebugger

structure Symbol where
  name : BitVec 32
  info : BitVec 8
  value : BitVec 64
  size : BitVec 64
deriving DecidableEq, Repr

namespace Symbol

def sttTls : BitVec 8 := 6#8

/-- The symbols that `build_symbol_maps` enters by address. -/
def mapped (s : Symbol) : Bool := s.value ≠ 0#64 && s.name ≠ 0#32 && (s.info &&& 0xf#8) ≠ sttTls

def Contains (s : Symbol) (a : BitVec 64) : Prop :=
  s.value.toNat ≤ a.toNat ∧ a.toNat < s.value.toNat + s.size.toNat

instance (s : Symbol) (a : BitVec 64) : Decidable (s.Contains a) :=
  inferInstanceAs (Decidable (_ ∧ _))

theorem contains_value {s : Symbol} (h : s.size ≠ 0#64) : s.Contains s.value :=
  ⟨Nat.le_refl _, by bv_omega⟩

end Symbol

/-- An entry of `m_SymbolAddrMap`, whose addresses are all of the file itself. -/
structure SymbolRange where
  first : BitVec 64
  second : BitVec 64
  symbol : Symbol
deriving DecidableEq, Repr

def Symbol.range (s : Symbol) : SymbolRange := ⟨s.value, s.value + s.size, s⟩

def SymbolRange.start (x : SymbolRange) : ℕ := x.first.toNat

/-- `m_SymbolAddrMap`, compared by the starts of the ranges. -/
def symbolAddrMap (table : List Symbol) : List SymbolRange :=
  OrderedMap.ofList SymbolRange.start ((table.filter Symbol.mapped).map Symbol.range)

/-- `*it`, which the end of the map does not have. -/
def rangeAt (m : List SymbolRange) (it : ℕ) : Except Failure SymbolRange :=
  match m[it]? with
  | some x => .ok x
  | none => .error .undefined

def symbolContaining (self : ElfId) (m : List SymbolRange) (address : FileAddr) :
    Except Failure (Option Symbol) :=
  if address.elf ≠ some self ∨ m = [] then .ok none
  else
    -- `lower_bound`, and not the entry before it
    let it := OrderedMap.lowerBound SymbolRange.start address.addr.toNat m
    let behind : Except Failure (Option Symbol) :=
      if it = 0 then .ok none
      else do
        let x ← rangeAt m it
        pure (if x.first < address.addr ∧ address.addr < x.second then some x.symbol else none)
    match m[it]? with
    | some x => if x.first = address.addr then .ok (some x.symbol) else behind
    | none => behind

theorem symbolContaining_sound {self : ElfId} {symbols : List Symbol} {a : FileAddr} {x : Symbol}
    (h : symbolContaining self (symbolAddrMap symbols) a = .ok (some x)) :
    x ∈ symbols ∧ x.mapped ∧ x.value = a.addr := by
  have hmem {y : SymbolRange} {it : ℕ} (hy : (symbolAddrMap symbols)[it]? = some y) :
      y.symbol ∈ symbols ∧ y.symbol.mapped ∧ y.symbol.value = y.first := by
    have hin := OrderedMap.mem_of_mem_ofList (List.mem_of_getElem? hy)
    obtain ⟨s, hs, rfl⟩ := List.mem_map.mp hin
    obtain ⟨hsymbol, hmapped⟩ := List.mem_filter.mp hs
    exact ⟨hsymbol, hmapped, rfl⟩
  unfold symbolContaining at h
  by_cases hempty : a.elf ≠ some self ∨ symbolAddrMap symbols = []
  · rw [if_pos hempty] at h
    cases h
  rw [if_neg hempty] at h
  dsimp only at h
  -- the range that is looked at never starts below the address
  have hbehind {y : SymbolRange}
      (hy : (symbolAddrMap symbols)[OrderedMap.lowerBound SymbolRange.start a.addr.toNat
        (symbolAddrMap symbols)]? = some y) : ¬ y.first < a.addr := by
    have hle := OrderedMap.le_of_lowerBound hy
    exact BitVec.not_lt.mpr (BitVec.le_def.mpr hle)
  cases hbound : (symbolAddrMap symbols)[OrderedMap.lowerBound SymbolRange.start a.addr.toNat
      (symbolAddrMap symbols)]? with
  | none =>
    simp only [hbound, rangeAt] at h
    split_ifs at h
    · cases h
    · cases h
  | some y =>
    have hnot : ¬ (y.first < a.addr ∧ a.addr < y.second) := fun hboth => hbehind hbound hboth.1
    simp only [hbound, rangeAt] at h
    split_ifs at h with hstart
    · obtain rfl := Option.some.inj (Except.ok.inj h)
      obtain ⟨hsymbol, hmapped, hvalue⟩ := hmem hbound
      exact ⟨hsymbol, hmapped, hvalue.trans hstart⟩
    · cases h
    · simp [bind, Except.bind, pure, Except.pure, hnot] at h

/-- A symbol table whose mapped symbols have ranges that are not empty and do not meet. -/
structure SymbolTable where
  symbols : List Symbol
  nonempty : ∀ s ∈ symbols, s.mapped → s.size ≠ 0#64
  disjoint : (symbols.filter Symbol.mapped).Pairwise fun s t => ∀ a, ¬ (s.Contains a ∧ t.Contains a)

namespace SymbolTable

variable (T : SymbolTable)

/-- The symbol is one of those with an address. -/
def Mapped (s : Symbol) : Prop := s ∈ T.symbols ∧ s.mapped

def addrMap : List SymbolRange := symbolAddrMap T.symbols

variable {T}

theorem starts_differ : ((T.symbols.filter Symbol.mapped).map Symbol.range).Pairwise
    fun x y => x.start ≠ y.start := by
  refine List.pairwise_map.mpr (T.disjoint.imp_of_mem fun {s t} hs ht hdisjoint heq => ?_)
  have hvalue : s.value = t.value := BitVec.eq_of_toNat_eq heq
  have hs := List.mem_filter.mp hs
  have ht := List.mem_filter.mp ht
  refine hdisjoint s.value ⟨Symbol.contains_value (T.nonempty s hs.1 hs.2), ?_⟩
  rw [hvalue]
  exact Symbol.contains_value (T.nonempty t ht.1 ht.2)

theorem mem_addrMap {x : SymbolRange} : x ∈ T.addrMap ↔ ∃ s, T.Mapped s ∧ s.range = x := by
  rw [addrMap, symbolAddrMap, OrderedMap.mem_ofList starts_differ]
  simp [Mapped]

theorem range_mem_addrMap {s : Symbol} (hs : T.Mapped s) : s.range ∈ T.addrMap :=
  mem_addrMap.mpr ⟨s, hs, rfl⟩

theorem contains_unique {s t : Symbol} {a : BitVec 64} (hs : T.Mapped s) (ht : T.Mapped t)
    (hsa : s.Contains a) (hta : t.Contains a) : s = t := by
  by_contra hne
  have hsymm : Std.Symm fun s t : Symbol => ∀ a, ¬ (s.Contains a ∧ t.Contains a) :=
    ⟨fun s t h a hboth => h a hboth.symm⟩
  exact T.disjoint.forall (List.mem_filter.mpr hs) (List.mem_filter.mpr ht) hne a ⟨hsa, hta⟩

theorem symbolContaining_start {self : ElfId} {s : Symbol} (hs : T.Mapped s) :
    symbolContaining self T.addrMap ⟨some self, s.value⟩ = .ok (some s) := by
  have hmem := range_mem_addrMap hs
  have hbound : T.addrMap[OrderedMap.lowerBound SymbolRange.start s.value.toNat T.addrMap]? =
      some s.range := OrderedMap.lowerBound_of_mem (OrderedMap.ascending_ofList _) hmem
  have hne : ¬ (some self ≠ some self ∨ T.addrMap = []) := by
    rintro (h | h)
    · exact h rfl
    · rw [h] at hmem
      cases hmem
  unfold symbolContaining
  rw [if_neg hne]
  dsimp only
  rw [hbound]
  exact if_pos rfl

theorem addrMap_eq_nil : T.addrMap = [] ↔ ∀ s, ¬ T.Mapped s := by
  rw [List.eq_nil_iff_forall_not_mem]
  exact ⟨fun h s hs => h _ (range_mem_addrMap hs), fun h x hx =>
    let ⟨s, hs, _⟩ := mem_addrMap.mp hx
    h s hs⟩

theorem symbolContaining_below {self : ElfId} {a : BitVec 64}
    (hstart : ∀ s, T.Mapped s → s.value ≠ a)
    (habove : (∀ s, ¬ T.Mapped s) ∨ ∃ s, T.Mapped s ∧ a < s.value) :
    symbolContaining self T.addrMap ⟨some self, a⟩ = .ok none := by
  unfold symbolContaining
  by_cases hempty : T.addrMap = []
  · rw [if_pos (.inr hempty)]
  obtain ⟨s, hs, hlt⟩ := habove.resolve_left fun h => hempty (addrMap_eq_nil.mpr h)
  rw [if_neg (by simp [hempty])]
  dsimp only
  cases hbound : T.addrMap[OrderedMap.lowerBound SymbolRange.start a.toNat T.addrMap]? with
  | none =>
    have hbelow := OrderedMap.lowerBound_eq_end.mp hbound _ (range_mem_addrMap hs)
    exact absurd hbelow (Nat.lt_asymm (BitVec.lt_def.mp hlt))
  | some x =>
    obtain ⟨t, ht, rfl⟩ := mem_addrMap.mp (List.mem_of_getElem? hbound)
    have hle : a.toNat ≤ t.range.start := OrderedMap.le_of_lowerBound hbound
    -- the range the lower bound stands on never starts below the address
    have hnot : ¬ (t.value < a ∧ a < t.range.second) := fun h =>
      absurd (BitVec.lt_def.mp h.1) (Nat.not_lt.mpr hle)
    simp only [rangeAt, hbound]
    rw [if_neg (show t.range.first ≠ a from hstart t ht)]
    split
    · rfl
    · exact congrArg Except.ok (if_neg hnot)

theorem symbolContaining_above {self : ElfId} {a : BitVec 64} (hsome : ∃ s, T.Mapped s)
    (hall : ∀ s, T.Mapped s → s.value < a) :
    symbolContaining self T.addrMap ⟨some self, a⟩ = .error .undefined := by
  have hempty : T.addrMap ≠ [] := fun h =>
    let ⟨s, hs⟩ := hsome
    addrMap_eq_nil.mp h s hs
  have hbound : T.addrMap[OrderedMap.lowerBound SymbolRange.start a.toNat T.addrMap]? = none := by
    refine OrderedMap.lowerBound_eq_end.mpr fun x hx => ?_
    obtain ⟨s, hs, rfl⟩ := mem_addrMap.mp hx
    exact BitVec.lt_def.mp (hall s hs)
  have hpos : OrderedMap.lowerBound SymbolRange.start a.toNat T.addrMap ≠ 0 := by
    intro hzero
    rw [hzero, List.getElem?_eq_none_iff, Nat.le_zero, List.length_eq_zero_iff] at hbound
    exact hempty hbound
  unfold symbolContaining
  rw [if_neg (by simp [hempty])]
  simp only [rangeAt, hbound]
  rw [if_neg hpos]
  rfl

/-- The answer is the symbol around the address, or nothing where there is none. -/
def Answers (T : SymbolTable) (self : ElfId) (a : BitVec 64) : Prop :=
  ∃ r, symbolContaining self T.addrMap ⟨some self, a⟩ = .ok r ∧
    ∀ s, r = some s ↔ T.Mapped s ∧ s.Contains a

/-- The lookup answers at the start of a symbol, and where no symbol is around the address
unless all symbols start below it. -/
theorem answers_iff (T : SymbolTable) (self : ElfId) (a : BitVec 64) :
    T.Answers self a ↔
      (∃ s, T.Mapped s ∧ s.value = a) ∨
      ((∀ s, T.Mapped s → ¬ s.Contains a) ∧
        ((∀ s, ¬ T.Mapped s) ∨ ∃ s, T.Mapped s ∧ a < s.value)) := by
  by_cases hstart : ∃ s, T.Mapped s ∧ s.value = a
  · obtain ⟨s, hs, rfl⟩ := hstart
    refine iff_of_true ⟨some s, symbolContaining_start hs, fun t => ?_⟩ (.inl ⟨s, hs, rfl⟩)
    have hsa := Symbol.contains_value (T.nonempty s hs.1 hs.2)
    exact ⟨fun h => Option.some.inj h ▸ ⟨hs, hsa⟩, fun h => congrArg some
      (contains_unique hs h.1 hsa h.2)⟩
  have hother : ∀ s, T.Mapped s → s.value ≠ a := fun s hs h => hstart ⟨s, hs, h⟩
  rw [or_iff_right hstart]
  by_cases habove : (∀ s, ¬ T.Mapped s) ∨ ∃ s, T.Mapped s ∧ a < s.value
  · rw [and_iff_left habove, Answers, symbolContaining_below hother habove]
    constructor
    · rintro ⟨r, hr, hs⟩ s hmapped hsa
      cases hr
      cases (hs s).mpr ⟨hmapped, hsa⟩
    · exact fun hnone => ⟨none, rfl, fun s => iff_of_false nofun fun h => hnone s h.1 h.2⟩
  · obtain ⟨hsome, hall⟩ := not_or.mp habove
    have hbelow : ∀ s, T.Mapped s → s.value < a := fun s hs => by
      have hle : ¬ a < s.value := fun h => hall ⟨s, hs, h⟩
      have hne := hother s hs
      bv_omega
    rw [Answers, symbolContaining_above (by simpa using hsome) hbelow]
    exact iff_of_false (fun ⟨_, h, _⟩ => nomatch h) fun h => habove h.2

def single : SymbolTable where
  symbols := [⟨1#32, 2#8, 0x1000#64, 16#64⟩]
  nonempty := by decide
  disjoint := List.pairwise_singleton _ _

theorem not_answers_everywhere :
    ¬ ∀ (T : SymbolTable) (self : ElfId) (a : BitVec 64), T.Answers self a := by
  intro h
  obtain ⟨r, hr, -⟩ := h single 0 0x1004#64
  have hend : symbolContaining 0 single.addrMap ⟨some 0, 0x1004#64⟩ = .error .undefined := by
    decide
  rw [hend] at hr
  cases hr

end SymbolTable
end KDebugger
