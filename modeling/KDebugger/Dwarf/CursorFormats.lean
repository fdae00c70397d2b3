import KDebugger.Dwarf.CursorSpec
import KDebugger.Formats

namespace KDebugger.Dwarf.Cur

open ByteStream Leb128 Exec

theorem format_u8 : Format u8 (SpelledBy (fun b => [b]) fun b => b) := by
  have h : Format u8 (SpelledBy (fun b : Byte => leBytes 1 b.toNat) fun b => b) := format_fixedInt 1
  simpa [leBytes] using h

theorem u8_ok {c c' : Cursor} {b : Byte} (h : u8 c = .ok b c') :
    c.image.read c.pos = some b ∧ c' = c.advance 1 := by
  obtain ⟨hat, rfl⟩ := fixedInt_ok h
  have hbytes : leBytes 1 b.toNat = [b] := by simp [leBytes]
  rw [hbytes] at hat
  exact ⟨hat.1, rfl⟩

theorem onward_lebGroups : ∀ (more shift : ℕ) (res : BitVec 64),
    Within Onward (lebGroups more shift res) := by
  intro more
  induction more with
  | zero => exact fun _ _ => onward.bind (onward_fixedInt 1) fun _ => onward.throw _
  | succ more ih =>
    intro shift res
    exact onward.bind (onward_fixedInt 1) fun _ => within_ite (ih _ _) (onward.pure _)

theorem blind_lebGroups : ∀ (more shift : ℕ) (res : BitVec 64),
    Blind (lebGroups more shift res) := by
  intro more
  induction more with
  | zero => exact fun _ _ => (blind_fixedInt 1).bind fun _ => blind_throw _
  | succ more ih =>
    intro shift res
    exact (blind_fixedInt 1).bind fun _ => (ih _ _).ite (blind_pure _)

theorem onlyUndefined_lebGroups : ∀ (more shift : ℕ) (res : BitVec 64),
    OnlyUndefined (lebGroups more shift res) := by
  intro more
  induction more with
  | zero =>
    refine fun _ _ => (onlyUndefined_fixedInt 1).bind fun _ c c' e h => ?_
    cases h
    rfl
  | succ more ih =>
    refine fun shift res => (onlyUndefined_fixedInt 1).bind fun byte => ?_
    dsimp only
    split
    · exact ih _ _
    · exact onlyUndefined_pure _

theorem lebGroups_ok : ∀ {more shift : ℕ} {res : BitVec 64} {c c' : Cursor}
    {r : BitVec 64 × ℕ × BitVec 8}, lebGroups more shift res c = .ok r c' →
      ∃ bs, Shaped bs ∧ bs.length ≤ more ∧ BytesAt c.image c.pos bs ∧ c' = c.advance bs.length := by
  intro more
  induction more with
  | zero =>
    intro shift res c c' r h
    obtain ⟨_, _, _, h⟩ := bind_eq_ok.mp h
    cases h
  | succ more ih =>
    intro shift res c c' r h
    obtain ⟨byte, c₁, hbyte, h⟩ := bind_eq_ok.mp h
    obtain ⟨hat, rfl⟩ := u8_ok hbyte
    by_cases hmore : byte &&& 0x80#8 ≠ 0#8
    · rw [if_pos hmore] at h
      obtain ⟨bs, hshaped, hlen, hrest, rfl⟩ := ih h
      have hhigh : 128 ≤ byte.toNat := by
        rw [Ne, and_80_eq_zero] at hmore
        omega
      refine ⟨byte :: bs, ?_, by simpa using hlen, ⟨hat, hrest⟩, ?_⟩
      · obtain ⟨b, bs', rfl⟩ := List.exists_cons_of_ne_nil hshaped.ne_nil
        exact ⟨hhigh, hshaped⟩
      · rw [Cursor.advance_advance, List.length_cons, Nat.add_comm]
    · rw [if_neg hmore] at h
      cases h
      exact ⟨[byte], (and_80_eq_zero byte).mp (not_not.mp hmore), by simp, ⟨hat, trivial⟩, rfl⟩

theorem onward_uleb128 : Within Onward uleb128 :=
  onward.bind (onward_lebGroups 10 0 0#64) fun _ => onward.pure _

theorem onward_sleb128 : Within Onward sleb128 :=
  onward.bind (onward_lebGroups 10 0 0#64) fun _ =>
    within_ite (onward.pure _) (onward.pure _)

theorem blind_uleb128 : Blind uleb128 :=
  (blind_lebGroups 10 0 0#64).bind fun _ => blind_pure _

theorem onlyUndefined_uleb128 : OnlyUndefined uleb128 :=
  (onlyUndefined_lebGroups 10 0 0#64).bind fun _ => onlyUndefined_pure _

theorem onlyUndefined_sleb128 : OnlyUndefined sleb128 := by
  refine (onlyUndefined_lebGroups 10 0 0#64).bind fun _ => ?_
  dsimp only
  split
  · exact onlyUndefined_pure _
  · exact onlyUndefined_pure _

/-- A number that is read lies at the cursor, also across the end of the area. -/
theorem uleb128_ok {c c' : Cursor} {v : BitVec 64} (h : uleb128 c = .ok v c') :
    ∃ l : Leb, BytesAt c.image c.pos l.bytes ∧ c' = c.advance l.bytes.length ∧ v = l.unsigned := by
  have hv := h
  obtain ⟨r, c₁, hr, h⟩ := bind_eq_ok.mp h
  obtain ⟨bs, hshaped, hshort, hat, rfl⟩ := lebGroups_ok hr
  cases h
  refine ⟨⟨bs, hshaped, hshort⟩, hat, rfl, ?_⟩
  rw [(reads_uleb128 ⟨bs, hshaped, hshort⟩).at_blind blind_uleb128 onward_uleb128 hat] at hv
  exact (EStateM.Result.ok.inj hv).1.symm

/-- Whatever encoding of a number lies at the cursor, the number is read and the cursor
comes to lie behind it. -/
theorem uleb128_decodes {n : BitVec 64} {bs : List Byte} (h : EncodesUnsigned n bs) {c : Cursor}
    (hat : BytesAt c.image c.pos bs) : uleb128 c = .ok n (c.advance bs.length) := by
  have hread := reads_uleb128 ⟨bs, h.shaped, h.short⟩
  have hvalue : Leb.unsigned ⟨bs, h.shaped, h.short⟩ = n := by
    rw [Leb.unsigned, h.value, BitVec.ofNat_toNat, BitVec.setWidth_eq]
  rw [hvalue] at hread
  exact hread.at_blind blind_uleb128 onward_uleb128 hat

/-- The number 300 in three groups, the last of them zero, and a byte that goes on. -/
theorem uleb128_decodes_padded : EncodesUnsigned 300#64 [0xac#8, 0x82#8, 0x00#8] ∧
    BytesAt (Image.ofList [0xac#8, 0x82#8, 0x00#8, 0xff#8]) 0 [0xac#8, 0x82#8, 0x00#8] ∧
    uleb128 ⟨Image.ofList [0xac#8, 0x82#8, 0x00#8, 0xff#8], 0, 4⟩ =
      .ok 300#64 ⟨Image.ofList [0xac#8, 0x82#8, 0x00#8, 0xff#8], 3, 4⟩ := by
  have henc : EncodesUnsigned 300#64 [0xac#8, 0x82#8, 0x00#8] :=
    encodesUnsigned_iff_spell.mpr ⟨2, by decide, by decide, rfl⟩
  have hat : BytesAt (Image.ofList [0xac#8, 0x82#8, 0x00#8, 0xff#8]) 0 [0xac#8, 0x82#8, 0x00#8] :=
    ⟨rfl, rfl, rfl, trivial⟩
  exact ⟨henc, hat, uleb128_decodes henc hat⟩

theorem format_uleb128 : Format uleb128 (SpelledBy Leb.bytes Leb.unsigned) where
  onward := onward_uleb128
  reads := by
    rintro _ _ ⟨l, rfl, rfl⟩
    exact reads_uleb128 l
  spelled := by
    intro c c' v h _
    obtain ⟨l, hat, rfl, rfl⟩ := uleb128_ok h
    exact ⟨l.bytes, ⟨l, rfl, rfl⟩, hat, rfl⟩

theorem format_sleb128 : Format sleb128 (SpelledBy Leb.bytes slebRead) where
  onward := onward_sleb128
  reads := by
    rintro _ _ ⟨l, rfl, rfl⟩
    exact reads_sleb128 l
  spelled := by
    intro c c' v h hstop
    obtain ⟨r, c₁, hr, hv⟩ := bind_eq_ok.mp h
    obtain ⟨bs, hshaped, hshort, hat, rfl⟩ := lebGroups_ok hr
    have hc' : c' = c.advance bs.length := by
      obtain ⟨res, shift, byte⟩ := r
      dsimp only at hv
      split at hv
      · cases hv
        rfl
      · cases hv
        rfl
    subst hc'
    rw [reads_sleb128 ⟨bs, hshaped, hshort⟩ c hat hstop] at h
    cases h
    exact ⟨bs, ⟨⟨bs, hshaped, hshort⟩, rfl, rfl⟩, hat, rfl⟩

theorem cString_ok {img : Image} : ∀ {fuel p : ℕ} {s : List Byte}, cString img fuel p = some s →
    0#8 ∉ s ∧ BytesAt img p (s ++ [0#8]) := by
  intro fuel
  induction fuel with
  | zero => exact fun h => nomatch h
  | succ fuel ih =>
    intro p s h
    rw [cString] at h
    cases hb : img.read p with
    | none => simp [hb] at h
    | some b =>
      simp only [hb] at h
      by_cases hzero : b = 0#8
      · subst hzero
        obtain rfl : [] = s := by simpa using h
        exact ⟨List.not_mem_nil, hb, trivial⟩
      · rw [if_neg hzero] at h
        obtain ⟨s', hs', rfl⟩ := Option.map_eq_some_iff.mp h
        obtain ⟨hnul, hat⟩ := ih hs'
        refine ⟨?_, hb, hat⟩
        rw [List.mem_cons, not_or]
        exact ⟨Ne.symm hzero, hnul⟩

theorem onlyUndefined_string : OnlyUndefined string := by
  intro c c' e h
  unfold string at h
  split_ifs at h
  · cases h
    rfl
  · split at h <;> cases h
    rfl

theorem format_string : Format string fun bs s => 0#8 ∉ s ∧ bs = s ++ [0#8] where
  onward := by
    intro c
    unfold after string
    split_ifs with hstop
    · exact onward.refl c
    · split
      · next s hs =>
        split at hs
        · cases hs
        · cases hs
          refine ⟨rfl, rfl, ?_⟩
          change c.pos ≤ min _ _ + 1
          omega
      · next e c' hs =>
        split at hs
        · cases hs
          exact onward.refl c
        · cases hs
  reads := by
    rintro _ s ⟨hs, rfl⟩
    exact reads_string hs
  spelled := by
    intro c c' s h hstop
    have hs := h
    unfold string at hs
    split_ifs at hs with hpast
    cases hview : cString c.image (c.image.size + 1) c.pos with
    | none => simp [hview] at hs
    | some s' =>
      simp only [hview, EStateM.Result.ok.injEq] at hs
      obtain ⟨rfl, rfl⟩ := hs
      obtain ⟨hnul, hat⟩ := cString_ok hview
      simp only at hstop
      refine ⟨s' ++ [0#8], ⟨hnul, rfl⟩, hat, ?_⟩
      have hfits : c.pos + (s' ++ [0#8]).length ≤ c.stop := by
        simp only [List.length_append, List.length_singleton]
        omega
      rw [reads_string hnul c hat hfits] at h
      exact (EStateM.Result.ok.inj h).2.symm

end KDebugger.Dwarf.Cur
