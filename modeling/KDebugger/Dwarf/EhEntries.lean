import KDebugger.Dwarf.EhRows

namespace KDebugger.Dwarf

open ByteStream Leb128 Exec Cur

/-- A letter of an augmentation string behind `z`, with its data. -/
inductive AugmentationLetter where
  | fdeEncoding (encoding : Byte)
  | lsda (encoding : Byte)
  | personality (encoding : Byte) (pointer : EhOperand)

namespace AugmentationLetter

/-- `R`, `L` and `P`. -/
def letter : AugmentationLetter → Byte
  | fdeEncoding _ => 0x52 | lsda _ => 0x4c | personality _ _ => 0x50

theorem letter_ne_zero (l : AugmentationLetter) : l.letter ≠ 0#8 := by
  cases l <;> exact nofun

def bytes : AugmentationLetter → List Byte
  | fdeEncoding encoding | lsda encoding => [encoding]
  | personality encoding pointer => [encoding] ++ pointer.bytes

def encoding? : AugmentationLetter → Option Byte
  | fdeEncoding encoding => some encoding
  | _ => none

/-- The decoder has a case for the encoding, of fixed size. -/
def Handled : AugmentationLetter → Prop
  | fdeEncoding encoding => ∃ (format : EhFormat) (base : EhBase), format.width.isSome ∧
      format.code = encoding &&& 0x0f#8 ∧ base.code = encoding &&& 0x70#8
  | lsda _ => True
  | personality encoding pointer => pointer.format.width.isSome ∧
      pointer.format.code = encoding &&& 0x0f#8

end AugmentationLetter

open AugmentationLetter

/-- What a `z` announces: the length of the data of the letters. -/
structure Augmentation where
  length : Uleb
  letters : List AugmentationLetter
  distinct : (letters.map letter).Nodup
  handled : ∀ l ∈ letters, l.Handled
  measured : length.value = (letters.flatMap bytes).length

/-- The last letter `R` gives the encoding. -/
theorem reads_parseAugmentation {letters : List AugmentationLetter} :
    ∀ {encoding : Byte}, (letters.map letter).Nodup → (∀ l ∈ letters, l.Handled) →
      Reads (parseAugmentation (letters.map letter) encoding) (letters.flatMap bytes)
        ((letters.findSome? encoding?).getD encoding) := by
  induction letters with
  | nil => exact fun _ _ => reads_pure _
  | cons l ls ih =>
    intro encoding hdistinct hhandled
    obtain ⟨hnew, hrest⟩ := List.nodup_cons.mp hdistinct
    obtain ⟨hl, hls⟩ := List.forall_mem_cons.mp hhandled
    cases l with
    | fdeEncoding e =>
      -- no other letter changes the encoding again
      have hnone : ls.findSome? encoding? = none := by
        refine List.findSome?_eq_none_iff.mpr fun l hl => ?_
        cases l with
        | fdeEncoding e' => exact absurd (List.mem_map_of_mem hl) hnew
        | lsda _ | personality _ _ => rfl
      have h := @ih e hrest hls
      rw [hnone] at h
      exact reads_bind (reads_u8 e) h
    | lsda e => exact reads_bind (reads_u8 e) (ih hrest hls)
    | personality e pointer =>
      have hpointer : Reads (parseEhFramePointerWithBase e 0#64) pointer.bytes _ :=
        reads_parseEhFramePointerWithBase hl.2
      change Reads _ (([e] ++ pointer.bytes) ++ ls.flatMap bytes) _
      rw [List.append_assoc]
      exact reads_bind (reads_u8 e) (reads_bind hpointer (ih hrest hls))

/-- The versions, with the register of the return address. -/
inductive CieVersion where
  | one (register : Byte)
  | three (register : Uleb)
  | four (register : Uleb)

namespace CieVersion

def code : CieVersion → Byte
  | one _ => 1 | three _ => 3 | four _ => 4

def sizes : CieVersion → List Byte
  | four _ => [8#8, 0#8]
  | _ => []

def registerBytes : CieVersion → List Byte
  | one register => [register]
  | three register | four register => register.bytes

theorem code_accepted (v : CieVersion) : v.code = 1#8 ∨ v.code = 3#8 ∨ v.code = 4#8 := by
  cases v with
  | one _ => exact .inl rfl
  | three _ => exact .inr (.inl rfl)
  | four _ => exact .inr (.inr rfl)

theorem reads_checkSizes (v : CieVersion) : Reads (checkSizes v.code) v.sizes () := by
  cases v with
  | one _ | three _ => exact reads_pure ()
  | four _ => exact reads_bind (reads_u8 8#8) (reads_bind (reads_u8 0#8) (reads_pure ()))

theorem readsAt_register {α : Type} {start : ℕ} {f : BitVec 64 → Reader α} {bs : List Byte} {a : α}
    (v : CieVersion) (hf : ∀ r, ReadsAt (start + v.registerBytes.length) (f r) bs a) :
    ReadsAt start (if v.code = 1#8 then do
        let r ← (do let r ← u8; pure (r.setWidth 64))
        f r
      else do
        let r ← uleb128
        f r) (v.registerBytes ++ bs) a := by
  cases v with
  | one register =>
    exact readsAt_bind (reads_map (BitVec.setWidth 64) (reads_u8 register)) (hf _)
  | three register | four register =>
    exact readsAt_bind (reads_uleb128 register.toLeb) (hf _)

end CieVersion

theorem toNat_add_four {length : BitVec 32} (h : length.toNat < 2 ^ 32 - 4) :
    (length + 4#32).toNat = length.toNat + 4 := by
  rw [BitVec.toNat_add, BitVec.toNat_ofNat]
  omega

structure CieFields where
  length : BitVec 32
  version : CieVersion
  augmentation : Option Augmentation
  codeAlignment : Uleb
  dataAlignment : Sleb
  instructions : List Byte

namespace CieFields

variable (e : CieFields)

def augmentationString : List Byte :=
  e.augmentation.elim [] fun a => 0x7a#8 :: a.letters.map letter

def augmentationData : List Byte :=
  e.augmentation.elim [] fun a => a.length.bytes ++ a.letters.flatMap bytes

/-- Without `R` the pointers are `udata8`. -/
def encoding : Byte :=
  ((e.augmentation.elim [] Augmentation.letters).findSome? encoding?).getD 0x04#8

/-- From the id, which is 0, to the instructions. -/
def head : List Byte :=
  leBytes 4 (0#32).toNat ++ ([e.version.code] ++ ((e.augmentationString ++ [0#8]) ++
    (e.version.sizes ++ (e.codeAlignment.bytes ++ (e.dataAlignment.bytes ++
      (e.version.registerBytes ++ e.augmentationData))))))

def bytes : List Byte := leBytes 4 e.length.toNat ++ (e.head ++ e.instructions)

end CieFields

/-- A CIE with a data alignment factor of one byte, padded or not. -/
structure EncodedCie extends CieFields where
  small : -64 ≤ dataAlignment.value ∧ dataAlignment.value ≤ 63
  sized : length.toNat = (toCieFields.head ++ instructions).length
  bounded : length.toNat < 2 ^ 32 - 4

namespace EncodedCie

variable (e : EncodedCie)

def entry (p : ℕ) : CommonInformationEntry where
  codeAlignmentFactor := e.codeAlignment.unsigned
  dataAlignmentFactor := e.dataAlignment.signed
  fdePointerEncoding := e.encoding
  instructions := ⟨p + (4 + e.head.length), p + e.bytes.length⟩
  length := e.length + 4#32
  fdeHasAugmentation := e.augmentation.isSome

def decoded (p : ℕ) : CommonInformationEntry :=
  { e.entry p with dataAlignmentFactor := slebRead e.dataAlignment.toLeb }

theorem length_bytes : (e.length + 4#32).toNat = e.bytes.length := by
  rw [toNat_add_four e.bounded, e.sized]
  simp only [CieFields.bytes, List.length_append, leBytes_length]
  omega

theorem encoding_fixed : ∃ format : EhFormat, format.width.isSome ∧
    format.code = e.encoding &&& 0x0f#8 := by
  unfold CieFields.encoding
  cases hfind : (e.augmentation.elim [] Augmentation.letters).findSome? encoding? with
  | none => exact ⟨.udata8, rfl, rfl⟩
  | some encoding =>
    obtain ⟨l, hl, hencoding⟩ := List.exists_of_findSome?_eq_some hfind
    cases haugmentation : e.augmentation with
    | none =>
      rw [haugmentation] at hl
      exact absurd hl List.not_mem_nil
    | some a =>
      rw [haugmentation] at hl
      have hhandled := a.handled l hl
      cases l with
      | fdeEncoding encoding' =>
        obtain rfl := Option.some.inj hencoding
        obtain ⟨format, -, hwidth, hcode, -⟩ := hhandled
        exact ⟨format, hwidth, hcode⟩
      | lsda _ | personality _ _ => cases hencoding

theorem decoded_eq_value {op : EhOperand} (h : op.format.code = e.encoding &&& 0x0f#8) :
    op.decoded = op.value := by
  obtain ⟨format, hwidth, hcode⟩ := e.encoding_fixed
  have hformat : op.format = format := by
    have hsame := congrArg EhFormat.ofCode (h.trans hcode.symm)
    rwa [EhFormat.ofCode_code, EhFormat.ofCode_code, Option.some.injEq] at hsame
  obtain ⟨n, hn⟩ := Option.isSome_iff_exists.mp hwidth
  exact EhOperand.decoded_of_width (hformat ▸ hn)

theorem zero_not_mem_augmentationString : 0#8 ∉ e.augmentationString := by
  unfold CieFields.augmentationString
  cases e.augmentation with
  | none => exact List.not_mem_nil
  | some a =>
    simp only [Option.elim_some, List.mem_cons, List.mem_map, not_or, not_exists, not_and]
    exact ⟨by decide, fun l _ => l.letter_ne_zero⟩

theorem augmentationString_accepted :
    ¬ (e.augmentationString ≠ [] ∧ e.augmentationString.head? ≠ some 0x7a#8) := by
  unfold CieFields.augmentationString
  cases e.augmentation with
  | none => exact fun h => h.1 rfl
  | some a => exact fun h => h.2 rfl

theorem isEmpty_augmentationString : (!e.augmentationString.isEmpty) = e.augmentation.isSome := by
  unfold CieFields.augmentationString
  cases e.augmentation <;> rfl

theorem reads_augmentation :
    Reads (parseAugmentation e.augmentationString 0x04#8) e.augmentationData e.encoding := by
  unfold CieFields.augmentationString CieFields.augmentationData CieFields.encoding
  cases e.augmentation with
  | none => exact reads_pure _
  | some a =>
    exact reads_bind (reads_uleb128 a.length.toLeb) (reads_parseAugmentation a.distinct a.handled)

theorem readsAt_entry {p pos : ℕ} (hpos : pos = p + (4 + e.head.length)) :
    ReadsAt pos (pure
      { codeAlignmentFactor := e.codeAlignment.unsigned
        dataAlignmentFactor := slebRead e.dataAlignment.toLeb
        fdePointerEncoding := e.encoding
        instructions := ⟨pos, p + (e.length + 4#32).toNat⟩
        length := e.length + 4#32
        fdeHasAugmentation := !e.augmentationString.isEmpty }) [] (e.decoded p) := by
  rw [e.length_bytes, e.isEmpty_augmentationString, hpos]
  exact readsAt_pure _ _

theorem readsAt_parseCie (p : ℕ) :
    ReadsAt p parseCie (leBytes 4 e.length.toNat ++ e.head) (e.decoded p) := by
  refine readsAt_position (readsAt_bind (reads_u32 e.length) (readsAt_bind (reads_u32 0#32)
    (readsAt_bind (reads_u8 e.version.code) ?_)))
  rw [if_neg (not_not.mpr e.version.code_accepted)]
  refine readsAt_bind (reads_string e.zero_not_mem_augmentationString) ?_
  rw [if_neg e.augmentationString_accepted]
  refine readsAt_bind e.version.reads_checkSizes (readsAt_bind (reads_uleb128 e.codeAlignment.toLeb)
    (readsAt_bind (reads_sleb128 e.dataAlignment.toLeb) (e.version.readsAt_register fun r => ?_)))
  rw [← List.append_nil e.augmentationData]
  refine readsAt_bind e.reads_augmentation (readsAt_position (e.readsAt_entry ?_))
  simp only [CieFields.head, List.length_append, leBytes_length]
  omega

end EncodedCie

/-- The fields of an FDE, whose pointers have the encoding of its CIE. -/
structure FdeFields where
  length : BitVec 32
  ciePointer : BitVec 32
  base : EhBase
  location : EhOperand
  range : EhOperand
  augmentation : List Byte
  instructions : List Byte

namespace FdeFields

variable (d : FdeFields)

def head : List Byte :=
  leBytes 4 d.ciePointer.toNat ++ (d.location.bytes ++ (d.range.bytes ++ d.augmentation))

def bytes : List Byte := leBytes 4 d.length.toNat ++ (d.head ++ d.instructions)

/-- With `z` there are bytes with their length in front. -/
def Augmented (has : Bool) : Prop :=
  if has then ∃ (l : Leb) (bs : List Byte), bs.length = l.unsigned.toNat ∧
    d.augmentation = l.bytes ++ bs
  else d.augmentation = []

def decoded (F : EhFile) (p : ℕ) (cie : CommonInformationEntry) : FrameDescriptionEntry where
  cie := cie.toCie
  initialLocation := ⟨some F.dw.elf, (EhBases.mk (BitVec.ofNat 64 (p + 8))
    ((F.sectionStart ".text").getD 0#64) 0#64 0#64).of d.base + d.location.decoded⟩
  addressRange := d.range.decoded
  instructions := ⟨p + (4 + d.head.length), p + (d.length + 4#32).toNat⟩
  length := d.length + 4#32

variable {d}

theorem reads_skipAugmentation {cie : CommonInformationEntry} (h : d.Augmented cie.fdeHasAugmentation) :
    Reads (skipAugmentation cie) d.augmentation () := by
  unfold Augmented at h
  unfold skipAugmentation
  split_ifs at h with hhas
  · obtain ⟨l, bs, hlength, haugmentation⟩ := h
    rw [if_pos hhas, haugmentation]
    exact reads_bind (reads_uleb128 l) (reads_skip_of_length hlength)
  · rw [if_neg hhas, h]
    exact reads_pure ()

theorem readsAt_parseFde {F : EhFile} {map map' : CieMap} {cie : CommonInformationEntry} {p : ℕ}
    (hbase : d.base.code = cie.fdePointerEncoding &&& 0x70#8)
    (hlocation : d.location.format.code = cie.fdePointerEncoding &&& 0x0f#8)
    (hrange : d.range.format.code = cie.fdePointerEncoding &&& 0x0f#8)
    (haugmented : d.Augmented cie.fdeHasAugmentation)
    (hcie : F.getCie map (BitVec.ofNat 64 (p + 4) - d.ciePointer.signExtend 64) = .ok (cie, map')) :
    ReadsAt p (F.parseFde map) (leBytes 4 d.length.toNat ++ d.head) (d.decoded F p cie, map') := by
  have hfound : Reads (ofExcept (.ok (cie, map'))) [] (cie, map') := gives_ofExcept (.ok _)
  refine readsAt_position (readsAt_bind (reads_u32 d.length) (readsAt_position
    (readsAt_bind (reads_u32 d.ciePointer) ?_)))
  simp only [leBytes_length, hcie]
  rw [← List.nil_append (d.location.bytes ++ _)]
  refine readsAt_bind hfound (readsAt_position (readsAt_bind (reads_parseEhFramePointer hbase hlocation)
    (readsAt_bind (reads_parseEhFramePointerWithBase hrange) ?_)))
  rw [← List.append_nil d.augmentation]
  refine readsAt_bind (reads_skipAugmentation haugmented) (readsAt_position ?_)
  have hend : p + 4 + 4 + ([] : List Byte).length + d.location.bytes.length + d.range.bytes.length +
      d.augmentation.length = p + (4 + d.head.length) := by
    simp only [head, List.length_append, leBytes_length, List.length_nil]
    omega
  rw [hend, BitVec.zero_add]
  exact readsAt_pure _ _

end FdeFields

end KDebugger.Dwarf
