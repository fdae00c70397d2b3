import KDebugger.Dwarf.CallFrame

namespace KDebugger.Dwarf

open ByteStream Exec Cur

structure CommonInformationEntry extends Cie where
  length : BitVec 32
  fdeHasAugmentation : Bool

structure FrameDescriptionEntry extends Fde where
  length : BitVec 32

/-- `m_CieMap`, whose keys have 32 bits. -/
abbrev CieMap := List (BitVec 32 × CommonInformationEntry)

/-- `eh_hdr`, its pointers as positions in the file. -/
structure EhHdr where
  start : ℕ
  searchTable : ℕ
  count : BitVec 64
  encoding : Byte
deriving DecidableEq, Repr

structure EhFile where
  dw : DwarfInfo
  /-- `get_section_start_address` -/
  sectionStart : String → Option (BitVec 64)

def parseAugmentation : List Byte → Byte → Reader Byte
  | [], encoding => pure encoding
  | c :: cs, encoding =>
    if c = 0x7a#8 then do
      let _ ← uleb128
      parseAugmentation cs encoding
    else if c = 0x52#8 then do
      let encoding ← u8
      parseAugmentation cs encoding
    else if c = 0x4c#8 then do
      let _ ← u8
      parseAugmentation cs encoding
    else if c = 0x50#8 then do
      let personality ← u8
      let _ ← parseEhFramePointerWithBase personality 0#64
      parseAugmentation cs encoding
    else throw (.raised "Invalid CIE augmentation")

def checkSizes (version : Byte) : Reader Unit :=
  if version = 4#8 then do
    let addressSize ← u8
    let segmentSize ← u8
    if addressSize ≠ 8#8 then throw (.raised "Invalid address size")
    else if segmentSize ≠ 0#8 then throw (.raised "Invalid segment size")
    else pure ()
  else pure ()

def parseCie : Reader CommonInformationEntry := do
  let start ← position
  let length ← u32
  let length := length + 4#32
  let _ ← u32
  let version ← u8
  if ¬ (version = 1#8 ∨ version = 3#8 ∨ version = 4#8) then throw (.raised "Invalid CIE version")
  else
    let augmentation ← Cur.string
    if augmentation ≠ [] ∧ augmentation.head? ≠ some 0x7a#8 then
      throw (.raised "Invalid CIE augmentation")
    else
      checkSizes version
      let codeAlignmentFactor ← uleb128
      let dataAlignmentFactor ← sleb128
      let _ ← if version = 1#8 then (do let r ← u8; pure (r.setWidth 64)) else uleb128
      let fdePointerEncoding ← parseAugmentation augmentation 0x04#8
      let pos ← position
      pure { codeAlignmentFactor, dataAlignmentFactor, fdePointerEncoding,
             instructions := ⟨pos, start + length.toNat⟩, length,
             fdeHasAugmentation := !augmentation.isEmpty }

def skipAugmentation (cie : CommonInformationEntry) : Reader Unit :=
  if cie.fdeHasAugmentation then do
    let augmentationLength ← uleb128
    skip augmentationLength.toNat
  else pure ()

namespace EhFile

def sectionEnd (F : EhFile) (name : String) : ℕ := (F.dw.getSectionContents name).elim 0 Span.last

def getCie (F : EhFile) (map : CieMap) (offset : BitVec 64) :
    Except Failure (CommonInformationEntry × CieMap) :=
  -- kept under the low 32 bits of the offset
  match map.lookup (offset.setWidth 32) with
  | some cie => .ok (cie, map)
  | none => do
    let cie ← outcome parseCie ⟨F.dw.image, offset.toNat, F.sectionEnd ".eh_frame"⟩
    pure (cie, map ++ [(offset.setWidth 32, cie)])

/-- `parse_fde`: what is relative to the data section is relative to nothing. -/
def parseFde (F : EhFile) (map : CieMap) : Reader (FrameDescriptionEntry × CieMap) := do
  let start ← position
  let length ← u32
  let length := length + 4#32
  let current ← position
  let ciePointer ← u32
  -- the distance is taken for a signed number
  let cieOffset := BitVec.ofNat 64 current - ciePointer.signExtend 64
  let (cie, map) ← ofExcept (F.getCie map cieOffset)
  let current ← position
  let textSectionStart := (F.sectionStart ".text").getD 0#64
  let initialLocation ← parseEhFramePointer cie.fdePointerEncoding
    ⟨BitVec.ofNat 64 current, textSectionStart, 0#64, 0#64⟩
  let addressRange ← parseEhFramePointerWithBase cie.fdePointerEncoding 0#64
  skipAugmentation cie
  let pos ← position
  pure ({ cie := cie.toCie, initialLocation := ⟨some F.dw.elf, initialLocation⟩, addressRange,
          instructions := ⟨pos, start + length.toNat⟩, length }, map)

end EhFile

/-- `parse_eh_hdr`; its addresses are those of sections that must be there. -/
def parseEhHdrAt : Reader EhHdr := do
  let start ← position
  let _ ← u8
  let ehFramePtrEnc ← u8
  let fdeCountEnc ← u8
  let tableEnc ← u8
  let _ ← parseEhFramePointerWithBase ehFramePtrEnc 0#64
  let fdeCount ← parseEhFramePointerWithBase fdeCountEnc 0#64
  let searchTable ← position
  pure { start, searchTable, count := fdeCount, encoding := tableEnc }

def EhFile.parseEhHdr (F : EhFile) : Except Failure EhHdr :=
  match F.sectionStart ".eh_frame_hdr", F.sectionStart ".text" with
  | some _, some _ =>
    match F.dw.getSectionContents ".eh_frame_hdr" with
    | none => .error .undefined
    | some contents => outcome parseEhHdrAt ⟨F.dw.image, contents.first, contents.last⟩
  | _, _ => .error .undefined

def ehFramePointerEncodingSize (encoding : Byte) : Except Failure ℕ :=
  match EhFormat.ofCode (encoding &&& 0x7#8) with
  | some .absptr => .ok 8
  | some .udata2 => .ok 2
  | some .udata4 => .ok 4
  | some .udata8 => .ok 8
  | _ => .error (.raised "Invalid pointer encoding")

/-- The loop of `eh_hdr::operator []`: the row of the address, or the last one before it. -/
def searchRows (entry : ℕ → Except Failure (BitVec 64)) (address : BitVec 64) :
    ℕ → ℕ → ℕ → Except Failure ℕ
  | 0, _, _ => .error .exhausted
  | fuel + 1, low, high =>
    -- unsigned words: without rows the last one is `2 ^ 64 - 1`
    if low ≤ high then do
      let mid := (low + high) % 2 ^ 64 / 2
      let entryAddress ← entry mid
      if entryAddress < address then searchRows entry address fuel (mid + 1) high
      else if address < entryAddress then
        if mid = 0 then .error (.raised "Address not found in eh_hdr")
        else searchRows entry address fuel low (mid - 1)
      else .ok mid
    else .ok high

namespace EhHdr

variable (F : EhFile) (h : EhHdr)

def pointerAt (text : BitVec 64) (pos stop : ℕ) : Except Failure (BitVec 64) :=
  outcome (parseEhFramePointer h.encoding ⟨BitVec.ofNat 64 pos, text, BitVec.ofNat 64 h.start, 0#64⟩)
    ⟨F.dw.image, pos, stop⟩

/-- The address of a row, where a row has two pointers of `size` bytes. -/
def rowAddress (text : BitVec 64) (size i : ℕ) : Except Failure (BitVec 64) :=
  h.pointerAt F text (h.searchTable + i * (2 * size)) (h.searchTable + h.count.toNat * (2 * size))

def rowOffset (text : BitVec 64) (size i : ℕ) : Except Failure (BitVec 64) :=
  h.pointerAt F text (h.searchTable + i * (2 * size) + size)
    (h.searchTable + h.count.toNat * (2 * size))

def find (address : FileAddr) : Except Failure ℕ :=
  match address.elf, F.sectionStart ".text" with
  | some _, some text => do
    let size ← ehFramePointerEncodingSize h.encoding
    let high := (h.count - 1#64).toNat
    let row ← searchRows (h.rowAddress F text size) address.addr (high + 2) 0 high
    let fdeOffset ← h.rowOffset F text size row
    pure fdeOffset.toNat
  | _, _ => .error .undefined

def fdeAt (map : CieMap) (pc : FileAddr) : Except Failure (FrameDescriptionEntry × CieMap) := do
  let fdeStart ← h.find F pc
  let (fde, map) ← outcome (F.parseFde map) ⟨F.dw.image, fdeStart, F.sectionEnd ".eh_frame"⟩
  let before ← pc.lt fde.initialLocation
  if before then .error (.raised "No unwind information at PC")
  else
    let behind ← (fde.initialLocation.add fde.addressRange).le pc
    if behind then .error (.raised "No unwind information at PC")
    else pure (fde, map)

end EhHdr
end KDebugger.Dwarf
