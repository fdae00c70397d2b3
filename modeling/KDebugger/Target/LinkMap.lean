import KDebugger.Paths
import KDebugger.Target.Breakpoints

namespace KDebugger

open ByteStream Exec

/-- An `elf` of the collection. -/
structure ElfFile where
  path : Path
  elf : LoadedElf

/-- The files of the machine, and what is made of them; `D` is what they are at a time. -/
structure Host (D : Type) where
  /-- `open`, `fstat` and `mmap` -/
  contents : D → Path → Option (List Byte)
  /-- what the constructor of `elf` makes of the bytes that are mapped -/
  parse : List Byte → Except Failure LoadedElf
  /-- the directory `mkdtemp` makes, where it makes one -/
  makeDirectory : D → Option (Path × D)
  /-- what an `ofstream` leaves of these bytes in a file -/
  write : D → Path → List Byte → D
  /-- the lookups in a collection -/
  lookups : List ElfFile → Files

/-- A target, its collection in full, and the files around. -/
structure Loading (D : Type) where
  target : Target
  /-- `m_Elves` -/
  elves : List ElfFile
  disk : D
  /-- `dynamic_linker_rendezvous_address` -/
  rendezvous : VirtAddr

abbrev LoadingM (D : Type) := EStateM Failure (Loading D)

namespace Loading

variable {D : Type} (H : Host D)

def onTarget {α : Type} (p : Target.TargetM α) : LoadingM D α := fun s =>
  match p s.target with
  | .ok a t => .ok a { s with target := t }
  | .error e t => .error e { s with target := t }

def readMemory (address : VirtAddr) (amount : ℕ) : LoadingM D (List Byte) :=
  onTarget (Target.onProcess (Process.readMemory address amount))

def member (bytes : List Byte) (place : ℕ) : BitVec 64 := fromBytes 8 ((bytes.drop place).take 8)

def shortMember (bytes : List Byte) (place : ℕ) : BitVec 64 :=
  (fromBytes 2 ((bytes.drop place).take 2)).setWidth 64

def dumpName : List Byte := text "linux-vdso.so.1"

/-- The name `reload_dynamic_libraries` takes for that of the vdso. -/
def vdsoName : List Byte := text "linux.vdso.so.1"

def construct (disk : D) (path : Path) : Except Failure LoadedElf :=
  match H.contents disk path with
  | none => .error (.raised "Could not open ELF File")
  | some bytes =>
    if bytes.isEmpty then .error (.raised "Could not mmap ELF file") else H.parse bytes

def writeFile (path : Path) (bytes : List Byte) : LoadingM D Unit :=
  modify fun s => { s with disk := H.write s.disk path bytes }

/-- `mkdtemp` of the template, which is left as it is where no directory is made. -/
def makeDirectory : LoadingM D Path := do
  let s ← get
  match H.makeDirectory s.disk with
  | none => pure (Path.ofText (text "tmp/kdebugger-XXXXXX"))
  | some (path, disk) => do
    set { s with disk }
    pure path

def dumpVdso (address : VirtAddr) : LoadingM D Path := do
  let directory ← makeDirectory H
  let path := directory.append dumpName
  writeFile H path []
  let header ← readMemory address 64
  let size := member header 40 + shortMember header 58 * shortMember header 60
  let bytes ← readMemory address size.toNat
  writeFile H path bytes
  pure path

def getElfByPath (elves : List ElfFile) (path : Path) : Option ElfFile :=
  elves.find? fun f => f.path == path

def getElfByFilename (elves : List ElfFile) (name : Path) : Option ElfFile :=
  elves.find? fun f => f.path.filename == name

/-- The text at a pointer into a buffer; a read past the buffer has no defined result. -/
def textOf (buffer : List Byte) : Except Failure (List Byte) :=
  if 0#8 ∈ buffer then .ok (buffer.takeWhile (· != 0#8)) else .error .undefined

def push (path : Path) (address : VirtAddr) : LoadingM D Unit := do
  let s ← get
  let elf ← ofExcept (construct H s.disk path)
  modify fun s => { s with elves := s.elves ++ [⟨path, { elf with loadBias := address }⟩] }

def loadNamed (name : Path) (address : VirtAddr) : LoadingM D Unit := do
  let s ← get
  -- files are told apart by their paths
  let found :=
    if name = Path.ofText vdsoName then getElfByFilename s.elves name
    else getElfByPath s.elves name
  if found.isSome then pure ()
  else do
    let path ← if name = Path.ofText vdsoName then dumpVdso H address else pure name
    push H path address

def loadEntry (name : List Byte) (address : VirtAddr) : LoadingM D Unit :=
  if name.isEmpty then pure () else loadNamed H (Path.ofText name) address

/-- The loop over the link map, of at most `fuel` turns. -/
def loadEntries : ℕ → VirtAddr → LoadingM D Unit
  | 0, _ => throw .exhausted
  | fuel + 1, entryPtr =>
    if entryPtr = 0#64 then pure ()
    else do
      let entry ← readMemory entryPtr 40
      let nameBytes ← readMemory (member entry 8) 4096
      let name ← ofExcept (textOf nameBytes)
      loadEntry H name (member entry 0)
      loadEntries fuel (member entry 24)

def filesOf (elves : List ElfFile) : Files := { H.lookups elves with elves := elves.map (·.elf) }

def resolveBreakpoints : LoadingM D Unit := do
  let s ← get
  onTarget (Target.reloadDynamicLibraries (filesOf H s.elves))

def reloadDynamicLibraries (fuel : ℕ) : LoadingM D Unit := do
  let s ← get
  if s.rendezvous = 0#64 then pure ()
  else do
    let debug ← readMemory s.rendezvous 40
    loadEntries H fuel (member debug 8)
    resolveBreakpoints H

end Loading
end KDebugger
