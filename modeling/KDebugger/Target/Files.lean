import KDebugger.Dwarf.LineLookup
import KDebugger.Elf

namespace KDebugger

open ByteStream Dwarf

structure TableEntry where
  elf : ElfId
  table : LineTable
  iterator : LineIterator

/-- The loaded files of a target, and the lookups in them that are not followed further. -/
structure Files where
  elves : Elves
  /-- `m_Elf` of the target -/
  elf : Option ElfId
  dwarf : ElfId → DwarfInfo
  /-- the stack depth for recursions over DIEs -/
  depth : ℕ
  /-- the start of the first range in `as_range_list` -/
  firstRangeLow : ElfId → Die → Except Failure FileAddr
  inlineStackAtAddress : FileAddr → Except Failure (List Die)
  /-- `get_line_entries_by_line` -/
  lineEntries : List Byte → ℕ → Except Failure (List TableEntry)

structure FoundFunctions where
  dwarfFunctions : List (ElfId × Die) := []
  elfFunctions : List (Option ElfId × BitVec 64) := []

namespace Files

def lowPc (f : Files) (x : ElfId × Die) : Except Failure FileAddr :=
  (f.dwarf x.1).lowPc (f.firstRangeLow x.1) x.2

def dwarfFunctions (f : Files) (id : ElfId) (name : List Byte) : Except Failure (List Die) :=
  (f.dwarf id).findFunctions f.depth name

/-- The loop of `target::find_functions`, over the files from the one at `id` on.  A symbol
is paired with `m_Elf`. -/
def findFunctionsFrom (f : Files) (name : List Byte) :
    ElfId → List LoadedElf → FoundFunctions → Except Failure FoundFunctions
  | _, [], result => .ok result
  | id, e :: elves, result => do
    let dwarfFound ← f.dwarfFunctions id name
    let result :=
      if dwarfFound.isEmpty then
        { result with
          elfFunctions := result.elfFunctions ++ (e.symbolsByName name).map (f.elf, ·) }
      else
        { result with dwarfFunctions := result.dwarfFunctions ++ dwarfFound.map (id, ·) }
    findFunctionsFrom f name (id + 1) elves result

def findFunctions (f : Files) (name : List Byte) : Except Failure FoundFunctions :=
  f.findFunctionsFrom name 0 f.elves {}

def rowAfterLowPc (f : Files) (x : ElfId × Die) : Except Failure FileAddr := do
  let dw := f.dwarf x.1
  match x.2.cu with
  | none => .error .undefined
  | some cu => do
    let lines ← dw.lines cu
    let lowPc ← f.lowPc x
    let functionLine ← lines.getEntryByAddress dw lowPc
    let next ← lines.increment dw functionLine
    pure next.machine.current.address

/-- Whether `function_breakpoint::resolve` looks at a DIE at all. -/
def hasCode (d : Die) : Except Failure Bool := do
  if ← d.contains dwAtLowPc then pure true else d.contains dwAtRanges

def tag (d : Die) : Except Failure (BitVec 64) :=
  match d.abbrevEntry with
  | none => .error .undefined
  | some entry => .ok entry.tag

def functionAddress (f : Files) (x : ElfId × Die) : Except Failure VirtAddr := do
  let t ← tag x.2
  let addr ← if t = dwTagInlinedSubroutine then f.lowPc x else f.rowAfterLowPc x
  f.elves.toVirtAddr addr

def symbolAddress (f : Files) (sym : Option ElfId × BitVec 64) : Except Failure VirtAddr :=
  f.elves.toVirtAddr ⟨sym.1, sym.2⟩

/-- Whether `line_breakpoint::resolve` takes the next row instead. -/
def shouldSkipPrologue (f : Files) (elf : ElfId) (stack : List Die) (address : FileAddr) :
    Except Failure Bool :=
  -- a stack of two, where one of one is meant
  match stack with
  | [outer, inner] => do
    let ranges ← inner.contains dwAtRanges
    let code ← if ranges then pure true else outer.contains dwAtLowPc
    if code then do
      let lowPc ← f.lowPc (elf, inner)
      pure (lowPc = address)
    else pure false
  | _ => .ok false

def entryAddress (f : Files) (x : TableEntry) : Except Failure VirtAddr := do
  let address := x.iterator.machine.current.address
  let stack ← f.inlineStackAtAddress address
  let skip ← f.shouldSkipPrologue x.elf stack address
  let it ← if skip then x.table.increment (f.dwarf x.elf) x.iterator else .ok x.iterator
  f.elves.toVirtAddr it.machine.current.address

end Files
end KDebugger
