import KDebugger.Address
import KDebugger.ByteStream

namespace KDebugger

/-- `Elf64_Shdr`. -/
structure Section where
  addr : BitVec 64
  size : BitVec 64
  flags : BitVec 64 := 0#64
deriving DecidableEq, Repr

structure LoadedElf where
  loadBias : VirtAddr
  sectionHeaders : List Section
  /-- `m_SymbolNameMap`: names and values -/
  symbols : List (List Byte × BitVec 64) := []
deriving DecidableEq, Repr

namespace LoadedElf

/-- `get_section_containing_address` of an address in the file. -/
def sectionContaining (e : LoadedElf) (addr : BitVec 64) : Option Section :=
  e.sectionHeaders.find? fun x => x.addr ≤ addr && addr < x.addr + x.size

def sectionContainingVirt (e : LoadedElf) (addr : VirtAddr) : Option Section :=
  e.sectionHeaders.find? fun x =>
    e.loadBias + x.addr ≤ addr && addr < e.loadBias + x.addr + x.size

/-- `get_symbols_by_name`, as the values of the symbols. -/
def symbolsByName (e : LoadedElf) (name : List Byte) : List (BitVec 64) :=
  (e.symbols.filter fun x => x.1 == name).map Prod.snd

end LoadedElf

abbrev Elves := List LoadedElf

namespace Elves

def elfContaining (elves : Elves) (addr : VirtAddr) : Option ElfId :=
  elves.findIdx? fun e => (e.sectionContainingVirt addr).isSome

def toFileAddr (elves : Elves) (addr : VirtAddr) : FileAddr :=
  -- outside all sections there is no address in the file
  match elves.elfContaining addr with
  | none => {}
  | some id =>
    match elves[id]? with
    | none => {}
    | some e => { elf := some id, addr := addr - e.loadBias }

def toVirtAddr (elves : Elves) (a : FileAddr) : Except Failure VirtAddr :=
  match a.elf with
  | none => .error (.raised "to_virt_addr called on null address")
  | some id =>
    match elves[id]? with
    | none => .error .undefined
    | some e => .ok (if (e.sectionContaining a.addr).isSome then a.addr + e.loadBias else 0#64)

end Elves
end KDebugger
