import KDebugger.Dwarf.FunctionIndex
import KDebugger.Dwarf.LineTable

namespace KDebugger.Dwarf

open ByteStream Exec

namespace DwarfInfo

/-- `find_functions`: the DIEs at the positions that the index has for the name. -/
def findFunctions (dw : DwarfInfo) (depth : ℕ) (name : List Byte) : Except Failure (List Die) :=
  match dw.index depth [] with
  | .error e _ => .error e
  | .ok _ functionIndex =>
    (functionIndex.filter fun x => x.1 == name).mapM fun x => dw.parseDieAt x.2.cu x.2.pos

/-- `low_pc`, given the start of the first range of a DIE that has ranges. -/
def lowPc (dw : DwarfInfo) (firstRangeLow : Die → Except Failure FileAddr) (d : Die) :
    Except Failure FileAddr := do
  if ← d.contains dwAtRanges then firstRangeLow d
  else if ← d.contains dwAtLowPc then do
    let a ← d.attrOf dwAtLowPc
    a.asAddress dw
  else .error (.raised "DIE does not have low PC")

def lines (dw : DwarfInfo) (cu : CompileUnit) : Except Failure LineTable := do
  match ← parseLineTable dw cu with
  | none => .error .undefined
  | some t => pure t

end DwarfInfo

namespace LineTable

def entryFrom (dw : DwarfInfo) (t : LineTable) (address : FileAddr) :
    ℕ → LineIterator → LineIterator → Except Failure LineIterator
  -- rows are compared in pairs, and `end_sequence` closes one
  | 0, _, _ => .error .exhausted
  | n + 1, prev, it =>
    if it.pos = none then .ok it
    else do
      let below ← prev.machine.current.address.le address
      let above ← if below then address.lt it.machine.current.address else .ok false
      if below && above && !prev.machine.current.endSequence then pure prev
      else do
        let next ← t.increment dw it
        entryFrom dw t address n it next

def getEntryByAddress (dw : DwarfInfo) (t : LineTable) (address : FileAddr) :
    Except Failure LineIterator := do
  let prev ← t.begin dw t.fileNames
  if prev.pos = none then pure prev
  else do
    let it ← t.increment dw prev
    t.entryFrom dw address (dw.image.size + 2) prev it

end LineTable
end KDebugger.Dwarf
