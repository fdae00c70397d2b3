import KDebugger.ByteStream

namespace KDebugger

def text (s : String) : List Byte := s.toList.map fun c => BitVec.ofNat 8 c.toNat

abbrev Path := List (List Byte)

namespace Path

def slash : Byte := 0x2f#8

def root : List Byte := [slash]

def ofText (bytes : List Byte) : Path :=
  let names := (bytes.splitOn slash).filter fun name => !name.isEmpty
  (if bytes.head? = some slash then [root] else []) ++ names ++
    if !names.isEmpty && bytes.getLast? = some slash then [[]] else []

example : ofText (text "/lib//a.so") = ofText (text "/lib/a.so") := by decide

/-- `filename`: the last element, unless it is the root directory or empty. -/
def filename (p : Path) : Path :=
  match p.getLast? with
  | none => []
  | some name => if name = root ∨ name = [] then [] else [name]

/-- `operator/`, of a name. -/
def append (p : Path) (name : List Byte) : Path :=
  (if p.getLast? = some [] then p.dropLast else p) ++ [name]

theorem filename_append (p : Path) {name : List Byte} (hroot : name ≠ root) (hne : name ≠ []) :
    (p.append name).filename = [name] := by
  simp [append, filename, hroot, hne]

end Path
end KDebugger
