import KDebugger.Computation

namespace KDebugger

abbrev VirtAddr := BitVec 64

abbrev ElfId := ℕ

structure FileAddr where
  elf : Option ElfId := none
  addr : BitVec 64 := 0#64
deriving DecidableEq, Repr

namespace FileAddr

/-- `operator +` and `operator +=`. -/
def add (a : FileAddr) (offset : BitVec 64) : FileAddr := { a with addr := a.addr + offset }

@[simp] theorem add_addr (a : FileAddr) (n : BitVec 64) : (a.add n).addr = a.addr + n := rfl

@[simp] theorem add_elf (a : FileAddr) (n : BitVec 64) : (a.add n).elf = a.elf := rfl

/-- `operator <=`, which asserts that both addresses are of one file. -/
def le (a b : FileAddr) : Except Failure Bool :=
  if a.elf = b.elf then .ok (a.addr ≤ b.addr) else .error (.raised "m_Elf == other.m_Elf")

def lt (a b : FileAddr) : Except Failure Bool :=
  if a.elf = b.elf then .ok (a.addr < b.addr) else .error (.raised "m_Elf == other.m_Elf")

end FileAddr
end KDebugger
