import Std.Data.TreeMap
import Microcomputer.Memory.Access
import Microcomputer.Memory.Address

/-! Read-write memory over the whole 24-bit address range, zero wherever nothing was
written. Main statement: `byte_write`, a byte reads as it was last written. -/

namespace Microcomputer

/-- Memory that holds only the bytes that were written. -/
structure FlatMemory where
  written : Std.TreeMap Address Byte

namespace FlatMemory

/-- Memory that is zero throughout. -/
def zero : FlatMemory := ⟨∅⟩

def byte (m : FlatMemory) (a : Address) : Byte := m.written.getD a 0

def write (m : FlatMemory) (a : Address) (b : Byte) : FlatMemory := ⟨m.written.insert a b⟩

instance : Memory FlatMemory where
  readByte m a := (m.byte (.ofWord a), m)
  writeByte m a b := m.write (.ofWord a) b

@[simp] theorem byte_zero (a : Address) : zero.byte a = 0 := by
  simp [zero, byte]

theorem byte_write (m : FlatMemory) (a a' : Address) (b : Byte) :
    (m.write a b).byte a' = if a = a' then b else m.byte a' := by
  simp [write, byte, Std.TreeMap.getD_insert]

end FlatMemory

end Microcomputer
