import Microcomputer.LittleEndian
import Microcomputer.Processor.State
import Microcomputer.RestoreError

/-! The execution state as a byte string of fixed size: the registers, the program
counter, the two cycle counters, the interrupt message and one byte of state bits. -/

namespace Microcomputer.Processor.State

/-- Bytes of a record. -/
def recordSize : Nat := 147

/-- The state bits: a latched message, a passed-over instruction, sleep. -/
def bits (s : State) : Byte :=
  BitVec.ofNat 8 (s.pending.toNat + 2 * s.skipping.toNat + 4 * s.sleeping.toNat)

def toBytes (s : State) : Bytes :=
  s.registers.words.toList.flatMap LittleEndian.ofWord ++ LittleEndian.ofWord s.pc ++
    LittleEndian.ofWord s.waitCycles ++ LittleEndian.ofWord s.cycles ++
    LittleEndian.ofWord s.message ++ [s.bits]

/-- The state in a record. The five bits of its last byte without a meaning are ignored. -/
def ofBytes (bs : Bytes) : Except RestoreError State :=
  if bs.length = recordSize then
    let bits := LittleEndian.wordAt 8 bs 146
    .ok {
      registers := ⟨Vector.ofFn fun i => LittleEndian.wordAt 32 bs (4 * i)⟩
      pc := LittleEndian.wordAt 32 bs 128
      waitCycles := LittleEndian.wordAt 32 bs 132
      cycles := LittleEndian.wordAt 64 bs 136
      message := LittleEndian.wordAt 16 bs 144
      pending := bits.getLsbD 0
      skipping := bits.getLsbD 1
      sleeping := bits.getLsbD 2 }
  else .error (.size recordSize bs.length)

end Microcomputer.Processor.State
