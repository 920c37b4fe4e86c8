import Microcomputer.Instruction.Fields
import Microcomputer.LittleEndian

/-! Instructions as an assembler writes them, and their words. A literal is put into
the instruction word where it fits the format; any other value follows in a word of
its own, announced by the escape. -/

namespace Microcomputer

/-- The last operand as written. Register numbers count modulo 32. -/
inductive Argument where
  | register (index : Nat)
  /-- A value that goes into the instruction word if it fits there. -/
  | literal (value : Word)
  /-- A value that always has a word of its own. -/
  | extended (value : Word)
deriving DecidableEq

/-- One instruction in the form of its format. -/
inductive Instruction where
  | three (opcode : Byte) (destination source : Nat) (argument : Argument)
  | two (opcode : Byte) (destination : Nat) (argument : Argument)
  | one (opcode : Byte) (argument : Argument)
  | zero (opcode : Byte)
deriving DecidableEq

namespace Argument

/-- A value fits `n` literal bits if it lies strictly inside their signed range: the
least number of that range is the escape. -/
def fits (n : Nat) (value : Word) : Bool :=
  let limit : Nat := 1 <<< (n - 1)
  value.toInt < limit && -(limit : Int) < value.toInt

/-- The literal bit, the last field of `n` bits and the word that follows. -/
def fields (n : Nat) : Argument → BitVec 1 × BitVec n × Option Word
  | register i => (0, (BitVec.ofNat 5 i).setWidth n, none)
  | literal v => if fits n v then (1, v.setWidth n, none) else (1, BitVec.twoPow n (n - 1), some v)
  | extended v => (1, BitVec.twoPow n (n - 1), some v)

end Argument

namespace Instruction

/-- The words of an instruction, the extended literal last. -/
def words : Instruction → List Word
  | three opcode d s a =>
    let (bit, field, rest) := a.fields 13
    (opcode ++ bit ++ BitVec.ofNat 5 d ++ BitVec.ofNat 5 s ++ field) :: rest.toList
  | two opcode d a =>
    let (bit, field, rest) := a.fields 18
    (opcode ++ bit ++ BitVec.ofNat 5 d ++ field) :: rest.toList
  | one opcode a =>
    let (bit, field, rest) := a.fields 23
    (opcode ++ bit ++ field) :: rest.toList
  | zero opcode => [opcode ++ (0 : BitVec 24)]

/-- A program image: its words one after the other, each little-endian. -/
def image (ws : List Word) : Bytes := ws.flatMap LittleEndian.ofWord

end Instruction

end Microcomputer
