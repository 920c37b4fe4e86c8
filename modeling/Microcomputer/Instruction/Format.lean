import Microcomputer.Word

/-! The four instruction formats. The top bits of a word choose its format, and the
format fixes the width of the literal that may stand in the last field:

    three operands  01oooooo M ddddd sssss nnnnnnnnnnnnn
    two operands    001ooooo M ddddd nnnnnnnnnnnnnnnnnn
    one operand     0001oooo M nnnnnnnnnnnnnnnnnnnnnnn
    no operand      0000oooo x xxxxxxxxxxxxxxxxxxxxxxx
-/

namespace Microcomputer.Instruction

inductive Format where
  | three
  | two
  | one
  | zero
deriving DecidableEq

namespace Format

/-- The format of an instruction whose highest byte is `opcode`: the position of the
first set bit below the top one. -/
def ofOpcode (opcode : Byte) : Format :=
  if opcode.getLsbD 6 then three
  else if opcode.getLsbD 5 then two
  else if opcode.getLsbD 4 then one
  else zero

/-- Bits of the last field when it holds a literal. -/
def literalWidth : Format → Option Nat
  | three => some 13
  | two => some 18
  | one => some 23
  | zero => none

/-- The literal with only its sign bit set stands for a value in the next word. -/
def escape (f : Format) : Option Word := f.literalWidth.map fun n => BitVec.twoPow 32 (n - 1)

end Format

end Microcomputer.Instruction
