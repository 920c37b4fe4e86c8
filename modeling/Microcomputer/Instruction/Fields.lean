import Microcomputer.Instruction.Format

/-! The fields of an instruction word. Every word has an opcode and a format; the
register and operand fields exist only where the format has them. -/

namespace Microcomputer

/-- The number of a register. -/
abbrev Reg := BitVec 5

/-- The last operand of an instruction. -/
inductive Operand where
  | register (r : Reg)
  | literal (value : Word)
deriving DecidableEq

namespace Instruction

def opcode (w : Word) : Byte := w.extractLsb' 24 8

def format (w : Word) : Format := .ofOpcode (opcode w)

/-- The destination register, number zero where the format names none. -/
def destination (w : Word) : Reg :=
  match format w with
  | .three | .two => w.extractLsb' 18 5
  | .one | .zero => 0

/-- The first source register of three operands, number zero in other formats. -/
def source (w : Word) : Reg :=
  match format w with
  | .three => w.extractLsb' 13 5
  | .two | .one | .zero => 0

/-- The last field holds a literal and not a register number. -/
def hasLiteral (w : Word) : Bool := (format w).literalWidth.isSome && w.getLsbD 23

/-- The literal field of a word in a format of literal width `n`. -/
def literalField (w : Word) (n : Nat) : Word := (w.setWidth n).setWidth 32

/-- The literal is the escape, so that its value is the word after the instruction. -/
def isExtended (w : Word) : Bool :=
  hasLiteral w && ((format w).literalWidth.map (literalField w) == (format w).escape)

/-- Bytes from an instruction to the next one. -/
def length (w : Word) : Nat := if isExtended w then 8 else 4

/-- The last operand, where the instruction word alone determines it. -/
def operand? (w : Word) : Option Operand :=
  if isExtended w then none
  else (format w).literalWidth.map fun n =>
    if hasLiteral w then .literal (Word.signExtendFrom n w) else .register (w.extractLsb' 0 5)

end Instruction

end Microcomputer
