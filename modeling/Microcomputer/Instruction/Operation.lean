import Microcomputer.Instruction.Fields

/-! What an opcode asks for. Operations are sorted into families whose members differ in
one choice only: a function of two words, a condition, a width, a way to find an address. -/

namespace Microcomputer

/-- Functions of two words that make up the instructions with three operands. -/
inductive Arithmetic where
  | and | or | xor | andNot
  | add | addCarry | sub | subBorrow | reverseSub | reverseSubBorrow
  | shiftLeft | shiftRight | shiftRightSigned | rotateLeft | rotateRight
  | mul | mulSigned | div | divSigned
deriving DecidableEq

/-- Relations between two words on which execution can depend. -/
inductive Condition where
  | equal | notEqual
  | less | lessSigned | lessEqual | lessEqualSigned
  | greater | greaterSigned | greaterEqual | greaterEqualSigned
  | commonBits | noCommonBits
deriving DecidableEq

/-- Functions of one word that are applied on the way to the destination register. -/
inductive Conversion where
  | copy | complement | extendByte | extendHalf
deriving DecidableEq

/-- Rearrangements of the bytes of one register. -/
inductive Exchange where
  | lowBytes | halves
deriving DecidableEq

/-- The registers that instructions with one operand read and write by name. -/
inductive Special where
  | flags | secondary | vectors
deriving DecidableEq

/-- How much of a word a load or store moves. -/
inductive Width where
  | word | half | byte
deriving DecidableEq

/-- Whether an address is the last operand alone or is counted from a source register. -/
inductive Addressing where
  | direct | indexed
deriving DecidableEq

/-- Whether a jump goes to its operand, to a register plus its operand, or past the
instruction by its operand. -/
inductive JumpTarget where
  | absolute | indexed | relative
deriving DecidableEq

inductive Operation where
  | sleep
  | ret
  /-- Leave an interrupt handler. -/
  | leave
  | exchange (e : Exchange)
  /-- Store the address of the next instruction. -/
  | locate
  | pop
  | push
  | jump (t : JumpTarget)
  | call (t : JumpTarget)
  /-- Offer an interrupt message to the processor itself. -/
  | interrupt
  | readSpecial (s : Special)
  | writeSpecial (s : Special)
  | convert (c : Conversion)
  | swap
  | load (w : Width) (a : Addressing)
  | store (w : Width) (a : Addressing)
  /-- Run the next instruction only if a condition holds. -/
  | test (c : Condition)
  | compute (f : Arithmetic)
deriving DecidableEq

namespace Width

/-- Bytes that are moved. -/
def bytes : Width → Nat
  | word => 4
  | half => 2
  | byte => 1

end Width

namespace Operation

/-- The operation of an opcode byte, absent where the byte names no instruction. -/
def ofOpcode? (opcode : Byte) : Option Operation :=
  match opcode.toNat with
  | 0x00 => some .sleep
  | 0x01 => some .ret
  | 0x02 => some .leave
  | 0x10 => some (.exchange .lowBytes)
  | 0x11 => some (.exchange .halves)
  | 0x12 => some .locate
  | 0x13 => some .pop
  | 0x14 => some .push
  | 0x15 => some (.jump .absolute)
  | 0x16 => some (.call .absolute)
  | 0x17 => some (.jump .relative)
  | 0x18 => some (.call .relative)
  | 0x19 => some .interrupt
  | 0x1A => some (.readSpecial .flags)
  | 0x1B => some (.writeSpecial .flags)
  | 0x1C => some (.readSpecial .secondary)
  | 0x1D => some (.writeSpecial .secondary)
  | 0x1E => some (.readSpecial .vectors)
  | 0x1F => some (.writeSpecial .vectors)
  | 0x20 => some (.convert .copy)
  | 0x21 => some .swap
  | 0x22 => some (.convert .extendByte)
  | 0x23 => some (.convert .extendHalf)
  | 0x24 => some (.convert .complement)
  | 0x25 => some (.load .word .direct)
  | 0x26 => some (.load .half .direct)
  | 0x27 => some (.load .byte .direct)
  | 0x28 => some (.store .word .direct)
  | 0x29 => some (.store .half .direct)
  | 0x2A => some (.store .byte .direct)
  | 0x2B => some (.test .equal)
  | 0x2C => some (.test .notEqual)
  | 0x2D => some (.test .less)
  | 0x2E => some (.test .lessSigned)
  | 0x2F => some (.test .lessEqual)
  | 0x30 => some (.test .lessEqualSigned)
  | 0x31 => some (.test .greater)
  | 0x32 => some (.test .greaterSigned)
  | 0x33 => some (.test .greaterEqual)
  | 0x34 => some (.test .greaterEqualSigned)
  | 0x35 => some (.test .commonBits)
  | 0x36 => some (.test .noCommonBits)
  | 0x37 => some (.jump .indexed)
  | 0x38 => some (.call .indexed)
  | 0x40 => some (.compute .and)
  | 0x41 => some (.compute .or)
  | 0x42 => some (.compute .xor)
  | 0x43 => some (.compute .andNot)
  | 0x44 => some (.compute .add)
  | 0x45 => some (.compute .addCarry)
  | 0x46 => some (.compute .sub)
  | 0x47 => some (.compute .subBorrow)
  | 0x48 => some (.compute .reverseSub)
  | 0x49 => some (.compute .reverseSubBorrow)
  | 0x4A => some (.compute .shiftLeft)
  | 0x4B => some (.compute .shiftRight)
  | 0x4C => some (.compute .shiftRightSigned)
  | 0x4D => some (.compute .rotateLeft)
  | 0x4E => some (.compute .rotateRight)
  | 0x4F => some (.compute .mul)
  | 0x50 => some (.compute .mulSigned)
  | 0x51 => some (.compute .div)
  | 0x52 => some (.compute .divSigned)
  | 0x53 => some (.load .word .indexed)
  | 0x54 => some (.load .half .indexed)
  | 0x55 => some (.load .byte .indexed)
  | 0x56 => some (.store .word .indexed)
  | 0x57 => some (.store .half .indexed)
  | 0x58 => some (.store .byte .indexed)
  | _ => none

/-- Operations that decide about the instruction after them. -/
def isConditional : Operation → Bool
  | test _ => true
  | _ => false

end Operation

end Microcomputer
