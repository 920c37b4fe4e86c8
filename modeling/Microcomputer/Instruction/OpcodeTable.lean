import Microcomputer.Instruction.Format

/-! The opcode table: which opcode bytes name an instruction, by what mnemonic, and
how many cycles it takes before surcharges. -/

namespace Microcomputer.Instruction.Opcode

/-- What the table says of one opcode byte. -/
structure Entry where
  mnemonic : String
  format : Format
  cycles : Nat
  defined : Bool
deriving DecidableEq

/-- The cost of most instructions. -/
def ordinary : Nat := 3

/-- The cost of an instruction that has no effect: its opcode is undefined, or it does
not take its operand. -/
def missed : Nat := 1

def multiplication : Nat := 20

def division : Nat := 27

/-- The opcodes that name an instruction, ascending. A mnemonic occurs once for each
number of operands that it takes. -/
def table : List (Byte × String × Nat) :=
  [(0x00, "SLEEP", ordinary), (0x01, "RET", ordinary), (0x02, "RFI", ordinary),
   (0x10, "XCHGB", ordinary), (0x11, "XCHGW", ordinary), (0x12, "GETPC", ordinary),
   (0x13, "POP", ordinary), (0x14, "PUSH", ordinary), (0x15, "JMP", ordinary),
   (0x16, "CALL", ordinary), (0x17, "RJMP", ordinary), (0x18, "RCALL", ordinary),
   (0x19, "INT", ordinary), (0x1A, "GETF", ordinary), (0x1B, "SETF", ordinary),
   (0x1C, "GETY", ordinary), (0x1D, "SETY", ordinary), (0x1E, "GETIA", ordinary),
   (0x1F, "SETIA", ordinary),
   (0x20, "MOV", ordinary), (0x21, "SWP", ordinary), (0x22, "SIGXB", ordinary),
   (0x23, "SIGXH", ordinary), (0x24, "NOT", ordinary), (0x25, "LOAD", ordinary),
   (0x26, "LOADH", ordinary), (0x27, "LOADB", ordinary), (0x28, "STORE", ordinary),
   (0x29, "STOREH", ordinary), (0x2A, "STOREB", ordinary), (0x2B, "IFEQ", ordinary),
   (0x2C, "IFNEQ", ordinary), (0x2D, "IFL", ordinary), (0x2E, "IFSL", ordinary),
   (0x2F, "IFLE", ordinary), (0x30, "IFSLE", ordinary), (0x31, "IFG", ordinary),
   (0x32, "IFSG", ordinary), (0x33, "IFGE", ordinary), (0x34, "IFSGE", ordinary),
   (0x35, "IFBITS", ordinary), (0x36, "IFCLEAR", ordinary), (0x37, "JMP", ordinary),
   (0x38, "CALL", ordinary),
   (0x40, "AND", ordinary), (0x41, "OR", ordinary), (0x42, "XOR", ordinary),
   (0x43, "BITC", ordinary), (0x44, "ADD", ordinary), (0x45, "ADDC", ordinary),
   (0x46, "SUB", ordinary), (0x47, "SUBB", ordinary), (0x48, "RSB", ordinary),
   (0x49, "RSBB", ordinary), (0x4A, "LLS", ordinary), (0x4B, "RLS", ordinary),
   (0x4C, "ARS", ordinary), (0x4D, "ROTL", ordinary), (0x4E, "ROTR", ordinary),
   (0x4F, "MUL", multiplication), (0x50, "SMUL", multiplication), (0x51, "DIV", division),
   (0x52, "SDIV", division), (0x53, "LOAD", ordinary), (0x54, "LOADH", ordinary),
   (0x55, "LOADB", ordinary), (0x56, "STORE", ordinary), (0x57, "STOREH", ordinary),
   (0x58, "STOREB", ordinary)]

/-- The entry of an opcode byte. A byte outside the table still has the format that
its bits choose. -/
def entry (opcode : Byte) : Entry :=
  match table.lookup opcode with
  | some (mnemonic, cycles) => ⟨mnemonic, .ofOpcode opcode, cycles, true⟩
  | none => ⟨"???", .ofOpcode opcode, missed, false⟩

end Microcomputer.Instruction.Opcode
