import Microcomputer.Memory.Flat
import Microcomputer.Processor.Clock

/-! Fetching an instruction over flat memory. Reading changes nothing there, so a slot is
decided by the word at the program counter, and all that is fetched of an instruction moves
the program counter by the length of the instruction. -/

namespace Microcomputer.Processor

section Execution

variable {M : Type} [Memory M]

/-- The effect of the instruction word `w` whose operand `x` has been fetched. -/
def carryOut (cpu : Processor M) (w : Word) (x : Operand) : Completion × Processor M :=
  match Operation.ofOpcode? (Instruction.opcode w) with
  | some op => cpu.perform op (Instruction.destination w) (Instruction.source w) x
  | none => (.missed, cpu)

/-- How the instruction word `w` at the program counter ends, and what it leaves. -/
def outcome (cpu : Processor M) (w : Word) : Completion × Processor M :=
  (cpu.fetchOperand w).2.carryOut w (cpu.fetchOperand w).1

theorem execute_eq_outcome (cpu : Processor M) (w : Word) :
    cpu.execute w =
      (cost w (cpu.outcome w).1 + (if Instruction.isExtended w then 1 else 0),
        (cpu.outcome w).2) := by
  cases h : Operation.ofOpcode? (Instruction.opcode w) <;>
    simp only [execute, outcome, carryOut, h]

theorem pc_fetchOperand (cpu : Processor M) (w : Word) :
    (cpu.fetchOperand w).2.pc = cpu.pc + BitVec.ofNat 32 (Instruction.length w) := by
  unfold fetchOperand Instruction.length
  split <;> rfl

end Execution

variable (cpu : Processor FlatMemory)

/-- The instruction word that is fetched next. -/
def next : Word := (Memory.readWord cpu.memory cpu.pc).1

/-- The last operand of the instruction word `w` at the program counter. -/
def operand (w : Word) : Operand :=
  if Instruction.isExtended w then .literal (Memory.readWord cpu.memory (cpu.pc + 4)).1
  else (Instruction.operand? w).getD (.literal 0)

theorem fetchOperand_eq (w : Word) :
    cpu.fetchOperand w = (cpu.operand w,
      { cpu with pc := cpu.pc + BitVec.ofNat 32 (Instruction.length w) }) := by
  unfold fetchOperand operand Instruction.length
  split <;> rfl

theorem slot_of_awake (h : ¬cpu.sleeping) :
    cpu.slot = if cpu.skipping then (idleCost, cpu.skip cpu.next) else cpu.turn cpu.next :=
  if_neg h

end Microcomputer.Processor
