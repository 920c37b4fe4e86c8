import Microcomputer.Instruction.OpcodeTable
import Microcomputer.Processor.Arithmetic
import Microcomputer.Processor.Service

/-! Execution of one instruction. The program counter is first moved past the
instruction; that address is what calls save and relative jumps count from. An
instruction misses, and then does nothing else, if its opcode is undefined or if it
writes its last operand and that operand is a literal. -/

namespace Microcomputer

/-- How an instruction ended. -/
inductive Completion where
  | done
  /-- A condition did not hold, and the next instruction is passed over. -/
  | armed
  | missed
deriving DecidableEq

namespace Operand

def value (rs : Registers) : Operand → Word
  | register r => rs.get r
  | literal x => x

end Operand

namespace Processor

variable {M : Type} [Memory M]

/-- Write back an outcome: the flags, then the secondary register, then the destination,
so that the later one wins where they are the same register. -/
def commit (cpu : Processor M) (d : Reg) (o : Arithmetic.Outcome) : Processor M :=
  let cpu := cpu.set .flags o.flags
  let cpu := (o.secondary.map (cpu.set .secondary)).getD cpu
  (o.result.map (cpu.set d)).getD cpu

/-- The zero-extended value at an address. -/
def load (cpu : Processor M) (w : Width) (a : Word) : Word × Processor M :=
  let (bs, memory) := Memory.readBytes w.bytes cpu.memory a
  (LittleEndian.toWord 32 bs, { cpu with memory := memory })

/-- Store the low bytes of a word. -/
def store (cpu : Processor M) (w : Width) (a x : Word) : Processor M :=
  { cpu with memory := Memory.writeBytes cpu.memory a (LittleEndian.encode w.bytes x.toNat) }

/-- The address that a load or store with source register `s` uses. -/
def effectiveAddress (cpu : Processor M) (s : Reg) (value : Word) : Addressing → Word
  | .direct => value
  | .indexed => cpu.get s + value

/-- The address that a jump with destination field `d` goes to. -/
def jumpAddress (cpu : Processor M) (d : Reg) (value : Word) : JumpTarget → Word
  | .absolute => value
  | .indexed => cpu.get d + value
  | .relative => cpu.pc + value

/-- Change the register that the last operand names; a literal cannot be changed. -/
def modify (cpu : Processor M) (x : Operand) (f : Reg → Processor M) : Completion × Processor M :=
  match x with
  | .register r => (.done, f r)
  | .literal _ => (.missed, cpu)

/-- The effect of an operation with destination field `d`, source field `s` and last
operand `x` on a processor whose program counter is past the instruction. -/
def perform (cpu : Processor M) (op : Operation) (d s : Reg) (x : Operand) :
    Completion × Processor M :=
  let value := x.value cpu.registers
  match op with
  | .sleep => (.done, { cpu with sleeping := true })
  | .ret =>
    let (pc, cpu) := cpu.pop
    (.done, { cpu with pc := pc })
  | .leave =>
    let (first, cpu) := cpu.pop
    let (pc, cpu) := (cpu.set 0 first).pop
    (.done, { cpu with pc := pc }.setFlag .inService false)
  | .exchange e => cpu.modify x fun r => cpu.set r (e.apply (cpu.get r))
  | .locate => cpu.modify x fun r => cpu.set r cpu.pc
  | .pop => cpu.modify x fun r =>
    let (y, cpu) := cpu.pop
    cpu.set r y
  | .push => (.done, cpu.push value)
  | .jump t => (.done, { cpu with pc := cpu.jumpAddress d value t })
  | .call t =>
    let target := cpu.jumpAddress d value t
    (.done, { cpu.push cpu.pc with pc := target })
  | .interrupt => (.done, cpu.offer (value.setWidth 16))
  | .readSpecial r' => cpu.modify x fun r => cpu.set r (cpu.get r'.register)
  | .writeSpecial r' => (.done, cpu.set r'.register value)
  | .convert c => (.done, cpu.set d (c.apply value))
  | .swap => cpu.modify x fun r => (cpu.set d value).set r (cpu.get d)
  | .load w a =>
    let (y, cpu) := cpu.load w (cpu.effectiveAddress s value a)
    (.done, cpu.set d y)
  | .store w a => (.done, cpu.store w (cpu.effectiveAddress s value a) (cpu.get d))
  | .test c =>
    if c.holds (cpu.get d) value then (.done, cpu) else (.armed, { cpu with skipping := true })
  | .compute f => (.done, cpu.commit d (f.outcome cpu.flags (cpu.get s) value))

/-- The last operand of the instruction word `w`, with the program counter moved past
the instruction. An instruction without operands behaves as with the literal zero. -/
def fetchOperand (cpu : Processor M) (w : Word) : Operand × Processor M :=
  if Instruction.isExtended w then
    let (x, memory) := Memory.readWord cpu.memory (cpu.pc + 4)
    (.literal x, { cpu with memory := memory, pc := cpu.pc + 8 })
  else ((Instruction.operand? w).getD (.literal 0), { cpu with pc := cpu.pc + 4 })

/-- Cycles that an instruction takes beside a surcharge for an extended literal. -/
def cost (w : Word) : Completion → Nat
  | .done => (Instruction.Opcode.entry (Instruction.opcode w)).cycles
  | .armed => (Instruction.Opcode.entry (Instruction.opcode w)).cycles + 1
  | .missed => Instruction.Opcode.missed

/-- Execute the instruction word `w` that was fetched at the program counter, and count
its cycles. -/
def execute (cpu : Processor M) (w : Word) : Nat × Processor M :=
  let (x, cpu) := cpu.fetchOperand w
  let (completion, cpu) :=
    match Operation.ofOpcode? (Instruction.opcode w) with
    | some op => cpu.perform op (Instruction.destination w) (Instruction.source w) x
    | none => (.missed, cpu)
  (cost w completion + (if Instruction.isExtended w then 1 else 0), cpu)

end Processor

end Microcomputer
