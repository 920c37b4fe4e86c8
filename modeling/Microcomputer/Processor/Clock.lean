import Microcomputer.Processor.Execute

/-! The processor in time. A slot is one turn of the processor: it sleeps, passes over
an instruction, or executes one and then takes an interrupt. `step` runs a whole slot at
once; `tick` runs a slot on its first clock cycle and waits out the others. -/

namespace Microcomputer.Processor

variable {M : Type} [Memory M]

/-- The cost of a slot in which no instruction is executed. -/
def idleCost : Nat := 1

/-- After an instruction outside a handler, single-step mode latches message zero. -/
def trap (cpu : Processor M) (inService : Bool) : Processor M :=
  if cpu.flag .singleStep && !inService && !cpu.pending then
    { cpu with pending := true, message := 0 }
  else cpu

/-- Pass over the instruction word `w`; a conditional takes its successor along. -/
def skip (cpu : Processor M) (w : Word) : Processor M :=
  { cpu with
    pc := cpu.pc + BitVec.ofNat 32 (Instruction.length w)
    skipping := (Operation.ofOpcode? (Instruction.opcode w)).any Operation.isConditional }

/-- Execute the instruction word `w`, trap, and take an interrupt. Nothing comes between
a condition that does not hold and the instruction that it passes over. -/
def turn (cpu : Processor M) (w : Word) : Nat × Processor M :=
  let inService := cpu.flag .inService
  let (cost, cpu) := cpu.execute w
  let cpu := cpu.trap inService
  (cost, if cpu.skipping then cpu else cpu.service)

/-- One slot and its cost in cycles. -/
def slot (cpu : Processor M) : Nat × Processor M :=
  if cpu.sleeping then (idleCost, cpu.service)
  else
    let (w, memory) := Memory.readWord cpu.memory cpu.pc
    let cpu := { cpu with memory := memory }
    if cpu.skipping then (idleCost, cpu.skip w) else cpu.turn w

/-- Run one slot, and drop what is left to wait for. -/
def step (cpu : Processor M) : Nat × Processor M :=
  let (cost, cpu) := slot { cpu with waitCycles := 0 }
  (cost, { cpu with cycles := cpu.cycles + BitVec.ofNat 64 cost })

/-- One clock cycle. -/
def cycle (cpu : Processor M) : Processor M :=
  let cpu :=
    if cpu.waitCycles = 0 then
      let (cost, cpu) := cpu.slot
      { cpu with waitCycles := BitVec.ofNat 32 cost }
    else cpu
  { cpu with waitCycles := cpu.waitCycles - 1, cycles := cpu.cycles + 1 }

/-- So many clock cycles. -/
def tick : Nat → Processor M → Processor M
  | 0, cpu => cpu
  | n + 1, cpu => tick n cpu.cycle

end Microcomputer.Processor
