import Microcomputer.Processor.RegisterFile

/-! The execution state of the processor: everything it needs, memory apart, to go on
where it stopped. The interrupt latch holds at most one accepted message. -/

namespace Microcomputer

structure Processor.State where
  registers : Registers
  /-- Address of the next instruction. -/
  pc : Word
  /-- Clock cycles that the current instruction has still to pay for. -/
  waitCycles : Word
  /-- Clock cycles since the processor was built. -/
  cycles : DoubleWord
  /-- The message accepted last; it waits for service while `pending` is set. -/
  message : Half
  pending : Bool
  /-- The next instruction is passed over. -/
  skipping : Bool
  sleeping : Bool
deriving DecidableEq

namespace Processor.State

/-- Where execution starts: the first byte of the ROM window. -/
def entryPoint : Word := 0x100000

/-- The state after power-on. -/
def initial : State := ⟨.zero, entryPoint, 0, 0, 0, false, false, false⟩

/-- The state after a reset: only the cycle counter goes on. -/
def reset (s : State) : State := { initial with cycles := s.cycles }

def flags (s : State) : Word := s.registers.get .flags

def flag (s : State) (f : Flag) : Bool := s.flags.flag f

/-- The latched message, if one waits for service. -/
def latched (s : State) : Option Half := if s.pending then some s.message else none

/-- An interrupt message is accepted if interrupts are enabled, none is being serviced
and the latch is free. -/
def accepts (s : State) : Bool := s.flag .enabled && !s.pending && !s.flag .inService

theorem accepts_iff {s : State} :
    s.accepts ↔ s.flag .enabled ∧ ¬s.pending ∧ ¬s.flag .inService := by
  simp [accepts, and_assoc]

end Processor.State

/-- A processor together with the memory that it runs on. -/
structure Processor (M : Type) extends Processor.State where
  memory : M

namespace Processor

variable {M : Type}

/-- A processor after power-on. -/
def new (memory : M) : Processor M := ⟨.initial, memory⟩

def reset (cpu : Processor M) : Processor M := { cpu with toState := cpu.toState.reset }

def get (cpu : Processor M) (r : Reg) : Word := cpu.registers.get r

def set (cpu : Processor M) (r : Reg) (x : Word) : Processor M :=
  { cpu with registers := cpu.registers.set r x }

def setFlag (cpu : Processor M) (f : Flag) (b : Bool) : Processor M :=
  cpu.set .flags (cpu.flags.setFlag f b)

end Processor

end Microcomputer
