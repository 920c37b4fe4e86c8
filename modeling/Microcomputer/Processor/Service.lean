import Microcomputer.Memory.Access
import Microcomputer.Processor.State

/-! The stack, and how an interrupt message enters the processor. A message is first
latched and later serviced. Service looks the handler up in the vector table by the low
byte of the message and saves the address of the next instruction and register zero,
which then holds the message. -/

namespace Microcomputer.Processor

variable {M : Type}

/-- Offer an interrupt message. One that is not accepted changes nothing. -/
def offer (cpu : Processor M) (message : Half) : Processor M :=
  if cpu.accepts then { cpu with pending := true, message := message } else cpu

variable [Memory M]

/-- Store a word below the stack pointer, which moves down to it. -/
def push (cpu : Processor M) (x : Word) : Processor M :=
  let top := cpu.get .stack - 4
  { cpu with memory := Memory.writeWord cpu.memory top x }.set .stack top

/-- Take the word at the stack pointer, which moves up past it. -/
def pop (cpu : Processor M) : Word × Processor M :=
  let (x, memory) := Memory.readWord cpu.memory (cpu.get .stack)
  (x, { cpu with memory := memory }.set .stack (cpu.get .stack + 4))

/-- The address of the vector of a message. -/
def vector (cpu : Processor M) (message : Half) : Word :=
  cpu.get .vectors + 4 * (message.setWidth 8).setWidth 32

/-- Enter a handler for `message`. -/
def enter (cpu : Processor M) (message : Half) (handler : Word) : Processor M :=
  let cpu := (cpu.push cpu.pc).push (cpu.get 0)
  { cpu.set 0 (message.setWidth 32) with pc := handler }.setFlag .inService true

/-- Service the latched message if interrupts are enabled: it leaves the latch, ends
sleep and enters its handler. A vector of zero means that there is none. -/
def service (cpu : Processor M) : Processor M :=
  if cpu.pending && cpu.flag .enabled then
    let message := cpu.message
    let (handler, memory) := Memory.readWord cpu.memory (cpu.vector message)
    let cpu := { cpu with memory := memory, pending := false, sleeping := false }
    if handler = 0 then cpu else cpu.enter message handler
  else cpu

end Microcomputer.Processor
