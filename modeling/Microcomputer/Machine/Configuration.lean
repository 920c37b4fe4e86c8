import Microcomputer.Memory.Storage
import Microcomputer.MemoryMap.Error

/-! What a machine is built from. -/

namespace Microcomputer

structure Configuration where
  /-- Bytes of RAM. -/
  ram : Nat
  /-- The program image in the ROM window. -/
  rom : Array Byte
  /-- The frequency of the processor clock in hertz. -/
  clock : Word
  /-- The seed of the random source, where it is fixed. -/
  seed : Option DoubleWord
  /-- The second from which the clock starts. -/
  epoch : DoubleWord
deriving DecidableEq

/-- The reasons for which no machine can be built. -/
inductive ConfigurationError where
  | ram (size : Nat)
  | rom (size : Nat)
  | clock
  /-- A built-in peripheral could not be mapped. -/
  | unmapped (e : MapError)
deriving DecidableEq

def ConfigurationError.message : ConfigurationError → String
  | .ram size => s!"RAM size {size} is outside 1..={Ram.maxSize}"
  | .rom size => s!"ROM image is {size} bytes, the window holds {Rom.windowSize}"
  | .clock => "clock frequency must be non-zero"
  | .unmapped e => s!"embedded peripheral could not be mapped: {e.message}"

namespace Configuration

/-- 128 KiB of RAM, an empty ROM and a clock of 100 kHz. -/
def standard : Configuration := ⟨0x20000, #[], 100000, none, 0⟩

/-- The first reason for which no machine can be built. -/
def check (c : Configuration) : Except ConfigurationError Unit :=
  if c.ram = 0 ∨ Ram.maxSize < c.ram then .error (.ram c.ram)
  else if Rom.windowSize < c.rom.size then .error (.rom c.rom.size)
  else if c.clock = 0 then .error .clock
  else .ok ()

end Configuration

end Microcomputer
