import Microcomputer.LittleEndian
import Microcomputer.RestoreError

/-! A device for exercising the bus. It keeps five data registers, counts one of them
down in time, asks for interrupts on command, and records what reaches it. -/

namespace Microcomputer

/-- How a device presents itself. -/
structure Identity where
  kind : Byte
  subkind : Byte
  number : Byte
  vendor : Word
deriving DecidableEq

/-- What reached a device since it was built. -/
structure Trace where
  /-- Commands, the latest last. -/
  commands : Array Half
  ticks : Word
  acknowledgements : Nat
  resets : Nat
deriving DecidableEq

def Trace.empty : Trace := ⟨#[], 0, 0, 0⟩

structure Exerciser where
  identity : Identity
  /-- Time passes for the device. -/
  synchronous : Bool
  /-- The message of its interrupts. -/
  message : Half
  registers : Vector Half 5
  /-- An interrupt is asked for. -/
  raised : Bool
  trace : Trace
deriving DecidableEq

namespace Exerciser

def new (identity : Identity) (synchronous : Bool) (message : Half) : Exerciser :=
  ⟨identity, synchronous, message, .replicate 5 0, false, .empty⟩

def reset (e : Exerciser) : Exerciser :=
  { e with
    registers := .replicate 5 0
    raised := false
    trace := { e.trace with resets := e.trace.resets + 1 } }

/-- Command 1 adds registers B and C into A, commands 2 and 3 raise and lower the
interrupt, and every command is recorded. -/
def command (e : Exerciser) (c : Half) : Exerciser :=
  let e := { e with trace := { e.trace with commands := e.trace.commands.push c } }
  if c = 1 then { e with registers := e.registers.set 0 (e.registers[1] + e.registers[2]) }
  else if c = 2 then { e with raised := true }
  else if c = 3 then { e with raised := false }
  else e

/-- Count register D down; reaching zero raises the interrupt. -/
def tick (e : Exerciser) (n : Nat) : Exerciser :=
  let e := { e with trace := { e.trace with ticks := e.trace.ticks + BitVec.ofNat 32 n } }
  let d := e.registers[3].toNat
  if d = 0 then e
  else
    { e with
      registers := e.registers.set 3 (BitVec.ofNat 16 (d - n))
      raised := e.raised || d ≤ n }

def acknowledge (e : Exerciser) : Exerciser :=
  { e with
    raised := false
    trace := { e.trace with acknowledgements := e.trace.acknowledgements + 1 } }

def toBytes (e : Exerciser) : Bytes :=
  e.registers.toList.flatMap LittleEndian.ofWord ++ [BitVec.ofNat 8 e.raised.toNat]

/-- The exerciser in a saved state. Its record of what reached it goes on. -/
def restore (e : Exerciser) (bs : Bytes) : Except RestoreError Exerciser :=
  if bs.length = 11 then
    .ok { e with
      registers := Vector.ofFn fun i => LittleEndian.wordAt 16 bs (2 * i)
      raised := LittleEndian.wordAt 8 bs 10 != 0 }
  else .error (.size 11 bs.length)

end Exerciser

end Microcomputer
