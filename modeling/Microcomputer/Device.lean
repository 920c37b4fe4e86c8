import Microcomputer.Device.Exerciser

/-! Devices: what can be plugged into a slot. A device has an identity, a command
register and five data registers. -/

namespace Microcomputer

inductive Device where
  | exerciser (e : Exerciser)
  /-- A device with an identity and no behaviour. -/
  | inert (identity : Identity)
deriving DecidableEq

namespace Device

def identity : Device → Identity
  | exerciser e => e.identity
  | inert i => i

/-- What reached the device, where it keeps a record. -/
def trace : Device → Trace
  | exerciser e => e.trace
  | inert _ => .empty

/-- Time passes only for synchronous devices. -/
def synchronous : Device → Bool
  | exerciser e => e.synchronous
  | inert _ => false

def reset : Device → Device
  | exerciser e => exerciser e.reset
  | inert i => inert i

def command (d : Device) (c : Half) : Device :=
  match d with
  | exerciser e => exerciser (e.command c)
  | inert i => inert i

def register (d : Device) (i : Fin 5) : Half :=
  match d with
  | exerciser e => e.registers[i]
  | inert _ => 0

def setRegister (d : Device) (i : Fin 5) (x : Half) : Device :=
  match d with
  | exerciser e => exerciser { e with registers := e.registers.set i x }
  | inert i => inert i

/-- Let `n` cycles pass. -/
def tick (d : Device) (n : Nat) : Device :=
  match d with
  | exerciser e => exerciser (e.tick n)
  | inert i => inert i

/-- The message of an interrupt that is asked for. -/
def interrupt : Device → Option Half
  | exerciser e => if e.raised then some e.message else none
  | inert _ => none

/-- Take back the request that `interrupt` shows. -/
def acknowledge : Device → Device
  | exerciser e => exerciser e.acknowledge
  | inert i => inert i

/-- The state as a byte string. -/
def save : Device → Bytes
  | exerciser e => e.toBytes
  | inert _ => []

/-- The device in a saved state. -/
def restore (d : Device) (bs : Bytes) : Except RestoreError Device :=
  match d with
  | exerciser e => (e.restore bs).map exerciser
  | inert i => .ok (inert i)

/-- What can be asked of a device in its slot. -/
inductive Call where
  | reset
  | command (c : Half)
  | setRegister (i : Fin 5) (x : Half)
  | tick (n : Nat)
  | acknowledge
  | restore (state : Bytes)
deriving DecidableEq

/-- The device after a call. A state that is refused changes nothing. -/
def Call.run : Call → Device → Device
  | reset, d => d.reset
  | command c, d => d.command c
  | setRegister i x, d => d.setRegister i x
  | tick n, d => d.tick n
  | acknowledge, d => d.acknowledge
  | restore bs, d => (d.restore bs).toOption.getD d

end Device

end Microcomputer
