import Microcomputer.Peripheral.IntervalTimer
import Microcomputer.Peripheral.ToneGenerator
import Microcomputer.Peripheral.WallClock
import Microcomputer.Peripheral.RandomSource
import Microcomputer.Peripheral.Scratchpad

/-! Peripherals: what can be mapped to a range of addresses. A peripheral sees only the
offset of an access in its range. -/

namespace Microcomputer

inductive Peripheral where
  | timer (t : IntervalTimer)
  | tone (g : ToneGenerator)
  | clock (c : WallClock)
  | random (r : RandomSource)
  | scratchpad (s : Scratchpad)
  /-- Every byte reads as its own offset. -/
  | ramp
deriving DecidableEq

namespace Peripheral

/-- The byte at an offset. Reading can change the peripheral. -/
def read (p : Peripheral) (offset : Nat) : Byte × Peripheral :=
  match p with
  | timer t => (t.read offset, p)
  | tone g => (g.read offset, p)
  | clock c => (c.read offset, p)
  | random r =>
    let (b, r) := r.read offset
    (b, random r)
  | scratchpad s => (s.read offset, p)
  | ramp => (BitVec.ofNat 8 offset, p)

def write (p : Peripheral) (offset : Nat) (b : Byte) : Peripheral :=
  match p with
  | timer t => timer (t.write offset b)
  | tone g => tone (g.write offset b)
  | clock c => clock (c.write offset b)
  | random r => random (r.write offset b)
  | scratchpad s => scratchpad (s.write offset b)
  | ramp => ramp

/-- Return to the power-on state. -/
def reset : Peripheral → Peripheral
  | timer _ => timer .zero
  | tone _ => tone .silent
  | clock c => clock c.reset
  | random r => random r.reset
  | scratchpad s => scratchpad s.reset
  | ramp => ramp

/-- Let `n` cycles pass, which last `elapsed` seconds. -/
def tick (p : Peripheral) (n : Nat) (elapsed : Binary64) : Peripheral :=
  match p with
  | timer t => timer (t.tick n)
  | clock c => clock (c.tick elapsed)
  | tone _ | random _ | scratchpad _ | ramp => p

/-- The message of an interrupt that is asked for. -/
def interrupt : Peripheral → Option Half
  | timer t => t.interrupt
  | scratchpad s => s.interrupt
  | tone _ | clock _ | random _ | ramp => none

/-- Take back the request that `interrupt` shows. -/
def acknowledge (p : Peripheral) : Peripheral :=
  match p with
  | timer t => timer t.acknowledge
  | scratchpad s => scratchpad s.acknowledge
  | tone _ | clock _ | random _ | ramp => p

/-- The state as a byte string. -/
def save : Peripheral → Bytes
  | timer t => t.toBytes
  | tone g => g.toBytes
  | clock c => c.toBytes
  | random r => r.toBytes
  | scratchpad s => s.bytes
  | ramp => []

/-- The peripheral in a saved state. -/
def restore (p : Peripheral) (bs : Bytes) : Except RestoreError Peripheral :=
  match p with
  | timer _ => (IntervalTimer.ofBytes bs).map timer
  | tone _ => (ToneGenerator.ofBytes bs).map tone
  | clock _ => (WallClock.ofBytes bs).map clock
  | random _ => (RandomSource.ofBytes bs).map random
  | scratchpad s => (s.restore bs).map scratchpad
  | ramp => .ok ramp

end Peripheral

end Microcomputer
