import Microcomputer.LittleEndian
import Microcomputer.RestoreError

/-! A timer with two periodic down-counters. A counter that runs out starts again from
its reload value and, where its interrupt is enabled, asks for an interrupt. The control
byte has a run bit and an interrupt bit for each counter. -/

namespace Microcomputer

/-- One channel of the timer. -/
structure Counter where
  reload : Word
  count : Word
  /-- An interrupt is asked for and not yet acknowledged. -/
  pending : Bool
deriving DecidableEq

namespace Counter

def zero : Counter := ⟨0, 0, false⟩

/-- One clock cycle, with the interrupt of the channel enabled or not. -/
def clock (enabled : Bool) (c : Counter) : Counter :=
  if c.count ≤ 1 then { c with count := c.reload, pending := c.pending || enabled }
  else { c with count := c.count - 1 }

def run (enabled : Bool) : Nat → Counter → Counter
  | 0, c => c
  | n + 1, c => run enabled n (c.clock enabled)

/-- Write a byte of the reload value; its highest byte starts a new period. -/
def writeReload (c : Counter) (i : Nat) (b : Byte) : Counter :=
  let c := { c with reload := LittleEndian.setByteAt c.reload i b }
  if i = 3 then { c with count := c.reload } else c

def writeCount (c : Counter) (i : Nat) (b : Byte) : Counter :=
  { c with count := LittleEndian.setByteAt c.count i b }

def toBytes (c : Counter) : Bytes :=
  LittleEndian.ofWord c.reload ++ LittleEndian.ofWord c.count ++ [BitVec.ofNat 8 c.pending.toNat]

/-- The counter whose bytes start at `i`. -/
def startingAt (bs : Bytes) (i : Nat) : Counter :=
  ⟨LittleEndian.wordAt 32 bs i, LittleEndian.wordAt 32 bs (i + 4),
    LittleEndian.wordAt 8 bs (i + 8) != 0⟩

end Counter

structure IntervalTimer where
  first : Counter
  second : Counter
  control : Byte
deriving DecidableEq

namespace IntervalTimer

def zero : IntervalTimer := ⟨.zero, .zero, 0⟩

/-- Both reload values, both counts and the control byte, in the order of their addresses. -/
def registers (t : IntervalTimer) : Bytes :=
  LittleEndian.ofWord t.first.reload ++ LittleEndian.ofWord t.second.reload ++
    LittleEndian.ofWord t.first.count ++ LittleEndian.ofWord t.second.count ++ [t.control]

def read (t : IntervalTimer) (offset : Nat) : Byte := t.registers[offset]?.getD 0

/-- Only the four bits of the control byte with a meaning can be written. -/
def write (t : IntervalTimer) (offset : Nat) (b : Byte) : IntervalTimer :=
  if offset < 4 then { t with first := t.first.writeReload offset b }
  else if offset < 8 then { t with second := t.second.writeReload (offset - 4) b }
  else if offset < 12 then { t with first := t.first.writeCount (offset - 8) b }
  else if offset < 16 then { t with second := t.second.writeCount (offset - 12) b }
  else if offset = 16 then { t with control := b &&& 0x0F }
  else t

/-- So many clock cycles of the channels whose run bit is set. -/
def tick (t : IntervalTimer) (n : Nat) : IntervalTimer :=
  { t with
    first := if t.control.getLsbD 0 then t.first.run (t.control.getLsbD 1) n else t.first
    second := if t.control.getLsbD 2 then t.second.run (t.control.getLsbD 3) n else t.second }

/-- The message of the first channel that asks for an interrupt. -/
def interrupt (t : IntervalTimer) : Option Half :=
  if t.first.pending then some 1 else if t.second.pending then some 2 else none

/-- Acknowledge the interrupt that `interrupt` shows. -/
def acknowledge (t : IntervalTimer) : IntervalTimer :=
  if t.first.pending then { t with first := { t.first with pending := false } }
  else { t with second := { t.second with pending := false } }

def toBytes (t : IntervalTimer) : Bytes := t.first.toBytes ++ t.second.toBytes ++ [t.control]

def ofBytes (bs : Bytes) : Except RestoreError IntervalTimer :=
  if bs.length = 19 then .ok ⟨.startingAt bs 0, .startingAt bs 9, LittleEndian.wordAt 8 bs 18⟩
  else .error (.size 19 bs.length)

end IntervalTimer

end Microcomputer
