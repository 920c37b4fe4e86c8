import Microcomputer.Machine.Catalogue
import Microcomputer.Machine.Configuration
import Microcomputer.MemoryMap.Request
import Microcomputer.MemoryMap.Mapping
import Microcomputer.Processor.Clock
import Microcomputer.Snapshot

/-! The whole machine: a processor on a memory map with four built-in peripherals. Each
round ends with the first interrupt request, if there is one, being offered to the
processor; its source is told only if the processor accepts. -/

namespace Microcomputer

structure Machine where
  cpu : Processor MemoryMap
  configuration : Configuration

namespace Machine

/-! ### Building -/

def timerBase : Nat := 0x11E000

def toneBase : Nat := 0x11E020

def clockBase : Nat := 0x11E030

def randomBase : Nat := 0x11E040

/-- The built-in peripherals in the order of their interrupts, with first address and
size. -/
def builtIn (epoch seed : DoubleWord) : List (Nat × Nat × Peripheral) :=
  [(timerBase, 17, .timer .zero), (toneBase, 2, .tone .silent),
   (clockBase, 8, .clock (.startingAt epoch)), (randomBase, 4, .random (.ofSeed seed))]

/-- Map a peripheral to so many addresses from a first one. -/
def mapBuiltIn (m : MemoryMap) (p : Nat × Nat × Peripheral) : Except MapError MemoryMap := do
  let (_, m) ← m.register (← Interval.ofLength p.1 p.2.1) p.2.2
  return m

/-- The machine of a configuration. The random source starts from `entropy` where the
configuration does not fix its seed. -/
def build (c : Configuration) (entropy : DoubleWord) : Except ConfigurationError Machine := do
  c.check
  let map := MemoryMap.new c.ram ⟨c.rom⟩
  let map ← ((builtIn c.epoch (c.seed.getD entropy)).foldlM mapBuiltIn map).mapError .unmapped
  return ⟨.new map, c⟩

/-! ### Running -/

def map (m : Machine) : MemoryMap := m.cpu.memory

/-- The machine with its memory map changed. -/
def withMap (m : Machine) (f : MemoryMap → MemoryMap) : Machine :=
  { m with cpu := { m.cpu with memory := f m.cpu.memory } }

/-- The time that `n` cycles take, in seconds. -/
def elapsed (m : Machine) (n : Nat) : Binary64 := .ofRatio n m.configuration.clock.toNat

/-- Offer the first interrupt request to the processor. -/
def route (m : Machine) : Machine :=
  match m.map.request? with
  | some r =>
    if m.cpu.accepts then
      { m with cpu := m.cpu.offer r.message }.withMap (·.acknowledge r.source)
    else m
  | none => m

/-- Let `n` cycles pass outside the processor, and route an interrupt. -/
def round (m : Machine) (n : Nat) : Machine :=
  (m.withMap (·.tick n (m.elapsed n))).route

/-- Run one slot of the processor, then let the time pass that it took. -/
def step (m : Machine) : Nat × Machine :=
  let (cost, cpu) := m.cpu.step
  (cost, { m with cpu := cpu }.round cost)

/-- One clock cycle of the whole machine. -/
def cycle (m : Machine) : Machine := { m with cpu := m.cpu.cycle }.round 1

/-- So many clock cycles of the whole machine. -/
def tick : Nat → Machine → Machine
  | 0, m => m
  | n + 1, m => tick n m.cycle

/-- Reset the processor and everything mapped. RAM keeps its bytes. -/
def reset (m : Machine) : Machine := { m with cpu := m.cpu.reset }.withMap MemoryMap.reset

/-- Write bytes into RAM. -/
def load (m : Machine) (a : Nat) (bs : Bytes) : Machine :=
  m.withMap fun map => { map with ram := map.ram.load a bs }

/-- The frequency of the tone, as a program reads it. -/
def tone (m : Machine) : Half × Machine :=
  let (x, map) := Memory.readHalf m.map (BitVec.ofNat 32 toneBase)
  (x, m.withMap fun _ => map)

/-! ### Devices -/

def attach (m : Machine) (slot : Nat) (d : Device) : Except MapError Machine := do
  let map ← m.map.attach slot d
  return m.withMap fun _ => map

/-- Plug a device from a catalogue into an empty slot. -/
def attachNamed (m : Machine) (c : Catalogue) (name : String) (slot : Nat) :
    Except MapError Machine :=
  match c.device? name with
  | some d => m.attach slot d
  | none => .error (.unknownDevice name)

def detach (m : Machine) (slot : Nat) : Option (Device × Machine) := do
  let (d, map) ← m.map.detach slot
  return (d, m.withMap fun _ => map)

/-! ### Snapshots -/

def save (m : Machine) : Snapshot :=
  ⟨m.cpu.toState, m.map.ram.bytes.toList, m.map.savePeripherals, m.map.saveCards⟩

/-- The first reason for which a snapshot does not belong to a machine like this. -/
def mismatch? (m : Machine) (s : Snapshot) : Option RestoreError :=
  if s.ram.length ≠ m.map.ram.size then some (.ram m.map.ram.size s.ram.length)
  else if s.peripherals.length ≠ m.map.order.length then
    some (.peripherals m.map.order.length s.peripherals.length)
  else
    (s.cards.find? fun c => (m.map.card? c.slot.toNat).isNone).map fun c => .slot c.slot.toNat

/-- Bring the machine into the state of a snapshot. If the snapshot is refused the
machine stays as it was. -/
def restore (m : Machine) (s : Snapshot) : Machine × Option RestoreError :=
  match m.mismatch? s with
  | some e => (m, some e)
  | none =>
    match m.map.restore s.peripherals s.cards with
    | (map, some e) => (m.withMap fun _ => map, some e)
    | (map, none) =>
      ({ m with cpu := ⟨s.processor, { map with ram := map.ram.load 0 s.ram }⟩ }, none)

end Machine

end Microcomputer
