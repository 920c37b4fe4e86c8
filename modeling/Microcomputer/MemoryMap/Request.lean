import Microcomputer.MemoryMap.Basic

/-! Interrupts as the memory map sees them. Peripherals come before slots, peripherals
in the order in which they were mapped and slots in ascending order; the first that asks
for an interrupt is shown. -/

namespace Microcomputer

/-- Where an interrupt comes from. -/
inductive InterruptSource where
  | peripheral (id : RegionId)
  | slot (index : Nat)
deriving DecidableEq

structure InterruptRequest where
  source : InterruptSource
  message : Half
deriving DecidableEq

namespace MemoryMap

/-- The message that a source asks to be sent. -/
def requested (m : MemoryMap) : InterruptSource → Option Half
  | .peripheral id => (m.peripheral? id).bind Peripheral.interrupt
  | .slot n => (m.card? n).bind fun c => c.device.interrupt

/-- All sources that there may be, in order of priority. -/
def sources (m : MemoryMap) : List InterruptSource :=
  m.order.map .peripheral ++ (List.range slotCount).map .slot

/-- The request of the first source that has one. -/
def request? (m : MemoryMap) : Option InterruptRequest :=
  m.sources.findSome? fun s => (m.requested s).map (⟨s, ·⟩)

/-- Tell a source that its interrupt was accepted. -/
def acknowledge (m : MemoryMap) : InterruptSource → MemoryMap
  | .peripheral id =>
    match m.peripheral? id with
    | some p => m.setPeripheral id p.acknowledge
    | none => m
  | .slot n =>
    match m.card? n with
    | some c => m.setCard n c.acknowledge
    | none => m

end MemoryMap

end Microcomputer
