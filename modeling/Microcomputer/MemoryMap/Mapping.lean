import Microcomputer.MemoryMap.Basic
import Microcomputer.MemoryMap.Error

/-! Mapping and unmapping of regions. An interval is free if it meets neither RAM, nor
the ROM window, nor a mapped region; only free intervals are mapped. -/

namespace Microcomputer.MemoryMap

/-- The windows of a memory map that are never free. Absent RAM has no window. -/
def windows (m : MemoryMap) : List (Window × Interval) :=
  ((Interval.between? 0 (m.ram.size - 1)).filter fun _ => 0 < m.ram.size).toList.map (.ram, ·) ++
    (Interval.between? Rom.base (Rom.base + Rom.windowSize - 1)).toList.map (.rom, ·)

/-- The reason for which an interval is not free. Of the regions only the last that
starts in or below the interval is looked at. -/
def conflict? (m : MemoryMap) (i : Interval) : Option MapError :=
  match m.windows.find? fun w => i.overlaps w.2 with
  | some w => some (.reserved i w.1)
  | none =>
    ((m.below? i.stop).filter fun r => r.span.overlaps i).map fun r => .overlap i r.span

/-- A region put among others so that their starts ascend. -/
def insertRegion (r : Region) : List Region → List Region
  | [] => [r]
  | s :: rs => if r.span.start < s.span.start then r :: s :: rs else s :: insertRegion r rs

/-- Map a free interval and give the region its name. -/
def insert (m : MemoryMap) (i : Interval) (c : Region.Content) :
    Except MapError (RegionId × MemoryMap) :=
  match m.conflict? i with
  | some e => .error e
  | none =>
    .ok (m.nextId,
      { m with regions := insertRegion ⟨m.nextId, i, c⟩ m.regions, nextId := m.nextId + 1 })

/-- Map a peripheral. It comes last in the order of interrupts. -/
def register (m : MemoryMap) (i : Interval) (p : Peripheral) :
    Except MapError (RegionId × MemoryMap) := do
  let (id, m) ← m.insert i (.peripheral p)
  return (id, { m with order := m.order ++ [id] })

/-- Unmap the peripheral of a name. -/
def unregister (m : MemoryMap) (id : RegionId) : Option (Peripheral × MemoryMap) := do
  let p ← m.peripheral? id
  return (p, { m with
    regions := m.regions.filter fun r => !(r.id == id && r.content.peripheral?.isSome)
    order := m.order.filter fun i => i != id })

/-- Plug a device into an empty slot. -/
def attach (m : MemoryMap) (slot : Nat) (d : Device) : Except MapError MemoryMap := do
  if slotCount ≤ slot then throw (.noSlot slot)
  if (m.card? slot).isSome then throw (.occupied slot)
  let i ← Interval.ofLength (slotBase slot) ControlBlock.size
  let (_, m) ← m.insert i (.card (.new d))
  return m

/-- Unplug the device in a slot. -/
def detach (m : MemoryMap) (slot : Nat) : Option (Device × MemoryMap) := do
  let c ← m.card? slot
  return (c.device, { m with
    regions := m.regions.filter fun r =>
      !(r.span.start == slotBase slot && r.content.card?.isSome) })

end Microcomputer.MemoryMap
