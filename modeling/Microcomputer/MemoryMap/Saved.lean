import Microcomputer.MemoryMap.Basic

/-! Saved states of what is mapped. Restoring goes through peripherals and slots one
after the other; when one of them refuses its state, all are put back. -/

namespace Microcomputer

/-- The saved state of a card. -/
structure CardState where
  slot : Byte
  block : ControlBlock
  device : Bytes
deriving DecidableEq

namespace MemoryMap

/-- The states of the peripherals in the order in which they were mapped. -/
def savePeripherals (m : MemoryMap) : List Bytes :=
  m.order.filterMap fun id => (m.peripheral? id).map Peripheral.save

/-- The states of the cards by ascending slot. -/
def saveCards (m : MemoryMap) : List CardState :=
  (List.range slotCount).filterMap fun slot =>
    (m.card? slot).map fun c => ⟨BitVec.ofNat 8 slot, c.block, c.device.save⟩

/-- Give the peripherals of the names in a list their states, up to the first that is
refused. Where there are more states than names, the rest is left over. -/
def restorePeripherals : List RegionId → List Bytes → MemoryMap → MemoryMap × Option RestoreError
  | id :: ids, bs :: rest, m =>
    match m.peripheral? id with
    | none => restorePeripherals ids rest m
    | some p =>
      match p.restore bs with
      | .ok p => restorePeripherals ids rest (m.setPeripheral id p)
      | .error e => (m, some e)
  | _, _, m => (m, none)

/-- Give the cards their states, up to the first that is refused. States for empty slots
are passed over. -/
def restoreCards : List CardState → MemoryMap → MemoryMap × Option RestoreError
  | [], m => (m, none)
  | s :: rest, m =>
    match m.card? s.slot.toNat with
    | none => restoreCards rest m
    | some c =>
      match c.device.restore s.device with
      | .ok d => restoreCards rest (m.setCard s.slot.toNat ⟨s.block, d⟩)
      | .error e => (m, some e)

/-- Give peripherals and cards their states, up to the first that is refused. -/
def restoreEach (m : MemoryMap) (peripherals : List Bytes) (cards : List CardState) :
    MemoryMap × Option RestoreError :=
  match restorePeripherals m.order peripherals m with
  | (m, none) => restoreCards cards m
  | (m, some e) => (m, some e)

/-- Give peripherals and cards their states, or leave everything as it was. -/
def restore (m : MemoryMap) (peripherals : List Bytes) (cards : List CardState) :
    MemoryMap × Option RestoreError :=
  match m.restoreEach peripherals cards with
  | (m', none) => (m', none)
  | (m', some e) => ((m'.restoreEach m.savePeripherals m.saveCards).1, some e)

end MemoryMap

end Microcomputer
