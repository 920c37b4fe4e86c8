import Microcomputer.Device.ControlBlock
import Microcomputer.Memory.Access
import Microcomputer.Memory.Storage
import Microcomputer.MemoryMap.Interval
import Microcomputer.Peripheral

/-! The memory map: RAM, the ROM window and the regions mapped around them. An access
goes to the first of these that has the address; where none has it, reading gives zero
and writing does nothing. Regions stand in ascending order of their addresses, so the
only one that can contain an address is the last that starts at or below it. -/

namespace Microcomputer

/-- The name of a region, never given twice. -/
abbrev RegionId := Nat

/-- A device in a slot together with its control block. -/
structure Card where
  block : ControlBlock
  device : Device
deriving DecidableEq

/-- What a region leads to. -/
inductive Region.Content where
  | peripheral (p : Peripheral)
  | card (c : Card)
deriving DecidableEq

/-- An interval of addresses that leads to a peripheral or a card. -/
structure Region where
  id : RegionId
  span : Interval
  content : Region.Content
deriving DecidableEq

namespace Card

/-- A card as it is plugged in. -/
def new (d : Device) : Card := ⟨.zero, d⟩

def write (c : Card) (offset : Nat) (b : Byte) : Card :=
  let (block, call) := c.block.write offset b
  ⟨block, (call.map (·.run c.device)).getD c.device⟩

def reset (c : Card) : Card := new c.device.reset

def tick (c : Card) (n : Nat) : Card :=
  if c.device.synchronous then { c with device := c.device.tick n } else c

def acknowledge (c : Card) : Card := { c with device := c.device.acknowledge }

end Card

namespace Region.Content

def peripheral? : Content → Option Peripheral
  | peripheral p => some p
  | card _ => none

def card? : Content → Option Card
  | peripheral _ => none
  | card c => some c

/-- The byte at an offset in the region. -/
def read (c : Content) (offset : Nat) : Byte × Content :=
  match c with
  | peripheral p =>
    let (b, p) := p.read offset
    (b, peripheral p)
  | card k => (ControlBlock.read k.device offset, c)

def write (c : Content) (offset : Nat) (b : Byte) : Content :=
  match c with
  | peripheral p => peripheral (p.write offset b)
  | card k => card (k.write offset b)

def reset : Content → Content
  | peripheral p => peripheral p.reset
  | card k => card k.reset

/-- Let `n` cycles pass, which last `elapsed` seconds. -/
def tick (c : Content) (n : Nat) (elapsed : Binary64) : Content :=
  match c with
  | peripheral p => peripheral (p.tick n elapsed)
  | card k => card (k.tick n)

end Region.Content

structure MemoryMap where
  ram : Ram
  rom : Rom
  regions : List Region
  /-- The peripherals in the order in which they were mapped. -/
  order : List RegionId
  /-- The name of the next region. -/
  nextId : RegionId
deriving DecidableEq

namespace MemoryMap

/-- A memory map without regions. -/
def new (ramSize : Nat) (rom : Rom) : MemoryMap := ⟨.zero ramSize, rom, [], [], 0⟩

/-- The last region that starts at or below an address. -/
def below? (m : MemoryMap) (a : Nat) : Option Region :=
  (m.regions.takeWhile fun r => r.span.start ≤ a).getLast?

/-- The region that contains an address. -/
def regionAt? (m : MemoryMap) (a : Nat) : Option Region :=
  (m.below? a).filter fun r => r.span.contains a

/-- Change what regions lead to, and nothing else. -/
def mapContents (m : MemoryMap) (f : Region → Region.Content) : MemoryMap :=
  { m with regions := m.regions.map fun r => { r with content := f r } }

/-- Replace what the region of a name leads to. -/
def setContent (m : MemoryMap) (id : RegionId) (c : Region.Content) : MemoryMap :=
  m.mapContents fun r => if r.id = id then c else r.content

def readByte (m : MemoryMap) (w : Word) : Byte × MemoryMap :=
  let a := (Address.ofWord w).toNat
  if m.ram.contains a then (m.ram.read a, m)
  else if Rom.windowContains a then (m.rom.read (BitVec.ofNat 32 a), m)
  else
    match m.regionAt? a with
    | some r =>
      let (b, c) := r.content.read (a - r.span.start)
      (b, m.setContent r.id c)
    | none => (0, m)

def writeByte (m : MemoryMap) (w : Word) (b : Byte) : MemoryMap :=
  let a := (Address.ofWord w).toNat
  if m.ram.contains a then { m with ram := m.ram.write a b }
  else if Rom.windowContains a then m
  else
    match m.regionAt? a with
    | some r => m.setContent r.id (r.content.write (a - r.span.start) b)
    | none => m

instance : Memory MemoryMap := ⟨readByte, writeByte⟩

/-- The peripheral of a name. -/
def peripheral? (m : MemoryMap) (id : RegionId) : Option Peripheral :=
  (m.regions.filter fun r => r.id == id).findSome? fun r => r.content.peripheral?

/-- Replace the peripheral of a name. -/
def setPeripheral (m : MemoryMap) (id : RegionId) (p : Peripheral) : MemoryMap :=
  m.mapContents fun r =>
    if r.id = id ∧ r.content.peripheral?.isSome then .peripheral p else r.content

/-! ### Slots -/

/-- The number of slots. -/
def slotCount : Nat := 32

/-- The first address of the control block of a slot. Slots count modulo their number. -/
def slotBase (slot : Nat) : Nat := 0x110000 + 0x100 * (slot % slotCount)

/-- The card in a slot. -/
def card? (m : MemoryMap) (slot : Nat) : Option Card :=
  if slot < slotCount then
    (m.regions.find? fun r => r.span.start == slotBase slot).bind fun r => r.content.card?
  else none

/-- Replace the card in a slot; an empty slot stays empty. -/
def setCard (m : MemoryMap) (slot : Nat) (c : Card) : MemoryMap :=
  if slot < slotCount then
    m.mapContents fun r =>
      if r.span.start = slotBase slot ∧ r.content.card?.isSome then .card c else r.content
  else m

/-- The slots that hold a card, ascending. -/
def occupiedSlots (m : MemoryMap) : List Nat :=
  (List.range slotCount).filter fun slot => (m.card? slot).isSome

/-! ### Time and reset -/

/-- Let `n` cycles pass for the peripherals and the synchronous devices. -/
def tick (m : MemoryMap) (n : Nat) (elapsed : Binary64) : MemoryMap :=
  m.mapContents fun r => r.content.tick n elapsed

/-- Reset the peripherals and the cards. RAM keeps its bytes. -/
def reset (m : MemoryMap) : MemoryMap := m.mapContents fun r => r.content.reset

end MemoryMap

end Microcomputer
