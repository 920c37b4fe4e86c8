import Microcomputer.MemoryMap.Saved
import Microcomputer.Processor.Record
import Microcomputer.Snapshot.Cursor

/-! Snapshots of a whole machine and their bytes: the record of the processor, the RAM
image, the states of the peripherals, and for each card its slot, the bytes kept in its
control block and the state of its device. States and the RAM image stand after their
length, lists after the number of their members. -/

namespace Microcomputer

structure Snapshot where
  processor : Processor.State
  ram : Bytes
  peripherals : List Bytes
  cards : List CardState
deriving DecidableEq

namespace Snapshot

/-- A number in the four bytes of a length. -/
def count (n : Nat) : Bytes := LittleEndian.encode 4 n

/-- Bytes after their number. -/
def blob (bs : Bytes) : Bytes := count bs.length ++ bs

def cardBytes (c : CardState) : Bytes := c.slot :: (c.block.toBytes ++ blob c.device)

def toBytes (s : Snapshot) : Bytes :=
  s.processor.toBytes ++ blob s.ram ++
    (count s.peripherals.length ++ s.peripherals.flatMap blob) ++
    (count s.cards.length ++ s.cards.flatMap cardBytes)

def readCard : Reader CardState := do
  let slot ← Reader.word 8
  let block ← Reader.take 6
  let device ← Reader.blob
  return ⟨slot, .ofBytes block, device⟩

/-- All that follows the record of the processor. -/
def readBody (processor : Processor.State) : Reader Snapshot := do
  let ram ← Reader.blob
  let peripherals ← Reader.many Reader.blob (← Reader.word 32).toNat
  let cards ← Reader.many readCard (← Reader.word 32).toNat
  return ⟨processor, ram, peripherals, cards⟩

/-- The snapshot at the front of a byte string. -/
def ofBytes (bs : Bytes) : Except RestoreError Snapshot := do
  if bs.length < Processor.State.recordSize then throw (.truncated bs.length)
  let processor ← Processor.State.ofBytes (bs.take Processor.State.recordSize)
  let start : Cursor := ⟨bs.drop Processor.State.recordSize, Processor.State.recordSize⟩
  let (s, _) ← (readBody processor).run start
  return s

end Snapshot

end Microcomputer
