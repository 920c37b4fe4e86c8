import Microcomputer.Device

/-! The control block through which programs reach the device in a slot. Its bytes are
a presence byte, the identity, the command register and the five data registers:

    00 presence   01 kind   02 subkind   03 number   04-07 vendor
    08-09 command   0A-13 data registers A to E

A half-word register takes effect when its high byte is written; its low byte is kept
in the block until then. -/

namespace Microcomputer

/-- The low bytes written so far. -/
structure ControlBlock where
  command : Byte
  registers : Vector Byte 5
deriving DecidableEq

namespace ControlBlock

/-- Bytes of a block. -/
def size : Nat := 20

def zero : ControlBlock := ⟨0, .replicate 5 0⟩

/-- All bytes of the block of a device. The command register cannot be read. -/
def view (d : Device) : Bytes :=
  [0xFF, d.identity.kind, d.identity.subkind, d.identity.number] ++
    LittleEndian.ofWord d.identity.vendor ++ [0, 0] ++
    (List.finRange 5).flatMap fun i => LittleEndian.ofWord (d.register i)

def read (d : Device) (offset : Nat) : Byte := (view d)[offset]?.getD 0

/-- Write a byte. A high byte makes one call to the device. -/
def write (b : ControlBlock) (offset : Nat) (x : Byte) : ControlBlock × Option Device.Call :=
  if offset = 8 then ({ b with command := x }, none)
  else if offset = 9 then (b, some (.command (x ++ b.command)))
  else if h : 10 ≤ offset ∧ offset < 20 then
    let i : Fin 5 := ⟨(offset - 10) / 2, by omega⟩
    if offset % 2 = 0 then ({ b with registers := b.registers.set i x }, none)
    else (b, some (.setRegister i (x ++ b.registers[i])))
  else (b, none)

/-- The byte kept for the command register, then those of registers A to E. -/
def toBytes (b : ControlBlock) : Bytes := b.command :: b.registers.toList

/-- The block with these bytes kept; absent ones are zero. -/
def ofBytes (bs : Bytes) : ControlBlock :=
  ⟨bs[0]?.getD 0, Vector.ofFn fun i => bs[i.val + 1]?.getD 0⟩

end ControlBlock

end Microcomputer
