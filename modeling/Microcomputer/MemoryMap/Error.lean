import Microcomputer.MemoryMap.Interval
import Microcomputer.Text.Quoted

/-! The reasons for which a region cannot be mapped. -/

namespace Microcomputer

/-- The parts of the address range that are never free. -/
inductive Window where
  | ram
  | rom
deriving DecidableEq

def Window.name : Window → String
  | .ram => "RAM"
  | .rom => "the ROM window"

inductive MapError where
  /-- The bounds are out of order or out of range. -/
  | invalid (start stop : Nat)
  /-- The interval meets one that is already mapped. -/
  | overlap (wanted existing : Interval)
  /-- The interval meets RAM or the ROM window. -/
  | reserved (wanted : Interval) (window : Window)
  | noSlot (index : Nat)
  | occupied (index : Nat)
  /-- No device is known by the name. -/
  | unknownDevice (name : String)
deriving DecidableEq

namespace MapError

/-- The bounds of an interval as messages show them. -/
def bounds (start stop : Nat) : String :=
  s!"0x{Text.hexadecimal 6 start}-0x{Text.hexadecimal 6 stop}"

def message : MapError → String
  | invalid start stop => s!"invalid address range {bounds start stop}"
  | overlap i j =>
    s!"address range {bounds i.start i.stop} overlaps registered range {bounds j.start j.stop}"
  | reserved i w => s!"address range {bounds i.start i.stop} overlaps {w.name}"
  | noSlot n => s!"slot {n} does not exist"
  | occupied n => s!"slot {n} is already occupied"
  | unknownDevice name => s!"no device named {Text.quote name} in the registry"

end MapError

namespace Interval

def between (start stop : Nat) : Except MapError Interval :=
  match between? start stop with
  | some i => .ok i
  | none => .error (.invalid start stop)

/-- The interval of `length` addresses from `start` on. Its end is first counted in 32
bits, which it may not leave. -/
def ofLength (start length : Nat) : Except MapError Interval :=
  if length = 0 then .error (.invalid start start)
  else if 0x100000000 ≤ start + (length - 1) then .error (.invalid start 0xFFFFFFFF)
  else between start (start + (length - 1))

end Interval

end Microcomputer
