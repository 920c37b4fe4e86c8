/-! The reasons for which saved state is refused. -/

namespace Microcomputer

inductive RestoreError where
  /-- A record of fixed size has another size. -/
  | size (expected actual : Nat)
  /-- A byte string ends inside a record that would start at `offset`. -/
  | truncated (offset : Nat)
  /-- A RAM image has not the size of the machine's RAM. -/
  | ram (expected actual : Nat)
  /-- There are more or fewer peripheral states than peripherals. -/
  | peripherals (expected actual : Nat)
  /-- A device state is meant for a slot that holds no device. -/
  | slot (index : Nat)
deriving DecidableEq

def RestoreError.message : RestoreError → String
  | .size expected actual => s!"state record is {actual} bytes, expected {expected}"
  | .truncated offset => s!"snapshot truncated at byte {offset}"
  | .ram expected actual => s!"snapshot RAM is {actual} bytes, machine has {expected}"
  | .peripherals expected actual =>
    s!"no peripheral to restore state for {actual} handler blobs for {expected} handlers"
  | .slot n => s!"no peripheral to restore state for slot {n}"

end Microcomputer
