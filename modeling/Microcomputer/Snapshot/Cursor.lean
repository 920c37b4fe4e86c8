import Microcomputer.LittleEndian
import Microcomputer.RestoreError

/-! Reading a byte string from its front. A read that finds too few bytes left fails
with the place at which it began. -/

namespace Microcomputer

/-- What is left of a byte string, and how much of it was read. -/
structure Cursor where
  rest : Bytes
  offset : Nat
deriving DecidableEq

/-- A reader of values of type `α`. -/
abbrev Reader (α : Type) := StateT Cursor (Except RestoreError) α

namespace Reader

/-- The next `n` bytes. -/
def take (n : Nat) : Reader Bytes := fun c =>
  if n ≤ c.rest.length then .ok (c.rest.take n, ⟨c.rest.drop n, c.offset + n⟩)
  else .error (.truncated c.offset)

/-- A word of `w` bits. -/
def word (w : Nat) : Reader (BitVec w) := do
  let bs ← take (w / 8)
  return LittleEndian.toWord w bs

/-- Bytes that stand after their number. -/
def blob : Reader Bytes := do
  let n ← word 32
  take n.toNat

/-- So many values of one kind. -/
def many {α : Type} (r : Reader α) : Nat → Reader (List α)
  | 0 => return []
  | n + 1 => do
    let x ← r
    let xs ← many r n
    return x :: xs

end Reader

end Microcomputer
