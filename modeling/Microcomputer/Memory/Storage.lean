import Microcomputer.Word

/-! The storage of a machine: RAM of fixed size from address zero on, and a ROM window
of 64 KiB on a program image. Main statement: `Ram.read_write`, a byte of RAM reads as
it was last written. -/

namespace Microcomputer

/-! ### RAM -/

structure Ram where
  bytes : Array Byte
  size_le : bytes.size ≤ 0x100000

instance : DecidableEq Ram := fun r s =>
  decidable_of_iff (r.bytes = s.bytes) (by cases r; cases s; simp)

namespace Ram

/-- The greatest size, with which RAM reaches up to the ROM window. -/
def maxSize : Nat := 0x100000

/-- RAM of `size` zero bytes, or as many as there may be. -/
def zero (size : Nat) : Ram :=
  ⟨.replicate (min size maxSize) 0, by rw [Array.size_replicate]; exact Nat.min_le_right _ _⟩

def size (r : Ram) : Nat := r.bytes.size

def contains (r : Ram) (a : Nat) : Bool := a < r.size

/-- The byte at an address, zero outside. -/
def read (r : Ram) (a : Nat) : Byte := r.bytes[a]?.getD 0

/-- Write a byte; outside nothing happens. -/
def write (r : Ram) (a : Nat) (b : Byte) : Ram :=
  ⟨r.bytes.setIfInBounds a b, by simpa using r.size_le⟩

/-- Write bytes from an address on; what reaches outside is lost. -/
def load (r : Ram) (a : Nat) : Bytes → Ram
  | [] => r
  | b :: bs => load (r.write a b) (a + 1) bs

@[simp] theorem size_write (r : Ram) (a : Nat) (b : Byte) : (r.write a b).size = r.size := by
  simp [write, size]

theorem read_write (r : Ram) (a a' : Nat) (b : Byte) :
    (r.write a b).read a' = if a = a' ∧ a < r.size then b else r.read a' := by
  simp only [read, write, size, Array.getElem?_setIfInBounds]
  grind

end Ram

/-! ### ROM -/

structure Rom where
  image : Array Byte
deriving DecidableEq

namespace Rom

/-- The first address of the window. -/
def base : Nat := 0x100000

/-- Bytes in the window, and the greatest size of an image that it shows whole. -/
def windowSize : Nat := 0x10000

/-- The address lies in the window, whatever the size of the image. -/
def windowContains (a : Nat) : Bool := base ≤ a && a < base + windowSize

/-- The byte of the image at an absolute address, zero where the image has none. The
distance from the base counts modulo `2 ^ 32`. -/
def read (r : Rom) (a : Word) : Byte := r.image[(a - BitVec.ofNat 32 base).toNat]?.getD 0

end Rom

end Microcomputer
