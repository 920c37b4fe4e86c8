/-! The widths in which the machine moves data, and byte strings. Arithmetic on a
word wraps; a byte string is what programs, saved states and peripherals exchange. -/

namespace Microcomputer

abbrev Byte := BitVec 8

/-- A half-word: device registers, commands and interrupt messages. -/
abbrev Half := BitVec 16

/-- The width of registers, addresses and instructions. -/
abbrev Word := BitVec 32

/-- The width of counters that outgrow a word. -/
abbrev DoubleWord := BitVec 64

abbrev Bytes := List Byte

namespace Word

/-- The low `width` bits of a word read as a two's-complement number. -/
def signExtendFrom (width : Nat) (x : Word) : Word := (x.setWidth width).signExtend 32

/-- A word with the bit at `i` made equal to `b`. -/
def setBit (x : Word) (i : Nat) (b : Bool) : Word :=
  if b then x ||| BitVec.twoPow 32 i else x &&& ~~~BitVec.twoPow 32 i

theorem getLsbD_setBit (x : Word) (i j : Nat) (b : Bool) (hj : j < 32) :
    (x.setBit i b).getLsbD j = if j = i then b else x.getLsbD j := by
  by_cases h : j = i
  · subst h
    cases b <;> simp [setBit, hj]
  · cases b <;> simp [setBit, hj, h]

end Word

end Microcomputer
