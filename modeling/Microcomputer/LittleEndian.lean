import Microcomputer.Word

/-! Little-endian byte strings: the least significant byte comes first. -/

namespace Microcomputer.LittleEndian

/-- The `n` low bytes of a number. -/
def encode : Nat → Nat → Bytes
  | 0, _ => []
  | n + 1, x => BitVec.ofNat 8 x :: encode n (x / 256)

def decode : Bytes → Nat
  | [] => 0
  | b :: bs => b.toNat + 256 * decode bs

/-- The bytes of a word whose width is a multiple of eight. -/
def ofWord {w : Nat} (x : BitVec w) : Bytes := encode (w / 8) x.toNat

def toWord (w : Nat) (bs : Bytes) : BitVec w := BitVec.ofNat w (decode bs)

/-- The word of width `w` that starts at byte `i` of a byte string. -/
def wordAt (w : Nat) (bs : Bytes) (i : Nat) : BitVec w := toWord w ((bs.drop i).take (w / 8))

/-- The byte at `i`, zero past the end of the word. -/
def byteAt {w : Nat} (x : BitVec w) (i : Nat) : Byte := (ofWord x)[i]?.getD 0

/-- The word with its byte at `i` replaced; nothing changes past its end. -/
def setByteAt {w : Nat} (x : BitVec w) (i : Nat) (b : Byte) : BitVec w :=
  toWord w ((ofWord x).set i b)

end Microcomputer.LittleEndian
