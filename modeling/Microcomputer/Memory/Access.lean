import Microcomputer.LittleEndian

/-! Byte-addressed memory. An instance provides bytes; wider accesses are made of
byte accesses at ascending addresses, the least significant byte first, and wrap at
the end of the 32-bit address range. Reading may change the memory, because a
device register may react to being read. -/

namespace Microcomputer

class Memory (M : Type) where
  readByte : M → Word → Byte × M
  writeByte : M → Word → Byte → M

namespace Memory

variable {M : Type} [Memory M]

/-- The bytes at `n` consecutive addresses, read in ascending order. -/
def readBytes : Nat → M → Word → Bytes × M
  | 0, m, _ => ([], m)
  | n + 1, m, a =>
    let (b, m) := readByte m a
    let (bs, m) := readBytes n m (a + 1)
    (b :: bs, m)

/-- Bytes stored at consecutive addresses in ascending order. -/
def writeBytes : M → Word → Bytes → M
  | m, _, [] => m
  | m, a, b :: bs => writeBytes (writeByte m a b) (a + 1) bs

def readHalf (m : M) (a : Word) : Half × M :=
  let (bs, m) := readBytes 2 m a
  (LittleEndian.toWord 16 bs, m)

def readWord (m : M) (a : Word) : Word × M :=
  let (bs, m) := readBytes 4 m a
  (LittleEndian.toWord 32 bs, m)

def writeHalf (m : M) (a : Word) (x : Half) : M := writeBytes m a (LittleEndian.ofWord x)

def writeWord (m : M) (a : Word) (x : Word) : M := writeBytes m a (LittleEndian.ofWord x)

end Memory

end Microcomputer
