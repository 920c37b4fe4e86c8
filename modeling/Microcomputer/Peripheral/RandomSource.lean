import Microcomputer.ChaCha
import Microcomputer.RestoreError

/-! A source of random words. Reading its first byte draws a word, of which the other
bytes then read; writing its fourth byte starts the stream of the seed written. -/

namespace Microcomputer

structure RandomSource where
  /-- The seed to which a reset returns. -/
  seed : DoubleWord
  stream : ChaCha.Stream
  /-- The word drawn last. -/
  value : Word
  /-- The bytes written so far towards a new seed. -/
  buffer : Word
deriving DecidableEq

namespace RandomSource

def ofSeed (seed : DoubleWord) : RandomSource := ⟨seed, .ofSeed seed, 0, 0⟩

/-- Start the stream of a seed. -/
def reseed (r : RandomSource) (seed : DoubleWord) : RandomSource :=
  { r with stream := .ofSeed seed, value := 0 }

def draw (r : RandomSource) : RandomSource :=
  let (x, stream) := r.stream.next
  { r with stream := stream, value := x }

def read (r : RandomSource) (offset : Nat) : Byte × RandomSource :=
  let r := if offset = 0 then r.draw else r
  (LittleEndian.byteAt r.value offset, r)

def write (r : RandomSource) (offset : Nat) (b : Byte) : RandomSource :=
  let r := { r with buffer := LittleEndian.setByteAt r.buffer offset b }
  if offset = 3 then r.reseed (r.buffer.setWidth 64) else r

def reset (r : RandomSource) : RandomSource := ofSeed r.seed

def toBytes (r : RandomSource) : Bytes :=
  LittleEndian.ofWord r.seed ++ r.stream.key.toList.flatMap LittleEndian.ofWord ++
    LittleEndian.encode 16 r.stream.position.toNat ++ LittleEndian.ofWord r.value ++
    LittleEndian.ofWord r.buffer

/-- A place in the stream counts modulo the length of the stream. -/
def ofBytes (bs : Bytes) : Except RestoreError RandomSource :=
  if bs.length = 64 then
    .ok {
      seed := LittleEndian.wordAt 64 bs 0
      stream := {
        key := Vector.ofFn fun i => LittleEndian.wordAt 32 bs (8 + 4 * i)
        position := LittleEndian.toWord 68 ((bs.drop 40).take 16) }
      value := LittleEndian.wordAt 32 bs 56
      buffer := LittleEndian.wordAt 32 bs 60 }
  else .error (.size 64 bs.length)

end RandomSource

end Microcomputer
