import Microcomputer.LittleEndian

/-! The ChaCha stream with eight rounds, read one word at a time, and the expansion of
a 64-bit seed into its key. -/

namespace Microcomputer.ChaCha

/-- The working state of a block: constants, key, block counter and stream number. -/
abbrev Block := Vector Word 16

abbrev Key := Vector Word 8

/-- The words of "expand 32-byte k". -/
def constants : Vector Word 4 := #v[0x61707865, 0x3320646E, 0x79622D32, 0x6B206574]

def quarterRound (s : Block) (a b c d : Fin 16) : Block :=
  let s := s.set a (s[a] + s[b])
  let s := s.set d ((s[d] ^^^ s[a]).rotateLeft 16)
  let s := s.set c (s[c] + s[d])
  let s := s.set b ((s[b] ^^^ s[c]).rotateLeft 12)
  let s := s.set a (s[a] + s[b])
  let s := s.set d ((s[d] ^^^ s[a]).rotateLeft 8)
  let s := s.set c (s[c] + s[d])
  s.set b ((s[b] ^^^ s[c]).rotateLeft 7)

/-- A round on the columns and a round on the diagonals. -/
def doubleRound (s : Block) : Block :=
  let s := quarterRound s 0 4 8 12
  let s := quarterRound s 1 5 9 13
  let s := quarterRound s 2 6 10 14
  let s := quarterRound s 3 7 11 15
  let s := quarterRound s 0 5 10 15
  let s := quarterRound s 1 6 11 12
  let s := quarterRound s 2 7 8 13
  quarterRound s 3 4 9 14

/-- The block number `n` of stream zero, before any round. -/
def start (key : Key) (n : DoubleWord) : Block :=
  constants ++ key ++ (#v[n.setWidth 32, n.extractLsb' 32 32, 0, 0] : Vector Word 4)

def block (key : Key) (n : DoubleWord) : Block :=
  let s := start key n
  let mixed := doubleRound (doubleRound (doubleRound (doubleRound s)))
  mixed.zipWith (· + ·) s

/-- One step of the generator that expands seeds. -/
def advance (x : DoubleWord) : DoubleWord := x * 6364136223846793005 + 11634580027462260723

/-- The word that the expanding generator gives in state `x`. -/
def output (x : DoubleWord) : Word :=
  (((x >>> 18 ^^^ x) >>> 27).setWidth 32).rotateRight (x >>> 59).toNat

/-- The key of a seed: eight successive words of the expanding generator. -/
def keyOfSeed (seed : DoubleWord) : Key :=
  Vector.ofFn fun i => output (Nat.repeat advance (i + 1) seed)

/-- A place in the stream of a key, counted in words. -/
structure Stream where
  key : Key
  position : BitVec 68
deriving DecidableEq

namespace Stream

/-- The word at the current place. -/
def word (s : Stream) : Word :=
  (block s.key (s.position.extractLsb' 4 64)).get (s.position.extractLsb' 0 4).toFin

/-- Draw one word. -/
def next (s : Stream) : Word × Stream := (s.word, { s with position := s.position + 1 })

/-- The start of the stream of a seed. -/
def ofSeed (seed : DoubleWord) : Stream := ⟨keyOfSeed seed, 0⟩

end Stream

end Microcomputer.ChaCha
