import Microcomputer.Processor.RegisterFile

/-! The value of every function of two words. Only additions and subtractions touch
carry and overflow, and only divisions the divide-error flag. A product leaves its high
word, and a division its remainder, in the secondary register. -/

namespace Microcomputer

namespace Arithmetic

/-- What a computation leaves behind: the flags word, a word for the secondary register
and a word for the destination. An absent word leaves its register alone. -/
structure Outcome where
  flags : Word
  secondary : Option Word
  result : Option Word
deriving DecidableEq

/-- An outcome that keeps the flags and the secondary register. -/
def plain (flags result : Word) : Outcome := ⟨flags, none, some result⟩

/-- The sum of two words and a carry. The carry flag tells whether the sum reaches
`2 ^ 32`, the overflow flag whether both terms have a sign that the sum has not. -/
def sum (flags a b : Word) (carry : Bool) : Outcome :=
  let wide := a.toNat + b.toNat + carry.toNat
  let r := BitVec.ofNat 32 wide
  let flags := flags.setFlag .carry (0x100000000 ≤ wide)
  plain (flags.setFlag .overflow ((a ^^^ r) &&& (b ^^^ r)).msb) r

/-- The difference of two words less a borrow. The carry flag tells whether more is
taken away than there is, the overflow flag whether the terms differ in sign and the
difference has not the sign of the first. -/
def difference (flags a b : Word) (borrow : Bool) : Outcome :=
  let taken := b.toNat + borrow.toNat
  let r := a - BitVec.ofNat 32 taken
  let flags := flags.setFlag .carry (a.toNat < taken)
  plain (flags.setFlag .overflow ((a ^^^ b) &&& (a ^^^ r)).msb) r

/-- A product of 64 bits, its low word first. -/
def product (flags : Word) (p : DoubleWord) : Outcome :=
  ⟨flags, some (p.extractLsb' 32 32), some (p.setWidth 32)⟩

/-- A quotient and a remainder. A divisor of zero only sets the divide-error flag. -/
def quotient (flags divisor q r : Word) : Outcome :=
  if divisor = 0 then ⟨flags.setFlag .divideError true, none, none⟩
  else ⟨flags.setFlag .divideError false, some r, some q⟩

/-- The outcome of a function on `a` and `b` where the flags word is `flags`. Shifts by
the width of a word and more push every bit out; rotations count modulo that width. -/
def outcome (f : Arithmetic) (flags a b : Word) : Outcome :=
  match f with
  | and => plain flags (a &&& b)
  | or => plain flags (a ||| b)
  | xor => plain flags (a ^^^ b)
  | andNot => plain flags (a &&& ~~~b)
  | add => sum flags a b false
  | addCarry => sum flags a b (flags.flag .carry)
  | sub => difference flags a b false
  | subBorrow => difference flags a b (flags.flag .carry)
  | reverseSub => difference flags b a false
  | reverseSubBorrow => difference flags b a (flags.flag .carry)
  | shiftLeft => plain flags (if b.toNat < 32 then a <<< b.toNat else 0)
  | shiftRight => plain flags (if b.toNat < 32 then a >>> b.toNat else 0)
  | shiftRightSigned => plain flags (a.sshiftRight (min b.toNat 31))
  | rotateLeft => plain flags (a.rotateLeft b.toNat)
  | rotateRight => plain flags (a.rotateRight b.toNat)
  | mul => product flags (a.setWidth 64 * b.setWidth 64)
  | mulSigned => product flags (a.signExtend 64 * b.signExtend 64)
  | div => quotient flags b (a / b) (a % b)
  | divSigned => quotient flags b (a.sdiv b) (a.srem b)

end Arithmetic

/-- The relation that a condition asks about. -/
def Condition.holds (c : Condition) (a b : Word) : Bool :=
  match c with
  | .equal => a == b
  | .notEqual => a != b
  | .less => a.ult b
  | .lessSigned => a.slt b
  | .lessEqual => a.ule b
  | .lessEqualSigned => a.sle b
  | .greater => b.ult a
  | .greaterSigned => b.slt a
  | .greaterEqual => b.ule a
  | .greaterEqualSigned => b.sle a
  | .commonBits => a &&& b != 0
  | .noCommonBits => a &&& b == 0

def Conversion.apply (c : Conversion) (x : Word) : Word :=
  match c with
  | .copy => x
  | .complement => ~~~x
  | .extendByte => x.signExtendFrom 8
  | .extendHalf => x.signExtendFrom 16

def Exchange.apply (e : Exchange) (x : Word) : Word :=
  match e with
  | .lowBytes => x.extractLsb' 16 16 ++ x.extractLsb' 0 8 ++ x.extractLsb' 8 8
  | .halves => x.extractLsb' 0 16 ++ x.extractLsb' 16 16

end Microcomputer
