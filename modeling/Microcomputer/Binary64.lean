import Microcomputer.Word

/-! IEEE 754 binary64 numbers as bit patterns. Every finite number is a whole multiple
of `2 ^ -1074`, so finite numbers are added exactly as integers in that unit and rounded
once, to nearest with ties to even. A result that is not a number is the quiet form of
the first operand that is none, or the negative quiet pattern where both are numbers. -/

namespace Microcomputer

abbrev Binary64 := BitVec 64

namespace Binary64

/-- The pattern of positive infinity; larger magnitudes are not numbers. -/
def infinity : Nat := 0x7FF0000000000000

/-- The pattern without its sign. -/
def unsigned (x : Binary64) : Nat := (x.extractLsb' 0 63).toNat

def isNaN (x : Binary64) : Bool := infinity < x.unsigned

def isInfinite (x : Binary64) : Bool := x.unsigned == infinity

/-- The absolute value of a finite number in units of `2 ^ -1074`. -/
def magnitude (x : Binary64) : Nat :=
  let exponent := (x.extractLsb' 52 11).toNat
  let fraction := (x.extractLsb' 0 52).toNat
  if exponent = 0 then fraction else ((1 <<< 52) + fraction) <<< (exponent - 1)

/-- A finite number in units of `2 ^ -1074`. -/
def units (x : Binary64) : Int := if x.msb then -(x.magnitude : Int) else x.magnitude

/-- The number nearest to `a / b` units. Patterns ascend with the numbers they stand
for, so a significand that rounds up to the next power of two carries into the exponent
by itself. -/
def nearest (a b : Nat) : Binary64 :=
  let shift := (a / b).log2 - 52
  let unit := b <<< shift
  let q := a / unit
  let r := a % unit
  let up := unit < 2 * r || (unit == 2 * r && q % 2 == 1)
  BitVec.ofNat 64 (min ((shift <<< 52) + q + up.toNat) infinity)

/-- The number nearest to a quotient of natural numbers. -/
def ofRatio (a b : Nat) : Binary64 := nearest (a <<< 1074) b

/-- The quiet form of a pattern that is not a number. -/
def quiet (x : Binary64) : Binary64 := x ||| BitVec.twoPow 64 51

/-- What an operation on numbers without a result gives. -/
def undefined : Binary64 := 0xFFF8000000000000

def negate (x : Binary64) : Binary64 := x ^^^ BitVec.twoPow 64 63

def add (x y : Binary64) : Binary64 :=
  if x.isNaN then x.quiet
  else if y.isNaN then y.quiet
  else if x.isInfinite then if y.isInfinite && x.msb != y.msb then undefined else x
  else if y.isInfinite then y
  else
    let sum := x.units + y.units
    let r := nearest sum.natAbs 1
    if sum < 0 || (sum == 0 && x.msb && y.msb) then r.negate else r

/-- The number is one or more. -/
def atLeastOne (x : Binary64) : Bool :=
  !x.msb && !x.isNaN && (x.isInfinite || 1 <<< 1074 ≤ x.magnitude)

/-- The whole part of a number that is not negative, at most the greatest double word. -/
def whole (x : Binary64) : DoubleWord :=
  if x.isInfinite then .allOnes 64
  else BitVec.ofNat 64 (min (x.magnitude >>> 1074) 0xFFFFFFFFFFFFFFFF)

/-- What is left of a number that is not negative without its whole part. -/
def remainder (x : Binary64) : Binary64 :=
  if x.isInfinite then undefined else nearest (x.magnitude % (1 <<< 1074)) 1

end Binary64

end Microcomputer
