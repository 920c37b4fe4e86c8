import Microcomputer.Binary64
import Microcomputer.LittleEndian
import Microcomputer.RestoreError

/-! A clock that counts the seconds of emulated time. Parts of a second add up in a
binary fraction until they make whole seconds. -/

namespace Microcomputer

structure WallClock where
  /-- The second from which the clock starts. -/
  epoch : DoubleWord
  seconds : DoubleWord
  fraction : Binary64
deriving DecidableEq

namespace WallClock

def startingAt (epoch : DoubleWord) : WallClock := ⟨epoch, epoch, 0⟩

def read (c : WallClock) (offset : Nat) : Byte := LittleEndian.byteAt c.seconds offset

def write (c : WallClock) (offset : Nat) (b : Byte) : WallClock :=
  { c with seconds := LittleEndian.setByteAt c.seconds offset b }

def reset (c : WallClock) : WallClock := startingAt c.epoch

/-- Let `elapsed` seconds pass. The time that passes is the first operand of the sum, so
where it is not a number its pattern is the one that stays. -/
def tick (c : WallClock) (elapsed : Binary64) : WallClock :=
  let fraction := elapsed.add c.fraction
  if fraction.atLeastOne then
    { c with seconds := c.seconds + fraction.whole, fraction := fraction.remainder }
  else { c with fraction := fraction }

def toBytes (c : WallClock) : Bytes :=
  LittleEndian.ofWord c.epoch ++ LittleEndian.ofWord c.seconds ++ LittleEndian.ofWord c.fraction

def ofBytes (bs : Bytes) : Except RestoreError WallClock :=
  if bs.length = 24 then
    .ok ⟨LittleEndian.wordAt 64 bs 0, LittleEndian.wordAt 64 bs 8, LittleEndian.wordAt 64 bs 16⟩
  else .error (.size 24 bs.length)

end WallClock

end Microcomputer
