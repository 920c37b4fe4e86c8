import Microcomputer.Word
import Microcomputer.RestoreError

/-! A scratchpad: plain bytes, the first of which can ask for an interrupt. -/

namespace Microcomputer

structure Scratchpad where
  bytes : Bytes
  /-- The message to send while the first byte is not zero. -/
  message : Option Half
deriving DecidableEq

namespace Scratchpad

def zero (size : Nat) (message : Option Half) : Scratchpad := ⟨.replicate size 0, message⟩

def read (s : Scratchpad) (offset : Nat) : Byte := s.bytes[offset]?.getD 0

def write (s : Scratchpad) (offset : Nat) (b : Byte) : Scratchpad :=
  { s with bytes := s.bytes.set offset b }

def reset (s : Scratchpad) : Scratchpad := zero s.bytes.length s.message

def interrupt (s : Scratchpad) : Option Half := if s.read 0 = 0 then none else s.message

def acknowledge (s : Scratchpad) : Scratchpad := s.write 0 0

/-- The scratchpad with its bytes replaced by as many others. -/
def restore (s : Scratchpad) (bs : Bytes) : Except RestoreError Scratchpad :=
  if bs.length = s.bytes.length then .ok { s with bytes := bs }
  else .error (.size s.bytes.length bs.length)

end Scratchpad

end Microcomputer
