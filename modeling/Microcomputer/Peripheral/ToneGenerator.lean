import Microcomputer.LittleEndian
import Microcomputer.RestoreError

/-! A tone generator: one register with the frequency of the tone in hertz, silent at zero. -/

namespace Microcomputer

structure ToneGenerator where
  frequency : Half
deriving DecidableEq

namespace ToneGenerator

def silent : ToneGenerator := ⟨0⟩

def read (g : ToneGenerator) (offset : Nat) : Byte := LittleEndian.byteAt g.frequency offset

def write (g : ToneGenerator) (offset : Nat) (b : Byte) : ToneGenerator :=
  ⟨LittleEndian.setByteAt g.frequency offset b⟩

def toBytes (g : ToneGenerator) : Bytes := LittleEndian.ofWord g.frequency

def ofBytes (bs : Bytes) : Except RestoreError ToneGenerator :=
  if bs.length = 2 then .ok ⟨LittleEndian.toWord 16 bs⟩ else .error (.size 2 bs.length)

end ToneGenerator

end Microcomputer
