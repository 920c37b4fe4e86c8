import Microcomputer.Instruction.Operation

/-! The register file and the flags word. All registers are alike; five of them have a
role that instructions rely on. -/

namespace Microcomputer

namespace Reg

/-- Receives the high word of a product and the remainder of a division. -/
def secondary : Reg := 27

/-- Holds the address of the interrupt vector table. -/
def vectors : Reg := 28

def flags : Reg := 29

/-- Reserved by convention for the current stack frame. -/
def frame : Reg := 30

def stack : Reg := 31

/-- Register numbers count modulo 32. -/
def ofIndex (i : Nat) : Reg := BitVec.ofNat 5 i

end Reg

/-- The register that an instruction reads or writes by name. -/
def Special.register : Special → Reg
  | .flags => .flags
  | .secondary => .secondary
  | .vectors => .vectors

structure Registers where
  words : Vector Word 32
deriving DecidableEq

namespace Registers

def zero : Registers := ⟨.replicate 32 0⟩

def get (rs : Registers) (r : Reg) : Word := rs.words[r.toNat]

def set (rs : Registers) (r : Reg) (x : Word) : Registers := ⟨rs.words.set r.toNat x⟩

@[simp] theorem get_zero (r : Reg) : zero.get r = 0 := by
  simp [zero, get]

theorem get_set (rs : Registers) (r r' : Reg) (x : Word) :
    (rs.set r x).get r' = if r = r' then x else rs.get r' := by
  simp [get, set, Vector.getElem_set, BitVec.toNat_inj]

@[ext] theorem ext {rs rs' : Registers} (h : ∀ r, rs.get r = rs'.get r) : rs = rs' := by
  cases rs; cases rs'
  congr
  apply Vector.ext
  intro i hi
  simpa [get, Nat.mod_eq_of_lt hi] using h (BitVec.ofNat 5 i)

@[simp] theorem set_get (rs : Registers) (r : Reg) : rs.set r (rs.get r) = rs := by
  ext r'
  rw [get_set]
  split <;> simp_all

end Registers

/-- The flags that have a meaning; all other bits of the flags word are free. -/
inductive Flag where
  | carry
  | overflow
  /-- A division by zero happened. -/
  | divideError
  /-- An interrupt is being serviced. -/
  | inService
  /-- Interrupts are accepted. -/
  | enabled
  /-- An interrupt follows every instruction. -/
  | singleStep
deriving DecidableEq

/-- The place of a flag in the flags word. -/
def Flag.bit : Flag → Nat
  | .carry => 0
  | .overflow => 1
  | .divideError => 2
  | .inService => 3
  | .enabled => 8
  | .singleStep => 9

namespace Word

/-- A flag of a flags word. -/
def flag (x : Word) (f : Flag) : Bool := x.getLsbD f.bit

def setFlag (x : Word) (f : Flag) (b : Bool) : Word := x.setBit f.bit b

theorem flag_setFlag (x : Word) (f g : Flag) (b : Bool) :
    (x.setFlag f b).flag g = if g = f then b else x.flag g := by
  have hg : g.bit < 32 := by cases g <;> decide
  simp only [flag, setFlag, getLsbD_setBit _ _ _ _ hg]
  have : g.bit = f.bit ↔ g = f := by cases f <;> cases g <;> decide
  simp [this]

end Word

end Microcomputer
