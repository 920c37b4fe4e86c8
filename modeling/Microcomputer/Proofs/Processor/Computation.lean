import Mathlib.Algebra.GroupWithZero.Nat
import Mathlib.Algebra.Ring.Int.Defs
import Microcomputer.Proofs.Processor.Dispatch
import Microcomputer.Proofs.Processor.Stack

/-! Computations with two words and the whole numbers they stand for. Products, quotients,
shifts and rotations are those of integers, whatever registers the operands come from and the
results go to: `computes_integers`. -/

namespace Microcomputer

namespace Arithmetic

variable {a b : Word}

/-! ### Products -/

/-- The high word and the low word of a product make it up. -/
theorem append_halves (p : DoubleWord) : p.extractLsb' 32 32 ++ p.setWidth 32 = p := by
  rw [BitVec.setWidth_eq_extractLsb' (by decide),
    BitVec.extractLsb'_append_extractLsb'_eq_extractLsb' (show 32 = 0 + 32 from rfl),
    BitVec.extractLsb'_eq_self]

theorem toNat_append (x y : Word) : (x ++ y).toNat = 2 ^ 32 * x.toNat + y.toNat := by
  rw [BitVec.toNat_append, ← Nat.shiftLeft_add_eq_or_of_lt y.isLt, Nat.shiftLeft_eq, Nat.mul_comm]

theorem toNat_product (a b : Word) :
    (a.setWidth 64 * b.setWidth 64).toNat = a.toNat * b.toNat := by
  have hlt : a.toNat * b.toNat < 2 ^ 64 :=
    Nat.lt_of_lt_of_le (Nat.mul_lt_mul'' a.isLt b.isLt) (by decide)
  rw [BitVec.toNat_mul, BitVec.toNat_setWidth_of_le (by decide),
    BitVec.toNat_setWidth_of_le (by decide), Nat.mod_eq_of_lt hlt]

theorem natAbs_toInt_le (a : Word) : a.toInt.natAbs ≤ 2 ^ 31 := by
  have hle := a.le_toInt
  have hlt := a.toInt_lt
  omega

theorem toInt_product (a b : Word) :
    (a.signExtend 64 * b.signExtend 64).toInt = a.toInt * b.toInt := by
  have hle : (a.toInt * b.toInt).natAbs ≤ 2 ^ 31 * 2 ^ 31 := by
    rw [Int.natAbs_mul]
    exact Nat.mul_le_mul (natAbs_toInt_le a) (natAbs_toInt_le b)
  rw [BitVec.toInt_mul, BitVec.toInt_signExtend_of_le (by decide),
    BitVec.toInt_signExtend_of_le (by decide)]
  exact Int.bmod_eq_of_le (by omega) (by omega)

/-! ### Divisions -/

/-- The words `q` and `r` are quotient and remainder of the unsigned numbers `a` and `b`. -/
structure Divides (a b q r : Word) : Prop where
  eq : a.toNat = q.toNat * b.toNat + r.toNat
  lt : r.toNat < b.toNat

/-- The words `q` and `r` are quotient and remainder of the signed numbers `a` and `b`, the
quotient cut off towards zero. Only the least number divided by minus one has a quotient that is
no word; it wraps round. -/
structure DividesSigned (a b q r : Word) : Prop where
  eq : a = q * b + r
  toInt_eq : ¬(a = .intMin 32 ∧ b = -1) → q.toInt = a.toInt.tdiv b.toInt
  wrapped : a = .intMin 32 ∧ b = -1 → q = .intMin 32 ∧ r = 0
  natAbs_lt : r.toInt.natAbs < b.toInt.natAbs
  sign_eq : r = 0 ∨ r.toInt.sign = a.toInt.sign

theorem toNat_pos (hb : b ≠ 0) : 0 < b.toNat :=
  Nat.pos_of_ne_zero fun h => hb (BitVec.eq_of_toNat_eq h)

theorem divides (hb : b ≠ 0) : Divides a b (a / b) (a % b) where
  eq := by rw [BitVec.toNat_udiv, BitVec.toNat_umod, Nat.div_add_mod']
  lt := by
    rw [BitVec.toNat_umod]
    exact Nat.mod_lt _ (toNat_pos hb)

theorem sdiv_eq_ofInt (a b : Word) : a.sdiv b = .ofInt 32 (a.toInt.tdiv b.toInt) :=
  BitVec.eq_of_toInt_eq (by rw [BitVec.toInt_sdiv, BitVec.toInt_ofInt])

theorem srem_eq_ofInt (a b : Word) : a.srem b = .ofInt 32 (a.toInt.tmod b.toInt) := by
  rw [← BitVec.toInt_srem, BitVec.ofInt_toInt]

theorem dividesSigned (hb : b ≠ 0) : DividesSigned a b (a.sdiv b) (a.srem b) where
  eq := by
    have hmul : a.sdiv b * b = .ofInt 32 (a.toInt.tdiv b.toInt * b.toInt) := by
      rw [BitVec.ofInt_mul, BitVec.ofInt_toInt, sdiv_eq_ofInt]
    rw [hmul, srem_eq_ofInt, ← BitVec.ofInt_add, Int.tdiv_mul_add_tmod, BitVec.ofInt_toInt]
  toInt_eq h := BitVec.toInt_sdiv_of_ne_or_ne a b (Decidable.not_and_iff_not_or_not.mp h)
  wrapped h := by
    rw [h.1, h.2]
    decide
  natAbs_lt := by
    rw [BitVec.toInt_srem, Int.natAbs_tmod]
    exact Nat.mod_lt _ (Int.natAbs_pos.mpr fun h => hb (BitVec.eq_of_toInt_eq h))
  sign_eq := by
    by_cases h : b.toInt ∣ a.toInt
    · left
      rw [srem_eq_ofInt, Int.tmod_eq_zero_of_dvd h]
      rfl
    · right
      rw [BitVec.toInt_srem, Int.sign_tmod, if_neg h]

/-! ### Shifts -/

theorem toNat_shiftLeft (a b : Word) :
    (if b.toNat < 32 then a <<< b.toNat else 0).toNat = a.toNat * 2 ^ b.toNat % 2 ^ 32 := by
  split
  · rw [BitVec.toNat_shiftLeft, Nat.shiftLeft_eq]
  · next h =>
    have hdvd : 2 ^ 32 ∣ a.toNat * 2 ^ b.toNat :=
      Nat.dvd_mul_left_of_dvd (Nat.pow_dvd_pow 2 (Nat.le_of_not_lt h)) _
    exact (Nat.mod_eq_zero_of_dvd hdvd).symm

theorem toNat_shiftRight (a b : Word) :
    (if b.toNat < 32 then a >>> b.toNat else 0).toNat = a.toNat / 2 ^ b.toNat := by
  split
  · rw [BitVec.toNat_ushiftRight, Nat.shiftRight_eq_div_pow]
  · next h =>
    have hlt : a.toNat < 2 ^ b.toNat :=
      Nat.lt_of_lt_of_le a.isLt (Nat.pow_le_pow_right (by decide) (Nat.le_of_not_lt h))
    exact (Nat.div_eq_of_lt hlt).symm

theorem toInt_shiftRightSigned (a b : Word) :
    (a.sshiftRight (min b.toNat 31)).toInt = a.toInt.fdiv (2 ^ b.toNat) := by
  have hpos (n : Nat) : (0 : Int) < 2 ^ n := Int.pow_pos (by decide)
  rw [BitVec.toInt_sshiftRight, Int.shiftRight_eq_div_pow,
    Int.fdiv_eq_ediv_of_nonneg _ (Int.le_of_lt (hpos _))]
  rcases Nat.le_total b.toNat 31 with hle | hge
  · rw [Nat.min_eq_left hle]
    norm_cast
  · -- both quotients are zero, or minus one where the word is negative
    have hpow : (2 : Int) ^ 31 ≤ 2 ^ b.toNat := by
      exact_mod_cast Nat.pow_le_pow_right (by decide) hge
    have hle := a.le_toInt
    have hlt := a.toInt_lt
    rw [Nat.min_eq_right hge]
    by_cases hneg : a.toInt < 0
    · rw [Int.ediv_eq_neg_one_of_neg_of_le hneg (by omega),
        Int.ediv_eq_neg_one_of_neg_of_le hneg (by omega)]
    · rw [Int.ediv_eq_zero_of_lt (by omega) (by omega),
        Int.ediv_eq_zero_of_lt (by omega) (by omega)]

/-! ### Rotations -/

/-- The word `x` is `a` with every bit `n` places higher, round the end of the word. -/
def Rotated (n : Nat) (a x : Word) : Prop :=
  ∀ i < 32, x.getLsbD ((i + n) % 32) = a.getLsbD i

theorem rotated_rotateLeft (a : Word) (n : Nat) : Rotated (n % 32) a (a.rotateLeft n) := by
  intro i hi
  rw [BitVec.getLsbD_rotateLeft]
  have hn := Nat.mod_lt n (show 0 < 32 by decide)
  generalize n % 32 = k at hn
  rcases Nat.lt_or_ge (i + k) 32 with hlt | hge
  · have hhigh : ¬i + k < k := by omega
    rw [Nat.mod_eq_of_lt hlt]
    simp [hhigh, hlt]
  · rw [Nat.mod_eq_sub_mod hge, Nat.mod_eq_of_lt (by omega)]
    have : i + k - 32 < k := by omega
    simp [this]
    congr 1
    omega

theorem rotated_rotateRight (a : Word) (n : Nat) : Rotated (n % 32) (a.rotateRight n) a := by
  intro i hi
  rw [BitVec.getLsbD_rotateRight]
  have hn := Nat.mod_lt n (show 0 < 32 by decide)
  generalize n % 32 = k at hn
  rcases Nat.lt_or_ge (i + k) 32 with hlt | hge
  · rw [Nat.mod_eq_of_lt hlt]
    have : i < 32 - k := by omega
    simp [this, Nat.add_comm]
  · rw [Nat.mod_eq_sub_mod hge, Nat.mod_eq_of_lt (by omega)]
    have : ¬i < 32 - k := by omega
    simp [this, hi]
    congr 1
    omega

theorem Rotated.left_unique {n : Nat} {a b x : Word} (ha : Rotated n a x) (hb : Rotated n b x) :
    a = b :=
  BitVec.eq_of_getLsbD_eq fun i hi => (ha i hi).symm.trans (hb i hi)

theorem Rotated.right_unique {n : Nat} {a x y : Word} (hx : Rotated n a x) (hy : Rotated n a y) :
    x = y := by
  refine BitVec.eq_of_getLsbD_eq fun j hj => ?_
  obtain ⟨i, hi, hij⟩ : ∃ i < 32, (i + n) % 32 = j :=
    ⟨(j + (32 - n % 32)) % 32, Nat.mod_lt _ (by decide), by omega⟩
  rw [← hij]
  exact (hx i hi).trans (hy i hi).symm

/-- Rotations by one count in both directions undo each other. -/
theorem rotate_inverse (a : Word) (n : Nat) :
    (a.rotateLeft n).rotateRight n = a ∧ (a.rotateRight n).rotateLeft n = a :=
  ⟨(rotated_rotateRight _ n).left_unique (rotated_rotateLeft a n),
    (rotated_rotateLeft _ n).right_unique (rotated_rotateRight a n)⟩

end Arithmetic

/-! ### The registers after a computation -/

namespace Processor

variable {M : Type} [Memory M] (cpu : Processor M) {w : Word} {f : Arithmetic}

/-- The word of the source register. -/
def firstOperand (w : Word) : Word := cpu.get (Instruction.source w)

/-- The word of the last operand. -/
def secondOperand (w : Word) : Word := (cpu.fetchOperand w).1.value cpu.registers

/-- What the function `f` leaves of the operands of the word `w`. -/
def computed (f : Arithmetic) (w : Word) : Arithmetic.Outcome :=
  f.outcome cpu.flags (cpu.firstOperand w) (cpu.secondOperand w)

omit [Memory M] in
theorem get_commit (d r : Reg) (o : Arithmetic.Outcome) :
    (cpu.commit d o).get r =
      if d = r ∧ o.result.isSome then o.result.getD 0
      else if .secondary = r ∧ o.secondary.isSome then o.secondary.getD 0
      else if .flags = r then o.flags else cpu.get r := by
  obtain ⟨flags, secondary, result⟩ := o
  cases secondary <;> cases result <;> simp [commit, get_set]

theorem get_execute (h : Operation.ofOpcode? (Instruction.opcode w) = some (.compute f))
    (r : Reg) :
    (cpu.execute w).2.get r =
      (cpu.commit (Instruction.destination w) (cpu.computed f w)).get r := by
  have hflags : (cpu.fetchOperand w).2.flags = cpu.flags := cpu.get_fetchOperand w .flags
  rw [execute_eq_outcome, outcome_of_ofOpcode? h]
  simp only [perform, computed, firstOperand, secondOperand, get_commit, get_fetchOperand, hflags,
    registers_fetchOperand]

variable {z : Word}

theorem get_destination (h : Operation.ofOpcode? (Instruction.opcode w) = some (.compute f))
    (hz : (cpu.computed f w).result = some z) :
    (cpu.execute w).2.get (Instruction.destination w) = z := by
  rw [get_execute cpu h, get_commit, hz, if_pos ⟨rfl, rfl⟩]
  rfl

theorem get_secondary (h : Operation.ofOpcode? (Instruction.opcode w) = some (.compute f))
    (hz : (cpu.computed f w).secondary = some z) (hd : Instruction.destination w ≠ .secondary) :
    (cpu.execute w).2.get .secondary = z := by
  rw [get_execute cpu h, get_commit, hz, if_neg fun hc => hd hc.1, if_pos ⟨rfl, rfl⟩]
  rfl

theorem flags_execute (h : Operation.ofOpcode? (Instruction.opcode w) = some (.compute f))
    (hd : Instruction.destination w ≠ .flags) :
    (cpu.execute w).2.flags = (cpu.computed f w).flags := by
  refine (get_execute cpu h .flags).trans ?_
  rw [get_commit, if_neg fun hc => hd hc.1, if_neg fun hc => absurd hc.1 (by decide), if_pos rfl]

theorem registers_execute (h : Operation.ofOpcode? (Instruction.opcode w) = some (.compute f))
    {flags : Word} (ho : cpu.computed f w = ⟨flags, none, none⟩) :
    (cpu.execute w).2.registers = cpu.registers.set .flags flags := by
  refine Registers.ext fun r => (get_execute cpu h r).trans ?_
  rw [get_commit, ho, Registers.get_set]
  simp [get]

open Arithmetic

/-- A division by anything but zero leaves a quotient and a remainder. -/
theorem execute_quotient (h : Operation.ofOpcode? (Instruction.opcode w) = some (.compute f))
    {q r : Word} (ho : cpu.computed f w = quotient cpu.flags (cpu.secondOperand w) q r)
    (hb : cpu.secondOperand w ≠ 0) :
    (cpu.execute w).2.get (Instruction.destination w) = q ∧
      (Instruction.destination w ≠ .secondary → (cpu.execute w).2.get .secondary = r) ∧
      (Instruction.destination w ≠ .flags → ¬(cpu.execute w).2.flag .divideError) := by
  rw [quotient, if_neg hb] at ho
  refine ⟨cpu.get_destination h (by rw [ho]), cpu.get_secondary h (by rw [ho]), fun hd => ?_⟩
  rw [State.flag, cpu.flags_execute h hd, ho, Word.flag_setFlag, if_pos rfl]
  exact Bool.false_ne_true

/-! ### The main statement -/

/-- What an instruction that computes from the words `a` and `b` makes of a processor, if `d` is
its destination. The high word of a product and the remainder of a division stand in the secondary
register, unless that is the destination. A division by zero sets its flag and changes no other bit
of any register. Rotations to the left and to the right undo each other. -/
structure Computes (f : Arithmetic) (a b : Word) (d : Reg) (cpu cpu' : Processor M) : Prop where
  mul : f = .mul → ∃ high : Word, 2 ^ 32 * high.toNat + (cpu'.get d).toNat = a.toNat * b.toNat ∧
    (d ≠ .secondary → cpu'.get .secondary = high)
  mulSigned : f = .mulSigned → ∃ high : Word, (high ++ cpu'.get d).toInt = a.toInt * b.toInt ∧
    (d ≠ .secondary → cpu'.get .secondary = high)
  div : f = .div → b ≠ 0 →
    (∃ rest, Divides a b (cpu'.get d) rest ∧ (d ≠ .secondary → cpu'.get .secondary = rest)) ∧
      (d ≠ .flags → ¬cpu'.flag .divideError)
  divSigned : f = .divSigned → b ≠ 0 →
    (∃ rest, DividesSigned a b (cpu'.get d) rest ∧
      (d ≠ .secondary → cpu'.get .secondary = rest)) ∧ (d ≠ .flags → ¬cpu'.flag .divideError)
  divByZero : f = .div ∨ f = .divSigned → b = 0 →
    cpu'.registers = cpu.registers.set .flags (cpu.flags.setFlag .divideError true)
  shiftLeft : f = .shiftLeft → (cpu'.get d).toNat = a.toNat * 2 ^ b.toNat % 2 ^ 32
  shiftRight : f = .shiftRight → (cpu'.get d).toNat = a.toNat / 2 ^ b.toNat
  shiftRightSigned : f = .shiftRightSigned → (cpu'.get d).toInt = a.toInt.fdiv (2 ^ b.toNat)
  rotateLeft : f = .rotateLeft → Rotated (b.toNat % 32) a (cpu'.get d) ∧
    (Arithmetic.rotateRight.outcome cpu'.flags (cpu'.get d) b).result = some a
  rotateRight : f = .rotateRight → Rotated (b.toNat % 32) (cpu'.get d) a ∧
    (Arithmetic.rotateLeft.outcome cpu'.flags (cpu'.get d) b).result = some a

/-- Products, quotients, shifts and rotations are those of the numbers that the words stand for,
whichever registers the operands and the destination are. -/
theorem computes_integers
    (h : Operation.ofOpcode? (Instruction.opcode w) = some (.compute f)) :
    Computes f (cpu.firstOperand w) (cpu.secondOperand w) (Instruction.destination w) cpu
      (cpu.execute w).2 := by
  let a := cpu.firstOperand w
  let b := cpu.secondOperand w
  let d := Instruction.destination w
  let after := (cpu.execute w).2
  change Computes f a b d cpu after
  have hx {z : Word} (hz : (f.outcome cpu.flags a b).result = some z) : after.get d = z :=
    cpu.get_destination h hz
  have hy {z : Word} (hz : (f.outcome cpu.flags a b).secondary = some z) :
      d ≠ .secondary → after.get .secondary = z := cpu.get_secondary h hz
  constructor
  case mul =>
    rintro rfl
    refine ⟨_, ?_, hy rfl⟩
    rw [hx rfl, ← toNat_append, append_halves, toNat_product]
  case mulSigned =>
    rintro rfl
    refine ⟨_, ?_, hy rfl⟩
    rw [hx rfl, append_halves, toInt_product]
  case div =>
    rintro rfl hb
    obtain ⟨hx, hy, herror⟩ := cpu.execute_quotient h rfl hb
    refine ⟨⟨_, ?_, hy⟩, herror⟩
    rw [show after.get d = _ from hx]
    exact divides hb
  case divSigned =>
    rintro rfl hb
    obtain ⟨hx, hy, herror⟩ := cpu.execute_quotient h rfl hb
    refine ⟨⟨_, ?_, hy⟩, herror⟩
    rw [show after.get d = _ from hx]
    exact dividesSigned hb
  case divByZero =>
    rintro hf hb
    refine cpu.registers_execute h ?_
    rcases hf with rfl | rfl <;> exact if_pos hb
  case shiftLeft =>
    rintro rfl
    rw [hx rfl, toNat_shiftLeft]
  case shiftRight =>
    rintro rfl
    rw [hx rfl, toNat_shiftRight]
  case shiftRightSigned =>
    rintro rfl
    rw [hx rfl, toInt_shiftRightSigned]
  case rotateLeft =>
    rintro rfl
    rw [hx rfl]
    exact ⟨rotated_rotateLeft a _, congrArg some (rotate_inverse a _).1⟩
  case rotateRight =>
    rintro rfl
    rw [hx rfl]
    exact ⟨rotated_rotateRight a _, congrArg some (rotate_inverse a _).2⟩

/-- The least number is divided by minus one in its own register, and a product goes to the
secondary register, where its operands came from. -/
theorem computes_integers_least :
    let cpu : Processor FlatMemory := { Processor.new FlatMemory.zero with
      registers := ((Registers.zero.set 1 0x80000000).set 2 0xFFFFFFFF).set .secondary 0x10001 }
    let divided := (cpu.execute 0x52042002).2
    let multiplied := (cpu.execute 0x4F6F601B).2
    Operation.ofOpcode? (Instruction.opcode 0x52042002) = some (.compute .divSigned) ∧
      DividesSigned 0x80000000 0xFFFFFFFF (divided.get 1) (divided.get .secondary) ∧
      divided.get 1 = 0x80000000 ∧ divided.get .secondary = 0 ∧ ¬divided.flag .divideError ∧
      Operation.ofOpcode? (Instruction.opcode 0x4F6F601B) = some (.compute .mul) ∧
      (∃ high : Word, 2 ^ 32 * high.toNat + (multiplied.get .secondary).toNat = 0x10001 * 0x10001) ∧
      multiplied.get .secondary = 0x20001 := by
  intro cpu divided multiplied
  have hdivide : Operation.ofOpcode? (Instruction.opcode 0x52042002) = some (.compute .divSigned) :=
    rfl
  have hmultiply : Operation.ofOpcode? (Instruction.opcode 0x4F6F601B) = some (.compute .mul) := rfl
  obtain ⟨⟨rest, hquotient, hrest⟩, herror⟩ :=
    (cpu.computes_integers hdivide).divSigned rfl (by decide)
  obtain ⟨high, hproduct, -⟩ := (cpu.computes_integers hmultiply).mul rfl
  rw [← hrest (by decide)] at hquotient
  exact ⟨hdivide, hquotient, by decide, by decide, herror (by decide), hmultiply, ⟨high, hproduct⟩,
    by decide⟩

end Processor

end Microcomputer
