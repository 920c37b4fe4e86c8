import Mathlib.Data.Nat.Digits.Defs
import Microcomputer.Proofs.Processor.Computation
import Microcomputer.Proofs.Processor.Footprint

/-! Arithmetic on numbers of several words. One instruction adds or subtracts the least limbs, and
one that takes the carry along each of the others; what they leave is the sum or the difference of
whole numbers, with the carry and the overflow of the last limb for all of it: `chain_computes`. -/

namespace Microcomputer

/-- A place of a number of several words: the words of both operands, the word computed of them
and the flags that the computation left. -/
structure Limb where
  first : Word
  second : Word
  result : Word
  flags : Word

namespace Limb

/-- The number that limbs write in one of their words, the least significant limb first. -/
def number (ls : List Limb) (p : Limb → Word) : BitVec (32 * ls.length) :=
  .ofNat _ (Nat.ofDigits 0x100000000 (ls.map fun l => (p l).toNat))

variable {l : Limb} {ls : List Limb} (p : Limb → Word)

theorem toNat_number (ls : List Limb) :
    (number ls p).toNat = Nat.ofDigits 0x100000000 (ls.map fun l => (p l).toNat) := by
  have hdigit : ∀ x ∈ ls.map (fun l => (p l).toNat), x < 0x100000000 := by
    intro x hx
    obtain ⟨l, -, rfl⟩ := List.mem_map.mp hx
    exact (p l).isLt
  have hpow : (0x100000000 : Nat) ^ ls.length = 2 ^ (32 * ls.length) := (Nat.pow_mul 2 32 _).symm
  have hlt := Nat.ofDigits_lt_base_pow_length (by decide) hdigit
  rw [List.length_map, hpow] at hlt
  rw [number, BitVec.toNat_ofNat, Nat.mod_eq_of_lt hlt]

theorem toNat_number_cons :
    (number (l :: ls) p).toNat = (p l).toNat + 2 ^ 32 * (number ls p).toNat := by
  rw [toNat_number, toNat_number, List.map_cons, Nat.ofDigits_cons]
  rfl

theorem number_singleton : number [l] p = p l := by
  apply BitVec.eq_of_toNat_eq
  rw [toNat_number_cons, toNat_number]
  simp [Nat.ofDigits_nil]

theorem pow_length_cons (l : Limb) (ls : List Limb) :
    2 ^ (32 * (l :: ls).length) = 2 ^ 32 * 2 ^ (32 * ls.length) := by
  rw [List.length_cons, Nat.mul_add, Nat.add_comm, Nat.pow_add]

/-- Only the last limb of a number has its sign. -/
theorem toInt_number_cons (h : ls ≠ []) :
    (number (l :: ls) p).toInt = (p l).toNat + 2 ^ 32 * (number ls p).toInt := by
  have hlt := (p l).isLt
  have hpos := List.length_pos_iff.mpr h
  -- the sign of the limbs after the first is told by half of an even number
  obtain ⟨half, hhalf⟩ : ∃ half, 2 ^ (32 * ls.length) = 2 * half :=
    ⟨2 ^ (32 * ls.length - 1), by rw [← Nat.pow_succ']; congr 1; omega⟩
  rw [BitVec.toInt_eq_toNat_cond, BitVec.toInt_eq_toNat_cond, toNat_number_cons, pow_length_cons,
    hhalf]
  split <;> split <;> push_cast <;> omega

end Limb

namespace Arithmetic

/-! ### Addition of two words and a carry -/

/-- The number `r` and the carry `c'` are the sum of `a`, `b` and the carry `c`, and `o` tells
whether the sum of signed numbers is another one. -/
structure Adds {n : Nat} (c : Bool) (a b r : BitVec n) (c' o : Bool) : Prop where
  toNat_eq : a.toNat + b.toNat + c.toNat = r.toNat + 2 ^ n * c'.toNat
  overflow_iff : o = false ↔ a.toInt + b.toInt + c.toNat = r.toInt

section Words

variable {a b r : Word} {c c' : Bool}

/-- A word in two's complement: its value, and what its sign says of its bits. -/
theorem toInt_eq_msb (x : Word) :
    x.toInt = x.toNat - 2 ^ 32 * x.msb.toNat ∧ 2 ^ 31 * x.msb.toNat ≤ x.toNat ∧
      x.toNat < 2 ^ 31 + 2 ^ 31 * x.msb.toNat := by
  have hlt := x.isLt
  have hmsb := x.msb_eq_decide
  rw [BitVec.toInt_eq_msb_cond]
  cases h : x.msb <;> simp [h] at hmsb ⊢ <;> omega

/-- The signs of two words and of their sum tell whether the sum is one of signed numbers. -/
theorem msb_eq_false_iff (h : a.toNat + b.toNat + c.toNat = r.toNat + 2 ^ 32 * c'.toNat) :
    ((a ^^^ r) &&& (b ^^^ r)).msb = false ↔ a.toInt + b.toInt + c.toNat = r.toInt := by
  obtain ⟨ha, halow, hahigh⟩ := toInt_eq_msb a
  obtain ⟨hb, hblow, hbhigh⟩ := toInt_eq_msb b
  obtain ⟨hr, hrlow, hrhigh⟩ := toInt_eq_msb r
  have hc := c.toNat_le
  have hc' := c'.toNat_le
  rw [BitVec.msb_and, BitVec.msb_xor, BitVec.msb_xor, ha, hb, hr]
  generalize a.msb = sa at *
  generalize b.msb = sb at *
  generalize r.msb = sr at *
  cases sa <;> cases sb <;> cases sr <;>
    simp only [Bool.toNat_true, Bool.toNat_false] at * <;> simp <;> omega

theorem toNat_decide (p : Prop) [Decidable p] : (decide p).toNat = if p then 1 else 0 := by
  by_cases h : p <;> simp [h]

theorem flag_setFlag_setFlag (flags : Word) (c o : Bool) :
    ((flags.setFlag .carry c).setFlag .overflow o).flag .carry = c ∧
      ((flags.setFlag .carry c).setFlag .overflow o).flag .overflow = o := by
  simp [Word.flag_setFlag]

theorem adds_sum (flags a b : Word) (c : Bool) :
    ∃ r, (sum flags a b c).result = some r ∧
      Adds c a b r ((sum flags a b c).flags.flag .carry)
        ((sum flags a b c).flags.flag .overflow) := by
  have ha := a.isLt
  have hb := b.isLt
  have hc := c.toNat_le
  refine ⟨_, rfl, ?_⟩
  simp only [sum, plain, flag_setFlag_setFlag]
  have hsum : a.toNat + b.toNat + c.toNat =
      (BitVec.ofNat 32 (a.toNat + b.toNat + c.toNat)).toNat +
        2 ^ 32 * (decide (0x100000000 ≤ a.toNat + b.toNat + c.toNat)).toNat := by
    rw [BitVec.toNat_ofNat, toNat_decide]
    split <;> omega
  exact ⟨hsum, msb_eq_false_iff hsum⟩

/-- A difference is what the second term is to be added to. -/
theorem adds_difference (flags a b : Word) (c : Bool) :
    ∃ r, (difference flags a b c).result = some r ∧
      Adds c r b a ((difference flags a b c).flags.flag .carry)
        ((difference flags a b c).flags.flag .overflow) := by
  have ha := a.isLt
  have hb := b.isLt
  have hc := c.toNat_le
  refine ⟨_, rfl, ?_⟩
  simp only [difference, plain, flag_setFlag_setFlag]
  generalize hr : a - BitVec.ofNat 32 (b.toNat + c.toNat) = r
  have hsum : r.toNat + b.toNat + c.toNat =
      a.toNat + 2 ^ 32 * (decide (a.toNat < b.toNat + c.toNat)).toNat := by
    rw [← hr, BitVec.toNat_sub, BitVec.toNat_ofNat, toNat_decide]
    split <;> omega
  refine ⟨hsum, ?_⟩
  rw [BitVec.and_comm, BitVec.xor_comm a r, BitVec.xor_comm a b]
  exact msb_eq_false_iff hsum

end Words

/-! ### Addition of numbers of several words -/

section Numbers

variable {l : Limb} {ls : List Limb} {c c' c'' o o' : Bool} {p q s : Limb → Word}

theorem Adds.singleton (h : Adds c (p l) (q l) (s l) c' o) :
    Adds c (Limb.number [l] p) (Limb.number [l] q) (Limb.number [l] s) c' o := by
  rw [Limb.number_singleton, Limb.number_singleton, Limb.number_singleton]
  exact h

/-- The carry of a limb goes into the sum of those after it. -/
theorem Adds.cons (h : Adds c (p l) (q l) (s l) c' o) (hls : ls ≠ [])
    (hrest : Adds c' (Limb.number ls p) (Limb.number ls q) (Limb.number ls s) c'' o') :
    Adds c (Limb.number (l :: ls) p) (Limb.number (l :: ls) q) (Limb.number (l :: ls) s) c''
      o' where
  toNat_eq := by
    have hlimb := h.toNat_eq
    have hnumbers := hrest.toNat_eq
    rw [Limb.toNat_number_cons, Limb.toNat_number_cons, Limb.toNat_number_cons,
      Limb.pow_length_cons, Nat.mul_assoc]
    omega
  overflow_iff := by
    -- without a sign of its own, the limb gives the signed sum no more than its carry
    have hlimb := h.toNat_eq
    rw [hrest.overflow_iff, Limb.toInt_number_cons p hls, Limb.toInt_number_cons q hls,
      Limb.toInt_number_cons s hls]
    omega

end Numbers

/-! ### Operations on numbers of several words -/

/-- An operation on numbers of several words. -/
inductive Multiword where
  | add
  | sub
  | reverseSub

namespace Multiword

/-- The function on the least limbs. -/
def least : Multiword → Arithmetic
  | add => .add
  | sub => .sub
  | reverseSub => .reverseSub

/-- The function on each of the other limbs. -/
def next : Multiword → Arithmetic
  | add => .addCarry
  | sub => .subBorrow
  | reverseSub => .reverseSubBorrow

/-- The number `r` is the result of an operation on `a` and `b`, and the flags tell whether it
is out of the range of unsigned and of signed numbers. -/
def Meets {n : Nat} (m : Multiword) (a b r : BitVec n) (carry overflow : Bool) : Prop :=
  match m with
  | add => r = a + b ∧ carry = a.uaddOverflow b ∧ overflow = a.saddOverflow b
  | sub => r = a - b ∧ carry = a.usubOverflow b ∧ overflow = a.ssubOverflow b
  | reverseSub => r = b - a ∧ carry = b.usubOverflow a ∧ overflow = b.ssubOverflow a

end Multiword

section Meets

variable {n : Nat} {a b r : BitVec n} {c o : Bool}

theorem Adds.eq_add (h : Adds false a b r c o) : r = a + b := by
  have hsum : a.toNat + b.toNat = r.toNat + 2 ^ n * c.toNat := h.toNat_eq
  apply BitVec.eq_of_toNat_eq
  rw [BitVec.toNat_add, hsum, Nat.add_mul_mod_self_left, Nat.mod_eq_of_lt r.isLt]

theorem saddOverflow_eq_false_iff :
    a.saddOverflow b = false ↔ a.toInt + b.toInt = (a + b).toInt := by
  refine ⟨fun h => (BitVec.toInt_add_of_not_saddOverflow (Bool.eq_false_iff.mp h)).symm,
    fun h => ?_⟩
  have hlt := (a + b).toInt_lt
  have hle := (a + b).le_toInt
  rw [BitVec.saddOverflow, h, Bool.or_eq_false_iff, decide_eq_false_iff_not,
    decide_eq_false_iff_not]
  exact ⟨Int.not_le.mpr hlt, Int.not_lt.mpr hle⟩

theorem ssubOverflow_eq_false_iff :
    a.ssubOverflow b = false ↔ a.toInt - b.toInt = (a - b).toInt := by
  refine ⟨fun h => (BitVec.toInt_sub_of_not_ssubOverflow (Bool.eq_false_iff.mp h)).symm,
    fun h => ?_⟩
  have hlt := (a - b).toInt_lt
  have hle := (a - b).le_toInt
  rw [BitVec.ssubOverflow, h, Bool.or_eq_false_iff, decide_eq_false_iff_not,
    decide_eq_false_iff_not]
  exact ⟨Int.not_le.mpr hlt, Int.not_lt.mpr hle⟩

theorem Adds.meets_add (h : Adds false a b r c o) : Multiword.add.Meets a b r c o := by
  have hsum := h.toNat_eq
  refine ⟨h.eq_add, ?_, ?_⟩
  · have hr := r.isLt
    cases c <;> simp [BitVec.uaddOverflow] at hsum ⊢ <;> omega
  · refine Bool.not_inj (Bool.coe_false_iff_false.mp (h.overflow_iff.trans ?_))
    rw [saddOverflow_eq_false_iff, ← h.eq_add, Bool.toNat_false, Int.natCast_zero, Int.add_zero]

theorem Adds.meets_sub (h : Adds false r b a c o) : Multiword.sub.Meets a b r c o := by
  have hsum := h.toNat_eq
  have heq : r = a - b := BitVec.eq_sub_iff_add_eq.mpr h.eq_add.symm
  refine ⟨heq, ?_, ?_⟩
  · have ha := a.isLt
    have hr := r.isLt
    cases c <;> simp [BitVec.usubOverflow] at hsum ⊢ <;> omega
  · refine Bool.not_inj (Bool.coe_false_iff_false.mp (h.overflow_iff.trans ?_))
    rw [ssubOverflow_eq_false_iff, ← heq, Bool.toNat_false]
    omega

end Meets

/-! ### Functions on one limb -/

/-- The function `f` on one limb adds the words `p` and `q` and a carry to the word `s`. The flags
word before it says by `carry` what it takes along. -/
def AddsLimb (f : Arithmetic) (carry : Word → Bool) (p q s : Limb → Word) : Prop :=
  ∀ flags a b, ∃ r, (f.outcome flags a b).result = some r ∧
    let l : Limb := ⟨a, b, r, (f.outcome flags a b).flags⟩
    Adds (carry flags) (p l) (q l) (s l) (l.flags.flag .carry) (l.flags.flag .overflow)

theorem addsLimb_add :
    Multiword.add.least.AddsLimb (fun _ => false) Limb.first Limb.second Limb.result ∧
      Multiword.add.next.AddsLimb (·.flag .carry) Limb.first Limb.second Limb.result :=
  ⟨fun flags a b => adds_sum flags a b _, fun flags a b => adds_sum flags a b _⟩

theorem addsLimb_sub :
    Multiword.sub.least.AddsLimb (fun _ => false) Limb.result Limb.second Limb.first ∧
      Multiword.sub.next.AddsLimb (·.flag .carry) Limb.result Limb.second Limb.first :=
  ⟨fun flags a b => adds_difference flags a b _, fun flags a b => adds_difference flags a b _⟩

theorem addsLimb_reverseSub :
    Multiword.reverseSub.least.AddsLimb (fun _ => false) Limb.result Limb.first Limb.second ∧
      Multiword.reverseSub.next.AddsLimb (·.flag .carry) Limb.result Limb.first Limb.second :=
  ⟨fun flags a b => adds_difference flags b a _, fun flags a b => adds_difference flags b a _⟩

end Arithmetic

/-! ### Chains of instructions -/

namespace Processor

open Arithmetic

variable {M : Type} [Memory M]

/-- The operands of an instruction, what it leaves in its destination and the flags after it. -/
def limb (cpu : Processor M) (w : Word) : Limb where
  first := cpu.firstOperand w
  second := cpu.secondOperand w
  result := (cpu.execute w).2.get (Instruction.destination w)
  flags := (cpu.execute w).2.flags

/-- A processor computes with each of some functions in turn, on one limb with each. A destination
is any register but the flags. Before, between and after these instructions anything happens that
keeps the flags. -/
inductive Chain : List Arithmetic → Processor M → List Limb → Processor M → Prop where
  | done {cpu cpu' : Processor M} (kept : cpu'.flags = cpu.flags) : Chain [] cpu [] cpu'
  | limb {f : Arithmetic} {fs : List Arithmetic} {cpu before cpu' : Processor M} {w : Word}
      {ls : List Limb} (kept : before.flags = cpu.flags)
      (function : Operation.ofOpcode? (Instruction.opcode w) = some (.compute f))
      (destination : Instruction.destination w ≠ .flags)
      (rest : Chain fs (before.execute w).2 ls cpu') :
      Chain (f :: fs) cpu (before.limb w :: ls) cpu'

variable {cpu cpu' : Processor M} {w : Word} {ls : List Limb} {f next : Arithmetic}
  {fs : List Arithmetic} {carry : Word → Bool} {p q s : Limb → Word}

theorem adds_limb (hf : f.AddsLimb carry p q s)
    (h : Operation.ofOpcode? (Instruction.opcode w) = some (.compute f))
    (hd : Instruction.destination w ≠ .flags) :
    Adds (carry cpu.flags) (p (cpu.limb w)) (q (cpu.limb w)) (s (cpu.limb w))
      ((cpu.limb w).flags.flag .carry) ((cpu.limb w).flags.flag .overflow) := by
  obtain ⟨r, hr, hadds⟩ := hf cpu.flags (cpu.firstOperand w) (cpu.secondOperand w)
  have hlimb : cpu.limb w =
      ⟨cpu.firstOperand w, cpu.secondOperand w, r, (cpu.computed f w).flags⟩ := by
    rw [limb, cpu.get_destination h hr, cpu.flags_execute h hd]
  rw [hlimb]
  exact hadds

namespace Chain

theorem length_eq (hc : Chain fs cpu ls cpu') : ls.length = fs.length := by
  induction hc with
  | done => rfl
  | limb _ _ _ _ ih => rw [List.length_cons, List.length_cons, ih]

/-- A flag that none of the functions writes keeps its value throughout. -/
theorem getLsbD_flags {i : Nat} (hc : Chain fs cpu ls cpu')
    (h : ∀ f ∈ fs, ∀ g ∈ f.flags, g.bit ≠ i) :
    (∀ l ∈ ls, l.flags.getLsbD i = cpu.flags.getLsbD i) ∧
      cpu'.flags.getLsbD i = cpu.flags.getLsbD i := by
  induction hc with
  | done kept => exact ⟨fun _ hl => absurd hl List.not_mem_nil, by rw [kept]⟩
  | @limb f fs cpu before cpu' w ls kept function destination rest ih =>
    have hstep : (before.execute w).2.flags.getLsbD i = cpu.flags.getLsbD i := by
      rw [before.flags_execute function destination, ← kept]
      exact f.getLsbD_flags_outcome (h f List.mem_cons_self)
    obtain ⟨hlimbs, hend⟩ := ih fun g hg => h g (List.mem_cons_of_mem _ hg)
    rw [hstep] at hlimbs hend
    exact ⟨List.forall_mem_cons.mpr ⟨hstep, hlimbs⟩, hend⟩

/-- Functions that add limbs, each with the carry of the one before, add the numbers. -/
theorem adds {k : Nat} (hf : f.AddsLimb carry p q s) (hnext : next.AddsLimb (·.flag .carry) p q s)
    (hc : Chain (f :: List.replicate k next) cpu ls cpu') :
    Adds (carry cpu.flags) (Limb.number ls p) (Limb.number ls q) (Limb.number ls s)
      (cpu'.flags.flag .carry) (cpu'.flags.flag .overflow) := by
  induction k generalizing f carry cpu ls with
  | zero =>
    obtain _ | ⟨kept, function, destination, ⟨kept'⟩⟩ := hc
    rw [← kept, kept']
    exact (adds_limb hf function destination).singleton
  | succ k ih =>
    obtain _ | ⟨kept, function, destination, rest⟩ := hc
    rw [← kept]
    -- the next limb finds in the flags the carry that this one left there
    refine (adds_limb hf function destination).cons ?_ (ih hnext rest)
    exact List.ne_nil_of_length_eq_add_one rest.length_eq

end Chain

/-- A chain of additions or subtractions from the least limbs to the last ones leaves the sum or
the difference of the whole numbers, however many limbs they have. At its end the carry flag tells
whether the unsigned result is out of range, the overflow flag whether the signed one is. Every
other flag stays as it is throughout. -/
theorem chain_computes (m : Multiword) {k : Nat}
    (hc : Chain (m.least :: List.replicate k m.next) cpu ls cpu') :
    ls.length = k + 1 ∧
      m.Meets (Limb.number ls Limb.first) (Limb.number ls Limb.second)
        (Limb.number ls Limb.result) (cpu'.flags.flag .carry) (cpu'.flags.flag .overflow) ∧
      ∀ i, i ≠ Flag.carry.bit → i ≠ Flag.overflow.bit →
        (∀ l ∈ ls, l.flags.getLsbD i = cpu.flags.getLsbD i) ∧
          cpu'.flags.getLsbD i = cpu.flags.getLsbD i := by
  refine ⟨by simpa using hc.length_eq, ?_, fun i hcarry hoverflow => hc.getLsbD_flags ?_⟩
  · cases m with
    | add => exact (hc.adds addsLimb_add.1 addsLimb_add.2).meets_add
    | sub => exact (hc.adds addsLimb_sub.1 addsLimb_sub.2).meets_sub
    | reverseSub => exact (hc.adds addsLimb_reverseSub.1 addsLimb_reverseSub.2).meets_sub
  · have hflags : ∀ f ∈ m.least :: List.replicate k m.next, f.flags = [.carry, .overflow] := by
      cases m <;> simp [Multiword.least, Multiword.next, Arithmetic.flags]
    intro f hf g hg
    rw [hflags f hf] at hg
    obtain rfl | rfl : g = .carry ∨ g = .overflow := by simpa using hg
    · exact hcarry.symm
    · exact hoverflow.symm

/-- One is taken from the least number of two words, with a move between both instructions. -/
theorem chain_computes_least :
    let cpu : Processor FlatMemory := { Processor.new FlatMemory.zero with
      registers := (Registers.zero.set 2 0x80000000).set 3 1 }
    let low := (cpu.execute 0x46042003).2
    let moved := (low.execute 0x20140001).2
    let high := (moved.execute 0x47084004).2
    let ls := [cpu.limb 0x46042003, moved.limb 0x47084004]
    Chain [.sub, .subBorrow] cpu ls high ∧
      Limb.number ls Limb.result = Limb.number ls Limb.first - Limb.number ls Limb.second ∧
      high.get 1 = 0xFFFFFFFF ∧ high.get 2 = 0x7FFFFFFF ∧
      ¬high.flag .carry ∧ high.flag .overflow ∧
      high.flags.getLsbD Flag.enabled.bit = cpu.flags.getLsbD Flag.enabled.bit := by
  intro cpu low moved high ls
  have hc : Chain [.sub, .subBorrow] cpu ls high :=
    .limb rfl rfl (by decide) (.limb (by decide) rfl (by decide) (.done rfl))
  obtain ⟨-, ⟨hresult, hcarry, hoverflow⟩, hkept⟩ := chain_computes .sub (k := 1) hc
  refine ⟨hc, hresult, by decide, by decide, ?_, ?_, (hkept _ (by decide) (by decide)).2⟩
  · rw [State.flag, hcarry]
    decide
  · rw [State.flag, hoverflow]
    decide

end Processor

end Microcomputer
