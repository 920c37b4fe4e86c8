import Mathlib.Algebra.GroupWithZero.Nat
import Microcomputer.Instruction.Encoding
import Microcomputer.Memory.Flat
import Microcomputer.Processor.Clock

/-! Steps and ticks are one machine seen at two granularities. A slot leaves the clock of
the processor alone and costs from 1 to 28 cycles; so a tick that begins with nothing to
wait for runs a slot and then waits out exactly its cost, and the ticks of a run of slots
add up to the sum of their costs. -/

namespace Microcomputer.Processor

variable {M : Type} [Memory M]

/-! ### What a slot leaves alone -/

/-- The cycles still to wait for, and all cycles so far. -/
def clock {M : Type} (cpu : Processor M) : Word × DoubleWord := (cpu.waitCycles, cpu.cycles)

/-- The processor at another time. -/
def setClock {M : Type} (cpu : Processor M) (c : Word × DoubleWord) : Processor M :=
  { cpu with waitCycles := c.1, cycles := c.2 }

section Clock

omit [Memory M] in
@[simp] theorem clock_offer (cpu : Processor M) (x : Half) : (cpu.offer x).clock = cpu.clock := by
  unfold offer
  split <;> rfl

omit [Memory M] in
theorem exists_commit (cpu : Processor M) (d : Reg) (o : Arithmetic.Outcome) :
    ∃ registers, cpu.commit d o = { cpu with registers := registers } := by
  obtain ⟨flags, secondary, result⟩ := o
  cases secondary <;> cases result <;> exact ⟨_, rfl⟩

/-- All that an operation changes, unless it offers a message. -/
theorem exists_perform (cpu : Processor M) {op : Operation} (h : op ≠ .interrupt) (d s : Reg)
    (x : Operand) :
    ∃ registers pc skipping sleeping memory, (cpu.perform op d s x).2 =
      { cpu with
        registers := registers, pc := pc, skipping := skipping, sleeping := sleeping
        memory := memory } := by
  cases op with
  | interrupt => contradiction
  | exchange e | locate | pop | readSpecial r | swap =>
    cases x <;> exact ⟨_, _, _, _, _, rfl⟩
  | test c =>
    simp only [perform]
    split <;> exact ⟨_, _, _, _, _, rfl⟩
  | compute f =>
    obtain ⟨registers, hcommit⟩ :=
      cpu.exists_commit d (f.outcome cpu.flags (cpu.get s) (x.value cpu.registers))
    exact ⟨registers, cpu.pc, cpu.skipping, cpu.sleeping, cpu.memory, hcommit⟩
  | _ => exact ⟨_, _, _, _, _, rfl⟩

theorem clock_perform (cpu : Processor M) (op : Operation) (d s : Reg) (x : Operand) :
    (cpu.perform op d s x).2.clock = cpu.clock := by
  by_cases h : op = .interrupt
  · subst h
    exact clock_offer _ _
  · obtain ⟨_, _, _, _, _, hperform⟩ := cpu.exists_perform h d s x
    rw [hperform]
    rfl

@[simp] theorem clock_service (cpu : Processor M) : cpu.service.clock = cpu.clock := by
  unfold service
  split
  · dsimp only
    split <;> rfl
  · rfl

theorem clock_fetchOperand (cpu : Processor M) (w : Word) :
    (cpu.fetchOperand w).2.clock = cpu.clock := by
  unfold fetchOperand
  split <;> rfl

theorem clock_execute (cpu : Processor M) (w : Word) : (cpu.execute w).2.clock = cpu.clock := by
  simp only [execute]
  split
  · rw [clock_perform, clock_fetchOperand]
  · exact clock_fetchOperand cpu w

omit [Memory M] in
@[simp] theorem clock_trap (cpu : Processor M) (b : Bool) : (cpu.trap b).clock = cpu.clock := by
  unfold trap
  split <;> rfl

theorem clock_turn (cpu : Processor M) (w : Word) : (cpu.turn w).2.clock = cpu.clock := by
  simp only [turn]
  split <;> simp [clock_execute]

theorem clock_slot (cpu : Processor M) : cpu.slot.2.clock = cpu.clock := by
  unfold slot
  split
  · exact clock_service cpu
  · dsimp only
    split
    · rfl
    · rw [clock_turn]
      rfl

end Clock

/-! ### What a slot costs -/

/-- The cost of the dearest slot: a division that takes an extended literal. -/
def dearest : Nat := 28

theorem entry_cycles (opcode : Byte) :
    1 ≤ (Instruction.Opcode.entry opcode).cycles ∧
      (Instruction.Opcode.entry opcode).cycles < dearest := by
  have ht : ∀ e ∈ Instruction.Opcode.table, 1 ≤ e.2.2 ∧ e.2.2 < dearest := by decide
  unfold Instruction.Opcode.entry
  split
  · rename_i mnemonic cycles h
    obtain ⟨before, after, hm, -⟩ := List.lookup_eq_some_iff.1 h
    exact ht (opcode, mnemonic, cycles) (by simp [hm])
  · exact ⟨Nat.le_refl 1, show 1 < 28 by decide⟩

/-- The conditional instructions are ordinary ones. -/
theorem entry_cycles_of_isConditional (opcode : Byte) :
    (Operation.ofOpcode? opcode).any Operation.isConditional →
      (Instruction.Opcode.entry opcode).cycles = Instruction.Opcode.ordinary := by
  revert opcode
  decide

theorem isConditional_of_perform_armed {cpu : Processor M} {op : Operation} {d s : Reg}
    {x : Operand} (h : (cpu.perform op d s x).1 = .armed) : op.isConditional := by
  cases op with
  | test c => rfl
  | exchange e | locate | pop | readSpecial r | swap => cases x <;> contradiction
  | _ => contradiction

theorem cost_armed (w : Word) (h : (Operation.ofOpcode? (Instruction.opcode w)).any
    Operation.isConditional) : cost w .armed = Instruction.Opcode.ordinary + 1 := by
  rw [cost, entry_cycles_of_isConditional _ h]

theorem execute_cost (cpu : Processor M) (w : Word) :
    1 ≤ (cpu.execute w).1 ∧ (cpu.execute w).1 ≤ dearest := by
  have hentry := entry_cycles (Instruction.opcode w)
  have hext : (if Instruction.isExtended w then 1 else 0) ≤ 1 := by split <;> decide
  suffices h : ∀ completion, (completion = .armed → (Operation.ofOpcode? (Instruction.opcode w)).any
      Operation.isConditional) → 1 ≤ cost w completion ∧ cost w completion < dearest by
    simp only [execute]
    split
    · rename_i op hop
      let result := (cpu.fetchOperand w).2.perform op (Instruction.destination w)
        (Instruction.source w) (cpu.fetchOperand w).1
      obtain ⟨hlow, hhigh⟩ := h result.1 fun ha => by
        simpa [hop] using isConditional_of_perform_armed ha
      exact ⟨Nat.le_add_right_of_le hlow, Nat.le_trans (Nat.add_le_add_left hext _) hhigh⟩
    · obtain ⟨hlow, hhigh⟩ := h .missed (by simp)
      exact ⟨Nat.le_add_right_of_le hlow, Nat.le_trans (Nat.add_le_add_left hext _) hhigh⟩
  intro completion ha
  cases completion with
  | done => exact hentry
  | armed =>
    rw [cost_armed w (ha rfl)]
    decide
  | missed => exact ⟨Nat.le_refl 1, show 1 < 28 by decide⟩

theorem slot_cost (cpu : Processor M) : 1 ≤ cpu.slot.1 ∧ cpu.slot.1 ≤ dearest := by
  have hidle : 1 ≤ idleCost ∧ idleCost ≤ dearest := by decide
  unfold slot
  split
  · exact hidle
  · dsimp only
    split
    · exact hidle
    · exact execute_cost _ _

/-! ### Waiting out a slot -/

theorem toNat_sub_one {x : Word} (h : x ≠ 0) : (x - 1).toNat + 1 = x.toNat := by
  have hpos : x.toNat ≠ 0 := fun h0 => h (BitVec.eq_of_toNat_eq h0)
  have hlt := x.isLt
  rw [BitVec.toNat_sub, show (1 : Word).toNat = 1 from rfl]
  omega

theorem toNat_slot_cost (cpu : Processor M) : (BitVec.ofNat 32 cpu.slot.1).toNat = cpu.slot.1 := by
  have hcost := cpu.slot_cost
  unfold dearest at hcost
  rw [BitVec.toNat_ofNat, Nat.mod_eq_of_lt (by omega)]

theorem slot_cost_ne_zero (cpu : Processor M) : BitVec.ofNat 32 cpu.slot.1 ≠ 0 := by
  intro h
  have hcost := cpu.slot_cost
  have := congrArg BitVec.toNat h
  rw [toNat_slot_cost] at this
  exact Nat.not_lt.2 hcost.1 (this ▸ Nat.zero_lt_one)

/-- A cycle pays for one cycle of the slot that is under way, and begins a slot where
none is. -/
theorem waitCycles_cycle (cpu : Processor M) :
    cpu.cycle.waitCycles.toNat + 1 =
      if cpu.waitCycles = 0 then cpu.slot.1 else cpu.waitCycles.toNat := by
  unfold cycle
  split
  · exact (toNat_sub_one cpu.slot_cost_ne_zero).trans cpu.toNat_slot_cost
  · rename_i h
    exact toNat_sub_one h

theorem cycles_cycle (cpu : Processor M) : cpu.cycle.cycles = cpu.cycles + 1 := by
  unfold cycle
  split
  · exact congrArg (· + 1) (Prod.mk.inj cpu.clock_slot).2
  · rfl

theorem tick_add (a b : Nat) (cpu : Processor M) : tick (a + b) cpu = tick b (tick a cpu) := by
  induction a generalizing cpu with
  | zero => rw [Nat.zero_add, tick]
  | succ a ih => rw [Nat.succ_add, tick, ih, tick]

theorem ofNat_succ (n : Nat) : BitVec.ofNat 64 (n + 1) = 1 + BitVec.ofNat 64 n := by
  rw [BitVec.ofNat_add, BitVec.add_comm]
  rfl

theorem cycles_tick (n : Nat) (cpu : Processor M) :
    (tick n cpu).cycles = cpu.cycles + BitVec.ofNat 64 n := by
  induction n generalizing cpu with
  | zero => simp [tick]
  | succ n ih =>
    rw [tick, ih, cycles_cycle, BitVec.add_assoc, ofNat_succ]

omit [Memory M] in
theorem with_waitCycles_zero {cpu : Processor M} (h : cpu.waitCycles = 0) :
    { cpu with waitCycles := 0 } = cpu := by
  rw [← h]

/-- With nothing to wait for, a step is a slot that is counted. -/
theorem step_of_idle {cpu : Processor M} (h : cpu.waitCycles = 0) :
    cpu.step = (cpu.slot.1,
      { cpu.slot.2 with cycles := cpu.slot.2.cycles + BitVec.ofNat 64 cpu.slot.1 }) := by
  rw [step, with_waitCycles_zero h]

/-- A step counts its cost, and not what it drops. -/
theorem cycles_step (cpu : Processor M) :
    cpu.step.2.cycles = cpu.cycles + BitVec.ofNat 64 cpu.step.1 :=
  congrArg (· + BitVec.ofNat 64 cpu.step.1)
    (Prod.mk.inj (clock_slot { cpu with waitCycles := 0 })).2

/-- Ticks that only wait. -/
theorem tick_toNat_waitCycles (cpu : Processor M) :
    tick cpu.waitCycles.toNat cpu =
      { cpu with
        waitCycles := 0
        cycles := cpu.cycles + BitVec.ofNat 64 cpu.waitCycles.toNat } := by
  induction hn : cpu.waitCycles.toNat generalizing cpu with
  | zero =>
    rw [tick, show cpu.cycles + BitVec.ofNat 64 0 = cpu.cycles from BitVec.add_zero _]
    exact (with_waitCycles_zero (BitVec.eq_of_toNat_eq hn)).symm
  | succ n ih =>
    have h : cpu.waitCycles ≠ 0 := by
      intro h
      rw [h] at hn
      contradiction
    have hw : (cpu.waitCycles - 1).toNat = n := by
      have := toNat_sub_one h
      omega
    rw [tick, cycle, if_neg h, ih _ hw, ofNat_succ, BitVec.add_assoc]

/-- The ticks of a whole slot. -/
theorem tick_slot_cost (cpu : Processor M) (h : cpu.waitCycles = 0) :
    tick cpu.slot.1 cpu = cpu.step.2 := by
  have hcost := cpu.waitCycles_cycle
  have hwait : cpu.slot.2.waitCycles = 0 := (Prod.mk.inj cpu.clock_slot).1.trans h
  have hcycle : cpu.cycle = { cpu.slot.2 with
      waitCycles := BitVec.ofNat 32 cpu.slot.1 - 1, cycles := cpu.slot.2.cycles + 1 } := by
    rw [cycle, if_pos h]
  rw [if_pos h] at hcost
  rw [step_of_idle h, ← hcost, tick, tick_toNat_waitCycles, ofNat_succ, ← BitVec.add_assoc, hcycle,
    ← hwait]

/-! ### Runs of slots -/

/-- So many slots, each run at once. -/
def steps : Nat → Processor M → Processor M
  | 0, cpu => cpu
  | k + 1, cpu => steps k cpu.step.2

/-- The costs of so many slots. -/
def costs : Nat → Processor M → List Nat
  | 0, _ => []
  | k + 1, cpu => cpu.step.1 :: costs k cpu.step.2

theorem waitCycles_step (cpu : Processor M) : cpu.step.2.waitCycles = 0 :=
  (Prod.mk.inj (clock_slot { cpu with waitCycles := 0 })).1

theorem waitCycles_steps (k : Nat) (cpu : Processor M) (h : cpu.waitCycles = 0) :
    (steps k cpu).waitCycles = 0 := by
  induction k generalizing cpu with
  | zero => exact h
  | succ k ih => exact ih _ cpu.waitCycles_step

theorem tick_sum_costs (k : Nat) (cpu : Processor M) (h : cpu.waitCycles = 0) :
    tick (costs k cpu).sum cpu = steps k cpu := by
  induction k generalizing cpu with
  | zero => rfl
  | succ k ih =>
    have hcost : cpu.step.1 = cpu.slot.1 := by
      rw [step_of_idle h]
    rw [costs, List.sum_cons, tick_add, hcost, tick_slot_cost cpu h, ih _ cpu.waitCycles_step,
      steps]

/-- Ticks may be split in any way. -/
theorem tick_sum (ns : List Nat) (cpu : Processor M) :
    ns.foldl (fun cpu n => tick n cpu) cpu = tick ns.sum cpu := by
  induction ns generalizing cpu with
  | nil => rfl
  | cons n ns ih => rw [List.foldl_cons, ih, List.sum_cons, tick_add]

/-- Every slot costs from 1 to 28 cycles, and a cycle always has one to pay for. From a
processor that has nothing to wait for, the ticks of `k` slots, split in any way, lead
where `k` steps lead; and the cycle counter counts the ticks. -/
theorem tick_eq_steps (cpu : Processor M) :
    (1 ≤ cpu.slot.1 ∧ cpu.slot.1 ≤ 28) ∧
    cpu.cycle.waitCycles.toNat + 1 =
      (if cpu.waitCycles = 0 then cpu.slot.1 else cpu.waitCycles.toNat) ∧
    (∀ a b, tick b (tick a cpu) = tick (a + b) cpu) ∧
    (∀ n, (tick n cpu).cycles = cpu.cycles + BitVec.ofNat 64 n) ∧
    (cpu.waitCycles = 0 → ∀ k,
      (steps k cpu).waitCycles = 0 ∧
      (steps k cpu).cycles = cpu.cycles + BitVec.ofNat 64 (costs k cpu).sum ∧
      ∀ ns : List Nat, ns.sum = (costs k cpu).sum →
        ns.foldl (fun cpu n => tick n cpu) cpu = steps k cpu) := by
  refine ⟨cpu.slot_cost, cpu.waitCycles_cycle, fun a b => (tick_add a b cpu).symm,
    fun n => cycles_tick n cpu, fun h k => ⟨waitCycles_steps k cpu h, ?_, fun ns hns => ?_⟩⟩
  · rw [← tick_sum_costs k cpu h, cycles_tick]
  · rw [tick_sum, hns, tick_sum_costs k cpu h]

/-- A condition that fails, the instruction it passes over, and a division by zero with an
extended literal, split inside the condition and inside the division. -/
theorem tick_eq_steps_division :
    let program := (Instruction.two 0x2B 1 (.literal 5)).words ++ (Instruction.zero 0x00).words ++
      (Instruction.three 0x51 1 2 (.extended 0)).words
    let cpu := Processor.new (Memory.writeBytes FlatMemory.zero State.entryPoint
      (Instruction.image program))
    cpu.waitCycles = 0 ∧ costs 3 cpu = [4, 1, 28] ∧
      [2, 30, 1].foldl (fun cpu n => tick n cpu) cpu = steps 3 cpu ∧
      (steps 3 cpu).cycles = cpu.cycles + 33 := by
  intro program cpu
  have hc : costs 3 cpu = [4, 1, 28] := by decide
  obtain ⟨-, -, -, -, h⟩ := tick_eq_steps cpu
  obtain ⟨-, hcycles, hsplit⟩ := h rfl 3
  rw [hc] at hcycles hsplit
  exact ⟨rfl, hc, hsplit [2, 30, 1] rfl, hcycles⟩

end Microcomputer.Processor
