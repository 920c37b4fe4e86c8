import Microcomputer.Processor.Clock

/-! A reset makes a new processor of any other, but for its cycle counter. The counter counts,
and nothing depends on it. A processor whose counter is ahead does what it would have done
otherwise, with its counter ahead by as much: `step_later` and `cycle_later`. -/

namespace Microcomputer.Processor

/-- The state with its cycle counter ahead. -/
def State.later (δ : DoubleWord) (s : State) : State := { s with cycles := s.cycles + δ }

theorem State.later_zero (s : State) : s.later 0 = s := by
  have hcycles : s.cycles + 0 = s.cycles := BitVec.add_zero _
  rw [later, hcycles]

/-- After a reset only the cycle counter is ahead of power-on. -/
theorem State.reset_eq (s : State) : s.reset = State.initial.later s.cycles := by
  have hcycles : State.initial.cycles + s.cycles = s.cycles := BitVec.zero_add _
  rw [later, hcycles, reset]

variable {M : Type}

/-- A reset gives a new processor back. -/
theorem reset_new (memory : M) : (new memory).reset = new memory := rfl

/-- The processor with its cycle counter ahead. -/
def later (δ : DoubleWord) (cpu : Processor M) : Processor M :=
  { cpu with toState := cpu.toState.later δ }

variable (δ : DoubleWord) (cpu : Processor M)

theorem offer_later (message : Half) :
    (cpu.later δ).offer message = (cpu.offer message).later δ := by
  have haccepts : (cpu.later δ).accepts = cpu.accepts := rfl
  rw [offer, offer, haccepts]
  split <;> rfl

theorem trap_later (inService : Bool) :
    (cpu.later δ).trap inService = (cpu.trap inService).later δ := by
  have hcondition : ((cpu.later δ).flag .singleStep && !inService && !(cpu.later δ).pending) =
      (cpu.flag .singleStep && !inService && !cpu.pending) := rfl
  rw [trap, trap, hcondition]
  split <;> rfl

theorem commit_later (d : Reg) (o : Arithmetic.Outcome) :
    (cpu.later δ).commit d o = (cpu.commit d o).later δ := by
  obtain ⟨flags, secondary, result⟩ := o
  cases secondary <;> cases result <;> rfl

variable [Memory M]

theorem perform_later (op : Operation) (d s : Reg) (x : Operand) :
    (cpu.later δ).perform op d s x =
      ((cpu.perform op d s x).1, (cpu.perform op d s x).2.later δ) := by
  cases op with
  | exchange e | locate | pop | readSpecial r | swap => cases x <;> rfl
  | interrupt => exact congrArg (Prod.mk Completion.done) (cpu.offer_later δ _)
  | test c =>
    have hholds : c.holds ((cpu.later δ).get d) (x.value (cpu.later δ).registers) =
        c.holds (cpu.get d) (x.value cpu.registers) := rfl
    simp only [perform, hholds]
    split <;> rfl
  | compute f => exact congrArg (Prod.mk Completion.done) (cpu.commit_later δ d _)
  | _ => rfl

theorem service_later : (cpu.later δ).service = cpu.service.later δ := by
  have hcondition : ((cpu.later δ).pending && (cpu.later δ).flag .enabled) =
      (cpu.pending && cpu.flag .enabled) := rfl
  rw [service, service, hcondition]
  split
  · have hread : Memory.readWord (cpu.later δ).memory ((cpu.later δ).vector (cpu.later δ).message) =
        Memory.readWord cpu.memory (cpu.vector cpu.message) := rfl
    dsimp only
    rw [hread]
    split <;> rfl
  · rfl

theorem fetchOperand_later (w : Word) :
    (cpu.later δ).fetchOperand w =
      ((cpu.fetchOperand w).1, (cpu.fetchOperand w).2.later δ) := by
  unfold fetchOperand
  split <;> rfl

theorem execute_later (w : Word) :
    (cpu.later δ).execute w = ((cpu.execute w).1, (cpu.execute w).2.later δ) := by
  simp only [execute, fetchOperand_later]
  split
  · simp only [perform_later]
  · rfl

theorem turn_later (w : Word) :
    (cpu.later δ).turn w = ((cpu.turn w).1, (cpu.turn w).2.later δ) := by
  have hservice : (cpu.later δ).flag .inService = cpu.flag .inService := rfl
  simp only [turn, execute_later, trap_later, hservice]
  refine congrArg (Prod.mk _) ?_
  rw [show ∀ q : Processor M, (q.later δ).skipping = q.skipping from fun _ => rfl]
  split
  · rfl
  · exact service_later δ _

theorem slot_later : (cpu.later δ).slot = (cpu.slot.1, cpu.slot.2.later δ) := by
  have hsleeping : (cpu.later δ).sleeping = cpu.sleeping := rfl
  have hskipping : (cpu.later δ).skipping = cpu.skipping := rfl
  have hread : Memory.readWord (cpu.later δ).memory (cpu.later δ).pc =
      Memory.readWord cpu.memory cpu.pc := rfl
  unfold slot
  rw [hsleeping]
  split
  · exact congrArg (Prod.mk idleCost) (cpu.service_later δ)
  · dsimp only
    rw [hskipping, hread]
    split
    · rfl
    · exact turn_later δ { cpu with memory := (Memory.readWord cpu.memory cpu.pc).2 } _

omit [Memory M] in
theorem add_later (n : DoubleWord) :
    { cpu.later δ with cycles := (cpu.later δ).cycles + n } =
      { cpu with cycles := cpu.cycles + n }.later δ := by
  have hcycles : cpu.cycles + δ + n = cpu.cycles + n + δ := by
    rw [BitVec.add_assoc, BitVec.add_comm δ, BitVec.add_assoc]
  rw [later, later, State.later, State.later, ← hcycles]

/-- A step does not depend on what was counted before. -/
theorem step_later : (cpu.later δ).step = (cpu.step.1, cpu.step.2.later δ) := by
  have hslot : slot { cpu.later δ with waitCycles := 0 } = _ :=
    slot_later δ { cpu with waitCycles := 0 }
  unfold step
  rw [hslot]
  exact congrArg (Prod.mk _) (add_later δ _ _)

theorem cycle_later : (cpu.later δ).cycle = cpu.cycle.later δ := by
  have hwait : (cpu.later δ).waitCycles = cpu.waitCycles := rfl
  simp only [cycle, hwait, slot_later]
  split
  · exact add_later δ { cpu.slot.2 with waitCycles := BitVec.ofNat 32 cpu.slot.1 - 1 } 1
  · exact add_later δ { cpu with waitCycles := cpu.waitCycles - 1 } 1

theorem tick_later (n : Nat) : (cpu.later δ).tick n = (cpu.tick n).later δ := by
  induction n generalizing cpu with
  | zero => rfl
  | succ n ih => rw [tick, tick, cycle_later, ih]

end Microcomputer.Processor
