import Microcomputer.Instruction.Encoding
import Microcomputer.Proofs.Processor.Delivery
import Microcomputer.Proofs.Processor.Fetch
import Microcomputer.Proofs.Processor.Interchange

/-! What follows a condition that does not hold. The processor passes over one instruction,
and over a conditional one together with what that one decides about. Until the last of them
nothing is executed and no interrupt is taken: `passes_over_chain`. -/

namespace Microcomputer

/-! ### Chains of instructions -/

namespace Instruction

/-- The word decides about the instruction after it. -/
def IsConditional (w : Word) : Prop :=
  ∃ c, Operation.ofOpcode? (opcode w) = some (.test c)

theorem any_isConditional_iff {w : Word} :
    (Operation.ofOpcode? (opcode w)).any Operation.isConditional ↔
      IsConditional w := by
  unfold IsConditional
  cases Operation.ofOpcode? (opcode w) with
  | none => simp
  | some op => cases op <;> simp [Operation.isConditional]

instance (w : Word) : Decidable (IsConditional w) := decidable_of_iff _ any_isConditional_iff

/-- The words are the first words of instructions that stand one behind the other from an
address on. -/
def Lined (m : FlatMemory) : Word → List Word → Prop
  | _, [] => True
  | a, w :: ws =>
    (Memory.readWord m a).1 = w ∧ Lined m (a + BitVec.ofNat 32 (length w)) ws

instance decidableLined (m : FlatMemory) : ∀ a ws, Decidable (Lined m a ws)
  | _, [] => isTrue trivial
  | a, w :: ws =>
    have := decidableLined m (a + BitVec.ofNat 32 (length w)) ws
    inferInstanceAs (Decidable ((Memory.readWord m a).1 = w ∧ _))

end Instruction

namespace Processor

open Instruction (IsConditional Lined any_isConditional_iff)

/-! ### One slot -/

variable (cpu : Processor FlatMemory)

theorem step_of_skipping (hawake : ¬cpu.sleeping) (hskipping : cpu.skipping) :
    cpu.stepEvents = [] ∧ cpu.step = (1, { cpu with
      pc := cpu.pc + BitVec.ofNat 32 (Instruction.length cpu.next)
      waitCycles := 0, cycles := cpu.cycles + 1
      skipping := (Operation.ofOpcode? (Instruction.opcode cpu.next)).any
        Operation.isConditional }) := by
  let idle := { cpu with waitCycles := 0 }
  have hslot : idle.slot = (idleCost, idle.skip cpu.next) := by
    rw [idle.slot_of_awake hawake]
    exact if_pos hskipping
  constructor
  · rw [stepEvents, slotEvents, if_neg hawake]
    exact if_pos hskipping
  · change (idle.slot.1, { idle.slot.2 with
      cycles := idle.slot.2.cycles + BitVec.ofNat 64 idle.slot.1 }) = _
    rw [hslot]
    rfl

/-! ### Slots between which messages are offered -/

def Answer.cost? : Answer → Option Nat
  | cost cycles => some cycles
  | _ => none

/-- Calls in which so many slots are run, each for one cycle, and in which nothing happens to
interrupts but that messages from outside are accepted. -/
structure Quiet (slots : Nat) (calls : List Call) (cpu : Processor FlatMemory) : Prop where
  costs_eq : (answers calls cpu).filterMap Answer.cost? = .replicate slots 1
  log_accepted : ∀ e ∈ log calls cpu, ∃ x, e = .accepted .outside x false

theorem answers_append (before after : List Call) :
    answers (before ++ after) cpu = answers before cpu ++ answers after (run before cpu) := by
  induction before generalizing cpu with
  | nil => rfl
  | cons call calls ih => exact congrArg (call.answer cpu :: ·) (ih (call.run cpu))

theorem Quiet.append {cpu : Processor FlatMemory} {m n : Nat} {before after : List Call}
    (h : Quiet m before cpu) (h' : Quiet n after (run before cpu)) :
    Quiet (m + n) (before ++ after) cpu where
  costs_eq := by
    rw [answers_append, List.filterMap_append, h.costs_eq, h'.costs_eq,
      List.replicate_append_replicate]
  log_accepted := by
    rw [log_append]
    exact List.forall_mem_append.mpr ⟨h.log_accepted, h'.log_accepted⟩

/-- Offers change nothing but the latch. -/
theorem quiet_offers (messages : List Half) :
    Quiet 0 (messages.map .offer) cpu ∧
      ∃ pending message, run (messages.map .offer) cpu =
        { cpu with pending := pending, message := message } := by
  induction messages generalizing cpu with
  | nil => exact ⟨⟨rfl, nofun⟩, _, _, rfl⟩
  | cons x xs ih =>
    obtain ⟨hquiet, pending, message, hrun⟩ := ih (cpu.offer x)
    have hone : Quiet 0 [.offer x] cpu := by
      refine ⟨rfl, fun e he => ?_⟩
      change e ∈ cpu.offerEvents .outside x ++ [] at he
      rw [List.append_nil] at he
      rcases cpu.offer_cases .outside x with ⟨hevents, -⟩ | ⟨hevents, -, -⟩
      · rw [hevents] at he
        contradiction
      · rw [hevents, List.mem_singleton] at he
        exact ⟨x, he⟩
    refine ⟨hone.append hquiet, pending, message, hrun.trans ?_⟩
    unfold offer
    split <;> rfl

/-- Messages are offered one after the other, and then a slot is run. -/
def slotAfter (messages : List Half) : List Call := messages.map .offer ++ [.step]

theorem quiet_slotAfter (hawake : ¬cpu.sleeping) (hskipping : cpu.skipping)
    (messages : List Half) :
    Quiet 1 (slotAfter messages) cpu ∧
      ∃ pending message, run (slotAfter messages) cpu = { cpu with
        pc := cpu.pc + BitVec.ofNat 32 (Instruction.length cpu.next)
        waitCycles := 0, cycles := cpu.cycles + 1, pending := pending, message := message
        skipping := (Operation.ofOpcode? (Instruction.opcode cpu.next)).any
          Operation.isConditional } := by
  obtain ⟨hoffers, pending, message, hrun⟩ := cpu.quiet_offers messages
  let offered := { cpu with pending := pending, message := message }
  obtain ⟨hevents, hstep⟩ := offered.step_of_skipping hawake hskipping
  have hslot : Quiet 1 [.step] (run (messages.map .offer) cpu) := by
    rw [hrun]
    constructor
    · exact congrArg (fun stepped => [stepped.1]) hstep
    · intro e he
      change e ∈ offered.stepEvents ++ [] at he
      rw [hevents] at he
      contradiction
  refine ⟨hoffers.append hslot, pending, message, ?_⟩
  rw [slotAfter, run_append, hrun]
  exact congrArg Prod.snd hstep

/-! ### The whole chain -/

/-- A latched message is still there after calls that service none. -/
theorem Quiet.latched {n : Nat} {calls : List Call} {cpu : Processor FlatMemory}
    (h : Quiet n calls cpu) {before : List Call} (hbefore : before <+: calls) {x : Half}
    (hx : (run before cpu).latched = some x) : (run calls cpu).latched = some x := by
  obtain ⟨after, rfl⟩ := hbefore
  have hnone : serviced (log after (run before cpu)) = [] := by
    refine List.filterMap_eq_nil_iff.mpr fun e he => ?_
    obtain ⟨y, rfl⟩ := h.log_accepted e (by
      rw [log_append]
      exact List.mem_append_right _ he)
    rfl
  rw [run_append]
  rcases (moves_log after (run before cpu)).next hx with ⟨-, -, hlast⟩ | ⟨later, hlater, -⟩
  · exact hlast
  · rw [hnone] at hlater
    contradiction

theorem quiet_chain (conditions : List Word) (final : Word) (hawake : ¬cpu.sleeping)
    (hskipping : cpu.skipping) (hlined : Lined cpu.memory cpu.pc (conditions ++ [final]))
    (hconditions : ∀ w ∈ conditions, IsConditional w) (hfinal : ¬IsConditional final)
    (offers : List (List Half)) (hoffers : offers.length = conditions.length + 1) :
    Quiet (conditions.length + 1) (offers.flatMap slotAfter) cpu ∧
      ∃ cycles pending message, run (offers.flatMap slotAfter) cpu = { cpu with
        pc := cpu.pc + BitVec.ofNat 32 ((conditions ++ [final]).map Instruction.length).sum
        waitCycles := 0, cycles := cycles, pending := pending, message := message
        skipping := false } := by
  induction conditions generalizing cpu offers with
  | nil =>
    obtain ⟨messages, rfl⟩ := List.length_eq_one_iff.mp hoffers
    obtain ⟨hnext, -⟩ := hlined
    obtain ⟨hquiet, pending, message, hrun⟩ := cpu.quiet_slotAfter hawake hskipping messages
    have hlast : (Operation.ofOpcode? (Instruction.opcode cpu.next)).any
        Operation.isConditional = false := by
      rw [next, hnext, Bool.eq_false_iff, Ne, any_isConditional_iff]
      exact hfinal
    rw [List.flatMap_singleton]
    refine ⟨hquiet, cpu.cycles + 1, pending, message, hrun.trans ?_⟩
    rw [hlast, next, hnext]
    rfl
  | cons w ws ih =>
    obtain ⟨messages, rest, rfl⟩ := List.exists_cons_of_length_eq_add_one hoffers
    obtain ⟨hnext, hbehind⟩ := hlined
    obtain ⟨hquiet, pending, message, hrun⟩ := cpu.quiet_slotAfter hawake hskipping messages
    have hagain : (Operation.ofOpcode? (Instruction.opcode cpu.next)).any
        Operation.isConditional = true := by
      rw [next, hnext, any_isConditional_iff]
      exact hconditions w List.mem_cons_self
    rw [hagain, next, hnext] at hrun
    -- The processor is where it began, but one instruction further on.
    obtain ⟨hquiet', cycles, pending', message', hrun'⟩ := ih (run (slotAfter messages) cpu)
      (by rw [hrun]; exact hawake) (by rw [hrun]) (by rw [hrun]; exact hbehind)
      (fun v hv => hconditions v (List.mem_cons_of_mem w hv)) rest (Nat.succ.inj hoffers)
    rw [List.flatMap_cons]
    refine ⟨?_, cycles, pending', message', ?_⟩
    · rw [List.length_cons, Nat.add_comm]
      exact hquiet.append hquiet'
    · rw [run_append, hrun', hrun, List.cons_append, List.map_cons, List.sum_cons,
        BitVec.ofNat_add, ← BitVec.add_assoc]

/-- A chain that is passed over: so many conditional instructions, and behind them one of
another kind. With the skip flag set, each takes a slot of one cycle, whatever is offered in
between. Then the flag is clear and the program counter past the chain, by the lengths that
execution would have moved it; registers and memory are as they were, nothing was executed,
trapped or serviced, and a message once latched is latched still. -/
theorem passes_over_chain (conditions : List Word) (final : Word) (hawake : ¬cpu.sleeping)
    (hskipping : cpu.skipping) (hlined : Lined cpu.memory cpu.pc (conditions ++ [final]))
    (hconditions : ∀ w ∈ conditions, IsConditional w) (hfinal : ¬IsConditional final)
    (offers : List (List Half)) (hoffers : offers.length = conditions.length + 1) :
    let calls := offers.flatMap slotAfter
    let last := run calls cpu
    (answers calls cpu).filterMap Answer.cost? = .replicate (conditions.length + 1) 1 ∧
    ¬last.skipping ∧ ¬last.sleeping ∧
    last.pc = cpu.pc + BitVec.ofNat 32 ((conditions ++ [final]).map Instruction.length).sum ∧
    (∀ (w : Word) (other : Processor FlatMemory),
      (other.fetchOperand w).2.pc = other.pc + BitVec.ofNat 32 (Instruction.length w)) ∧
    last.registers = cpu.registers ∧ last.memory = cpu.memory ∧
    (∀ e ∈ log calls cpu, ∃ x, e = .accepted .outside x false) ∧
    ∀ before x, before <+: calls → (run before cpu).latched = some x → last.latched = some x := by
  intro calls last
  obtain ⟨hquiet, cycles, pending, message, hrun⟩ :=
    cpu.quiet_chain conditions final hawake hskipping hlined hconditions hfinal offers hoffers
  have hlast : last = _ := hrun
  refine ⟨hquiet.costs_eq, ?_, ?_, ?_, fun w other => other.pc_fetchOperand w, ?_, ?_,
    hquiet.log_accepted, fun before x hbefore hx => hquiet.latched hbefore hx⟩
  · rw [hlast]
    exact Bool.false_ne_true
  · rw [hlast]
    exact hawake
  all_goals rw [hlast]

/-- Conditions with an extended literal, a register and a literal, around the end of memory, and
behind them an undefined opcode with an extended literal. Message 5 is accepted on the way. -/
theorem passes_over_chain_wrapping :
    let program := (Instruction.two 0x2B 1 (.extended 0x2B040000)).words ++
      (Instruction.two 0x35 2 (.register 3)).words ++
      (Instruction.two 0x31 4 (.literal 100)).words ++
      (Instruction.three 0x5F 1 2 (.extended 0)).words
    let cpu : Processor FlatMemory := {
      registers := Registers.zero.set .flags 0x300, pc := 0xFFFFF8
      waitCycles := 5, cycles := 9, message := 1
      pending := false, skipping := true, sleeping := false
      memory := Memory.writeBytes FlatMemory.zero 0xFFFFF8 (Instruction.image program) }
    let conditions : List Word := [0x2B860000, 0x35080003, 0x31900064]
    let calls := [[], [5, 6], [7], []].flatMap slotAfter
    let last := run calls cpu
    (¬cpu.sleeping ∧ cpu.skipping) ∧ Lined cpu.memory cpu.pc (conditions ++ [0x5F845000]) ∧
      (∀ w ∈ conditions, IsConditional w) ∧ ¬IsConditional 0x5F845000 ∧
      (answers calls cpu).filterMap Answer.cost? = [1, 1, 1, 1] ∧
      ¬last.skipping ∧ last.pc = 0x1000010 ∧ last.registers = cpu.registers ∧
      last.latched = some 5 := by
  intro program cpu conditions calls last
  have hready : ¬cpu.sleeping ∧ cpu.skipping := by decide
  have hlined : Lined cpu.memory cpu.pc (conditions ++ [0x5F845000]) := by decide
  have hconditions : ∀ w ∈ conditions, IsConditional w :=
    List.forall_mem_cons.mpr ⟨by decide, List.forall_mem_cons.mpr ⟨by decide,
      List.forall_mem_singleton.mpr (by decide)⟩⟩
  have hfinal : ¬IsConditional 0x5F845000 := by decide
  obtain ⟨hcosts, hskipping, -, hpc, -, hregisters, -, -, hlatched⟩ :=
    cpu.passes_over_chain conditions 0x5F845000 hready.1 hready.2 hlined hconditions hfinal
      [[], [5, 6], [7], []] rfl
  refine ⟨hready, hlined, hconditions, hfinal, hcosts, hskipping,
    hpc.trans (by decide), hregisters, ?_⟩
  exact hlatched (slotAfter [] ++ [.offer 5]) 5 ⟨.offer 6 :: .step :: _, rfl⟩ (by decide)

end Processor

end Microcomputer
