import Microcomputer.Proofs.Processor.Delivery
import Microcomputer.Proofs.Processor.Dispatch
import Microcomputer.Proofs.Processor.Stack

/-! Sleep. A processor that runs on from a reset is never asleep with a skip to make. Asleep it
does nothing but count cycles, whatever is offered to it and written into it from outside, until a
slot begins with a latched message and interrupts enabled: that slot wakes it and runs nothing,
`sleeps_until_serviced`. -/

namespace Microcomputer.Processor

variable {M : Type}

/-- A slot that begins like this one services the latched message. -/
def ready (cpu : Processor M) : Bool := cpu.pending && cpu.flag .enabled

variable [Memory M]

/-! ### What is done to a processor -/

/-- What can be done to a processor: it runs, it is offered messages, and its registers and its
program counter are written. -/
inductive Action where
  | call (c : Call)
  | setRegister (index : Nat) (x : Word)
  | setPc (a : Word)

def Action.run : Action → Processor M → Processor M
  | call c, cpu => c.run cpu
  | setRegister i x, cpu => cpu.set (.ofIndex i) x
  | setPc a, cpu => { cpu with pc := a }

/-- It is not the processor itself that runs. -/
def Action.isOutside : Action → Bool
  | call (.offer _) | setRegister _ _ | setPc _ => true
  | call _ => false

/-- The processor after actions. -/
def act (actions : List Action) (cpu : Processor M) : Processor M :=
  actions.foldl (fun cpu action => action.run cpu) cpu

/-- The processors with which the slots begin that start within so many cycles. -/
def tickSlots : Nat → Processor M → List (Processor M)
  | 0, _ => []
  | n + 1, cpu => (if cpu.waitCycles = 0 then [cpu] else []) ++ tickSlots n cpu.cycle

def Action.slots : Action → Processor M → List (Processor M)
  | call .step, cpu => [{ cpu with waitCycles := 0 }]
  | call (.tick n), cpu => tickSlots n cpu
  | call (.offer _), _ | setRegister _ _, _ | setPc _, _ => []

/-- The processors with which the slots of actions begin. -/
def slots : List Action → Processor M → List (Processor M)
  | [], _ => []
  | action :: actions, cpu => action.slots cpu ++ slots actions (action.run cpu)

/-! ### Never asleep and skipping -/

/-- The processor is not asleep with a skip to make. -/
def Steady (cpu : Processor M) : Prop := ¬(cpu.sleeping ∧ cpu.skipping)

/-- Only SLEEP puts to sleep. -/
theorem sleeping_perform_of_ne (cpu : Processor M) {op : Operation} {d s : Reg} {x : Operand}
    (h : op ≠ .sleep) : (cpu.perform op d s x).2.sleeping = cpu.sleeping := by
  cases op with
  | sleep => exact absurd rfl h
  | interrupt =>
    simp only [perform, offer]
    split <;> rfl
  | test c =>
    simp only [perform]
    split <;> rfl
  | compute f =>
    obtain ⟨registers, hcommit⟩ :=
      cpu.exists_commit d (f.outcome cpu.flags (cpu.get s) (x.value cpu.registers))
    simp only [perform, hcommit]
  | exchange | locate | pop | readSpecial | swap => cases x <;> rfl
  | _ => rfl

theorem steady_perform {cpu : Processor M} {op : Operation} {d s : Reg} {x : Operand}
    (hsleeping : ¬cpu.sleeping) (hskipping : ¬cpu.skipping) :
    Steady (cpu.perform op d s x).2 := by
  rintro ⟨hasleep, hskip⟩
  by_cases h : op = .sleep
  · subst h
    exact hskipping hskip
  · rw [cpu.sleeping_perform_of_ne h] at hasleep
    exact hsleeping hasleep

theorem steady_execute {cpu : Processor M} {w : Word} (hsleeping : ¬cpu.sleeping)
    (hskipping : ¬cpu.skipping) : Steady (cpu.execute w).2 := by
  have hfetched : ¬(cpu.fetchOperand w).2.sleeping ∧ ¬(cpu.fetchOperand w).2.skipping := by
    rw [fetchOperand_snd]
    exact ⟨hsleeping, hskipping⟩
  rw [execute_eq_outcome]
  cases hop : Operation.ofOpcode? (Instruction.opcode w) with
  | none =>
    rw [outcome_of_undefined hop]
    exact fun h => hfetched.1 h.1
  | some op =>
    rw [outcome_of_ofOpcode? hop]
    exact steady_perform hfetched.1 hfetched.2

omit [Memory M] in
theorem trap_sleeping (cpu : Processor M) (b : Bool) :
    (cpu.trap b).sleeping = cpu.sleeping ∧ (cpu.trap b).skipping = cpu.skipping := by
  unfold trap
  split <;> exact ⟨rfl, rfl⟩

/-- Service leaves the skip alone, and nothing falls asleep by it. -/
theorem service_sleeping (cpu : Processor M) :
    (cpu.service.sleeping → cpu.sleeping) ∧ cpu.service.skipping = cpu.skipping := by
  rcases cpu.service_cases with ⟨-, h⟩ | ⟨-, ⟨-, -, h⟩ | ⟨-, -, h⟩⟩
  · rw [h]
    exact ⟨id, rfl⟩
  · rw [h]
    exact ⟨nofun, rfl⟩
  · rw [h]
    exact ⟨nofun, rfl⟩

theorem Steady.service {cpu : Processor M} (h : Steady cpu) : Steady cpu.service :=
  fun ⟨hasleep, hskip⟩ =>
    h ⟨cpu.service_sleeping.1 hasleep, cpu.service_sleeping.2 ▸ hskip⟩

theorem Steady.slot {cpu : Processor M} (h : Steady cpu) : Steady cpu.slot.2 := by
  unfold Processor.slot
  by_cases hsleeping : cpu.sleeping
  · rw [if_pos hsleeping]
    exact h.service
  rw [if_neg hsleeping]
  dsimp only
  split
  · exact fun hboth => hsleeping hboth.1
  · next hskipping =>
    let fetched := { cpu with memory := (Memory.readWord cpu.memory cpu.pc).2 }
    let w := (Memory.readWord cpu.memory cpu.pc).1
    have hexecuted : Steady (fetched.execute w).2 := steady_execute hsleeping hskipping
    have htrapped : Steady ((fetched.execute w).2.trap (fetched.flag .inService)) := by
      obtain ⟨hsleep, hskip⟩ := (fetched.execute w).2.trap_sleeping (fetched.flag .inService)
      rw [Steady, hsleep, hskip]
      exact hexecuted
    simp only [turn]
    split
    · exact htrapped
    · exact htrapped.service

theorem Steady.cycle {cpu : Processor M} (h : Steady cpu) : Steady cpu.cycle := by
  unfold Processor.cycle
  split
  · exact h.slot
  · exact h

theorem Steady.tick {cpu : Processor M} (h : Steady cpu) (n : Nat) :
    Steady (cpu.tick n) := by
  induction n generalizing cpu with
  | zero => exact h
  | succ n ih => exact ih h.cycle

theorem Steady.run {cpu : Processor M} (h : Steady cpu) (action : Action) :
    Steady (action.run cpu) := by
  cases action with
  | setRegister | setPc => exact h
  | call c =>
    cases c with
    | step => exact (show Steady { cpu with waitCycles := 0 } from h).slot
    | tick n => exact h.tick n
    | offer x =>
      change Steady (cpu.offer x)
      unfold offer
      split <;> exact h

theorem Steady.act {cpu : Processor M} (h : Steady cpu) (actions : List Action) :
    Steady (act actions cpu) := by
  induction actions generalizing cpu with
  | nil => exact h
  | cons action actions ih => exact ih (h.run action)

/-! ### Nothing but the clock -/

omit [Memory M] in
theorem setClock_of_eq {cpu cpu' : Processor M} {c : Word × DoubleWord}
    (h : cpu' = cpu.setClock c) (d : Word × DoubleWord) : cpu'.setClock d = cpu.setClock d := by
  rw [h]
  rfl

theorem slot_of_sleeping {cpu : Processor M} (h : cpu.sleeping) :
    cpu.slot = (idleCost, cpu.service) := if_pos h

theorem service_of_not_ready {cpu : Processor M} (h : ¬cpu.ready) : cpu.service = cpu := if_neg h

/-- The cycle in which no slot begins, or one that finds nothing to service. -/
theorem cycle_of_quiet {cpu : Processor M} (hsleeping : cpu.sleeping)
    (hquiet : cpu.waitCycles = 0 → ¬cpu.ready) :
    cpu.cycle = cpu.setClock
      (if cpu.waitCycles = 0 then 0 else cpu.waitCycles - 1, cpu.cycles + 1) := by
  unfold cycle
  by_cases h : cpu.waitCycles = 0
  · rw [if_pos h, if_pos h, slot_of_sleeping hsleeping, service_of_not_ready (hquiet h)]
    exact congrArg (fun x => cpu.setClock (x, cpu.cycles + 1))
      (show BitVec.ofNat 32 1 - 1 = (0 : Word) by decide)
  · rw [if_neg h, if_neg h]
    rfl

theorem step_of_quiet {cpu : Processor M} (hsleeping : cpu.sleeping) (hquiet : ¬cpu.ready) :
    cpu.step = (1, cpu.setClock (0, cpu.cycles + 1)) := by
  let idle := { cpu with waitCycles := 0 }
  have hasleep : idle.sleeping := hsleeping
  have hidle : ¬idle.ready := hquiet
  unfold step
  rw [slot_of_sleeping hasleep, service_of_not_ready hidle]
  rfl

theorem tick_of_quiet {n : Nat} {cpu : Processor M} (hsleeping : cpu.sleeping)
    (hquiet : ∀ s ∈ tickSlots n cpu, ¬s.ready) : cpu.tick n = cpu.setClock (cpu.tick n).clock := by
  induction n generalizing cpu with
  | zero => rfl
  | succ n ih =>
    obtain ⟨hnow, hlater⟩ := List.forall_mem_append.mp hquiet
    have hcycle := cycle_of_quiet hsleeping fun h => hnow cpu (by rw [if_pos h]; exact .head _)
    have hrest := ih (show cpu.cycle.sleeping by rw [hcycle]; exact hsleeping) hlater
    exact hrest.trans (setClock_of_eq hcycle _)

theorem Action.run_of_quiet {action : Action} {cpu : Processor M} (hsleeping : cpu.sleeping)
    (hquiet : ∀ s ∈ action.slots cpu, ¬s.ready) (hinside : ¬action.isOutside) :
    action.run cpu = cpu.setClock (action.run cpu).clock := by
  cases action with
  | setRegister | setPc => exact absurd rfl hinside
  | call c =>
    cases c with
    | offer => exact absurd rfl hinside
    | tick n => exact tick_of_quiet hsleeping hquiet
    | step =>
      have hstep := step_of_quiet hsleeping (hquiet { cpu with waitCycles := 0 } (.head _))
      change cpu.step.2 = cpu.setClock cpu.step.2.clock
      rw [hstep]
      rfl

/-- What is done from outside takes no time and has nothing to do with it. -/
theorem Action.run_setClock {action : Action} (houtside : action.isOutside) (cpu : Processor M)
    (c : Word × DoubleWord) : action.run (cpu.setClock c) = (action.run cpu).setClock c := by
  cases action with
  | setRegister | setPc => rfl
  | call call =>
    cases call with
    | step | tick => cases houtside
    | offer x =>
      change (cpu.setClock c).offer x = (cpu.offer x).setClock c
      have haccepts : (cpu.setClock c).accepts = cpu.accepts := rfl
      unfold offer
      rw [haccepts]
      split <;> rfl

theorem Action.sleeping_run {action : Action} (houtside : action.isOutside) (cpu : Processor M) :
    (action.run cpu).sleeping = cpu.sleeping := by
  cases action with
  | setRegister | setPc => rfl
  | call call =>
    cases call with
    | step | tick => cases houtside
    | offer x =>
      change (cpu.offer x).sleeping = cpu.sleeping
      unfold offer
      split <;> rfl

theorem act_setClock {actions : List Action} (houtside : ∀ a ∈ actions, a.isOutside)
    (cpu : Processor M) (c : Word × DoubleWord) :
    act actions (cpu.setClock c) = (act actions cpu).setClock c := by
  induction actions generalizing cpu with
  | nil => rfl
  | cons a actions ih =>
    obtain ⟨ha, hrest⟩ := List.forall_mem_cons.mp houtside
    exact (congrArg (act actions) (a.run_setClock ha cpu c)).trans (ih hrest _)

/-- Until a slot begins that services something, a sleeping processor only counts cycles: it is
what the actions from outside alone make of it, at another time. -/
theorem act_of_quiet {actions : List Action} {cpu : Processor M} (hsleeping : cpu.sleeping)
    (hquiet : ∀ s ∈ slots actions cpu, ¬s.ready) :
    act actions cpu =
        (act (actions.filter Action.isOutside) cpu).setClock (act actions cpu).clock ∧
      (act actions cpu).sleeping := by
  induction actions generalizing cpu with
  | nil => exact ⟨rfl, hsleeping⟩
  | cons a actions ih =>
    obtain ⟨hnow, hlater⟩ := List.forall_mem_append.mp hquiet
    by_cases ha : a.isOutside
    · rw [List.filter_cons_of_pos ha]
      exact ih ((a.sleeping_run ha cpu).trans hsleeping) hlater
    · have hrun := Action.run_of_quiet hsleeping hnow ha
      obtain ⟨hact, hasleep⟩ := ih (show (a.run cpu).sleeping by rw [hrun]; exact hsleeping) hlater
      rw [List.filter_cons_of_neg ha]
      have houtside : ∀ b ∈ actions.filter Action.isOutside, b.isOutside :=
        fun b hb => (List.mem_filter.mp hb).2
      have hlate := (congrArg (act (actions.filter Action.isOutside)) hrun).trans
        (act_setClock houtside cpu _)
      exact ⟨hact.trans (setClock_of_eq hlate _), hasleep⟩

/-! ### Waking -/

/-- What a step makes of a sleeping processor that it wakes. The latched message goes; it enters
its handler, or there is none and the processor goes on where it stopped. -/
structure Wakes (cpu cpu' : Processor M) : Prop where
  awake : ¬cpu'.sleeping ∧ ¬cpu'.skipping
  latched : cpu'.latched = none
  resumes :
    let (handler, memory) := Memory.readWord cpu.memory (cpu.vector cpu.message)
    handler = 0 → cpu.stepEvents = [.dropped cpu.message] ∧
      cpu'.pc = cpu.pc ∧ cpu'.registers = cpu.registers ∧ cpu'.memory = memory
  enters :
    let (handler, memory) := Memory.readWord cpu.memory (cpu.vector cpu.message)
    let entered := { cpu with memory := memory }.enter cpu.message handler
    handler ≠ 0 → cpu.stepEvents = [.entered cpu.message (cpu.flag .inService)] ∧
      cpu'.pc = handler ∧ cpu'.get 0 = cpu.message.setWidth 32 ∧ cpu'.flag .inService ∧
      cpu'.registers = entered.registers ∧ cpu'.memory = entered.memory

theorem serviceEvents_of_ready {cpu : Processor M} (h : cpu.ready) : cpu.serviceEvents ≠ [] := by
  unfold serviceEvents
  rw [if_pos (show cpu.pending && cpu.flag .enabled from h)]
  split <;> exact List.cons_ne_nil _ _

theorem wakes_step {cpu : Processor M} (hsleeping : cpu.sleeping) (hskipping : ¬cpu.skipping)
    (hready : cpu.ready) : Wakes cpu cpu.step.2 := by
  let idle := { cpu with waitCycles := 0 }
  have hasleep : idle.sleeping := hsleeping
  have hidle : idle.ready := hready
  have hevents : cpu.stepEvents = idle.serviceEvents := if_pos hsleeping
  have hstep : cpu.step.2 =
      { idle.service with cycles := idle.service.cycles + BitVec.ofNat 64 idleCost } := by
    rw [step, slot_of_sleeping hasleep]
  rcases idle.service_cases with ⟨hnone, -⟩ | ⟨⟨hlatched, henabled⟩,
      ⟨hzero, hserved, hservice⟩ | ⟨hhandler, hserved, hservice⟩⟩
  · exact absurd hnone (serviceEvents_of_ready hidle)
  · rw [hstep, hservice]
    exact ⟨⟨Bool.false_ne_true, hskipping⟩, rfl,
      fun _ => ⟨hevents.trans hserved, rfl, rfl, rfl⟩, fun h => absurd hzero h⟩
  · have henters := enters_enter hlatched henabled rfl hhandler cpu.step.2.clock
    rw [hstep, hservice]
    refine ⟨⟨Bool.false_ne_true, hskipping⟩, rfl, fun h => absurd h hhandler,
      fun _ => ⟨hevents.trans hserved, rfl, henters.message, ?_, rfl, rfl⟩⟩
    exact congrArg Interrupts.inService (interrupts_enter _ cpu.message _)

theorem step_cost_of_sleeping {cpu : Processor M} (hsleeping : cpu.sleeping) : cpu.step.1 = 1 := by
  let idle := { cpu with waitCycles := 0 }
  have hasleep : idle.sleeping := hsleeping
  exact congrArg Prod.fst (slot_of_sleeping hasleep)

/-- The slot of a sleeping processor is over in the cycle in which it begins. -/
theorem cycle_eq_step {cpu : Processor M} (hsleeping : cpu.sleeping) (h : cpu.waitCycles = 0) :
    cpu.cycle = cpu.step.2 := by
  have hslot := cpu.tick_slot_cost h
  rwa [slot_of_sleeping hsleeping] at hslot

/-- The slot in which SLEEP is executed ends asleep, or the message that it serviced woke it. -/
theorem sleeping_turn {cpu : Processor M} {w : Word} (hskipping : ¬cpu.skipping)
    (h : Operation.ofOpcode? (Instruction.opcode w) = some .sleep) :
    (cpu.turn w).2.sleeping ∨ serviced (cpu.turnEvents w) ≠ [] := by
  let executed := (cpu.execute w).2
  let trapped := executed.trap (cpu.flag .inService)
  have hexecuted : executed.sleeping ∧ ¬executed.skipping := by
    have hperform : executed = { (cpu.fetchOperand w).2 with sleeping := true } := by
      dsimp only [executed]
      rw [execute_eq_outcome, outcome_of_ofOpcode? h]
      rfl
    rw [hperform, fetchOperand_snd]
    exact ⟨rfl, hskipping⟩
  obtain ⟨hsleep, hskip⟩ := executed.trap_sleeping (cpu.flag .inService)
  have hawake : ¬trapped.skipping := hskip ▸ hexecuted.2
  have hturn : (cpu.turn w).2 = trapped.service := if_neg hawake
  have hevents : cpu.turnEvents w = cpu.executeEvents w ++
      executed.trapEvents (cpu.flag .inService) ++ trapped.serviceEvents := by
    rw [turnEvents]
    exact congrArg _ (if_neg hawake)
  rw [hturn, hevents, serviced, List.filterMap_append]
  rcases trapped.service_cases with ⟨-, hservice⟩ | ⟨-, ⟨-, hserved, -⟩ | ⟨-, hserved, -⟩⟩
  · rw [hservice]
    exact .inl (hsleep.trans hexecuted.1)
  · rw [hserved]
    exact .inr (List.append_ne_nil_of_right_ne_nil _ (List.cons_ne_nil _ _))
  · rw [hserved]
    exact .inr (List.append_ne_nil_of_right_ne_nil _ (List.cons_ne_nil _ _))

/-! ### Sleep as a whole -/

/-- A sleeping processor between two slots. Each costs one cycle, and one that begins with a
message latched and interrupts enabled wakes it; others and the cycles between only count. -/
structure Asleep (cpu : Processor M) : Prop where
  sleeping : cpu.sleeping
  cost : cpu.step.1 = 1
  cycle_of_due : cpu.waitCycles = 0 → cpu.cycle = cpu.step.2
  cycle_of_waiting : cpu.waitCycles ≠ 0 →
    cpu.cycle = cpu.setClock (cpu.waitCycles - 1, cpu.cycles + 1)
  step_of_unready : ¬cpu.ready → cpu.step.2 = cpu.setClock (0, cpu.cycles + 1)
  step_of_ready : cpu.ready → Wakes cpu cpu.step.2
  refused : ∀ x, ¬cpu.accepts → cpu.offer x = cpu

/-- How a processor sleeps: never with a skip to make, and until a slot begins with a message
latched and interrupts enabled. Until then it is what the actions from outside alone make of it, at
another time. -/
structure Sleeps (cpu : Processor M) : Prop where
  steady : ¬(cpu.sleeping ∧ cpu.skipping)
  quiet : cpu.sleeping → ∀ later, (∀ s ∈ slots later cpu, ¬s.ready) →
    let now := act later cpu
    Asleep now ∧ now = (act (later.filter Action.isOutside) cpu).setClock now.clock
  wakes : ∀ action : Action, cpu.sleeping → ¬(action.run cpu).sleeping →
    ∃ s ∈ action.slots cpu, s.ready
  falls : ∀ w, ¬cpu.skipping → Operation.ofOpcode? (Instruction.opcode w) = some .sleep →
    (cpu.turn w).2.sleeping ∨ serviced (cpu.turnEvents w) ≠ []

/-- Sleep ends only through the service of a latched message, however a processor runs on from a
reset, and whatever is offered and written meanwhile. -/
theorem sleeps_until_serviced (cpu : Processor M) (earlier : List Action) :
    Sleeps (act earlier cpu.reset) := by
  have hreset : Steady cpu.reset := fun h => Bool.false_ne_true h.1
  have hsteady := hreset.act earlier
  constructor
  case steady => exact hsteady
  case quiet =>
    intro hnow later hquiet now
    obtain ⟨hsame, hsleeping⟩ := act_of_quiet hnow hquiet
    have hskipping : ¬now.skipping := fun h => (Steady.act hsteady later) ⟨hsleeping, h⟩
    refine ⟨⟨hsleeping, step_cost_of_sleeping hsleeping, cycle_eq_step hsleeping, fun h => ?_,
      fun h => congrArg Prod.snd (step_of_quiet hsleeping h), wakes_step hsleeping hskipping,
      fun x h => if_neg h⟩, hsame⟩
    rw [cycle_of_quiet hsleeping fun hzero => absurd hzero h, if_neg h]
  case wakes =>
    intro action hnow hawake
    refine Decidable.byContradiction fun hnone => hawake ?_
    have hquiet : ∀ s ∈ slots [action] (act earlier cpu.reset), ¬s.ready := by
      intro s hs hready
      exact hnone ⟨s, by simpa [slots] using hs, hready⟩
    exact (act_of_quiet hnow hquiet).2
  case falls => exact fun w hskipping hw => sleeping_turn hskipping hw

/-- Zero memory is a program of SLEEP. Once asleep the processor is ticked, its program counter
written and a message offered, which is accepted; while that is latched a second one is not. The
step after that wakes it, once for a message without a handler and once for one that has one. -/
theorem sleeps_until_serviced_offered :
    let cpu : Processor FlatMemory := Processor.new (FlatMemory.zero.write 28 1)
    let now := act [.setRegister 29 0x100, .call .step] cpu.reset
    let later (x : Half) : List Action :=
      [.call (.tick 3), .setPc 0x2000, .call (.offer x), .call (.offer 9)]
    now.sleeping ∧ now.pc = 0x100004 ∧
      (act (later 5) now).step.2.pc = 0x2000 ∧ ¬(act (later 5) now).step.2.sleeping ∧
      (act (later 7) now).step.2.pc = 1 ∧ (act (later 7) now).step.2.get 0 = 7 ∧
      (act (later 7) now).offer 3 = act (later 7) now := by
  intro cpu now later
  have hsleeping : now.sleeping := by decide
  have hsleeps := cpu.sleeps_until_serviced [.setRegister 29 0x100, .call .step]
  have hquiet (x : Half) : ∀ s ∈ slots (later x) now, ¬s.ready :=
    show ∀ s ∈ slots (later 0) now, ¬s.ready by decide
  have hdropped := (hsleeps.quiet hsleeping (later 5) (hquiet 5)).1.step_of_ready (by decide)
  have hentered := (hsleeps.quiet hsleeping (later 7) (hquiet 7)).1.step_of_ready (by decide)
  have hrefused := (hsleeps.quiet hsleeping (later 7) (hquiet 7)).1.refused 3 (by decide)
  exact ⟨hsleeping, by decide, (hdropped.resumes (by decide)).2.1.trans (by decide),
    hdropped.awake.1,
    (hentered.enters (by decide)).2.1.trans (by decide),
    (hentered.enters (by decide)).2.2.1.trans (by decide), hrefused⟩

end Microcomputer.Processor
