import Microcomputer.Proofs.Processor.Granularity

/-! The events of a run that concern interrupts. Messages enter the latch, instructions are
executed, and messages leave the latch for their handlers. Whatever a processor does, its
latch and its in-service flag follow the few moves of `Interrupts.Move`: `moves_log`. -/

namespace Microcomputer.Processor

/-- How a message came to be latched. -/
inductive Origin where
  /-- It was offered from outside. -/
  | outside
  /-- An instruction offered it. -/
  | program
  | singleStep
deriving DecidableEq

/-- What can happen. The in-service flag is noted as it stands at that moment. -/
inductive Event where
  /-- A message was latched. -/
  | accepted (origin : Origin) (message : Half) (inService : Bool)
  /-- An instruction was executed, which found the flag in one state and left it in another. -/
  | executed (before after : Bool)
  /-- The latched message entered its handler. -/
  | entered (message : Half) (inService : Bool)
  /-- The latched message had no handler. -/
  | dropped (message : Half)
deriving DecidableEq

/-! ### Messages in and out -/

def Event.accepted? : Event → Option Half
  | accepted _ x _ => some x
  | _ => none

/-- The message that leaves the latch, whether it has a handler or not. -/
def Event.serviced? : Event → Option Half
  | entered x _ => some x
  | dropped x => some x
  | _ => none

def accepted (es : List Event) : List Half := es.filterMap Event.accepted?

def serviced (es : List Event) : List Half := es.filterMap Event.serviced?

variable {M : Type}

/-! ### The events of one call -/

def offerEvents (cpu : Processor M) (origin : Origin) (message : Half) : List Event :=
  if cpu.accepts then [.accepted origin message (cpu.flag .inService)] else []

def trapEvents (cpu : Processor M) (inService : Bool) : List Event :=
  if cpu.flag .singleStep && !inService && !cpu.pending then
    [.accepted .singleStep 0 (cpu.flag .inService)]
  else []

variable [Memory M]

def serviceEvents (cpu : Processor M) : List Event :=
  if cpu.pending && cpu.flag .enabled then
    if (Memory.readWord cpu.memory (cpu.vector cpu.message)).1 = 0 then [.dropped cpu.message]
    else [.entered cpu.message (cpu.flag .inService)]
  else []

/-- Of all operations only one offers a message. -/
def performEvents (cpu : Processor M) (x : Operand) : Operation → List Event
  | .interrupt => cpu.offerEvents .program ((x.value cpu.registers).setWidth 16)
  | _ => []

def executeEvents (cpu : Processor M) (w : Word) : List Event :=
  let (x, fetched) := cpu.fetchOperand w
  ((Operation.ofOpcode? (Instruction.opcode w)).map (fetched.performEvents x)).getD [] ++
    [.executed (cpu.flag .inService) ((cpu.execute w).2.flag .inService)]

def turnEvents (cpu : Processor M) (w : Word) : List Event :=
  let inService := cpu.flag .inService
  let executed := (cpu.execute w).2
  let trapped := executed.trap inService
  cpu.executeEvents w ++ executed.trapEvents inService ++
    if trapped.skipping then [] else trapped.serviceEvents

def slotEvents (cpu : Processor M) : List Event :=
  if cpu.sleeping then cpu.serviceEvents
  else
    let (w, memory) := Memory.readWord cpu.memory cpu.pc
    let cpu := { cpu with memory := memory }
    if cpu.skipping then [] else cpu.turnEvents w

def stepEvents (cpu : Processor M) : List Event := slotEvents { cpu with waitCycles := 0 }

def cycleEvents (cpu : Processor M) : List Event :=
  if cpu.waitCycles = 0 then cpu.slotEvents else []

def tickEvents : Nat → Processor M → List Event
  | 0, _ => []
  | n + 1, cpu => cpu.cycleEvents ++ tickEvents n cpu.cycle

/-! ### Runs -/

/-- What can be asked of a running processor. -/
inductive Call where
  | step
  | tick (n : Nat)
  | offer (message : Half)

def Call.run : Call → Processor M → Processor M
  | step, cpu => cpu.step.2
  | tick n, cpu => cpu.tick n
  | offer message, cpu => cpu.offer message

def Call.events : Call → Processor M → List Event
  | step, cpu => cpu.stepEvents
  | tick n, cpu => cpu.tickEvents n
  | offer message, cpu => cpu.offerEvents .outside message

/-- The processor after calls. -/
def run (calls : List Call) (cpu : Processor M) : Processor M :=
  calls.foldl (fun cpu call => call.run cpu) cpu

/-- The events of calls one after the other. -/
def log : List Call → Processor M → List Event
  | [], _ => []
  | call :: calls, cpu => call.events cpu ++ log calls (call.run cpu)

theorem run_append (before after : List Call) (cpu : Processor M) :
    run (before ++ after) cpu = run after (run before cpu) := List.foldl_append

theorem log_append (before after : List Call) (cpu : Processor M) :
    log (before ++ after) cpu = log before cpu ++ log after (run before cpu) := by
  induction before generalizing cpu with
  | nil => rfl
  | cons call calls ih => rw [List.cons_append, log, log, ih, List.append_assoc]; rfl

/-- The cycles of a tick are calls too, and there are states between them. -/
def Call.cycles : Call → List Call
  | tick n => .replicate n (tick 1)
  | call => [call]

theorem run_replicate_tick (n : Nat) (cpu : Processor M) :
    run (.replicate n (.tick 1)) cpu = tick n cpu ∧
      log (.replicate n (.tick 1)) cpu = tickEvents n cpu := by
  induction n generalizing cpu with
  | zero => exact ⟨rfl, rfl⟩
  | succ n ih =>
    obtain ⟨hrun, hlog⟩ := ih cpu.cycle
    refine ⟨hrun, ?_⟩
    rw [tickEvents, ← hlog, ← cpu.cycleEvents.append_nil]
    rfl

theorem run_cycles (call : Call) (cpu : Processor M) :
    run call.cycles cpu = call.run cpu ∧ log call.cycles cpu = call.events cpu := by
  cases call with
  | tick n => exact run_replicate_tick n cpu
  | step | offer => exact ⟨rfl, List.append_nil _⟩

/-- A run cycle by cycle. -/
theorem run_flatMap_cycles (calls : List Call) (cpu : Processor M) :
    run (calls.flatMap Call.cycles) cpu = run calls cpu ∧
      log (calls.flatMap Call.cycles) cpu = log calls cpu := by
  induction calls generalizing cpu with
  | nil => exact ⟨rfl, rfl⟩
  | cons call calls ih =>
    obtain ⟨hrun, hlog⟩ := run_cycles call cpu
    obtain ⟨ihrun, ihlog⟩ := ih (call.run cpu)
    rw [List.flatMap_cons, run_append, log_append, hrun, hlog, ihrun, ihlog]
    exact ⟨rfl, rfl⟩

/-! ### The moves behind the events -/

/-- What of a processor concerns interrupts: the latched message and the in-service flag. -/
structure Interrupts where
  latched : Option Half
  inService : Bool

def State.interrupts (s : State) : Interrupts := ⟨s.latched, s.flag .inService⟩

namespace Interrupts

/-- A move and its events. -/
inductive Move : Interrupts → List Event → Interrupts → Prop where
  | offer (message : Half) :
    Move ⟨none, false⟩ [.accepted .outside message false] ⟨some message, false⟩
  | execute (latched : Option Half) (before after : Bool) :
    Move ⟨latched, before⟩ [.executed before after] ⟨latched, after⟩
  /-- An instruction offers a message, and it is accepted. -/
  | interrupt (message : Half) :
    Move ⟨none, false⟩ [.accepted .program message false, .executed false false]
      ⟨some message, false⟩
  /-- A trap follows an instruction that was executed outside service. -/
  | trap (after : Bool) :
    Move ⟨none, false⟩ [.executed false after, .accepted .singleStep 0 after] ⟨some 0, after⟩
  | enter (message : Half) (inService : Bool) :
    Move ⟨some message, inService⟩ [.entered message inService] ⟨none, true⟩
  | drop (message : Half) (inService : Bool) :
    Move ⟨some message, inService⟩ [.dropped message] ⟨none, inService⟩

/-- Moves one after the other. -/
inductive Moves : Interrupts → List Event → Interrupts → Prop where
  | nil (i : Interrupts) : Moves i [] i
  | cons {i j k : Interrupts} {es fs : List Event} :
    Move i es j → Moves j fs k → Moves i (es ++ fs) k

theorem Move.moves {i j : Interrupts} {es : List Event} (h : Move i es j) : Moves i es j := by
  simpa using Moves.cons h (.nil j)

theorem Moves.append {i j k : Interrupts} {es fs : List Event} (h : Moves i es j)
    (h' : Moves j fs k) : Moves i (es ++ fs) k := by
  induction h with
  | nil => exact h'
  | cons hmove _ ih =>
    rw [List.append_assoc]
    exact .cons hmove (ih h')

end Interrupts

open Interrupts

omit [Memory M] in
theorem flag_setFlag (cpu : Processor M) (f g : Flag) (b : Bool) :
    (cpu.setFlag f b).flag g = if g = f then b else cpu.flag g := by
  have hflags : (cpu.setFlag f b).flags = cpu.flags.setFlag f b := by
    simp only [setFlag, set, State.flags, Registers.get_set, if_true]
  rw [State.flag, hflags, Word.flag_setFlag]
  rfl

omit [Memory M] in
theorem pending_eq_isSome_latched (cpu : Processor M) : cpu.pending = cpu.latched.isSome := by
  unfold State.latched
  cases cpu.pending <;> rfl

omit [Memory M] in
theorem interrupts_of_accepts {cpu : Processor M} (h : cpu.accepts) :
    cpu.interrupts = ⟨none, false⟩ := by
  obtain ⟨-, hpending, hservice⟩ := State.accepts_iff.mp h
  rw [State.interrupts, State.latched, if_neg hpending, Bool.eq_false_iff.mpr hservice]

omit [Memory M] in
theorem interrupts_latch (cpu : Processor M) (x : Half) :
    State.interrupts { cpu.toState with pending := true, message := x } =
      ⟨some x, cpu.flag .inService⟩ := rfl

omit [Memory M] in
/-- An offer is accepted where nothing is latched and nothing is in service. -/
theorem offer_cases (cpu : Processor M) (origin : Origin) (x : Half) :
    (cpu.offerEvents origin x = [] ∧ cpu.offer x = cpu) ∨
    (cpu.offerEvents origin x = [.accepted origin x false] ∧ cpu.interrupts = ⟨none, false⟩ ∧
      (cpu.offer x).interrupts = ⟨some x, false⟩) := by
  by_cases h : cpu.accepts
  · have hbefore := interrupts_of_accepts h
    have hservice : cpu.flag .inService = false := congrArg inService hbefore
    refine .inr ⟨?_, hbefore, ?_⟩
    · rw [offerEvents, if_pos h, hservice]
    · rw [offer, if_pos h, interrupts_latch, hservice]
  · exact .inl ⟨if_neg h, if_neg h⟩

omit [Memory M] in
theorem moves_offer (cpu : Processor M) (x : Half) :
    Moves cpu.interrupts (cpu.offerEvents .outside x) (cpu.offer x).interrupts := by
  rcases cpu.offer_cases .outside x with ⟨hevents, hoffer⟩ | ⟨hevents, hbefore, hafter⟩
  · rw [hevents, hoffer]
    exact .nil _
  · rw [hevents, hbefore, hafter]
    exact (Move.offer x).moves

/-! ### A slot -/

theorem interrupts_enter (cpu : Processor M) (x : Half) (handler : Word) :
    (cpu.enter x handler).interrupts = ⟨cpu.latched, true⟩ :=
  congrArg (Interrupts.mk cpu.latched) (flag_setFlag _ .inService .inService true)

/-- Service finds nothing to do, or the message leaves the latch, for its handler if there is
one. -/
theorem service_cases (cpu : Processor M) :
    (cpu.serviceEvents = [] ∧ cpu.service = cpu) ∨
    (cpu.latched = some cpu.message ∧ cpu.flag .enabled) ∧
      let (handler, memory) := Memory.readWord cpu.memory (cpu.vector cpu.message)
      let served := { cpu with memory := memory, pending := false, sleeping := false }
      (handler = 0 ∧ cpu.serviceEvents = [.dropped cpu.message] ∧ cpu.service = served) ∨
      (handler ≠ 0 ∧ cpu.serviceEvents = [.entered cpu.message (cpu.flag .inService)] ∧
        cpu.service = served.enter cpu.message handler) := by
  unfold serviceEvents service
  by_cases h : cpu.pending && cpu.flag .enabled
  · obtain ⟨hpending, henabled⟩ := Bool.and_eq_true_iff.mp h
    refine .inr ⟨⟨if_pos hpending, henabled⟩, ?_⟩
    simp only [if_pos h]
    split
    · next hzero => exact .inl ⟨hzero, rfl, rfl⟩
    · next hzero => exact .inr ⟨hzero, rfl, rfl⟩
  · exact .inl ⟨if_neg h, if_neg h⟩

theorem moves_service (cpu : Processor M) :
    Moves cpu.interrupts cpu.serviceEvents cpu.service.interrupts := by
  rcases cpu.service_cases with
    ⟨hevents, hservice⟩ | ⟨⟨hlatched, -⟩, ⟨-, hevents, hservice⟩ | ⟨-, hevents, hservice⟩⟩
  · rw [hevents, hservice]
    exact .nil _
  · rw [hevents, hservice, State.interrupts, hlatched]
    exact (Move.drop _ _).moves
  · rw [hevents, hservice, interrupts_enter, State.interrupts, hlatched]
    exact (Move.enter _ _).moves

/-- An operation leaves the latch alone, or it offers a message that is accepted. -/
theorem perform_cases (cpu : Processor M) (op : Operation) (d s : Reg) (x : Operand) :
    (cpu.performEvents x op = [] ∧ (cpu.perform op d s x).2.latched = cpu.latched) ∨
    ∃ y, cpu.performEvents x op = [.accepted .program y false] ∧
      cpu.interrupts = ⟨none, false⟩ ∧ (cpu.perform op d s x).2.interrupts = ⟨some y, false⟩ := by
  by_cases hop : op = .interrupt
  · subst hop
    rcases cpu.offer_cases .program ((x.value cpu.registers).setWidth 16) with
      ⟨hevents, hoffer⟩ | ⟨hevents, hbefore, hafter⟩
    · exact .inl ⟨hevents, congrArg (fun cpu : Processor M => cpu.latched) hoffer⟩
    · exact .inr ⟨_, hevents, hbefore, hafter⟩
  · obtain ⟨_, _, _, _, _, hperform⟩ := cpu.exists_perform hop d s x
    refine .inl ⟨?_, by rw [hperform]; rfl⟩
    unfold performEvents
    split
    · contradiction
    · rfl

theorem interrupts_fetchOperand (cpu : Processor M) (w : Word) :
    (cpu.fetchOperand w).2.interrupts = cpu.interrupts := by
  unfold fetchOperand
  split <;> rfl

/-- So does an instruction. -/
theorem execute_cases (cpu : Processor M) (w : Word) :
    (cpu.executeEvents w =
        [.executed (cpu.flag .inService) ((cpu.execute w).2.flag .inService)] ∧
      (cpu.execute w).2.latched = cpu.latched) ∨
    ∃ y, cpu.executeEvents w = [.accepted .program y false, .executed false false] ∧
      cpu.interrupts = ⟨none, false⟩ ∧ (cpu.execute w).2.interrupts = ⟨some y, false⟩ := by
  have hfetch := cpu.interrupts_fetchOperand w
  have hlatched : (cpu.fetchOperand w).2.latched = cpu.latched :=
    congrArg Interrupts.latched hfetch
  cases hop : Operation.ofOpcode? (Instruction.opcode w) with
  | none =>
    refine .inl ⟨?_, ?_⟩
    · simp only [executeEvents, hop, Option.map_none, Option.getD_none, List.nil_append]
    · simp only [execute, hop, hlatched]
  | some op =>
    have hevents : cpu.executeEvents w =
        (cpu.fetchOperand w).2.performEvents (cpu.fetchOperand w).1 op ++
          [.executed (cpu.flag .inService) ((cpu.execute w).2.flag .inService)] := by
      simp only [executeEvents, hop, Option.map_some, Option.getD_some]
    have hexecute : (cpu.execute w).2 = ((cpu.fetchOperand w).2.perform op
        (Instruction.destination w) (Instruction.source w) (cpu.fetchOperand w).1).2 := by
      simp only [execute, hop]
    rcases (cpu.fetchOperand w).2.perform_cases op (Instruction.destination w)
        (Instruction.source w) (cpu.fetchOperand w).1 with
      ⟨hnone, hkeep⟩ | ⟨y, haccepted, hbefore, hafter⟩
    · exact .inl ⟨by rw [hevents, hnone, List.nil_append], by rw [hexecute, hkeep, hlatched]⟩
    · rw [hfetch] at hbefore
      rw [← hexecute] at hafter
      have hservice : cpu.flag .inService = false := congrArg inService hbefore
      have hservice' : (cpu.execute w).2.flag .inService = false := congrArg inService hafter
      refine .inr ⟨y, ?_, hbefore, hafter⟩
      rw [hevents, haccepted, hservice, hservice', List.singleton_append]

omit [Memory M] in
/-- A trap comes only outside service, and finds the latch empty. -/
theorem trap_cases (cpu : Processor M) (inService : Bool) :
    (cpu.trapEvents inService = [] ∧ cpu.trap inService = cpu) ∨
    (inService = false ∧ cpu.latched = none ∧
      cpu.trapEvents inService = [.accepted .singleStep 0 (cpu.flag .inService)] ∧
      (cpu.trap inService).interrupts = ⟨some 0, cpu.flag .inService⟩) := by
  unfold trapEvents trap
  by_cases h : cpu.flag .singleStep && !inService && !cpu.pending
  · rw [if_pos h, if_pos h, interrupts_latch]
    simp only [Bool.and_eq_true, Bool.not_eq_true', pending_eq_isSome_latched,
      Option.isSome_eq_false_iff, Option.isNone_iff_eq_none] at h
    obtain ⟨⟨-, hservice⟩, hnone⟩ := h
    exact .inr ⟨hservice, hnone, rfl, rfl⟩
  · exact .inl ⟨if_neg h, if_neg h⟩

/-- An instruction and the trap that may follow it. -/
theorem moves_execute (cpu : Processor M) (w : Word) :
    Moves cpu.interrupts
      (cpu.executeEvents w ++ (cpu.execute w).2.trapEvents (cpu.flag .inService))
      ((cpu.execute w).2.trap (cpu.flag .inService)).interrupts := by
  rcases cpu.execute_cases w with ⟨hevents, hlatched⟩ | ⟨y, hevents, hbefore, hafter⟩
  · rcases (cpu.execute w).2.trap_cases (cpu.flag .inService) with
      ⟨hnone, htrap⟩ | ⟨hservice, hempty, htrapped, hafter⟩
    · rw [hevents, hnone, htrap, List.append_nil, State.interrupts, State.interrupts, hlatched]
      exact (Move.execute _ _ _).moves
    · have hbefore : cpu.interrupts = ⟨none, false⟩ := by
        rw [State.interrupts, ← hlatched, hempty, hservice]
      rw [hevents, htrapped, hafter, hbefore, hservice]
      exact (Move.trap _).moves
  · have hlatched : (cpu.execute w).2.latched = some y := congrArg Interrupts.latched hafter
    rcases (cpu.execute w).2.trap_cases (cpu.flag .inService) with
      ⟨hnone, htrap⟩ | ⟨-, hempty, -, -⟩
    · rw [hevents, hnone, htrap, List.append_nil, hbefore, hafter]
      exact (Move.interrupt y).moves
    · -- The instruction has filled the latch.
      rw [hlatched] at hempty
      contradiction

theorem moves_turn (cpu : Processor M) (w : Word) :
    Moves cpu.interrupts (cpu.turnEvents w) (cpu.turn w).2.interrupts := by
  simp only [turnEvents, turn]
  refine (cpu.moves_execute w).append ?_
  split
  · exact .nil _
  · exact moves_service _

theorem moves_slot (cpu : Processor M) :
    Moves cpu.interrupts cpu.slotEvents cpu.slot.2.interrupts := by
  unfold slotEvents slot
  split
  · exact cpu.moves_service
  · dsimp only
    split
    · exact .nil _
    · exact moves_turn { cpu with memory := (Memory.readWord cpu.memory cpu.pc).2 } _

/-! ### A run -/

theorem moves_cycle (cpu : Processor M) :
    Moves cpu.interrupts cpu.cycleEvents cpu.cycle.interrupts := by
  unfold cycleEvents cycle
  split
  · exact cpu.moves_slot
  · exact .nil _

theorem moves_tick (n : Nat) (cpu : Processor M) :
    Moves cpu.interrupts (tickEvents n cpu) (tick n cpu).interrupts := by
  induction n generalizing cpu with
  | zero => exact .nil _
  | succ n ih => exact cpu.moves_cycle.append (ih cpu.cycle)

theorem moves_call (call : Call) (cpu : Processor M) :
    Moves cpu.interrupts (call.events cpu) (call.run cpu).interrupts := by
  cases call with
  | step => exact moves_slot { cpu with waitCycles := 0 }
  | tick n => exact moves_tick n cpu
  | offer x => exact cpu.moves_offer x

/-- The events of a run are those of moves from where it begins to where it ends. -/
theorem moves_log (calls : List Call) (cpu : Processor M) :
    Moves cpu.interrupts (log calls cpu) (run calls cpu).interrupts := by
  induction calls generalizing cpu with
  | nil => exact .nil _
  | cons call calls ih => exact (moves_call call cpu).append (ih (call.run cpu))

end Microcomputer.Processor
