import Microcomputer.Proofs.Processor.Events
import Microcomputer.Proofs.Processor.Stack

/-! What becomes of a message that leaves the latch. A slot first goes on with the program: it
sleeps on, passes over an instruction, or executes one and traps. From what that makes of the
processor the latched message enters its handler, or is found to have none, or stays; and one
event, or none, says which: `serves_call`. -/

namespace Microcomputer.Processor

variable {M : Type} [Memory M]

/-! ### Entry -/

theorem get_enter (cpu : Processor M) (message : Half) (handler : Word) (r : Reg) :
    (cpu.enter message handler).get r =
      if .flags = r then cpu.flags.setFlag .inService true
      else if 0 = r then message.setWidth 32
      else if .stack = r then cpu.get .stack - 8
      else cpu.get r := by
  let saved := ((cpu.push cpu.pc).push (cpu.get 0)).set 0 (message.setWidth 32)
  have hsaved (r : Reg) : saved.get r =
      if 0 = r then message.setWidth 32 else if .stack = r then cpu.get .stack - 8
      else cpu.get r := by
    rw [get_set, get_push_push]
  have hflags : saved.flags = cpu.flags := hsaved .flags
  refine (get_setFlag { saved with pc := handler } .inService true r).trans ?_
  rw [show State.flags { saved.toState with pc := handler } = cpu.flags from hflags]
  exact congrArg _ (hsaved r)

/-- Entry saves the program counter and below it register zero. -/
theorem memory_enter (cpu : Processor M) (message : Half) (handler : Word) :
    (cpu.enter message handler).memory =
      Memory.writeWord (Memory.writeWord cpu.memory (cpu.get .stack - 4) cpu.pc)
        (cpu.get .stack - 8) (cpu.get 0) := by
  have hlower : (cpu.push cpu.pc).get .stack - 4 = cpu.get .stack - 8 := by
    rw [get_push, if_pos rfl, BitVec.sub_sub]
    rfl
  change Memory.writeWord (Memory.writeWord cpu.memory (cpu.get .stack - 4) cpu.pc)
    ((cpu.push cpu.pc).get .stack - 4) (cpu.get 0) = _
  rw [hlower]

/-! ### Service -/

/-- The latched message enters its handler, which is where its vector points. Register zero holds
the message, and the stack the program counter and what register zero held. -/
structure Enters (cpu : Processor M) (x : Half) (cpu' : Processor M) : Prop where
  latched : cpu.latched = some x
  enabled : cpu.flag .enabled
  pc : cpu'.pc = (Memory.readWord cpu.memory (cpu.vector x)).1
  pc_ne_zero : cpu'.pc ≠ 0
  message : cpu'.get 0 = x.setWidth 32
  flags : cpu'.flags = cpu.flags.setFlag .inService true
  stack : cpu'.get .stack = cpu.get .stack - 8
  registers : ∀ r, r ≠ 0 → r ≠ .stack → r ≠ .flags → cpu'.get r = cpu.get r
  memory : cpu'.memory =
    Memory.writeWord (Memory.writeWord (Memory.readWord cpu.memory (cpu.vector x)).2
      (cpu.get .stack - 4) cpu.pc) (cpu.get .stack - 8) (cpu.get 0)
  empty : cpu'.latched = none
  awake : ¬cpu'.sleeping
  skipping : cpu'.skipping = cpu.skipping

/-- The latched message has no handler, for its vector is zero. It goes, and sleep ends. -/
structure Drops (cpu : Processor M) (x : Half) (cpu' : Processor M) : Prop where
  latched : cpu.latched = some x
  enabled : cpu.flag .enabled
  vector : (Memory.readWord cpu.memory (cpu.vector x)).1 = 0
  same : cpu' = { cpu with
    memory := (Memory.readWord cpu.memory (cpu.vector x)).2, pending := false, sleeping := false
    waitCycles := cpu'.waitCycles, cycles := cpu'.cycles }

/-- What becomes of a processor where it takes interrupts, and the events by which a message
leaves the latch. -/
inductive Serves (cpu cpu' : Processor M) : List Event → Prop where
  /-- None does, and only the clock may go on. -/
  | nothing (same : cpu' = cpu.setClock cpu'.clock) : Serves cpu cpu' []
  | entered {x : Half} (enters : cpu.Enters x cpu') :
    Serves cpu cpu' [.entered x (cpu.flag .inService)]
  | dropped {x : Half} (drops : cpu.Drops x cpu') : Serves cpu cpu' [.dropped x]

theorem Serves.enters {cpu cpu' : Processor M} {es : List Event} {x : Half} {b : Bool}
    (h : Serves cpu cpu' es) (hmem : .entered x b ∈ es) : cpu.Enters x cpu' := by
  cases h with
  | nothing => cases hmem
  | entered enters =>
    obtain ⟨rfl, -⟩ := Event.entered.inj (List.mem_singleton.mp hmem)
    exact enters
  | dropped => exact Event.noConfusion (List.mem_singleton.mp hmem)

theorem enters_enter {cpu : Processor M} {handler : Word} {memory : M}
    (hlatched : cpu.latched = some cpu.message) (henabled : cpu.flag .enabled)
    (hvector : Memory.readWord cpu.memory (cpu.vector cpu.message) = (handler, memory))
    (hhandler : handler ≠ 0) (c : Word × DoubleWord) :
    let served := { cpu with memory := memory, pending := false, sleeping := false }
    cpu.Enters cpu.message ((served.enter cpu.message handler).setClock c) := by
  intro served
  have hget (r : Reg) := served.get_enter cpu.message handler r
  constructor
  case latched => exact hlatched
  case enabled => exact henabled
  case pc => exact (congrArg Prod.fst hvector).symm
  case pc_ne_zero => exact hhandler
  case message => exact hget 0
  case flags => exact hget .flags
  case stack => exact hget .stack
  case registers =>
    intro r hzero hstack hflags
    refine (hget r).trans ?_
    rw [if_neg hflags.symm, if_neg hzero.symm, if_neg hstack.symm]
    rfl
  case memory =>
    rw [hvector]
    exact served.memory_enter cpu.message handler
  case empty => rfl
  case awake => exact Bool.false_ne_true
  case skipping => rfl

theorem serves_service (cpu : Processor M) (c : Word × DoubleWord) :
    Serves cpu (cpu.service.setClock c) cpu.serviceEvents := by
  rcases cpu.service_cases with
    ⟨hevents, hservice⟩ | ⟨⟨hlatched, henabled⟩,
      ⟨hzero, hevents, hservice⟩ | ⟨hhandler, hevents, hservice⟩⟩
  · rw [hevents, hservice]
    exact .nothing rfl
  · rw [hevents, hservice]
    exact .dropped ⟨hlatched, henabled, hzero, rfl⟩
  · rw [hevents, hservice]
    exact .entered (enters_enter hlatched henabled rfl hhandler c)

/-! ### Slots -/

/-- What a slot makes of the processor before it takes an interrupt: it sleeps on, passes over an
instruction, or executes one and traps. -/
def advance (cpu : Processor M) : Processor M :=
  if cpu.sleeping then cpu
  else
    let (w, memory) := Memory.readWord cpu.memory cpu.pc
    let cpu := { cpu with memory := memory }
    if cpu.skipping then cpu.skip w else (cpu.execute w).2.trap (cpu.flag .inService)

/-- The events by which messages leave the latch. -/
def services (es : List Event) : List Event := es.filter fun e => e.serviced?.isSome

theorem services_append (es fs : List Event) :
    services (es ++ fs) = services es ++ services fs := List.filter_append ..

theorem services_serviceEvents (cpu : Processor M) :
    services cpu.serviceEvents = cpu.serviceEvents := by
  rcases cpu.service_cases with ⟨h, -⟩ | ⟨-, ⟨-, h, -⟩ | ⟨-, h, -⟩⟩ <;> rw [h] <;> rfl

omit [Memory M] in
/-- No message leaves the latch by an offer, an instruction or a trap. -/
theorem services_offerEvents (cpu : Processor M) (origin : Origin) (x : Half) :
    services (cpu.offerEvents origin x) = [] := by
  rcases cpu.offer_cases origin x with ⟨h, -⟩ | ⟨h, -⟩ <;> rw [h] <;> rfl

theorem services_executeEvents (cpu : Processor M) (w : Word) :
    services (cpu.executeEvents w) = [] := by
  rcases cpu.execute_cases w with ⟨h, -⟩ | ⟨y, h, -⟩ <;> rw [h] <;> rfl

omit [Memory M] in
theorem services_trapEvents (cpu : Processor M) (inService : Bool) :
    services (cpu.trapEvents inService) = [] := by
  rcases cpu.trap_cases inService with ⟨h, -⟩ | ⟨-, -, h, -⟩ <;> rw [h] <;> rfl

theorem serves_turn (cpu : Processor M) (w : Word) (c : Word × DoubleWord) :
    Serves ((cpu.execute w).2.trap (cpu.flag .inService)) ((cpu.turn w).2.setClock c)
      (services (cpu.turnEvents w)) := by
  simp only [turn, turnEvents, services_append, services_executeEvents, services_trapEvents,
    List.nil_append]
  split
  · exact .nothing rfl
  · rw [services_serviceEvents]
    exact serves_service _ c

/-- A slot takes an interrupt once, if at all, and at its end. -/
theorem serves_slot (cpu : Processor M) (c : Word × DoubleWord) :
    Serves cpu.advance (cpu.slot.2.setClock c) (services cpu.slotEvents) := by
  unfold advance slot slotEvents
  split
  · rw [services_serviceEvents]
    exact cpu.serves_service c
  · dsimp only
    split
    · exact .nothing rfl
    · exact serves_turn _ _ c

/-! ### Calls -/

/-- What a call makes of the processor before it takes an interrupt. It may be an offer, or the
time that passes in it belongs to one slot. -/
def Call.advance : Call → Processor M → Processor M
  | step, cpu => Processor.advance { cpu with waitCycles := 0 }
  | tick _, cpu => if cpu.waitCycles = 0 then cpu.advance else cpu
  | offer x, cpu => cpu.offer x

/-- Cycle by cycle, no message leaves the latch unnoticed, and none is said to leave that does
not. -/
theorem serves_call {call : Call} (h : call.cycles = [call]) (cpu : Processor M) :
    Serves (call.advance cpu) (call.run cpu) (services (call.events cpu)) := by
  cases call with
  | offer x =>
    rw [Call.events, services_offerEvents]
    exact .nothing rfl
  | step => exact serves_slot { cpu with waitCycles := 0 } cpu.step.2.clock
  | tick n =>
    obtain rfl : n = 1 := List.length_replicate.symm.trans (congrArg List.length h)
    have hevents : (Call.tick 1).events cpu = cpu.cycleEvents := List.append_nil _
    rw [hevents, Call.advance, cycleEvents]
    change Serves _ cpu.cycle _
    by_cases hzero : cpu.waitCycles = 0
    · have hcycle : cpu.cycle = cpu.slot.2.setClock cpu.cycle.clock := by
        rw [cycle, if_pos hzero]
        rfl
      rw [if_pos hzero, if_pos hzero, hcycle]
      exact cpu.serves_slot _
    · have hcycle : cpu.cycle = cpu.setClock cpu.cycle.clock := by
        rw [cycle, if_neg hzero]
        rfl
      rw [if_neg hzero, if_neg hzero, hcycle]
      exact .nothing rfl

theorem cycles_of_mem {calls : List Call} {call : Call}
    (h : call ∈ calls.flatMap Call.cycles) : call.cycles = [call] := by
  obtain ⟨whole, -, h⟩ := List.mem_flatMap.mp h
  cases whole with
  | tick n =>
    obtain rfl := List.eq_of_mem_replicate h
    rfl
  | step | offer =>
    obtain rfl := List.mem_singleton.mp h
    rfl

end Microcomputer.Processor
