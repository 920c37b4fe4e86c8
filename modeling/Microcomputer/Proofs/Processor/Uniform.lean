import Microcomputer.Processor.Clock
import Microcomputer.Proofs.Memory.Program

/-! The processor looks at its memory only through accesses: from every state, what it
does is a program of accesses, the same over every memory. So a processor runs alike over
memories that answer alike, and keeps whatever accesses keep. -/

namespace Microcomputer.Processor

open Memory (Program)

variable {α β : Type}

/-- A family of functions, one for each type of memory, that all run one program. -/
def Uniform (f : ∀ (M : Type) [Memory M], M → α × Processor M) : Prop :=
  ∃ p : Program (α × State), ∀ (M : Type) [Memory M] (m : M),
    f M m = ((p.run m).1.1, ⟨(p.run m).1.2, (p.run m).2⟩)

/-- A memory of nothing. -/
local instance : Memory Unit := ⟨fun m _ => (0, m), fun m _ _ => m⟩

namespace Uniform

variable {f f' : ∀ (M : Type) [Memory M], M → α × Processor M}

/-- A function that leaves the memory alone does the same over a memory of nothing. -/
theorem still (h : ∀ (M : Type) [Memory M] (m : M),
    f M m = ((f Unit ()).1, ⟨(f Unit ()).2.toState, m⟩)) : Uniform f :=
  ⟨.done ((f Unit ()).1, (f Unit ()).2.toState), h⟩

theorem bind {g : α → State → ∀ (M : Type) [Memory M], M → β × Processor M} (hf : Uniform f)
    (hg : ∀ x s, Uniform (g x s)) :
    Uniform fun M _ m => g (f M m).1 (f M m).2.toState M (f M m).2.memory := by
  obtain ⟨p, hp⟩ := hf
  obtain ⟨q, hq⟩ := Classical.axiomOfChoice fun r : α × State => hg r.1 r.2
  refine ⟨p.bind q, fun M _ m => ?_⟩
  change g (f M m).1 (f M m).2.toState M (f M m).2.memory = _
  rw [Program.run_bind, hp, hq (p.run m).1]

/-- A function followed by a change of the state. -/
theorem andThen (hf : Uniform f) (k : α → State → β × State) :
    Uniform fun M _ m => ((k (f M m).1 (f M m).2.toState).1,
      ⟨(k (f M m).1 (f M m).2.toState).2, (f M m).2.memory⟩) :=
  hf.bind (g := fun x s _ _ m => ((k x s).1, ⟨(k x s).2, m⟩)) fun _ _ => .still fun _ _ _ => rfl

theorem ite {c : Prop} [Decidable c] (hf : Uniform f) (hf' : Uniform f') :
    Uniform fun M _ m => if c then f M m else f' M m := by
  split
  · exact hf
  · exact hf'

end Uniform

/-! ### The stack and the memory -/

variable (s : State)

theorem uniform_push (x : Word) : Uniform fun M _ m => ((), (⟨s, m⟩ : Processor M).push x) := by
  refine ⟨(Program.writeBytes (s.registers.get .stack - 4) (LittleEndian.ofWord x)).bind
    fun _ => .done ((), { s with
      registers := s.registers.set .stack (s.registers.get .stack - 4) }), fun M _ m => ?_⟩
  rw [Program.run_bind, Program.run_writeBytes]
  rfl

theorem uniform_load (w : Width) (a : Word) :
    Uniform fun M _ m => (⟨s, m⟩ : Processor M).load w a := by
  refine ⟨(Program.readBytes w.bytes a).bind fun bs => .done (LittleEndian.toWord 32 bs, s),
    fun M _ m => ?_⟩
  rw [Program.run_bind, Program.run_readBytes]
  rfl

theorem uniform_store (w : Width) (a x : Word) :
    Uniform fun M _ m => ((), (⟨s, m⟩ : Processor M).store w a x) := by
  refine ⟨(Program.writeBytes a (LittleEndian.encode w.bytes x.toNat)).bind fun _ => .done ((), s),
    fun M _ m => ?_⟩
  rw [Program.run_bind, Program.run_writeBytes]
  rfl

theorem uniform_pop : Uniform fun M _ m => (⟨s, m⟩ : Processor M).pop :=
  (uniform_load s .word (s.registers.get .stack)).andThen fun x t =>
    (x, { t with registers := t.registers.set .stack (s.registers.get .stack + 4) })

/-! ### Instructions -/

theorem uniform_commit (d : Reg) (o : Arithmetic.Outcome) :
    Uniform fun M _ m => (Completion.done, (⟨s, m⟩ : Processor M).commit d o) := by
  obtain ⟨flags, secondary, result⟩ := o
  cases secondary <;> cases result <;> exact .still fun _ _ _ => rfl

theorem uniform_perform (op : Operation) (d r : Reg) (x : Operand) :
    Uniform fun M _ m => (⟨s, m⟩ : Processor M).perform op d r x := by
  cases op with
  | sleep => exact .still fun _ _ _ => rfl
  | ret => exact (uniform_pop s).andThen fun pc t => (Completion.done, { t with pc := pc })
  | leave =>
    refine (uniform_pop s).bind (g := fun first t M _ m =>
      let q := Processor.pop (M := M) ⟨{ t with registers := t.registers.set 0 first }, m⟩
      (Completion.done, { q.2 with pc := q.1 }.setFlag .inService false)) fun first t => ?_
    exact (uniform_pop _).andThen fun pc u => (Completion.done,
      ({ (⟨u, ()⟩ : Processor Unit) with pc := pc }.setFlag .inService false).toState)
  | exchange e => cases x <;> exact .still fun _ _ _ => rfl
  | locate => cases x <;> exact .still fun _ _ _ => rfl
  | pop =>
    cases x with
    | register i =>
      exact (uniform_pop s).andThen fun y t =>
        (Completion.done, { t with registers := t.registers.set i y })
    | literal y => exact .still fun _ _ _ => rfl
  | push => exact (uniform_push s (x.value s.registers)).andThen fun _ t => (Completion.done, t)
  | jump t => exact .still fun _ _ _ => rfl
  | call t =>
    exact (uniform_push s s.pc).andThen fun _ u => (Completion.done, { u with
      pc := (⟨s, ()⟩ : Processor Unit).jumpAddress d (x.value s.registers) t })
  | interrupt =>
    cases h : s.accepts <;> exact .still fun _ _ _ => by simp [perform, offer, h]
  | readSpecial i => cases x <;> exact .still fun _ _ _ => rfl
  | writeSpecial i => exact .still fun _ _ _ => rfl
  | convert c => exact .still fun _ _ _ => rfl
  | swap => cases x <;> exact .still fun _ _ _ => rfl
  | load w a =>
    exact (uniform_load s w ((⟨s, ()⟩ : Processor Unit).effectiveAddress r
      (x.value s.registers) a)).andThen fun y t =>
        (Completion.done, { t with registers := t.registers.set d y })
  | store w a =>
    exact (uniform_store s w ((⟨s, ()⟩ : Processor Unit).effectiveAddress r
      (x.value s.registers) a) (s.registers.get d)).andThen fun _ t => (Completion.done, t)
  | test c =>
    cases h : c.holds (s.registers.get d) (x.value s.registers) <;>
      exact .still fun _ _ _ => by simp [perform, get, h]
  | compute f =>
    exact uniform_commit s d (f.outcome s.flags (s.registers.get r) (x.value s.registers))

theorem uniform_fetchOperand (w : Word) :
    Uniform fun M _ m => (⟨s, m⟩ : Processor M).fetchOperand w := by
  refine .ite ?_ (.still fun _ _ _ => rfl)
  exact (uniform_load s .word (s.pc + 4)).andThen fun x t =>
    (Operand.literal x, { t with pc := t.pc + 8 })

theorem uniform_execute (w : Word) : Uniform fun M _ m => (⟨s, m⟩ : Processor M).execute w := by
  cases h : Operation.ofOpcode? (Instruction.opcode w) with
  | some op =>
    simp only [execute, h]
    refine (uniform_fetchOperand s w).bind (g := fun x t M _ m =>
      let q := (⟨t, m⟩ : Processor M).perform op (Instruction.destination w)
        (Instruction.source w) x
      (cost w q.1 + (if Instruction.isExtended w then 1 else 0), q.2)) fun x t => ?_
    exact (uniform_perform t op (Instruction.destination w) (Instruction.source w) x).andThen
      fun c u => (cost w c + (if Instruction.isExtended w then 1 else 0), u)
  | none =>
    simp only [execute, h]
    exact (uniform_fetchOperand s w).andThen fun _ t =>
      (cost w .missed + (if Instruction.isExtended w then 1 else 0), t)

/-! ### Slots -/

theorem uniform_enter (message : Half) (handler : Word) :
    Uniform fun M _ m => ((), (⟨s, m⟩ : Processor M).enter message handler) := by
  refine (uniform_push s s.pc).bind (g := fun _ t M _ m =>
    let cpu : Processor M := (⟨t, m⟩ : Processor M).push (s.registers.get 0)
    ((), { cpu.set 0 (message.setWidth 32) with pc := handler }.setFlag .inService true))
      fun _ t => ?_
  exact (uniform_push t (s.registers.get 0)).andThen fun _ u =>
    ((), ({ (⟨u, ()⟩ : Processor Unit).set 0 (message.setWidth 32) with pc := handler }.setFlag
      .inService true).toState)

theorem uniform_service : Uniform fun M _ m => ((), (⟨s, m⟩ : Processor M).service) := by
  cases h : s.pending && s.flag .enabled with
  | false => exact .still fun _ _ _ => by simp [service, h]
  | true =>
    simp only [service, h, if_true]
    refine (uniform_load s .word ((⟨s, ()⟩ : Processor Unit).vector s.message)).bind
      (g := fun handler t M _ m =>
        let cpu : Processor M := ⟨{ t with pending := false, sleeping := false }, m⟩
        ((), if handler = 0 then cpu else cpu.enter s.message handler)) fun handler t => ?_
    by_cases hz : handler = 0
    · simp only [hz, if_true]
      exact .still fun _ _ _ => rfl
    · simp only [hz, if_false]
      exact uniform_enter _ s.message handler

theorem uniform_trap (inService : Bool) :
    Uniform fun M _ m => ((), (⟨s, m⟩ : Processor M).trap inService) := by
  by_cases h : s.flag .singleStep && !inService && !s.pending
  · simp only [trap, h, if_true]
    exact .still fun _ _ _ => rfl
  · simp only [trap, h]
    exact .still fun _ _ _ => rfl

theorem uniform_turn (w : Word) : Uniform fun M _ m => (⟨s, m⟩ : Processor M).turn w := by
  refine (uniform_execute s w).bind (g := fun cost t M _ m =>
    let cpu := (⟨t, m⟩ : Processor M).trap (s.flag .inService)
    (cost, if cpu.skipping then cpu else cpu.service)) fun cost t => ?_
  refine (uniform_trap t (s.flag .inService)).bind (g := fun _ u M _ m =>
    (cost, if u.skipping then (⟨u, m⟩ : Processor M) else (⟨u, m⟩ : Processor M).service))
      fun _ u => ?_
  by_cases h : u.skipping
  · simp only [h, if_true]
    exact .still fun _ _ _ => rfl
  · simp only [h]
    exact (uniform_service u).andThen fun _ v => (cost, v)

theorem uniform_slot : Uniform fun M _ m => (⟨s, m⟩ : Processor M).slot := by
  by_cases h : s.sleeping
  · simp only [slot, h, if_true]
    exact (uniform_service s).andThen fun _ t => (idleCost, t)
  · simp only [slot, h]
    refine (uniform_load s .word s.pc).bind (g := fun w t M _ m =>
      let cpu : Processor M := ⟨t, m⟩
      if cpu.skipping then (idleCost, cpu.skip w) else cpu.turn w) fun w t => ?_
    exact .ite (c := t.skipping) (f := fun M _ m => (idleCost, (⟨t, m⟩ : Processor M).skip w))
      (.still fun _ _ _ => rfl) (uniform_turn t w)

theorem uniform_step : Uniform fun M _ m => (⟨s, m⟩ : Processor M).step :=
  (uniform_slot { s with waitCycles := 0 }).andThen fun cost t =>
    (cost, { t with cycles := t.cycles + BitVec.ofNat 64 cost })

theorem uniform_cycle : Uniform fun M _ m => ((), (⟨s, m⟩ : Processor M).cycle) := by
  by_cases h : s.waitCycles = 0
  · simp only [cycle, h, if_true]
    exact (uniform_slot s).andThen fun cost t =>
      ((), { t with waitCycles := BitVec.ofNat 32 cost - 1, cycles := t.cycles + 1 })
  · simp only [cycle, h, if_false]
    exact .still fun _ _ _ => rfl

theorem uniform_tick (n : Nat) : Uniform fun M _ m => ((), tick n (⟨s, m⟩ : Processor M)) := by
  induction n generalizing s with
  | zero => exact .still fun _ _ _ => rfl
  | succ n ih =>
    exact (uniform_cycle s).bind (g := fun _ t M _ m => ((), tick n (⟨t, m⟩ : Processor M)))
      fun _ t => ih t

/-! ### Memories that answer alike -/

/-- Processors in one state over related memories. -/
structure Related {M N : Type} (R : M → N → Prop) (cpu : Processor M) (cpu' : Processor N) :
    Prop where
  state_eq : cpu.toState = cpu'.toState
  memory : R cpu.memory cpu'.memory

section Related

variable {M N : Type} [Memory M] [Memory N] {R : M → N → Prop}

theorem Uniform.related {f : ∀ (M : Type) [Memory M], M → α × Processor M} (hf : Uniform f)
    (hR : Memory.Simulation R) {m : M} {n : N} (h : R m n) :
    (f M m).1 = (f N n).1 ∧ Related R (f M m).2 (f N n).2 := by
  obtain ⟨p, hp⟩ := hf
  obtain ⟨heq, hrel⟩ := p.run_simulation hR h
  rw [hp, hp]
  exact ⟨congrArg Prod.fst heq, congrArg Prod.snd heq, hrel⟩

variable {cpu : Processor M} {cpu' : Processor N}

theorem Related.step (hR : Memory.Simulation R) (h : Related R cpu cpu') :
    cpu.step.1 = cpu'.step.1 ∧ Related R cpu.step.2 cpu'.step.2 := by
  obtain ⟨s, m⟩ := cpu
  obtain ⟨s', n⟩ := cpu'
  obtain ⟨rfl, hm⟩ := h
  exact (uniform_step s).related hR hm

theorem Related.cycle (hR : Memory.Simulation R) (h : Related R cpu cpu') :
    Related R cpu.cycle cpu'.cycle := by
  obtain ⟨s, m⟩ := cpu
  obtain ⟨s', n⟩ := cpu'
  obtain ⟨rfl, hm⟩ := h
  exact ((uniform_cycle s).related hR hm).2

theorem Related.tick (hR : Memory.Simulation R) (h : Related R cpu cpu') (n : Nat) :
    Related R (tick n cpu) (tick n cpu') := by
  obtain ⟨s, m⟩ := cpu
  obtain ⟨s', n⟩ := cpu'
  obtain ⟨rfl, hm⟩ := h
  exact ((uniform_tick s _).related hR hm).2

omit [Memory M] [Memory N] in
theorem Related.reset (h : Related R cpu cpu') : Related R cpu.reset cpu'.reset :=
  ⟨congrArg State.reset h.state_eq, h.memory⟩

omit [Memory M] [Memory N] in
theorem Related.offer (h : Related R cpu cpu') (message : Half) :
    Related R (cpu.offer message) (cpu'.offer message) := by
  obtain ⟨s, m⟩ := cpu
  obtain ⟨s', n⟩ := cpu'
  obtain ⟨rfl, hm⟩ := h
  simp only [Processor.offer]
  split
  · exact ⟨rfl, hm⟩
  · exact ⟨rfl, hm⟩

end Related

/-! ### What accesses keep -/

section Invariant

variable {M : Type} [Memory M] {P : M → Prop} {cpu : Processor M}

theorem memory_step (hread : ∀ {m}, P m → ∀ a, P (Memory.readByte m a).2)
    (hwrite : ∀ {m}, P m → ∀ a b, P (Memory.writeByte m a b)) (h : P cpu.memory) :
    P cpu.step.2.memory :=
  (Related.step (.of_invariant hread hwrite) ⟨rfl, rfl, h⟩).2.memory.2

theorem memory_cycle (hread : ∀ {m}, P m → ∀ a, P (Memory.readByte m a).2)
    (hwrite : ∀ {m}, P m → ∀ a b, P (Memory.writeByte m a b)) (h : P cpu.memory) :
    P cpu.cycle.memory :=
  (Related.cycle (.of_invariant hread hwrite) ⟨rfl, rfl, h⟩).memory.2

theorem memory_tick (hread : ∀ {m}, P m → ∀ a, P (Memory.readByte m a).2)
    (hwrite : ∀ {m}, P m → ∀ a b, P (Memory.writeByte m a b)) (h : P cpu.memory) (n : Nat) :
    P (tick n cpu).memory :=
  (Related.tick (.of_invariant hread hwrite) ⟨rfl, rfl, h⟩ n).memory.2

end Invariant

end Microcomputer.Processor
