import Microcomputer.Proofs.MemoryMap.Mirror
import Microcomputer.Proofs.Processor.Events
import Microcomputer.Proofs.Processor.Uniform

/-! The processor over flat memory and over a memory map. Calls, their answers included, are
one program of accesses, so a run that stays within RAM and the ROM window goes the same way
over both: `Uniform.within`. -/

namespace Microcomputer.Processor

open Memory (Access Recorded SimulationWithin replay simulation_recorded simulation_replayed)

/-- What a call is answered. -/
inductive Answer where
  | cost (cycles : Nat)
  | ticked
  | accepted (b : Bool)
deriving DecidableEq

section Runs

variable {M : Type} [Memory M]

def Call.answer : Call → Processor M → Answer
  | step, cpu => .cost cpu.step.1
  | tick _, _ => .ticked
  | offer _, cpu => .accepted cpu.accepts

/-- The answers to calls one after the other. -/
def answers : List Call → Processor M → List Answer
  | [], _ => []
  | call :: calls, cpu => call.answer cpu :: answers calls (call.run cpu)

/-- The processor over a memory that begins to record. -/
def recorded (cpu : Processor M) : Processor (Recorded M) := ⟨cpu.toState, ⟨cpu.memory, []⟩⟩

/-- The accesses of calls: all that is fetched, loaded, popped and read as a vector, and all
that is stored and pushed. -/
def accesses (calls : List Call) (cpu : Processor M) : List Access :=
  (run calls cpu.recorded).memory.accesses

end Runs

/-! ### Calls as programs -/

theorem uniform_call (call : Call) (s : State) :
    Uniform fun M _ m => (call.answer (⟨s, m⟩ : Processor M), call.run ⟨s, m⟩) := by
  cases call with
  | step => exact (uniform_step s).andThen fun cost t => (Answer.cost cost, t)
  | tick n => exact (uniform_tick s n).andThen fun _ t => (Answer.ticked, t)
  | offer message =>
    cases h : s.accepts <;> exact .still fun _ _ _ => by simp [Call.answer, Call.run, offer, h]

theorem uniform_run (calls : List Call) (s : State) :
    Uniform fun M _ m => (answers calls (⟨s, m⟩ : Processor M), run calls ⟨s, m⟩) := by
  induction calls generalizing s with
  | nil => exact .still fun _ _ _ => rfl
  | cons call calls ih =>
    exact (uniform_call call s).bind (g := fun x t M _ m =>
      (x :: answers calls (⟨t, m⟩ : Processor M), run calls (⟨t, m⟩ : Processor M)))
        fun x t => (ih t).andThen fun xs u => (x :: xs, u)

section Within

variable {M N : Type} [Memory M] [Memory N] {α : Type}
  {f : ∀ (M : Type) [Memory M], M → α × Processor M}

theorem Uniform.accesses_grow (hf : Uniform f) (r : Recorded M) :
    r.accesses <+: (f (Recorded M) r).2.memory.accesses := by
  obtain ⟨p, hp⟩ := hf
  rw [hp]
  exact p.accesses_grow r

/-- Over memories that are alike within some accesses, a function that keeps to these does the
same. -/
theorem Uniform.within (hf : Uniform f) {inside : Access → Prop} {R : M → N → Prop}
    (hR : SimulationWithin inside R) {m : M} {n : N} (h : R m n)
    (hin : ∀ x ∈ (f (Recorded M) ⟨m, []⟩).2.memory.accesses, inside x) :
    (f M m).1 = (f N n).1 ∧ Related R (f M m).2 (f N n).2 := by
  obtain ⟨p, hp⟩ := hf
  rw [hp] at hin
  obtain ⟨hplain, hmemory⟩ := p.run_simulation simulation_recorded (m := (⟨m, []⟩ : Recorded M)) rfl
  obtain ⟨hother, hrel⟩ := p.run_within hR (r := ⟨m, []⟩) h hin
  have heq : (p.run m).1 = (p.run n).1 := hplain.symm.trans hother
  rw [hp, hp, ← hmemory]
  exact ⟨congrArg Prod.fst heq, congrArg Prod.snd heq, hrel⟩

/-- A run that is recorded is the run itself, and its record tells what became of memory. -/
theorem run_recorded (calls : List Call) (cpu : Processor M) :
    Related (fun r m => r.memory = m ∧ replay r.accesses cpu.memory = m)
      (run calls cpu.recorded) (run calls cpu) :=
  ((uniform_run calls cpu.toState).related (simulation_replayed cpu.memory) ⟨rfl, rfl⟩).2

theorem memory_run (calls : List Call) (cpu : Processor M) :
    (run calls cpu).memory = replay (accesses calls cpu) cpu.memory :=
  (run_recorded calls cpu).memory.2.symm

theorem accesses_mono {before calls : List Call} (h : before <+: calls) (cpu : Processor M) :
    accesses before cpu <+: accesses calls cpu := by
  obtain ⟨after, rfl⟩ := h
  rw [accesses, accesses, run_append]
  exact (uniform_run after (run before cpu.recorded).toState).accesses_grow
    (run before cpu.recorded).memory

end Within

/-! ### Flat memory and memory maps -/

/-- Where a flat memory agrees with a map, a run over it that stays within RAM and the ROM
window goes the same way over the map: after every call states are equal and memories agree,
and nothing in the map but RAM has changed. -/
theorem flat_eq_map {f : FlatMemory} {m : MemoryMap} (h : m.Agrees f) (s : State)
    (calls : List Call)
    (hwithin : ∀ x ∈ accesses calls (⟨s, f⟩ : Processor FlatMemory), m.Within x) :
    answers calls (⟨s, f⟩ : Processor FlatMemory) =
        answers calls (⟨s, m⟩ : Processor MemoryMap) ∧
      ∀ before, before <+: calls →
        Related m.Mirrors (run before (⟨s, f⟩ : Processor FlatMemory))
          (run before (⟨s, m⟩ : Processor MemoryMap)) := by
  have hrun (before : List Call) (hbefore : before <+: calls) :=
    (uniform_run before s).within m.simulation_mirrors (.refl h) fun x hx =>
      hwithin x ((accesses_mono hbefore (⟨s, f⟩ : Processor FlatMemory)).mem hx)
  exact ⟨(hrun calls (List.prefix_refl calls)).1, fun before hbefore => (hrun before hbefore).2⟩

/-- A program that sets up a stack and a vector in RAM, enables interrupts, pushes and sleeps;
its handler returns at once. -/
def stacking : Rom where
  image := ((Instruction.two 0x20 31 (.literal 64)).words ++
    (Instruction.two 0x20 1 (.extended 0x10001C)).words ++
    (Instruction.two 0x28 1 (.literal 20)).words ++ (Instruction.one 0x1B (.literal 0x100)).words ++
    (Instruction.one 0x14 (.literal 5)).words ++ (Instruction.zero 0x00).words ++
    (Instruction.zero 0x02).words
      |> Instruction.image).toArray

/-- Message 5 is taken after the push, and its handler left within the tick. -/
theorem flat_eq_map_stacking :
    let f := Memory.writeBytes FlatMemory.zero (BitVec.ofNat 32 Rom.base) stacking.image.toList
    let m := MemoryMap.new 64 stacking
    let calls : List Call := [.step, .step, .step, .step, .offer 5, .step, .tick 4]
    m.Agrees f ∧ (∀ x ∈ accesses calls (⟨.initial, f⟩ : Processor FlatMemory), m.Within x) ∧
      answers calls (⟨.initial, m⟩ : Processor MemoryMap) =
        [.cost 3, .cost 4, .cost 3, .cost 3, .accepted true, .cost 3, .ticked] ∧
      Related m.Mirrors (run calls (⟨.initial, f⟩ : Processor FlatMemory))
        (run calls (⟨.initial, m⟩ : Processor MemoryMap)) := by
  intro f m calls
  have hagrees : m.Agrees f := MemoryMap.agrees_new 64 stacking (by decide +kernel)
  have hwithin : ∀ x ∈ accesses calls (⟨.initial, f⟩ : Processor FlatMemory), m.Within x := by
    decide +kernel
  obtain ⟨hanswers, hrelated⟩ := flat_eq_map hagrees .initial calls hwithin
  refine ⟨hagrees, hwithin, ?_, hrelated calls (List.prefix_refl calls)⟩
  rw [← hanswers]
  decide +kernel

end Microcomputer.Processor
