import Microcomputer.Instruction.Encoding
import Microcomputer.Memory.Flat
import Microcomputer.Proofs.Processor.Serving

/-! Messages are delivered once and in order. Every move carries the messages through the
latch one by one, so in any run what was accepted is what was serviced and then what is
latched. -/

namespace Microcomputer.Processor

namespace Interrupts

variable {i j : Interrupts} {es : List Event}

theorem Move.conserves (h : Move i es j) :
    i.latched.toList ++ accepted es = serviced es ++ j.latched.toList := by
  cases h with
  | execute => exact List.append_nil _
  | _ => rfl

theorem Moves.conserves (h : Moves i es j) :
    i.latched.toList ++ accepted es = serviced es ++ j.latched.toList := by
  induction h with
  | nil => exact List.append_nil _
  | @cons i j k es fs hmove _ ih =>
    calc i.latched.toList ++ accepted (es ++ fs)
      _ = i.latched.toList ++ accepted es ++ accepted fs := by
        rw [accepted, List.filterMap_append, ← List.append_assoc]; rfl
      _ = serviced es ++ (j.latched.toList ++ accepted fs) := by
        rw [hmove.conserves, List.append_assoc]
      _ = serviced (es ++ fs) ++ k.latched.toList := by
        rw [ih, ← List.append_assoc, serviced, serviced, serviced, List.filterMap_append]

/-- A latched message stays until it is serviced, and it is the next one that is. -/
theorem Moves.next {x : Half} (h : Moves i es j) (hx : i.latched = some x) :
    (serviced es = [] ∧ accepted es = [] ∧ j.latched = some x) ∨
    ∃ later, serviced es = x :: later ∧ accepted es = later ++ j.latched.toList := by
  have hconserves := h.conserves
  rw [hx, Option.toList_some, List.singleton_append] at hconserves
  cases hserviced : serviced es with
  | nil =>
    rw [hserviced, List.nil_append] at hconserves
    cases hj : j.latched with
    | none =>
      rw [hj] at hconserves
      contradiction
    | some y =>
      rw [hj, Option.toList_some, List.cons.injEq] at hconserves
      exact .inl ⟨rfl, hconserves.2, congrArg some hconserves.1.symm⟩
  | cons y later =>
    rw [hserviced, List.cons_append, List.cons.injEq] at hconserves
    exact .inr ⟨later, congrArg (· :: later) hconserves.1.symm, hconserves.2⟩

end Interrupts

variable {M : Type} [Memory M]

/-- In a run from reset, the accepted messages are the serviced ones and then the latched
one. Whatever comes later, a latched message stays until it is serviced, before any other.
An offer that is not accepted changes nothing, and neither does an instruction that makes
such an offer. Each message that is said to be serviced, and no other, went from the latch to its
handler in that cycle of the run, or had none. -/
theorem delivered_once_in_order (cpu : Processor M) (calls : List Call) :
    let es := log calls cpu.reset
    let now := run calls cpu.reset
    accepted es = serviced es ++ now.latched.toList ∧
    (∀ x later, now.latched = some x →
      let fs := log later now
      let last := run later now
      (serviced fs = [] ∧ accepted fs = [] ∧ last.latched = some x) ∨
      ∃ others, serviced fs = x :: others ∧ accepted fs = others ++ last.latched.toList) ∧
    (∀ current : Processor M, ¬current.accepts →
      (∀ x, current.offerEvents .outside x = [] ∧ current.offer x = current) ∧
      ∀ d s x, current.performEvents x .interrupt = [] ∧
        current.perform .interrupt d s x = (.done, current)) ∧
    let cycles := calls.flatMap Call.cycles
    run cycles cpu.reset = now ∧ log cycles cpu.reset = es ∧
    ∀ before call after, cycles = before ++ call :: after →
      let current := run before cpu.reset
      Serves (call.advance current) (call.run current) (services (call.events current)) := by
  intro es now
  obtain ⟨hrun, hlog⟩ := run_flatMap_cycles calls cpu.reset
  refine ⟨(moves_log calls cpu.reset).conserves, fun x later hx => (moves_log later _).next hx,
    fun current hrefused => ⟨fun x => ⟨if_neg hrefused, if_neg hrefused⟩,
      fun d s x => ⟨if_neg hrefused, ?_⟩⟩, hrun, hlog, fun before call after hcycles => ?_⟩
  · rw [perform, offer, if_neg hrefused]
  · have hmem : call ∈ calls.flatMap Call.cycles := by
      rw [show calls.flatMap Call.cycles = _ from hcycles]
      exact List.mem_append_right _ List.mem_cons_self
    exact serves_call (cycles_of_mem hmem) _

/-- An instruction offers message 5, which has no handler; 7 and 8 are offered from outside.
Message 7 waits while interrupts are disabled, 8 is refused twice, and a trap comes last. The
sixth call lets 7 enter its handler. -/
theorem delivered_once_in_order_waiting :
    let program := (Instruction.one 0x1B (.literal 0x100)).words ++
      (Instruction.one 0x19 (.literal 5)).words ++ (Instruction.one 0x1B (.literal 0)).words ++
      (Instruction.one 0x1B (.literal 0x300)).words ++
      (Instruction.one 0x1B (.literal 0x200)).words
    let memory := Memory.writeWord (Memory.writeWord (Memory.writeBytes FlatMemory.zero
      State.entryPoint (Instruction.image program)) 28 0x200) 0x200 0x02000000
    let cpu := Processor.new memory
    let calls : List Call := [.step, .step, .offer 7]
    let later : List Call := [.offer 8, .step, .offer 8, .step, .step, .tick 3]
    let now := run calls cpu.reset
    let waiting := run [.offer 8, .step, .offer 8] now
    accepted (log calls cpu.reset) = [5, 7] ∧ serviced (log calls cpu.reset) = [5] ∧
      now.latched = some 7 ∧ now.offer 8 = now ∧
      serviced (log later now) = [7] ∧ accepted (log later now) = [0] ∧
      (run later now).latched = some 0 ∧
      services waiting.stepEvents = [.entered 7 false] ∧
      waiting.step.2.pc = 0x200 ∧ waiting.step.2.get 0 = 7 ∧ waiting.step.2.flag .inService := by
  intro program memory cpu calls later now waiting
  have hserviced : serviced (log calls cpu.reset) = [5] := by decide
  have hlatched : now.latched = some 7 := by decide
  have hlast : (run later now).latched = some 0 := by decide
  have hlater : serviced (log later now) = [7] := by decide
  obtain ⟨haccepted, hnext, hrefused, -⟩ := delivered_once_in_order cpu calls
  rw [hserviced, hlatched] at haccepted
  rcases hnext 7 later hlatched with ⟨hnone, -, -⟩ | ⟨others, hothers, hin⟩
  · exact absurd (hlater.symm.trans hnone) (List.cons_ne_nil _ _)
  rw [hlater, List.cons.injEq] at hothers
  rw [hlast, ← hothers.2] at hin
  -- The sixth call of the whole run, and what its log says.
  obtain ⟨-, -, -, -, -, hserves⟩ := delivered_once_in_order cpu (calls ++ later)
  have hwaiting : run (calls ++ [.offer 8, .step, .offer 8]) cpu.reset = waiting :=
    run_append ..
  have hserved := hserves (calls ++ [.offer 8, .step, .offer 8]) .step _ rfl
  rw [hwaiting] at hserved
  have hcall : Serves (Call.step.advance waiting) waiting.step.2 (services waiting.stepEvents) :=
    hserved
  have hevents : services waiting.stepEvents = [.entered 7 false] := by decide +kernel
  have henters := hcall.enters (x := 7) (b := false) (by rw [hevents]; exact List.mem_cons_self)
  have hflag : waiting.step.2.flag .inService := by
    rw [State.flag, henters.flags, Word.flag_setFlag, if_pos rfl]
  exact ⟨haccepted, hserviced, hlatched, ((hrefused now (by decide)).1 8).2, hlater, hin, hlast,
    hevents, henters.pc.trans (by decide), henters.message, hflag⟩

end Microcomputer.Processor
