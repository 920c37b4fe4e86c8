import Microcomputer.Instruction.Encoding
import Microcomputer.Memory.Flat
import Microcomputer.Proofs.Processor.Events

/-! Handlers do not nest. Entering a handler does not look at the in-service flag; but no
move latches a message while the flag is set, and none sets the flag and leaves a message
latched, unless an instruction sets it by hand: `Move.settled`. -/

namespace Microcomputer.Processor

/-! ### The flag along a run -/

/-- The flag before an event, as the event notes it, and after it. -/
inductive Event.Turns : Bool → Event → Bool → Prop where
  | accepted (origin : Origin) (x : Half) (b : Bool) : Turns b (.accepted origin x b) b
  | executed (before after : Bool) : Turns before (.executed before after) after
  | entered (x : Half) (b : Bool) : Turns b (.entered x b) true
  | dropped (x : Half) (b : Bool) : Turns b (.dropped x) b

/-- Each event notes the flag that the one before it left. -/
inductive Follows : Bool → List Event → Bool → Prop where
  | nil (b : Bool) : Follows b [] b
  | cons {b c d : Bool} {e : Event} {es : List Event} :
    e.Turns b c → Follows c es d → Follows b (e :: es) d

namespace Follows

variable {b c d : Bool} {es fs : List Event}

theorem append (h : Follows b es c) (h' : Follows c fs d) : Follows b (es ++ fs) d := by
  induction h with
  | nil => exact h'
  | cons hturn _ ih => exact .cons hturn (ih h')

theorem of_append (h : Follows b (es ++ fs) d) : ∃ c, Follows b es c ∧ Follows c fs d := by
  induction es generalizing b with
  | nil => exact ⟨b, .nil b, h⟩
  | cons e es ih =>
    cases h with
    | cons hturn h =>
      obtain ⟨c, hbefore, hafter⟩ := ih h
      exact ⟨c, .cons hturn hbefore, hafter⟩

/-- Only an instruction clears the flag. -/
theorem executed_mem (h : Follows b es c) (hb : b = true) (hc : c = false) :
    .executed true false ∈ es := by
  induction h with
  | nil => exact absurd (hb.symm.trans hc) Bool.noConfusion
  | @cons _ after _ _ _ hturn _ ih =>
    cases hturn with
    | accepted | dropped => exact List.mem_cons_of_mem _ (ih hb hc)
    | entered => exact List.mem_cons_of_mem _ (ih rfl hc)
    | executed =>
      subst hb
      cases after with
      | false => exact List.mem_cons_self
      | true => exact List.mem_cons_of_mem _ (ih rfl hc)

/-- So one does if a handler is entered and then another while the flag is clear. -/
theorem executed_mem_between {x y : Half} {b' : Bool} {before between after : List Event}
    (h : Follows b (before ++ .entered x b' :: (between ++ .entered y false :: after)) d) :
    .executed true false ∈ between := by
  obtain ⟨_, -, hentry⟩ := h.of_append
  cases hentry with
  | cons hturn hrest =>
    cases hturn
    obtain ⟨c, hbetween, hlast⟩ := hrest.of_append
    cases hlast with
    | cons hturn _ =>
      cases hturn
      exact hbetween.executed_mem rfl rfl

end Follows

namespace Interrupts

variable {i j : Interrupts} {es : List Event}

theorem Move.follows (h : Move i es j) : Follows i.inService es j.inService := by
  cases h with
  | offer x => exact .cons (.accepted _ x _) (.nil _)
  | execute latched before after => exact .cons (.executed before after) (.nil _)
  | interrupt x => exact .cons (.accepted _ x _) (.cons (.executed _ _) (.nil _))
  | trap after => exact .cons (.executed _ after) (.cons (.accepted _ _ _) (.nil _))
  | enter x b => exact .cons (.entered x b) (.nil _)
  | drop x b => exact .cons (.dropped x b) (.nil _)

theorem Moves.follows (h : Moves i es j) : Follows i.inService es j.inService := by
  induction h with
  | nil => exact .nil _
  | cons hmove _ ih => exact hmove.follows.append ih

/-! ### Nothing waits during service -/

/-- No message is latched while one is in service. -/
def Settled (i : Interrupts) : Prop := i.inService = true → i.latched = none

end Interrupts

/-- Where a message is latched or enters its handler, none is in service. -/
def Event.OutsideService : Event → Prop
  | accepted _ _ inService => inService = false
  | entered _ inService => inService = false
  | _ => True

namespace Interrupts

variable {i j : Interrupts} {es : List Event}

theorem Settled.inService {x : Half} {b : Bool} (h : Settled ⟨some x, b⟩) : b = false :=
  Bool.eq_false_iff.mpr fun hb => Option.some_ne_none x (h hb)

theorem Move.settled (h : Move i es j) (hi : Settled i) (hforge : .executed false true ∉ es) :
    Settled j ∧ ∀ e ∈ es, e.OutsideService := by
  cases h with
  | offer x => exact ⟨nofun, List.forall_mem_singleton.mpr rfl⟩
  | execute latched before after =>
    refine ⟨fun hafter => ?_, List.forall_mem_singleton.mpr trivial⟩
    cases before with
    | false => exact absurd (hafter ▸ List.mem_singleton_self _) hforge
    | true => exact hi rfl
  | interrupt x =>
    exact ⟨nofun, List.forall_mem_cons.mpr ⟨rfl, List.forall_mem_singleton.mpr trivial⟩⟩
  | trap after =>
    -- An instruction that sets the flag and is trapped would latch a message in service.
    cases after with
    | false =>
      exact ⟨nofun, List.forall_mem_cons.mpr ⟨trivial, List.forall_mem_singleton.mpr rfl⟩⟩
    | true => exact absurd List.mem_cons_self hforge
  | enter x b => exact ⟨fun _ => rfl, List.forall_mem_singleton.mpr hi.inService⟩
  | drop x b => exact ⟨fun _ => rfl, List.forall_mem_singleton.mpr trivial⟩

theorem Moves.settled (h : Moves i es j) (hi : Settled i) (hforge : .executed false true ∉ es) :
    Settled j ∧ ∀ e ∈ es, e.OutsideService := by
  induction h with
  | nil => exact ⟨hi, nofun⟩
  | cons hmove _ ih =>
    rw [List.mem_append, not_or] at hforge
    obtain ⟨hmiddle, hhead⟩ := hmove.settled hi hforge.1
    obtain ⟨hlast, htail⟩ := ih hmiddle hforge.2
    exact ⟨hlast, List.forall_mem_append.mpr ⟨hhead, htail⟩⟩

end Interrupts

open Interrupts

variable {M : Type} [Memory M]

/-- A run from reset in which no instruction sets the in-service flag. Between any two
cycles, no message is latched while one is in service; none is latched and none enters its
handler while another is in service; and between two entries an instruction clears the
flag. -/
theorem handlers_do_not_nest (cpu : Processor M) (calls : List Call)
    (hforge : .executed false true ∉ log calls cpu.reset) :
    let es := log calls cpu.reset
    (∀ moment, moment <+: calls.flatMap Call.cycles →
      let now := run moment cpu.reset
      ¬(now.pending ∧ now.flag .inService)) ∧
    (∀ origin x inService, .accepted origin x inService ∈ es → inService = false) ∧
    (∀ x inService, .entered x inService ∈ es → inService = false) ∧
    ∀ before x inService between y inService' after,
      es = before ++ .entered x inService :: (between ++ .entered y inService' :: after) →
      .executed true false ∈ between := by
  intro es
  have hreset : Settled cpu.reset.interrupts := fun _ => rfl
  have hmoves := moves_log calls cpu.reset
  obtain ⟨-, houtside⟩ := hmoves.settled hreset hforge
  refine ⟨fun moment hmoment => ?_, fun origin x b h => houtside _ h,
    fun x b h => houtside _ h, fun before x b between y b' after hsplit => ?_⟩
  · obtain ⟨rest, hrest⟩ := hmoment
    have hlog : log calls cpu.reset =
        log moment cpu.reset ++ log rest (run moment cpu.reset) := by
      rw [← (run_flatMap_cycles calls cpu.reset).2, ← hrest, log_append]
    obtain ⟨hnow, -⟩ := (moves_log moment cpu.reset).settled hreset fun h =>
      hforge (hlog ▸ List.mem_append_left _ h)
    refine fun ⟨hpending, hservice⟩ => ?_
    have hnone : (run moment cpu.reset).latched = none := hnow hservice
    rw [pending_eq_isSome_latched, hnone] at hpending
    contradiction
  · change log calls cpu.reset = _ at hsplit
    have hservice : b' = false := houtside (.entered y b') (by rw [hsplit]; simp)
    have hfollows := hmoves.follows
    rw [hsplit, hservice] at hfollows
    exact hfollows.executed_mem_between

/-- A handler is entered, refuses message 6, returns, and is entered again. -/
theorem handlers_do_not_nest_twice :
    let program := (Instruction.one 0x1B (.literal 0x100)).words ++
      (Instruction.zero 0x00).words ++ (Instruction.zero 0x00).words
    let memory := Memory.writeWord (Memory.writeWord (Memory.writeBytes FlatMemory.zero
      State.entryPoint (Instruction.image program)) 20 0x200) 0x200 0x02000000
    let cpu := Processor.new memory
    let calls : List Call :=
      [.step, .offer 5, .step, .offer 6, .tick 1, .offer 5, .step]
    let es := log calls cpu.reset
    let between : List Event :=
      [.executed true false, .accepted .outside 5 false, .executed false false]
    .executed false true ∉ es ∧
      es = [.executed false false, .accepted .outside 5 false, .executed false false] ++
        .entered 5 false :: (between ++ .entered 5 false :: []) ∧
      (∀ moment, moment <+: calls.flatMap Call.cycles →
        ¬((run moment cpu.reset).pending ∧ (run moment cpu.reset).flag .inService)) ∧
      .executed true false ∈ between := by
  intro program memory cpu calls es between
  have hes : es = [.executed false false, .accepted .outside 5 false, .executed false false] ++
      .entered 5 false :: (between ++ .entered 5 false :: []) := by decide
  have hforge : .executed false true ∉ es := by decide
  obtain ⟨hmoments, -, -, hbetween⟩ := handlers_do_not_nest cpu calls hforge
  exact ⟨hforge, hes, hmoments, hbetween _ _ _ _ _ _ _ hes⟩

end Microcomputer.Processor
