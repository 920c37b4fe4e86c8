import Microcomputer.Instruction.Encoding
import Microcomputer.Proofs.Processor.Fetch
import Microcomputer.Proofs.Processor.Serving

/-! Entering a handler and leaving it again. Entry saves the address of the next instruction
and register zero on the stack, and the way out takes both back in the opposite order; so an
interrupt whose handler leaves at once is not noticed by what it interrupts:
`resumes_where_interrupted`. -/

namespace Microcomputer.Processor

variable (cpu : Processor FlatMemory)

/-! ### Entry -/

/-- The message has a handler, and enters it. -/
theorem service_eq_enter {handler : Word} (hpending : cpu.pending) (henabled : cpu.flag .enabled)
    (hvector : (Memory.readWord cpu.memory (cpu.vector cpu.message)).1 = handler)
    (hhandler : handler ≠ 0) :
    cpu.service =
      { cpu with pending := false, sleeping := false }.enter cpu.message handler := by
  have hserve : (cpu.pending && cpu.flag .enabled) = true := by rw [hpending, henabled]; rfl
  rw [service, if_pos hserve]
  dsimp only
  rw [hvector, if_neg hhandler]
  rfl

theorem stacked_enter (message : Half) (handler : Word) :
    (cpu.enter message handler).Stacked [cpu.get 0, cpu.pc] := by
  have hsaved := (cpu.stacked_nil.push cpu.pc (by simp)).push (cpu.get 0) (by simp)
  refine hsaved.congr rfl ?_
  rw [get_enter, get_push_push]
  rfl

/-- Entry writes the eight bytes below the stack pointer. -/
theorem byte_enter (message : Half) (handler : Word) {a : Address}
    (h : 8 ≤ (a - Address.ofWord (cpu.get .stack - 8)).toNat) :
    (cpu.enter message handler).memory.byte a = cpu.memory.byte a := by
  have hlower : 4 ≤ (a - Address.ofWord ((cpu.push cpu.pc).get .stack - 4)).toNat := by
    rw [get_push, if_pos rfl, BitVec.sub_sub]
    exact Nat.le_trans (by decide) h
  have hupper : 4 ≤ (a - Address.ofWord (cpu.get .stack - 4)).toNat := by
    simp only [Address.ofWord] at h ⊢
    bv_omega
  exact ((cpu.push cpu.pc).byte_push (cpu.get 0) hlower).trans (cpu.byte_push cpu.pc hupper)

/-! ### The way out -/

/-- The processor once it has left a handler, with `x` for register zero, for the address `y`. -/
def left (x y : Word) : Processor FlatMemory :=
  let popped := ((cpu.set .stack (cpu.get .stack + 4)).set 0 x).set .stack (cpu.get .stack + 8)
  { popped with pc := y }.setFlag .inService false

theorem get_left (x y : Word) (r : Reg) :
    (cpu.left x y).get r =
      if .flags = r then cpu.flags.setFlag .inService false
      else if .stack = r then cpu.get .stack + 8
      else if 0 = r then x
      else cpu.get r := by
  let popped := ((cpu.set .stack (cpu.get .stack + 4)).set 0 x).set .stack (cpu.get .stack + 8)
  have hpopped (r : Reg) : popped.get r =
      if .stack = r then cpu.get .stack + 8 else if 0 = r then x else cpu.get r := by
    rw [get_set, get_set, get_set]
    by_cases hr : .stack = r
    · rw [if_pos hr, if_pos hr]
    · rw [if_neg hr, if_neg hr, if_neg hr]
  have hflags : popped.flags = cpu.flags := hpopped .flags
  refine (get_setFlag { popped with pc := y } .inService false r).trans ?_
  rw [show State.flags { popped.toState with pc := y } = cpu.flags from hflags]
  exact congrArg _ (hpopped r)

/-- The two words on top of the stack are what the handler is left with. -/
theorem perform_leave {x y : Word} (h : cpu.Stacked [x, y]) (d s : Reg) (o : Operand) :
    cpu.perform .leave d s o = (.done, cpu.left x y) := by
  obtain ⟨hfirst, hrest⟩ := h.pop
  let saved := (cpu.set .stack (cpu.get .stack + 4)).set 0 x
  have hstack : saved.get .stack = cpu.get .stack + 4 := by
    rw [get_set, get_set, if_pos rfl]
    rfl
  have hsaved : saved.Stacked [y] := hrest.congr rfl (by rw [hstack, get_set, if_pos rfl])
  simp only [perform, hfirst]
  rw [hsaved.pop.1, hstack, BitVec.add_assoc]
  rfl

/-- The way out of a handler ends its service. -/
theorem flag_execute_leave {w : Word} (hw : Instruction.opcode w = 0x02) :
    ¬(cpu.execute w).2.flag .inService := by
  have hop : Operation.ofOpcode? (Instruction.opcode w) = some .leave := by rw [hw]; rfl
  rw [execute_eq_outcome, outcome, carryOut, hop]
  change ¬(Processor.setFlag _ .inService false).flag .inService
  rw [flag_setFlag, if_pos rfl]
  exact Bool.false_ne_true

theorem execute_leave {w x y : Word} (hw : Instruction.opcode w = 0x02)
    (h : cpu.Stacked [x, y]) :
    cpu.execute w = (3, cpu.left x y) ∧
      cpu.executeEvents w = [.executed (cpu.flag .inService) false] := by
  have hop : Operation.ofOpcode? (Instruction.opcode w) = some .leave := by rw [hw]; rfl
  have hextended : Instruction.isExtended w = false := by
    rw [Instruction.isExtended, Instruction.hasLiteral, Instruction.format, hw]
    rfl
  have hservice := Bool.eq_false_iff.mpr (cpu.flag_execute_leave hw)
  let fetched := { cpu with pc := cpu.pc + BitVec.ofNat 32 (Instruction.length w) }
  have hfetched : fetched.Stacked [x, y] := h.congr rfl rfl
  constructor
  · rw [execute_eq_outcome, outcome, fetchOperand_eq]
    simp only [carryOut, hop]
    rw [fetched.perform_leave hfetched, hextended, cost, hw]
    rfl
  · simp only [executeEvents, hop, hservice]
    rfl

/-- An instruction in service is not trapped, and with an empty latch nothing follows it. -/
theorem turn_of_settled {w : Word} (hservice : cpu.flag .inService)
    (hpending : (cpu.execute w).2.pending = false) :
    cpu.turn w = cpu.execute w ∧ cpu.turnEvents w = cpu.executeEvents w := by
  have htrap : (cpu.execute w).2.trap true = (cpu.execute w).2 := by
    rw [trap, Bool.not_true, Bool.and_false, Bool.false_and, if_neg Bool.false_ne_true]
  have htrapEvents : (cpu.execute w).2.trapEvents true = [] := by
    rw [trapEvents, Bool.not_true, Bool.and_false, Bool.false_and, if_neg Bool.false_ne_true]
  have hserve : (cpu.execute w).2.service = (cpu.execute w).2 := by
    rw [service, hpending, Bool.false_and, if_neg Bool.false_ne_true]
  have hserviceEvents : (cpu.execute w).2.serviceEvents = [] := by
    rw [serviceEvents, hpending, Bool.false_and, if_neg Bool.false_ne_true]
  constructor
  · simp only [turn, hservice, htrap, hserve, ite_self]
  · simp only [turnEvents, hservice, htrap, htrapEvents, hserviceEvents, ite_self,
      List.append_nil]

/-- The step that leaves a handler, where no other message is latched. -/
theorem step_leave {x y : Word} (hawake : ¬cpu.sleeping) (hskipping : ¬cpu.skipping)
    (hpending : ¬cpu.pending) (hservice : cpu.flag .inService)
    (hnext : Instruction.opcode cpu.next = 0x02) (h : cpu.Stacked [x, y]) :
    cpu.step = (3, { cpu.left x y with waitCycles := 0, cycles := cpu.cycles + 3 }) ∧
      cpu.stepEvents = [.executed true false] := by
  let idle := { cpu with waitCycles := 0 }
  have hstacked : idle.Stacked [x, y] := h.congr rfl rfl
  obtain ⟨hexecute, hevents⟩ := idle.execute_leave (w := idle.next) hnext hstacked
  have hempty : (idle.execute idle.next).2.pending = false := by
    rw [hexecute]
    exact Bool.eq_false_iff.mpr hpending
  obtain ⟨hturn, hturnEvents⟩ := idle.turn_of_settled hservice hempty
  have hslot : idle.slot = idle.execute idle.next := by
    rw [idle.slot_of_awake hawake, if_neg hskipping, hturn]
  have hslotEvents : idle.slotEvents = idle.executeEvents idle.next := by
    rw [slotEvents, if_neg hawake]
    exact (if_neg hskipping).trans hturnEvents
  constructor
  · change (idle.slot.1, { idle.slot.2 with
      cycles := idle.slot.2.cycles + BitVec.ofNat 64 idle.slot.1 }) = _
    rw [hslot, hexecute]
    rfl
  · rw [stepEvents, hslotEvents, hevents]
    exact congrArg (fun b => [Event.executed b false]) hservice

/-! ### Both -/

theorem setFlag_setFlag_of_flag {x : Word} {f : Flag} (h : ¬x.flag f) :
    (x.setFlag f true).setFlag f false = x := by
  apply BitVec.eq_of_getLsbD_eq
  intro i hi
  rw [Word.setFlag, Word.setFlag, Word.getLsbD_setBit _ _ _ _ hi, Word.getLsbD_setBit _ _ _ _ hi]
  split
  · next hf =>
    rw [hf]
    exact (Bool.eq_false_iff.mpr h).symm
  · rfl

/-- The way out takes back all that entry changed of the registers. -/
theorem registers_left_enter (message : Half) (handler : Word) (hservice : ¬cpu.flag .inService) :
    ((cpu.enter message handler).left (cpu.get 0) cpu.pc).registers = cpu.registers := by
  let entered := cpu.enter message handler
  have hget (r : Reg) := cpu.get_enter message handler r
  have hflags : entered.flags = cpu.flags.setFlag .inService true := hget .flags
  have hstack : entered.get .stack = cpu.get .stack - 8 := hget .stack
  refine Registers.ext fun r => (entered.get_left (cpu.get 0) cpu.pc r).trans ?_
  by_cases hf : .flags = r
  · rw [if_pos hf, hflags, setFlag_setFlag_of_flag hservice, ← hf]
    rfl
  rw [if_neg hf]
  by_cases hs : .stack = r
  · rw [if_pos hs, hstack, BitVec.sub_add_cancel, ← hs]
    rfl
  rw [if_neg hs]
  by_cases hz : 0 = r
  · rw [if_pos hz, ← hz]
    rfl
  · rw [if_neg hz, hget, if_neg hf, if_neg hz, if_neg hs]
    rfl

/-- A message enters its handler, which leaves at once. The processor then goes on where it was
interrupted, all its registers and flags as they were; nothing is latched or trapped on the
way, and memory has changed only in the eight bytes below the stack pointer. -/
theorem resumes_where_interrupted (handler : Word)
    (hpending : cpu.pending) (henabled : cpu.flag .enabled) (hservice : ¬cpu.flag .inService)
    (hskipping : ¬cpu.skipping)
    (hvector : (Memory.readWord cpu.memory (cpu.vector cpu.message)).1 = handler)
    (hhandler : handler ≠ 0)
    (hleave : Instruction.opcode (Memory.readWord cpu.service.memory handler).1 = 0x02) :
    let entered := cpu.service
    let left := entered.step.2
    (entered.pc = handler ∧ entered.get 0 = cpu.message.setWidth 32 ∧ entered.flag .inService) ∧
    entered.step.1 = 3 ∧ entered.stepEvents = [.executed true false] ∧
    left.pc = cpu.pc ∧ left.registers = cpu.registers ∧
    left.latched = none ∧ ¬left.sleeping ∧ ¬left.skipping ∧
    ∀ a : Address, 8 ≤ (a - Address.ofWord (cpu.get .stack - 8)).toNat →
      left.memory.byte a = cpu.memory.byte a := by
  intro entered left
  let served := { cpu with pending := false, sleeping := false }
  have hentered : entered = served.enter cpu.message handler :=
    cpu.service_eq_enter hpending henabled hvector hhandler
  have hmessage : entered.get 0 = cpu.message.setWidth 32 := by
    rw [hentered]
    exact served.get_enter cpu.message handler 0
  have hflag : entered.flag .inService := by
    have hflags : entered.flags = cpu.flags.setFlag .inService true := by
      rw [hentered]
      exact served.get_enter cpu.message handler .flags
    rw [State.flag, hflags, Word.flag_setFlag, if_pos rfl]
  have hpc : entered.pc = handler := by rw [hentered]; rfl
  have hnext : Instruction.opcode entered.next = 0x02 := by rwa [next, hpc]
  have hstacked : entered.Stacked [cpu.get 0, cpu.pc] := by
    rw [hentered]
    exact served.stacked_enter cpu.message handler
  obtain ⟨hstep, hevents⟩ := entered.step_leave
    (by rw [hentered]; exact Bool.false_ne_true) (by rw [hentered]; exact hskipping)
    (by rw [hentered]; exact Bool.false_ne_true) hflag hnext hstacked
  have hleft : left = { entered.left (cpu.get 0) cpu.pc with
      waitCycles := 0, cycles := entered.cycles + 3 } := congrArg Prod.snd hstep
  refine ⟨⟨hpc, hmessage, hflag⟩, congrArg Prod.fst hstep, hevents, ?_⟩
  rw [hleft, hentered]
  refine ⟨rfl, served.registers_left_enter cpu.message handler hservice, rfl,
    Bool.false_ne_true, hskipping, fun a ha => ?_⟩
  exact served.byte_enter cpu.message handler ha

/-- The stack wraps around both ends of memory, and the handler is the saved address itself,
read as an instruction. -/
theorem resumes_where_interrupted_wrapping :
    let cpu : Processor FlatMemory := {
      registers := (((Registers.zero.set 0 77).set .vectors 0x40).set .flags 0x301).set .stack 2
      pc := 0x02100004, waitCycles := 5, cycles := 9, message := 0x107
      pending := true, skipping := false, sleeping := true
      memory := Memory.writeWord FlatMemory.zero 0x5C 0xFFFFFFFE }
    let entered := cpu.service
    let left := entered.step.2
    (cpu.pending ∧ cpu.flag .enabled ∧ ¬cpu.flag .inService ∧ ¬cpu.skipping) ∧
      (Memory.readWord cpu.memory (cpu.vector cpu.message)).1 = 0xFFFFFFFE ∧
      (Memory.readWord entered.memory 0xFFFFFFFE).1 = 0x02100004 ∧
      entered.pc = 0xFFFFFFFE ∧ entered.get 0 = 0x107 ∧
      left.pc = 0x02100004 ∧ left.registers = cpu.registers ∧ left.latched = none ∧
      left.memory.byte 0x5C = 0xFE := by
  intro cpu entered left
  have hvector : (Memory.readWord cpu.memory (cpu.vector cpu.message)).1 = 0xFFFFFFFE := by decide
  have hword : (Memory.readWord entered.memory 0xFFFFFFFE).1 = 0x02100004 := by decide
  have hflags : cpu.pending ∧ cpu.flag .enabled ∧ ¬cpu.flag .inService ∧ ¬cpu.skipping := by decide
  obtain ⟨hpending, henabled, hservice, hskipping⟩ := hflags
  obtain ⟨⟨hpc, hmessage, -⟩, -, -, hleft, hregisters, hlatched, -, -, hbyte⟩ :=
    cpu.resumes_where_interrupted 0xFFFFFFFE hpending henabled hservice hskipping hvector
      (by decide) (by rw [hword]; decide)
  exact ⟨⟨hpending, henabled, hservice, hskipping⟩, hvector, hword, hpc, hmessage, hleft,
    hregisters, hlatched, (hbyte 0x5C (by decide)).trans (by decide)⟩

end Microcomputer.Processor
