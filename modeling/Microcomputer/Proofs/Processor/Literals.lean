import Microcomputer.Proofs.Instruction.Encoding
import Microcomputer.Proofs.Processor.Fetch

/-! Literals in the instruction word and literals behind it. An instruction whose literal fits
its word can be written either way, and it means the same: `extended_eq_inline`. Only the
length of the instruction differs, and one cycle. -/

namespace Microcomputer

namespace Instruction

/-! ### Two ways to write a literal -/

/-- An instruction in the form of its opcode, with the fields that this form has. -/
def ofFields (c : Byte) (d s : Nat) (a : Argument) : Instruction :=
  match Format.ofOpcode c with
  | .three => .three c d s a
  | .two => .two c d a
  | .one => .one c a
  | .zero => .zero c

variable {c : Byte} {d s n : Nat} {v : Word}

theorem formed_ofFields (c : Byte) (d s : Nat) (a : Argument) : (ofFields c d s a).Formed := by
  cases h : Format.ofOpcode c <;> simp [ofFields, h, Formed, code, form]

theorem stands_ofFields (hn : (Format.ofOpcode c).literalWidth = some n) (a : Argument)
    (w : Word) (rest : List Word) :
    (ofFields c d s a).Stands w rest ↔ a.Stands n w rest := by
  cases h : Format.ofOpcode c <;> rw [h] at hn <;> cases hn <;> simp [ofFields, h, Stands]

/-- A literal is read as the same operand, however it is written. -/
theorem reading_ofFields (c : Byte) (d s : Nat) (v : Word) :
    (ofFields c d s (.literal v)).reading = (ofFields c d s (.extended v)).reading := by
  unfold ofFields
  split <;> rfl

/-- Two words that say the same, one with the literal `v` and one with the escape in its place. -/
structure Twins (v short long : Word) : Prop where
  opcode_eq : opcode long = opcode short
  destination_eq : destination long = destination short
  source_eq : source long = source short
  operand?_eq : operand? short = some (.literal v)
  isExtended_short : isExtended short = false
  isExtended_long : isExtended long

theorem exists_twins (hn : (Format.ofOpcode c).literalWidth = some n)
    (hv : Argument.fits n v) :
    ∃ short long, (ofFields c d s (.literal v)).words = [short] ∧
      (ofFields c d s (.extended v)).words = [long, v] ∧ Twins v short long := by
  obtain ⟨short, rest, hwords, hstands, hread⟩ := exists_words (formed_ofFields c d s (.literal v))
  obtain ⟨long, rest', hwords', hstands', hread'⟩ :=
    exists_words (formed_ofFields c d s (.extended v))
  rw [stands_ofFields hn] at hstands hstands'
  rw [Argument.Stands, if_pos (Argument.fits_iff.mp hv)] at hstands
  obtain ⟨hshort, hoperand, rfl⟩ := hstands
  obtain ⟨hlong, -, rfl⟩ := hstands'
  have hsame := (hread'.trans (reading_ofFields c d s v).symm).trans hread.symm
  refine ⟨short, long, hwords, hwords', ?_, ?_, ?_, hoperand, hshort, hlong⟩
  · exact congrArg Reading.opcode hsame
  · exact congrArg Reading.destination hsame
  · exact congrArg Reading.source hsame

end Instruction

namespace Processor

open Instruction (ofFields Twins)

/-! ### Execution -/

variable (cpu : Processor FlatMemory) {v short long : Word}

theorem fetchOperand_eq_of_twins (h : Twins v short long)
    (hword : (Memory.readWord cpu.memory (cpu.pc + 4)).1 = v) :
    cpu.fetchOperand long = { cpu with pc := cpu.pc + 4 }.fetchOperand short := by
  have hlong : Instruction.length long = 8 := if_pos h.isExtended_long
  have hshort : Instruction.length short = 4 := by
    rw [Instruction.length, h.isExtended_short, if_neg Bool.false_ne_true]
  have hoperand : cpu.operand long = .literal v := by
    rw [operand, if_pos h.isExtended_long, hword]
  have hoperand' : { cpu with pc := cpu.pc + 4 }.operand short = .literal v := by
    rw [operand, h.isExtended_short, if_neg Bool.false_ne_true, h.operand?_eq]
    rfl
  rw [fetchOperand_eq, fetchOperand_eq, hoperand, hoperand', hlong, hshort, BitVec.add_assoc]
  rfl

theorem outcome_eq_of_twins (h : Twins v short long)
    (hword : (Memory.readWord cpu.memory (cpu.pc + 4)).1 = v) :
    cpu.outcome long = { cpu with pc := cpu.pc + 4 }.outcome short := by
  rw [outcome, outcome, cpu.fetchOperand_eq_of_twins h hword, carryOut, carryOut, h.opcode_eq,
    h.destination_eq, h.source_eq]

theorem execute_eq_of_twins (h : Twins v short long)
    (hword : (Memory.readWord cpu.memory (cpu.pc + 4)).1 = v) :
    cpu.execute long =
      ((({ cpu with pc := cpu.pc + 4 }.execute short).1 + 1),
        ({ cpu with pc := cpu.pc + 4 }.execute short).2) := by
  have hcost (completion : Completion) : cost long completion = cost short completion := by
    cases completion <;> simp only [cost, h.opcode_eq]
  rw [execute_eq_outcome, execute_eq_outcome, cpu.outcome_eq_of_twins h hword, hcost,
    if_pos h.isExtended_long, h.isExtended_short]
  rfl

/-- An instruction whose literal fits its word may be written with the literal there or behind
it. From the address before, the longer form ends like the shorter one, in the same state and
with the same memory, and costs one cycle more; and so it is with the trap and the interrupt
that may follow. -/
theorem extended_eq_inline (c : Byte) (d s : Nat) {n : Nat}
    (hn : (Instruction.Format.ofOpcode c).literalWidth = some n) (hv : Argument.fits n v)
    (hword : (Memory.readWord cpu.memory (cpu.pc + 4)).1 = v) :
    ∃ short long, (ofFields c d s (.literal v)).words = [short] ∧
      (ofFields c d s (.extended v)).words = [long, v] ∧
      let ahead := { cpu with pc := cpu.pc + 4 }
      cpu.outcome long = ahead.outcome short ∧
      cpu.execute long = ((ahead.execute short).1 + 1, (ahead.execute short).2) ∧
      cpu.turn long = ((ahead.turn short).1 + 1, (ahead.turn short).2) := by
  obtain ⟨short, long, hshort, hlong, htwins⟩ := Instruction.exists_twins hn hv
  have hexecute := cpu.execute_eq_of_twins htwins hword
  refine ⟨short, long, hshort, hlong, cpu.outcome_eq_of_twins htwins hword, hexecute, ?_⟩
  simp only [turn, hexecute]
  rfl

/-- A call back to the instruction itself, with the distance written behind it: the return
address is the same, and so is the target. -/
theorem extended_eq_inline_call :
    let cpu : Processor FlatMemory := {
      registers := Registers.zero.set .stack 0x1000, pc := 0x2000
      waitCycles := 0, cycles := 0, message := 0
      pending := false, skipping := false, sleeping := false
      memory := Memory.writeWord FlatMemory.zero 0x2004 0xFFFFFFF8 }
    let left := ({ cpu with pc := 0x2004 }.execute 0x18FFFFF8).2
    (Instruction.Format.ofOpcode 0x18).literalWidth = some 23 ∧ Argument.fits 23 0xFFFFFFF8 ∧
      (Memory.readWord cpu.memory (cpu.pc + 4)).1 = 0xFFFFFFF8 ∧
      cpu.execute 0x18C00000 = (4, left) ∧ left.pc = 0x2000 ∧
      (Memory.readWord left.memory 0xFFC).1 = 0x2008 := by
  intro cpu left
  have hword : (Memory.readWord cpu.memory (cpu.pc + 4)).1 = 0xFFFFFFF8 := by decide
  have hfits : Argument.fits 23 0xFFFFFFF8 := by decide
  obtain ⟨short, long, hshort, hlong, -, hexecute, -⟩ :=
    cpu.extended_eq_inline 0x18 0 0 rfl hfits hword
  have hinline : [short] = [0x18FFFFF8] := hshort.symm.trans (by decide)
  have hextended : [long, 0xFFFFFFF8] = [0x18C00000, 0xFFFFFFF8] := hlong.symm.trans (by decide)
  obtain rfl : short = 0x18FFFFF8 := (List.cons.inj hinline).1
  obtain rfl : long = 0x18C00000 := (List.cons.inj hextended).1
  have hcost : ({ cpu with pc := 0x2004 }.execute 0x18FFFFF8).1 + 1 = 4 := by decide
  refine ⟨rfl, hfits, hword, ?_, by decide, by decide⟩
  rw [← hcost]
  exact hexecute

end Processor

end Microcomputer
