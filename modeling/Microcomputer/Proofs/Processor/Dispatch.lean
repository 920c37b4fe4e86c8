import Microcomputer.Proofs.Processor.Fetch
import Microcomputer.Proofs.Processor.Granularity

/-! Dispatch and the opcode table. The table lists the opcode bytes, their mnemonics and their
costs; dispatch chooses an operation for a byte, and the operation decides whether it takes its
operand. The two are apart, and they agree: `dispatch_agrees_with_table`. -/

namespace Microcomputer

/-! ### The entry of an operation -/

namespace Operation

def mnemonic : Operation → String
  | sleep => "SLEEP"
  | ret => "RET"
  | leave => "RFI"
  | exchange .lowBytes => "XCHGB"
  | exchange .halves => "XCHGW"
  | locate => "GETPC"
  | pop => "POP"
  | push => "PUSH"
  | jump .relative => "RJMP"
  | jump .absolute | jump .indexed => "JMP"
  | call .relative => "RCALL"
  | call .absolute | call .indexed => "CALL"
  | interrupt => "INT"
  | readSpecial .flags => "GETF"
  | readSpecial .secondary => "GETY"
  | readSpecial .vectors => "GETIA"
  | writeSpecial .flags => "SETF"
  | writeSpecial .secondary => "SETY"
  | writeSpecial .vectors => "SETIA"
  | convert .copy => "MOV"
  | convert .complement => "NOT"
  | convert .extendByte => "SIGXB"
  | convert .extendHalf => "SIGXH"
  | swap => "SWP"
  | load .word _ => "LOAD"
  | load .half _ => "LOADH"
  | load .byte _ => "LOADB"
  | store .word _ => "STORE"
  | store .half _ => "STOREH"
  | store .byte _ => "STOREB"
  | test .equal => "IFEQ"
  | test .notEqual => "IFNEQ"
  | test .less => "IFL"
  | test .lessSigned => "IFSL"
  | test .lessEqual => "IFLE"
  | test .lessEqualSigned => "IFSLE"
  | test .greater => "IFG"
  | test .greaterSigned => "IFSG"
  | test .greaterEqual => "IFGE"
  | test .greaterEqualSigned => "IFSGE"
  | test .commonBits => "IFBITS"
  | test .noCommonBits => "IFCLEAR"
  | compute .and => "AND"
  | compute .or => "OR"
  | compute .xor => "XOR"
  | compute .andNot => "BITC"
  | compute .add => "ADD"
  | compute .addCarry => "ADDC"
  | compute .sub => "SUB"
  | compute .subBorrow => "SUBB"
  | compute .reverseSub => "RSB"
  | compute .reverseSubBorrow => "RSBB"
  | compute .shiftLeft => "LLS"
  | compute .shiftRight => "RLS"
  | compute .shiftRightSigned => "ARS"
  | compute .rotateLeft => "ROTL"
  | compute .rotateRight => "ROTR"
  | compute .mul => "MUL"
  | compute .mulSigned => "SMUL"
  | compute .div => "DIV"
  | compute .divSigned => "SDIV"

/-- Cycles beside the surcharges. -/
def cycles : Operation → Nat
  | compute .mul | compute .mulSigned => Instruction.Opcode.multiplication
  | compute .div | compute .divSigned => Instruction.Opcode.division
  | _ => Instruction.Opcode.ordinary

/-- Operations that write the register which their last operand names. -/
def writesOperand : Operation → Bool
  | exchange _ | locate | pop | readSpecial _ | swap => true
  | _ => false

/-- The mnemonics of the operations that write their operand. -/
def registerOnly : List String :=
  ["SWP", "POP", "XCHGB", "XCHGW", "GETPC", "GETF", "GETY", "GETIA"]

theorem mnemonic_mem_registerOnly_iff (op : Operation) :
    op.mnemonic ∈ registerOnly ↔ op.writesOperand := by
  cases op with
  | exchange e => cases e <;> decide
  | readSpecial r | writeSpecial r => cases r <;> decide
  | jump t | call t => cases t <;> decide
  | convert c | test c => cases c <;> decide
  | load w a | store w a => cases w <;> cases a <;> decide
  | compute f => cases f <;> decide
  | _ => decide

end Operation

namespace Instruction.Opcode

/-- The table lists every byte that has an operation. -/
theorem mem_table_of_operation (c : Byte) :
    (Operation.ofOpcode? c).isSome → c ∈ table.map Prod.fst := by
  revert c
  decide +kernel

/-- What the table lists is named after its operation. -/
theorem operation_of_mem_table :
    ∀ e ∈ table, (Operation.ofOpcode? e.1).map (fun op => (op.mnemonic, op.cycles)) = some e.2 :=
  List.map_inj_left.mp rfl

/-- The entry of a byte is that of its operation. -/
theorem entry_eq (c : Byte) :
    entry c =
      match Operation.ofOpcode? c with
      | some op => ⟨op.mnemonic, .ofOpcode c, op.cycles, true⟩
      | none => ⟨"???", .ofOpcode c, missed, false⟩ := by
  unfold entry
  cases hlookup : table.lookup c with
  | none =>
    have hnone : Operation.ofOpcode? c = none := by
      refine Option.not_isSome_iff_eq_none.mp fun hsome => ?_
      obtain ⟨e, he, rfl⟩ := List.mem_map.mp (mem_table_of_operation c hsome)
      exact absurd (List.lookup_eq_none_iff.mp hlookup e he) (by simp)
    rw [hnone]
  | some listed =>
    obtain ⟨before, after, htable, -⟩ := List.lookup_eq_some_iff.mp hlookup
    have hmap := operation_of_mem_table (c, listed) (by simp [htable])
    obtain ⟨op, hop, rfl⟩ := Option.map_eq_some_iff.mp hmap
    rw [show Operation.ofOpcode? c = some op from hop]

/-- What writes its operand has one, and so has a literal bit. -/
theorem literalWidth_of_writesOperand (c : Byte) :
    (Operation.ofOpcode? c).any Operation.writesOperand →
      (Format.ofOpcode c).literalWidth.isSome := by
  revert c
  decide +kernel

end Instruction.Opcode

/-! ### How operations end -/

namespace Processor

variable {M : Type} [Memory M] (cpu : Processor M) {op : Operation} {d s : Reg} {x : Operand}

theorem perform_missed_iff :
    (cpu.perform op d s x).1 = .missed ↔ op.writesOperand ∧ ∃ v, x = .literal v := by
  cases op with
  | exchange | locate | pop | readSpecial | swap =>
    cases x <;> simp [perform, modify, Operation.writesOperand]
  | test c =>
    simp only [perform]
    split <;> simp [Operation.writesOperand]
  | _ => simp [perform, Operation.writesOperand]

theorem perform_of_missed (h : (cpu.perform op d s x).1 = .missed) :
    (cpu.perform op d s x).2 = cpu := by
  obtain ⟨hop, v, rfl⟩ := cpu.perform_missed_iff.mp h
  cases op with
  | exchange | locate | pop | readSpecial | swap => rfl
  | _ => cases hop

theorem perform_armed_iff :
    (cpu.perform op d s x).1 = .armed ↔
      ∃ c, op = .test c ∧ ¬c.holds (cpu.get d) (x.value cpu.registers) := by
  cases op with
  | exchange | locate | pop | readSpecial | swap => cases x <;> simp [perform, modify]
  | test c => simp only [perform]; split <;> simp_all
  | _ => simp [perform]

/-- Only a condition arms the skip. -/
theorem skipping_perform_of_ne (h : ∀ c, op ≠ .test c) :
    (cpu.perform op d s x).2.skipping = cpu.skipping := by
  cases op with
  | test c => exact absurd rfl (h c)
  | interrupt =>
    simp only [perform, offer]
    split <;> rfl
  | compute f =>
    obtain ⟨registers, hcommit⟩ :=
      cpu.exists_commit d (f.outcome cpu.flags (cpu.get s) (x.value cpu.registers))
    simp only [perform, hcommit]
  | exchange | locate | pop | readSpecial | swap => cases x <;> rfl
  | _ => rfl

theorem skipping_perform :
    (cpu.perform op d s x).2.skipping ↔ cpu.skipping ∨ (cpu.perform op d s x).1 = .armed := by
  by_cases h : ∃ c, op = .test c
  · obtain ⟨c, rfl⟩ := h
    simp only [perform]
    split <;> simp
  · have hne (c : Condition) : op ≠ .test c := fun hop => h ⟨c, hop⟩
    have hdone : ¬(cpu.perform op d s x).1 = .armed := fun harmed => by
      obtain ⟨c, hop, -⟩ := cpu.perform_armed_iff.mp harmed
      exact hne c hop
    rw [cpu.skipping_perform_of_ne hne]
    simp [hdone]

/-! ### Fetching the operand -/

theorem registers_fetchOperand (w : Word) : (cpu.fetchOperand w).2.registers = cpu.registers := by
  unfold fetchOperand
  split <;> rfl

theorem get_fetchOperand (w : Word) (r : Reg) : (cpu.fetchOperand w).2.get r = cpu.get r :=
  congrArg (·.get r) (cpu.registers_fetchOperand w)

/-- What fetching the last operand leaves: of memory, what reading an extended literal makes of
it. -/
theorem fetchOperand_snd (w : Word) :
    (cpu.fetchOperand w).2 =
      { cpu with
        pc := cpu.pc + BitVec.ofNat 32 (Instruction.length w)
        memory := if Instruction.isExtended w then (Memory.readWord cpu.memory (cpu.pc + 4)).2
          else cpu.memory } := by
  unfold fetchOperand Instruction.length
  split <;> rfl

/-- In a format that has a literal bit, the bit tells a literal from a register. -/
theorem fetchOperand_literal_iff {w : Word} (h : (Instruction.format w).literalWidth.isSome) :
    (∃ v, (cpu.fetchOperand w).1 = .literal v) ↔ w.getLsbD 23 := by
  obtain ⟨n, hn⟩ := Option.isSome_iff_exists.mp h
  have hbit : Instruction.hasLiteral w = w.getLsbD 23 := by simp [Instruction.hasLiteral, hn]
  unfold fetchOperand
  by_cases hext : Instruction.isExtended w
  · have hset : w.getLsbD 23 := by
      simp only [Instruction.isExtended, Bool.and_eq_true, hbit] at hext
      exact hext.1
    simp [hext, hset]
  · rw [if_neg hext, Instruction.operand?, if_neg hext, hn, hbit]
    cases w.getLsbD 23 <;> simp

/-! ### The two agree -/

variable {cpu} {w : Word}

theorem outcome_of_ofOpcode? (h : Operation.ofOpcode? (Instruction.opcode w) = some op) :
    cpu.outcome w = (cpu.fetchOperand w).2.perform op (Instruction.destination w)
      (Instruction.source w) (cpu.fetchOperand w).1 := by
  rw [outcome, carryOut, h]

theorem outcome_of_undefined (h : Operation.ofOpcode? (Instruction.opcode w) = none) :
    cpu.outcome w = (.missed, (cpu.fetchOperand w).2) := by
  rw [outcome, carryOut, h]

theorem outcome_missed_iff :
    (cpu.outcome w).1 = .missed ↔
      ∀ op, Operation.ofOpcode? (Instruction.opcode w) = some op →
        op.writesOperand ∧ w.getLsbD 23 := by
  cases hop : Operation.ofOpcode? (Instruction.opcode w) with
  | none => simp [outcome_of_undefined hop]
  | some op =>
    have hliteral (h : op.writesOperand) := (cpu.fetchOperand_literal_iff (w := w)
      (Instruction.Opcode.literalWidth_of_writesOperand _ (by simpa [hop] using h)))
    rw [outcome_of_ofOpcode? hop, perform_missed_iff]
    simp only [Option.some.injEq, forall_eq']
    exact and_congr_right hliteral

/-- A miss does nothing. -/
theorem outcome_of_missed (h : (cpu.outcome w).1 = .missed) :
    (cpu.outcome w).2 = (cpu.fetchOperand w).2 := by
  cases hop : Operation.ofOpcode? (Instruction.opcode w) with
  | none => rw [outcome_of_undefined hop]
  | some op =>
    rw [outcome_of_ofOpcode? hop] at h ⊢
    exact perform_of_missed _ h

theorem outcome_armed_iff :
    (cpu.outcome w).1 = .armed ↔
      ∃ c, Operation.ofOpcode? (Instruction.opcode w) = some (.test c) ∧
        ¬c.holds (cpu.get (Instruction.destination w))
          ((cpu.fetchOperand w).1.value cpu.registers) := by
  cases hop : Operation.ofOpcode? (Instruction.opcode w) with
  | none => simp [outcome_of_undefined hop]
  | some op =>
    rw [outcome_of_ofOpcode? hop, perform_armed_iff]
    simp only [Option.some.injEq, get, registers_fetchOperand]

theorem skipping_outcome :
    (cpu.outcome w).2.skipping ↔ cpu.skipping ∨ (cpu.outcome w).1 = .armed := by
  have hfetch : (cpu.fetchOperand w).2.skipping = cpu.skipping := by rw [fetchOperand_snd]
  cases hop : Operation.ofOpcode? (Instruction.opcode w) with
  | none => simp [outcome_of_undefined hop, hfetch]
  | some op => rw [outcome_of_ofOpcode? hop, skipping_perform, hfetch]

theorem readWord_snd_of_readByte {m : M} (h : ∀ a, (Memory.readByte m a).2 = m) (a : Word) :
    (Memory.readWord m a).2 = m := by
  have hbytes (n : Nat) (a : Word) : (Memory.readBytes n m a).2 = m := by
    induction n generalizing a with
    | zero => rfl
    | succ n ih => simp only [Memory.readBytes, h, ih]
  exact hbytes 4 a

/-- An instruction word misses if and only if the table does not have its opcode, or its literal
bit is set where a register is written. A miss moves the program counter past the instruction and
does nothing else but read an extended literal, which can show only in a memory that reacts to
being read; it costs one cycle, and one for that literal. Every other instruction costs what the
table says, one more for an extended literal, and one more if it is a condition that does not
hold, which alone arms the skip. -/
theorem dispatch_agrees_with_table (cpu : Processor M) (w : Word) :
    let entry := Instruction.Opcode.entry (Instruction.opcode w)
    let surcharge := if Instruction.isExtended w then 1 else 0
    let past := cpu.pc + BitVec.ofNat 32 (Instruction.length w)
    let ending := (cpu.outcome w).1
    (ending = .missed ↔
      ¬entry.defined ∨ w.getLsbD 23 ∧ entry.mnemonic ∈ Operation.registerOnly) ∧
    (ending = .missed → cpu.execute w = (1 + surcharge,
      { cpu with
        pc := past
        memory := if Instruction.isExtended w then (Memory.readWord cpu.memory (cpu.pc + 4)).2
          else cpu.memory })) ∧
    (ending = .missed → (∀ a, (Memory.readByte cpu.memory a).2 = cpu.memory) →
      (cpu.execute w).2 = { cpu with pc := past }) ∧
    (ending ≠ .missed →
      (cpu.execute w).1 = entry.cycles + surcharge + if ending = .armed then 1 else 0) ∧
    (ending = .armed ↔ ∃ c, Operation.ofOpcode? (Instruction.opcode w) = some (.test c) ∧
      ¬c.holds (cpu.get (Instruction.destination w))
        ((cpu.fetchOperand w).1.value cpu.registers)) ∧
    ((cpu.execute w).2.skipping ↔ cpu.skipping ∨ ending = .armed) := by
  intro entry surcharge past ending
  have hmiss (h : ending = .missed) : cpu.execute w = (1 + surcharge, (cpu.fetchOperand w).2) := by
    rw [execute_eq_outcome, show (cpu.outcome w).1 = .missed from h, outcome_of_missed h]
    rfl
  refine ⟨?_, fun h => ?_, fun h hread => ?_, fun h => ?_, outcome_armed_iff, ?_⟩
  · refine outcome_missed_iff.trans ?_
    have hentry := Instruction.Opcode.entry_eq (Instruction.opcode w)
    cases hop : Operation.ofOpcode? (Instruction.opcode w) with
    | none => simp [entry, hentry, hop]
    | some op => simp [entry, hentry, hop, op.mnemonic_mem_registerOnly_iff, and_comm]
  · rw [hmiss h, fetchOperand_snd]
  · rw [hmiss h, fetchOperand_snd]
    simp only [readWord_snd_of_readByte hread, ite_self]
    rfl
  · rw [execute_eq_outcome]
    change cost w ending + surcharge = _
    cases hending : ending with
    | missed => exact absurd hending h
    | done => rfl
    | armed => simp [cost, entry]; omega
  · rw [execute_eq_outcome]
    exact skipping_outcome

/-- At the end of the address range, POP with an extended literal misses and only moves the
program counter, which wraps; a condition that does not hold costs one cycle more than the table
says. -/
theorem dispatch_agrees_with_table_pop :
    let cpu : Processor FlatMemory := { Processor.new FlatMemory.zero with pc := 0xFFFFFFFC }
    (cpu.outcome 0x13C00000).1 = .missed ∧ (cpu.execute 0x13C00000).1 = 2 ∧
      (cpu.execute 0x13C00000).2 = { cpu with pc := 4 } ∧
      (cpu.outcome 0x2B840005).1 ≠ .missed ∧ (cpu.execute 0x2B840005).1 = 3 + 0 + 1 := by
  intro cpu
  obtain ⟨-, hcost, hmiss, -⟩ := cpu.dispatch_agrees_with_table 0x13C00000
  obtain ⟨-, -, -, htaken, -⟩ := cpu.dispatch_agrees_with_table 0x2B840005
  have hpop : (cpu.outcome 0x13C00000).1 = .missed := by decide
  have hcondition : (cpu.outcome 0x2B840005).1 ≠ .missed := by decide
  have hpc : cpu.pc + BitVec.ofNat 32 (Instruction.length 0x13C00000) = 4 := by decide
  rw [hpc] at hmiss
  exact ⟨hpop, congrArg Prod.fst (hcost hpop), hmiss hpop fun _ => rfl, hcondition,
    htaken hcondition⟩

end Processor

end Microcomputer
