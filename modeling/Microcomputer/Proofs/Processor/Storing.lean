import Microcomputer.Proofs.Memory.ByteStore
import Microcomputer.Proofs.Processor.Computation

/-! Loads and stores. However stores of all widths overlap and wherever their addresses wrap,
memory is one store of bytes: a load composes the bytes that were stored last at its addresses,
over flat memory everywhere and over a memory map in RAM: `loads_last_stored`. -/

namespace Microcomputer

open Memory (ByteStore placed spread writeEach)

/-- Where a load or store finds its address. -/
def Operation.addressing? : Operation → Option Addressing
  | load _ a | store _ a => some a
  | _ => none

/-- An address is counted from a register where there are three operands. -/
theorem Instruction.format_of_addressing (c : Byte) :
    ((Operation.ofOpcode? c).bind Operation.addressing? = some .direct →
      Format.ofOpcode c = .two) ∧
    ((Operation.ofOpcode? c).bind Operation.addressing? = some .indexed →
      Format.ofOpcode c = .three) := by
  revert c
  decide +kernel

namespace Processor

variable {M : Type} [Memory M]

/-- The address that the load or store `w` uses: its last operand, which with three operands is
counted from the source register. -/
def address (cpu : Processor M) (w : Word) : Word :=
  match Instruction.format w with
  | .three => cpu.firstOperand w + cpu.secondOperand w
  | _ => cpu.secondOperand w

/-- The bytes that the store `w` of some width writes, with their addresses. -/
def stored (cpu : Processor M) (width : Width) (w : Word) : List (Word × Byte) :=
  spread width.bytes (cpu.address w) (cpu.get (Instruction.destination w))

section Execution

variable (cpu : Processor M) {w : Word} {width : Width} {a : Addressing}

theorem effectiveAddress_fetchOperand
    (h : (Operation.ofOpcode? (Instruction.opcode w)).bind Operation.addressing? = some a) :
    (cpu.fetchOperand w).2.effectiveAddress (Instruction.source w)
      ((cpu.fetchOperand w).1.value (cpu.fetchOperand w).2.registers) a = cpu.address w := by
  rw [registers_fetchOperand]
  change (cpu.fetchOperand w).2.effectiveAddress _ (cpu.secondOperand w) a = _
  obtain ⟨hdirect, hindexed⟩ := Instruction.format_of_addressing (Instruction.opcode w)
  cases a with
  | direct => rw [address, show Instruction.format w = .two from hdirect h, effectiveAddress]
  | indexed =>
    rw [address, show Instruction.format w = .three from hindexed h, effectiveAddress,
      get_fetchOperand, firstOperand]

/-- A store writes its bytes into the memory that fetching its operand leaves. -/
theorem memory_execute_store
    (h : Operation.ofOpcode? (Instruction.opcode w) = some (.store width a)) :
    (cpu.execute w).2.memory =
      writeEach (cpu.fetchOperand w).2.memory (cpu.stored width w) := by
  have haddressing : (Operation.ofOpcode? (Instruction.opcode w)).bind Operation.addressing? =
      some a := by rw [h]; rfl
  rw [execute_eq_outcome, outcome_of_ofOpcode? h]
  simp only [perform, store, cpu.effectiveAddress_fetchOperand haddressing, get_fetchOperand]
  exact Memory.writeBytes_eq_writeEach _ _ _ _

/-- A load reads its bytes from the memory that fetching its operand leaves. -/
theorem execute_load (h : Operation.ofOpcode? (Instruction.opcode w) = some (.load width a)) :
    let read := Memory.readBytes width.bytes (cpu.fetchOperand w).2.memory (cpu.address w)
    (cpu.execute w).2.get (Instruction.destination w) = LittleEndian.toWord 32 read.1 ∧
      (cpu.execute w).2.memory = read.2 := by
  have haddressing : (Operation.ofOpcode? (Instruction.opcode w)).bind Operation.addressing? =
      some a := by rw [h]; rfl
  rw [execute_eq_outcome, outcome_of_ofOpcode? h]
  simp only [perform, load, cpu.effectiveAddress_fetchOperand haddressing]
  exact ⟨(get_set _ _ _ _).trans (if_pos rfl), rfl⟩

end Execution

/-! ### Runs of stores -/

variable [ByteStore M]

/-- A processor executes stores, which write these bytes. Before, between and after them anything
happens that leaves the bytes of memory alone. -/
inductive Storing : Processor M → List (Word × Byte) → Processor M → Prop where
  | done {cpu cpu' : Processor M}
      (kept : ByteStore.byte? cpu'.memory = ByteStore.byte? cpu.memory) :
    Storing cpu [] cpu'
  | store {cpu before cpu' : Processor M} {w : Word} {width : Width} {a : Addressing}
      {ws : List (Word × Byte)}
      (kept : ByteStore.byte? before.memory = ByteStore.byte? cpu.memory)
      (function : Operation.ofOpcode? (Instruction.opcode w) = some (.store width a))
      (rest : Storing (before.execute w).2 ws cpu') :
      Storing cpu (before.stored width w ++ ws) cpu'

theorem byte?_fetchOperand (cpu : Processor M) (w : Word) :
    ByteStore.byte? (cpu.fetchOperand w).2.memory = ByteStore.byte? cpu.memory := by
  rw [fetchOperand_snd]
  dsimp only
  split
  · exact ByteStore.byte?_readBytes 4 cpu.memory _
  · rfl

/-- A byte is what was stored there last, or what it was before. -/
theorem Storing.byte?_memory {cpu cpu' : Processor M} {ws : List (Word × Byte)}
    (h : Storing cpu ws cpu') (i : Address) :
    ByteStore.byte? cpu'.memory i =
      (ByteStore.byte? cpu.memory i).map fun b => (lastAt? i (placed ws)).getD b := by
  induction h with
  | done kept =>
    rw [kept]
    exact (congrFun Option.map_id_fun' _).symm
  | @store cpu before cpu' w width a ws kept function rest ih =>
    rw [ih, before.memory_execute_store function, ByteStore.byte?_writeEach,
      byte?_fetchOperand, kept, Option.map_map, Memory.placed_append, lastAt?_append]
    refine Option.map_congr fun b _ => ?_
    cases lastAt? i (placed ws) <;> rfl

/-- A load composes bytes, and finds in memory those that there are. -/
theorem exists_bytes_of_load (cpu : Processor M) {w : Word} {width : Width} {a : Addressing}
    (h : Operation.ofOpcode? (Instruction.opcode w) = some (.load width a)) :
    ∃ bs : Bytes, bs.length = width.bytes ∧
      ((cpu.execute w).2.get (Instruction.destination w)).toNat = LittleEndian.decode bs ∧
      (∀ k < width.bytes, ∀ b,
        ByteStore.byte? cpu.memory (.ofWord (cpu.address w + BitVec.ofNat 32 k)) = some b →
          bs[k]? = some b) ∧
      ByteStore.byte? (cpu.execute w).2.memory = ByteStore.byte? cpu.memory := by
  obtain ⟨hget, hmemory⟩ := cpu.execute_load h
  have hlength := Memory.length_readBytes width.bytes (cpu.fetchOperand w).2.memory (cpu.address w)
  refine ⟨_, hlength, ?_, fun k hk b hb => ?_, ?_⟩
  · rw [hget, LittleEndian.toNat_toWord]
    rw [hlength]
    cases width <;> decide
  · exact ByteStore.getElem?_readBytes hk (by rwa [byte?_fetchOperand])
  · rw [hmemory, ByteStore.byte?_readBytes, byte?_fetchOperand]

/-- Loads and stores of all widths work on one store of bytes. After any stores every byte that
memory has is the one stored there last, or the one that was there before them, and a load
composes these bytes from all its addresses, low byte first, and changes none of them. In flat
memory there is a byte at each address, in a memory map there is one where the RAM has it. -/
theorem loads_last_stored :
    (∀ {cpu cpu' : Processor FlatMemory} {ws : List (Word × Byte)}, Storing cpu ws cpu' →
      let last (i : Address) := (lastAt? i (placed ws)).getD (cpu.memory.byte i)
      (∀ i, cpu'.memory.byte i = last i) ∧
      ∀ (w : Word) (width : Width) (a : Addressing),
        Operation.ofOpcode? (Instruction.opcode w) = some (.load width a) →
        ((cpu'.execute w).2.get (Instruction.destination w)).toNat =
          LittleEndian.decode ((List.range width.bytes).map fun k =>
            last (.ofWord (cpu'.address w + BitVec.ofNat 32 k))) ∧
        ∀ i, (cpu'.execute w).2.memory.byte i = last i) ∧
    ∀ {cpu cpu' : Processor MemoryMap} {ws : List (Word × Byte)}, Storing cpu ws cpu' →
      let last (i : Address) := (lastAt? i (placed ws)).getD (cpu.memory.ram.read i.toNat)
      (∀ i : Address, i.toNat < cpu.memory.ram.size → cpu'.memory.ramByte? i = some (last i)) ∧
      ∀ (w : Word) (width : Width) (a : Addressing),
        Operation.ofOpcode? (Instruction.opcode w) = some (.load width a) →
        (∃ bs : Bytes, bs.length = width.bytes ∧
          ((cpu'.execute w).2.get (Instruction.destination w)).toNat = LittleEndian.decode bs ∧
          ∀ k < width.bytes, ∀ i : Address, i = .ofWord (cpu'.address w + BitVec.ofNat 32 k) →
            i.toNat < cpu.memory.ram.size → bs[k]? = some (last i)) ∧
        ∀ i : Address, i.toNat < cpu.memory.ram.size →
          (cpu'.execute w).2.memory.ramByte? i = some (last i) := by
  constructor
  · intro cpu cpu' ws h last
    have hbyte (i : Address) : ByteStore.byte? cpu'.memory i = some (last i) := h.byte?_memory i
    refine ⟨fun i => Option.some.inj (hbyte i), fun w width a hw => ?_⟩
    obtain ⟨bs, hlength, hget, hbs, hmemory⟩ := cpu'.exists_bytes_of_load hw
    refine ⟨?_, fun i => Option.some.inj ((congrFun hmemory i).trans (hbyte i))⟩
    rw [hget]
    refine congrArg LittleEndian.decode (List.ext_getElem? fun k => ?_)
    by_cases hk : k < width.bytes
    · rw [hbs k hk _ (hbyte _), List.getElem?_map, List.getElem?_range hk]
      rfl
    · rw [List.getElem?_eq_none (by omega), List.getElem?_eq_none (by simpa using hk)]
  · intro cpu cpu' ws h last
    have hbyte (i : Address) (hi : i.toNat < cpu.memory.ram.size) :
        cpu'.memory.ramByte? i = some (last i) := by
      refine (h.byte?_memory i).trans ?_
      rw [show ByteStore.byte? cpu.memory i = some (cpu.memory.ram.read i.toNat) from if_pos hi]
      rfl
    refine ⟨hbyte, fun w width a hw => ?_⟩
    obtain ⟨bs, hlength, hget, hbs, hmemory⟩ := cpu'.exists_bytes_of_load hw
    refine ⟨⟨bs, hlength, hget, fun k hk i hi hlt => hbs k hk _ ?_⟩,
      fun i hi => (congrFun hmemory i).trans (hbyte i hi)⟩
    rw [← hi]
    exact hbyte i hlt

/-- A word is stored around the end of flat memory and one of its bytes replaced; then a half is
loaded into the register that its address is counted from. In a map a half is stored across the
end of RAM. -/
theorem loads_last_stored_straddling :
    (let cpu : Processor FlatMemory := { Processor.new FlatMemory.zero with
        registers := ((Registers.zero.set 1 0x44332211).set 2 0xFFFFFFFE).set 3 0xAA }
      let cpu' := ((cpu.execute 0x56844001).2.execute 0x2A8C0000).2
      Storing cpu (cpu.stored .word 0x56844001 ++
          ((cpu.execute 0x56844001).2.stored .byte 0x2A8C0000 ++ [])) cpu' ∧
        (cpu'.execute 0x54884001).2.get 2 = 0xAA11 ∧ cpu'.memory.byte 1 = 0x33) ∧
    (let cpu : Processor MemoryMap := { Processor.new (MemoryMap.new 2 ⟨#[]⟩) with
        registers := Registers.zero.set 1 0x44332211 }
      let cpu' := (cpu.execute 0x29840001).2
      Storing cpu (cpu.stored .half 0x29840001 ++ []) cpu' ∧
        (∃ bs : Bytes, bs.length = 4 ∧ bs[0]? = some 0 ∧ bs[1]? = some 0x11 ∧
          ((cpu'.execute 0x25900000).2.get 4).toNat = LittleEndian.decode bs) ∧
        (cpu'.execute 0x25900000).2.memory.ramByte? 1 = some 0x11) := by
  constructor
  · intro cpu cpu'
    have h : Storing cpu (cpu.stored .word 0x56844001 ++
        ((cpu.execute 0x56844001).2.stored .byte 0x2A8C0000 ++ [])) cpu' :=
      .store rfl rfl (.store rfl rfl (.done rfl))
    obtain ⟨hbyte, hload⟩ := loads_last_stored.1 h
    refine ⟨h, BitVec.eq_of_toNat_eq ?_, ?_⟩
    · rw [show (2 : Reg) = Instruction.destination 0x54884001 by decide, (hload _ _ _ rfl).1]
      decide
    · rw [hbyte]
      decide
  · intro cpu cpu'
    have h : Storing cpu (cpu.stored .half 0x29840001 ++ []) cpu' := .store rfl rfl (.done rfl)
    obtain ⟨-, hload⟩ := loads_last_stored.2 h
    obtain ⟨⟨bs, hlength, hget, hbs⟩, hram⟩ := hload 0x25900000 _ _ rfl
    refine ⟨h, ⟨bs, hlength, ?_, ?_, hget⟩, ?_⟩
    · rw [hbs 0 (by decide) 0 (by decide) (by decide)]
      decide
    · rw [hbs 1 (by decide) 1 (by decide) (by decide)]
      decide
    · rw [hram 1 (by decide)]
      decide

end Processor

end Microcomputer
