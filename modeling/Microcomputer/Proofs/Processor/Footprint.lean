import Microcomputer.Proofs.Processor.Handler

/-! What an instruction may change beside the program counter. The footprint of an instruction
is read off its operation and its operands, before it is executed; whatever registers the
operands name, special ones too, and wherever addresses wrap, execution stays inside it:
`execute_within_footprint`. -/

namespace Microcomputer

/-- The places that an instruction may change. The flags register can be there as a whole,
among the registers, or bit by bit. -/
structure Footprint where
  registers : List Reg := []
  flags : List Flag := []
  /-- The address of the first byte of memory, and how many bytes there are. -/
  start : Word := 0
  count : Nat := 0
  latch : Bool := false
  sleep : Bool := false
  skip : Bool := false

/-! ### The footprint of each operation -/

namespace Arithmetic

/-- Registers beside the destination. -/
def registers : Arithmetic → List Reg
  | mul | mulSigned | div | divSigned => [.secondary]
  | _ => []

def flags : Arithmetic → List Flag
  | add | addCarry | sub | subBorrow | reverseSub | reverseSubBorrow => [.carry, .overflow]
  | div | divSigned => [.divideError]
  | _ => []

end Arithmetic

/-- What an operation touches that writes the register which its last operand names. With a
literal there it does nothing. -/
def Operand.touching (x : Operand) (registers : Reg → List Reg) : Footprint :=
  match x with
  | .register r => { registers := registers r }
  | .literal _ => {}

/-- What an operation with destination field `d`, source field `s` and last operand `x` may
change of the processor `cpu`. -/
def Operation.footprint (op : Operation) (cpu : Processor FlatMemory) (d s : Reg) (x : Operand) :
    Footprint :=
  let value := x.value cpu.registers
  match op with
  | .sleep => { sleep := true }
  | .ret => { registers := [.stack] }
  | .leave => { registers := [.stack, 0], flags := [.inService] }
  | .exchange _ | .locate | .readSpecial _ => x.touching fun r => [r]
  | .pop => x.touching fun r => [.stack, r]
  | .push | .call _ => { registers := [.stack], start := cpu.get .stack - 4, count := 4 }
  | .jump _ => {}
  | .interrupt => { latch := true }
  | .writeSpecial r => { registers := [r.register] }
  | .convert _ | .load _ _ => { registers := [d] }
  | .swap => x.touching fun r => [d, r]
  | .store w a => { start := cpu.effectiveAddress s value a, count := w.bytes }
  | .test c => { skip := !c.holds (cpu.get d) value }
  | .compute f => { registers := d :: f.registers, flags := f.flags }

/-- What the instruction word `w` at the program counter may change. An undefined opcode
changes nothing. -/
def Processor.footprint (cpu : Processor FlatMemory) (w : Word) : Footprint :=
  match Operation.ofOpcode? (Instruction.opcode w) with
  | some op =>
    op.footprint cpu (Instruction.destination w) (Instruction.source w) (cpu.operand w)
  | none => {}

/-! ### Staying inside a footprint -/

namespace Footprint

/-- Two processors differ inside a footprint at most, their program counters apart. -/
structure Covers (f : Footprint) (cpu cpu' : Processor FlatMemory) : Prop where
  get_eq : ∀ r, r ∉ f.registers → r ≠ .flags → cpu'.get r = cpu.get r
  getLsbD_flags : .flags ∉ f.registers → ∀ i, (∀ g ∈ f.flags, g.bit ≠ i) →
    cpu'.flags.getLsbD i = cpu.flags.getLsbD i
  byte_eq : ∀ a : Address, f.count ≤ (a - Address.ofWord f.start).toNat →
    cpu'.memory.byte a = cpu.memory.byte a
  latch_eq : ¬f.latch → cpu'.pending = cpu.pending ∧ cpu'.message = cpu.message
  sleeping_eq : ¬f.sleep → cpu'.sleeping = cpu.sleeping
  skipping_eq : ¬f.skip → cpu'.skipping = cpu.skipping
  clock_eq : cpu'.cycles = cpu.cycles ∧ cpu'.waitCycles = cpu.waitCycles

variable {f : Footprint} {cpu cpu' cpu'' : Processor FlatMemory}

theorem Covers.refl (f : Footprint) (cpu : Processor FlatMemory) : f.Covers cpu cpu :=
  ⟨fun _ _ _ => rfl, fun _ _ _ => rfl, fun _ _ => rfl, fun _ => ⟨rfl, rfl⟩, fun _ => rfl,
    fun _ => rfl, ⟨rfl, rfl⟩⟩

theorem Covers.trans (h : f.Covers cpu cpu') (h' : f.Covers cpu' cpu'') : f.Covers cpu cpu'' where
  get_eq r hr hflags := (h'.get_eq r hr hflags).trans (h.get_eq r hr hflags)
  getLsbD_flags hf i hi := (h'.getLsbD_flags hf i hi).trans (h.getLsbD_flags hf i hi)
  byte_eq a ha := (h'.byte_eq a ha).trans (h.byte_eq a ha)
  latch_eq hl := ⟨(h'.latch_eq hl).1.trans (h.latch_eq hl).1,
    (h'.latch_eq hl).2.trans (h.latch_eq hl).2⟩
  sleeping_eq hs := (h'.sleeping_eq hs).trans (h.sleeping_eq hs)
  skipping_eq hs := (h'.skipping_eq hs).trans (h.skipping_eq hs)
  clock_eq := ⟨h'.clock_eq.1.trans h.clock_eq.1, h'.clock_eq.2.trans h.clock_eq.2⟩

theorem Covers.jump (h : f.Covers cpu cpu') (pc : Word) : f.Covers cpu { cpu' with pc := pc } :=
  ⟨h.get_eq, h.getLsbD_flags, h.byte_eq, h.latch_eq, h.sleeping_eq, h.skipping_eq, h.clock_eq⟩

/-- A register changes that the footprint has. -/
theorem Covers.set {r : Reg} (h : f.Covers cpu cpu') (hr : r ∈ f.registers) (x : Word) :
    f.Covers cpu (cpu'.set r x) := by
  refine h.trans { Covers.refl f cpu' with get_eq := ?_, getLsbD_flags := ?_ }
  · intro r' hr' _
    rw [Processor.get_set, if_neg fun heq : r = r' => hr' (heq ▸ hr)]
  · intro hflags i _
    have hget : (cpu'.set r x).flags = cpu'.flags :=
      (Processor.get_set cpu' r .flags x).trans (if_neg fun heq : r = .flags => hflags (heq ▸ hr))
    rw [hget]

/-- Bits of the flags register change that the footprint has. -/
theorem Covers.setFlags {x : Word} (h : f.Covers cpu cpu')
    (hx : ∀ i, (∀ g ∈ f.flags, g.bit ≠ i) → x.getLsbD i = cpu'.flags.getLsbD i) :
    f.Covers cpu (cpu'.set .flags x) := by
  refine h.trans { Covers.refl f cpu' with get_eq := ?_, getLsbD_flags := ?_ }
  · intro r _ hr
    rw [Processor.get_set, if_neg hr.symm]
  · intro _ i hi
    have hget : (cpu'.set .flags x).flags = x :=
      (Processor.get_set cpu' .flags .flags x).trans (if_pos rfl)
    rw [hget, hx i hi]

theorem Covers.pop (h : f.Covers cpu cpu') (hstack : .stack ∈ f.registers) :
    f.Covers cpu cpu'.pop.2 :=
  h.set hstack _

theorem Covers.writeBytes {a : Word} {bs : Bytes} (h : f.Covers cpu cpu') (hstart : f.start = a)
    (hcount : f.count = bs.length) :
    f.Covers cpu { cpu' with memory := Memory.writeBytes cpu'.memory a bs } := by
  refine h.trans { Covers.refl f cpu' with byte_eq := ?_ }
  intro i hi
  exact cpu'.memory.byte_writeBytes_of_le a (by rwa [← hstart, ← hcount])

theorem Covers.push (h : f.Covers cpu cpu') (hstack : .stack ∈ f.registers)
    (hstart : f.start = cpu'.get .stack - 4) (hcount : f.count = 4) (x : Word) :
    f.Covers cpu (cpu'.push x) :=
  (h.writeBytes hstart (hcount.trans (LittleEndian.length_ofWord x).symm)).set hstack _

theorem Covers.offer (h : f.Covers cpu cpu') (hlatch : f.latch) (message : Half) :
    f.Covers cpu (cpu'.offer message) := by
  rw [Processor.offer]
  split
  · exact h.trans { Covers.refl f cpu' with latch_eq := fun hl => absurd hlatch hl }
  · exact h

end Footprint

/-! ### Every operation stays inside its footprint -/

theorem Word.getLsbD_setFlag_of_ne (x : Word) {g : Flag} {i : Nat} (h : g.bit ≠ i) (b : Bool) :
    (x.setFlag g b).getLsbD i = x.getLsbD i := by
  by_cases hi : i < 32
  · rw [setFlag, getLsbD_setBit _ _ _ _ hi, if_neg h.symm]
  · have hge := Nat.le_of_not_lt hi
    rw [BitVec.getLsbD_of_ge _ _ hge, BitVec.getLsbD_of_ge _ _ hge]

namespace Arithmetic

variable {flags a b : Word} {i : Nat}

theorem getLsbD_flags_sum (carry : Bool) (h : ∀ g ∈ [Flag.carry, Flag.overflow], g.bit ≠ i) :
    (sum flags a b carry).flags.getLsbD i = flags.getLsbD i := by
  simp only [List.forall_mem_cons] at h
  rw [sum, plain, Word.getLsbD_setFlag_of_ne _ h.2.1, Word.getLsbD_setFlag_of_ne _ h.1]

theorem getLsbD_flags_difference (borrow : Bool)
    (h : ∀ g ∈ [Flag.carry, Flag.overflow], g.bit ≠ i) :
    (difference flags a b borrow).flags.getLsbD i = flags.getLsbD i := by
  simp only [List.forall_mem_cons] at h
  rw [difference, plain, Word.getLsbD_setFlag_of_ne _ h.2.1, Word.getLsbD_setFlag_of_ne _ h.1]

theorem getLsbD_flags_quotient {q r : Word} (h : ∀ g ∈ [Flag.divideError], g.bit ≠ i) :
    (quotient flags b q r).flags.getLsbD i = flags.getLsbD i := by
  rw [quotient]
  split <;> exact Word.getLsbD_setFlag_of_ne _ (h _ (List.mem_singleton_self _)) _

theorem getLsbD_flags_outcome (f : Arithmetic) (h : ∀ g ∈ f.flags, g.bit ≠ i) :
    (f.outcome flags a b).flags.getLsbD i = flags.getLsbD i := by
  cases f
  case add | addCarry => exact getLsbD_flags_sum _ h
  case sub | subBorrow | reverseSub | reverseSubBorrow => exact getLsbD_flags_difference _ h
  case div | divSigned => exact getLsbD_flags_quotient h
  all_goals rfl

theorem bit_lt_of_mem_flags (f : Arithmetic) : ∀ g ∈ f.flags, g.bit < Flag.enabled.bit := by
  cases f <;> decide

/-- Only products and divisions have a word for the secondary register. -/
theorem secondary_outcome (f : Arithmetic) (flags a b : Word) :
    .secondary ∈ f.registers ∨ (f.outcome flags a b).secondary = none := by
  cases f
  case mul | mulSigned | div | divSigned => exact .inl (List.mem_singleton_self _)
  all_goals exact .inr rfl

end Arithmetic

theorem Operation.bit_lt_of_mem_footprint (op : Operation) {cpu : Processor FlatMemory}
    {d s : Reg} {x : Operand} {g : Flag} (h : g ∈ (op.footprint cpu d s x).flags) :
    g.bit < Flag.enabled.bit := by
  cases op
  case leave =>
    obtain rfl := List.mem_singleton.mp h
    decide
  case compute f => exact f.bit_lt_of_mem_flags g h
  case exchange | locate | pop | readSpecial | swap =>
    cases x <;> exact absurd h List.not_mem_nil
  all_goals exact absurd h List.not_mem_nil

namespace Processor

variable (cpu : Processor FlatMemory)

theorem covers_commit {f : Footprint} {d : Reg} {o : Arithmetic.Outcome} (hd : d ∈ f.registers)
    (hsecondary : .secondary ∈ f.registers ∨ o.secondary = none)
    (hflags : ∀ i, (∀ g ∈ f.flags, g.bit ≠ i) → o.flags.getLsbD i = cpu.flags.getLsbD i) :
    f.Covers cpu (cpu.commit d o) := by
  let flagged := cpu.set .flags o.flags
  let paired := (o.secondary.map (flagged.set .secondary)).getD flagged
  have hflagged : f.Covers cpu flagged := (Footprint.Covers.refl f cpu).setFlags hflags
  have hpaired : f.Covers cpu paired := by
    cases h : o.secondary with
    | none => simpa [paired, h] using hflagged
    | some y =>
      have hmem := hsecondary.resolve_right (by rw [h]; exact Option.some_ne_none y)
      simpa [paired, h] using hflagged.set hmem y
  change f.Covers cpu ((o.result.map (paired.set d)).getD paired)
  cases o.result with
  | none => exact hpaired
  | some y => exact hpaired.set hd y

theorem covers_modify {x : Operand} {registers : Reg → List Reg} {f : Reg → Processor FlatMemory}
    (h : ∀ r, Footprint.Covers { registers := registers r } cpu (f r)) :
    (x.touching registers).Covers cpu (cpu.modify x f).2 := by
  cases x with
  | register r => exact h r
  | literal y => exact .refl _ cpu

/-- Loading leaves flat memory as it is. -/
theorem load_snd (w : Width) (a : Word) : (cpu.load w a).2 = cpu := by
  simp only [load, FlatMemory.readBytes_snd]

theorem covers_perform (op : Operation) (d s : Reg) (x : Operand) :
    (op.footprint cpu d s x).Covers cpu (cpu.perform op d s x).2 := by
  have hrefl (f : Footprint) : f.Covers cpu cpu := .refl f cpu
  cases op with
  | sleep => exact { hrefl _ with sleeping_eq := fun h => absurd rfl h }
  | ret => exact ((hrefl _).pop (List.mem_singleton_self _)).jump _
  | leave =>
    have hfirst := (hrefl (Operation.leave.footprint cpu d s x)).pop List.mem_cons_self
    have hpopped := (hfirst.set (.tail _ List.mem_cons_self) cpu.pop.1).pop List.mem_cons_self
    refine (hpopped.jump _).setFlags fun i hi => ?_
    exact Word.getLsbD_setFlag_of_ne _ (hi _ (List.mem_singleton_self _)) _
  | exchange _ | locate | readSpecial _ =>
    exact cpu.covers_modify fun r => (hrefl _).set (List.mem_singleton_self r) _
  | pop =>
    refine cpu.covers_modify fun r => ?_
    exact ((hrefl _).pop List.mem_cons_self).set (.tail _ (List.mem_singleton_self r)) _
  | push => exact (hrefl _).push (List.mem_singleton_self _) rfl rfl _
  | jump t => exact (hrefl _).jump _
  | call t => exact ((hrefl _).push (List.mem_singleton_self _) rfl rfl _).jump _
  | interrupt => exact (hrefl _).offer rfl _
  | writeSpecial _ | convert _ => exact (hrefl _).set (List.mem_singleton_self _) _
  | swap =>
    refine cpu.covers_modify fun r => ?_
    exact ((hrefl _).set List.mem_cons_self _).set (.tail _ (List.mem_singleton_self r)) _
  | load w a =>
    simp only [perform, load_snd]
    exact (hrefl _).set (List.mem_singleton_self d) _
  | store w a => exact (hrefl _).writeBytes rfl (LittleEndian.length_encode _ _).symm
  | test c =>
    simp only [perform]
    split
    · exact hrefl _
    · next hfails =>
      have hskip : (!c.holds (cpu.get d) (x.value cpu.registers)) = true := by simpa using hfails
      exact { hrefl _ with skipping_eq := fun h => absurd hskip h }
  | compute f =>
    exact cpu.covers_commit List.mem_cons_self
      ((f.secondary_outcome _ _ _).imp_left (.tail _)) fun _ => f.getLsbD_flags_outcome

/-- A footprint does not depend on the program counter. -/
theorem footprint_jump (op : Operation) (d s : Reg) (x : Operand) (pc : Word) :
    op.footprint { cpu with pc := pc } d s x = op.footprint cpu d s x := by
  cases op <;> rfl

theorem covers_execute (w : Word) : (cpu.footprint w).Covers cpu (cpu.execute w).2 := by
  let fetched := { cpu with pc := cpu.pc + BitVec.ofNat 32 (Instruction.length w) }
  have hfetched : (cpu.footprint w).Covers cpu fetched := (Footprint.Covers.refl _ cpu).jump _
  rw [execute_eq_outcome, outcome, fetchOperand_eq, carryOut]
  refine hfetched.trans ?_
  cases hop : Operation.ofOpcode? (Instruction.opcode w) with
  | none => exact .refl _ fetched
  | some op =>
    have hperform := fetched.covers_perform op (Instruction.destination w) (Instruction.source w)
      (cpu.operand w)
    rw [footprint_jump] at hperform
    simpa only [footprint, hop] using hperform

/-- The flags in a footprint stand below those that let interrupts and single steps happen. -/
theorem bit_lt_of_mem_footprint {w : Word} {g : Flag} (h : g ∈ (cpu.footprint w).flags) :
    g.bit < Flag.enabled.bit := by
  cases hop : Operation.ofOpcode? (Instruction.opcode w) with
  | none =>
    rw [footprint, hop] at h
    exact absurd h List.not_mem_nil
  | some op =>
    rw [footprint, hop] at h
    exact op.bit_lt_of_mem_footprint h

/-- Every instruction changes, beside the program counter, only what its footprint has. Unless
the flags register is a destination, it never touches the flags that let interrupts and single
steps happen; and leaving a handler clears the flag that the footprint grants it. -/
theorem execute_within_footprint (w : Word) :
    (cpu.footprint w).Covers cpu (cpu.execute w).2 ∧
    (.flags ∉ (cpu.footprint w).registers →
      ∀ g ∈ [Flag.enabled, Flag.singleStep], (cpu.execute w).2.flag g = cpu.flag g) ∧
    (Instruction.opcode w = 0x02 → ¬(cpu.execute w).2.flag .inService) := by
  refine ⟨cpu.covers_execute w, fun hflags g hg => ?_, cpu.flag_execute_leave⟩
  have hbit : Flag.enabled.bit ≤ g.bit := by
    revert g
    decide
  refine (cpu.covers_execute w).getLsbD_flags hflags g.bit fun g' hg' => ?_
  exact Nat.ne_of_lt (Nat.lt_of_lt_of_le (cpu.bit_lt_of_mem_footprint hg') hbit)

/-- A handler is left through a stack that wraps: what was saved for register zero comes back,
another register keeps its word, and of the flags only the one for service changes. -/
theorem execute_within_footprint_leave :
    let cpu : Processor FlatMemory := {
      registers := (Registers.zero.set .stack 0xFFFFFFFE).set .flags 0x30F
      pc := 0x2000, waitCycles := 0, cycles := 0, message := 0
      pending := false, skipping := false, sleeping := false
      memory := Memory.writeWord FlatMemory.zero 0xFFFFFFFE 7 }
    let left := (cpu.execute 0x02000000).2
    Reg.flags ∉ (cpu.footprint 0x02000000).registers ∧ Instruction.opcode 0x02000000 = 0x02 ∧
      left.get 0 = 7 ∧ left.get .frame = cpu.get .frame ∧ left.flags = 0x307 ∧
      left.flag .enabled = cpu.flag .enabled ∧ ¬left.flag .inService := by
  intro cpu left
  have hflags : Reg.flags ∉ (cpu.footprint 0x02000000).registers := by decide
  obtain ⟨hcovers, hkept, hleft⟩ := cpu.execute_within_footprint 0x02000000
  exact ⟨hflags, rfl, by decide, hcovers.get_eq .frame (by decide) (by decide), by decide,
    hkept hflags .enabled List.mem_cons_self, hleft rfl⟩

end Processor

end Microcomputer
