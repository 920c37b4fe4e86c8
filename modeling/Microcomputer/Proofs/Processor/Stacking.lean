import Microcomputer.Proofs.Processor.Dispatch
import Microcomputer.Proofs.Processor.Handler

/-! Runs of pushes and pops. Whatever the stack pointer is at the start, a run refines a list as
long as it takes no more off the stack than it put there and memory has room for what stands on
it. The instructions that use the stack are such runs, and so is entering a handler:
`stack_refines_list`. -/

namespace Microcomputer

/-! ### The list that is refined -/

/-- What is done to a stack. -/
inductive StackOp where
  | push (x : Word)
  | pop
deriving DecidableEq

namespace StackOp

/-- The words for which memory has room. -/
def capacity : Nat := 0x400000

/-- The words that operations take off a list and the list that they leave, if none of them pops
what is not there or pushes what there is no room for. -/
def run : List Word → List StackOp → Option (List Word × List Word)
  | xs, [] => some ([], xs)
  | xs, push x :: ops => if xs.length < capacity then run (x :: xs) ops else none
  | [], pop :: _ => none
  | x :: xs, pop :: ops => (run xs ops).map fun (ys, zs) => (x :: ys, zs)

/-- The most words that there are on a stack of so many at any time during operations. -/
def deepest : Nat → List StackOp → Nat
  | n, [] => n
  | n, push _ :: ops => max n (deepest (n + 1) ops)
  | n, pop :: ops => max n (deepest (n - 1) ops)

theorem le_deepest (n : Nat) (ops : List StackOp) : n ≤ deepest n ops := by
  cases ops with
  | nil => exact Nat.le_refl n
  | cons op ops => cases op <;> exact Nat.le_max_left _ _

end StackOp

namespace Processor

/-! ### One operation -/

/-- One of the `n` addresses below another. -/
def Below (base : Word) (n : Nat) (a : Address) : Prop :=
  ∃ j, j < n ∧ a = .ofWord (base - BitVec.ofNat 32 (j + 1))

instance (base : Word) (n : Nat) (a : Address) : Decidable (Below base n a) :=
  inferInstanceAs (Decidable (∃ j, j < n ∧ _))

theorem Below.mono {base : Word} {m n : Nat} {a : Address} (h : Below base m a) (hle : m ≤ n) :
    Below base n a := by
  obtain ⟨j, hj, ha⟩ := h
  exact ⟨j, Nat.lt_of_lt_of_le hj hle, ha⟩

/-- Memory has the same bytes, and the stack pointer is the same. -/
structure KeepsStack (cpu cpu' : Processor FlatMemory) : Prop where
  byte : cpu'.memory.byte = cpu.memory.byte
  stack : cpu'.get .stack = cpu.get .stack

/-- These words stand on the stack, and the stack pointer is where a stack that began at an
address has it. -/
structure Represents (base : Word) (xs : List Word) (cpu : Processor FlatMemory) : Prop where
  stacked : cpu.Stacked xs
  stack : cpu.get .stack = base - BitVec.ofNat 32 (4 * xs.length)

variable {base x : Word} {xs ys zs : List Word} {cpu cpu' : Processor FlatMemory}

theorem represents_nil (cpu : Processor FlatMemory) : Represents (cpu.get .stack) [] cpu :=
  ⟨cpu.stacked_nil, (BitVec.sub_zero _).symm⟩

namespace Represents

theorem congr (h : Represents base xs cpu) (hkept : KeepsStack cpu cpu') :
    Represents base xs cpu' where
  stacked := by
    have hstacked := h.stacked
    rw [Stacked, FlatMemory.holds_iff] at hstacked ⊢
    rwa [hkept.byte, hkept.stack]
  stack := hkept.stack.trans h.stack

/-- The place of the word that is pushed next. -/
theorem stack_sub (h : Represents base xs cpu) :
    cpu.get .stack - 4 = base - BitVec.ofNat 32 (4 * (xs.length + 1)) := by
  rw [h.stack, BitVec.sub_sub, Nat.mul_add, BitVec.ofNat_add]
  rfl

theorem push (h : Represents base xs cpu) (x : Word) (hroom : xs.length < StackOp.capacity) :
    Represents base (x :: xs) (cpu.push x) where
  stacked := h.stacked.push x (by rw [StackOp.capacity] at hroom; omega)
  stack := by
    rw [get_push, if_pos rfl]
    exact h.stack_sub

theorem byte_push (h : Represents base xs cpu) (x : Word) {a : Address}
    (ha : ¬Below base (4 * (xs.length + 1)) a) :
    (cpu.push x).memory.byte a = cpu.memory.byte a := by
  refine cpu.byte_push x (Nat.le_of_not_lt fun hlt => ha ?_)
  rw [h.stack_sub] at hlt
  -- the address is one of the four from the new stack pointer up
  obtain ⟨i, hi⟩ : ∃ i, a - .ofWord (base - BitVec.ofNat 32 (4 * (xs.length + 1))) = i := ⟨_, rfl⟩
  rw [hi] at hlt
  obtain ⟨k, hk⟩ : ∃ k, 4 * (xs.length + 1) = k + 1 + i.toNat :=
    ⟨4 * xs.length + 3 - i.toNat, by omega⟩
  refine ⟨k, by omega, ?_⟩
  calc a = .ofWord (base - BitVec.ofNat 32 (4 * (xs.length + 1))) + i := by
        rw [← hi, BitVec.add_comm, BitVec.sub_add_cancel]
    _ = .ofWord (base - BitVec.ofNat 32 (4 * (xs.length + 1)) + BitVec.ofNat 32 i.toNat) := by
        rw [FlatMemory.ofWord_add, BitVec.ofNat_toNat, BitVec.setWidth_eq]
    _ = .ofWord (base - BitVec.ofNat 32 (k + 1)) := by
        rw [hk, BitVec.ofNat_add (k + 1), ← BitVec.sub_sub, BitVec.sub_add_cancel]

theorem pop (h : Represents base (x :: xs) cpu) :
    cpu.pop.1 = x ∧ cpu.pop.2.memory = cpu.memory ∧ Represents base xs cpu.pop.2 := by
  obtain ⟨hpop, hstacked⟩ := h.stacked.pop
  rw [hpop]
  refine ⟨rfl, rfl, hstacked, ?_⟩
  rw [get_set, if_pos rfl, h.stack, List.length_cons, Nat.mul_add, BitVec.ofNat_add,
    ← BitVec.sub_sub]
  exact BitVec.sub_add_cancel _ _

end Represents

/-! ### Runs -/

/-- Operations on the stack, one after the other, with the words that the pops return. Before,
between and after them anything happens that leaves memory and the stack pointer alone. -/
inductive Stacking : Processor FlatMemory → List StackOp → List Word → Processor FlatMemory → Prop
    where
  | done {cpu cpu' : Processor FlatMemory} (kept : KeepsStack cpu cpu') : Stacking cpu [] [] cpu'
  | push {cpu before cpu' : Processor FlatMemory} {x : Word} {ops : List StackOp} {ys : List Word}
      (kept : KeepsStack cpu before) (rest : Stacking (before.push x) ops ys cpu') :
      Stacking cpu (.push x :: ops) ys cpu'
  | pop {cpu before cpu' : Processor FlatMemory} {ops : List StackOp} {ys : List Word}
      (kept : KeepsStack cpu before) (rest : Stacking before.pop.2 ops ys cpu') :
      Stacking cpu (.pop :: ops) (before.pop.1 :: ys) cpu'

variable {ops : List StackOp}

theorem KeepsStack.trans {mid : Processor FlatMemory} (h : KeepsStack cpu mid)
    (h' : KeepsStack mid cpu') : KeepsStack cpu cpu' :=
  ⟨h'.byte.trans h.byte, h'.stack.trans h.stack⟩

theorem Stacking.refines (h : Stacking cpu ops ys cpu') (hr : Represents base xs cpu)
    {popped : List Word} (hrun : StackOp.run xs ops = some (popped, zs)) :
    ys = popped ∧ Represents base zs cpu' ∧
      ∀ a, ¬Below base (4 * StackOp.deepest xs.length ops) a →
        cpu'.memory.byte a = cpu.memory.byte a := by
  induction h generalizing xs popped with
  | done kept =>
    obtain ⟨rfl, rfl⟩ := Prod.mk.injEq .. ▸ Option.some.inj hrun
    exact ⟨rfl, hr.congr kept, fun a _ => congrFun kept.byte a⟩
  | @push cpu before cpu' x ops ys kept rest ih =>
    obtain ⟨hroom, hrun⟩ := Option.ite_none_right_eq_some.mp hrun
    have hbefore := hr.congr kept
    obtain ⟨hys, hzs, hbyte⟩ := ih (hbefore.push x hroom) hrun
    refine ⟨hys, hzs, fun a ha => ?_⟩
    have hdeeper := Nat.le_max_right xs.length (StackOp.deepest (xs.length + 1) ops)
    have hfirst := Nat.le_trans (StackOp.le_deepest (xs.length + 1) ops) hdeeper
    rw [hbyte a fun h => ha (h.mono (Nat.mul_le_mul_left 4 hdeeper)),
      hbefore.byte_push x fun h => ha (h.mono (Nat.mul_le_mul_left 4 hfirst)), kept.byte]
  | @pop cpu before cpu' ops ys kept rest ih =>
    cases xs with
    | nil => cases hrun
    | cons x xs =>
      obtain ⟨⟨taken, left⟩, hrest, hpair⟩ := Option.map_eq_some_iff.mp hrun
      obtain ⟨rfl, rfl⟩ := Prod.mk.injEq .. ▸ hpair
      obtain ⟨hx, hmemory, hpopped⟩ := (hr.congr kept).pop
      obtain ⟨hys, hzs, hbyte⟩ := ih hpopped hrest
      refine ⟨by rw [hx, hys], hzs, fun a ha => ?_⟩
      have hdeeper := Nat.le_max_right (x :: xs).length (StackOp.deepest xs.length ops)
      rw [hbyte a fun h => ha (h.mono (Nat.mul_le_mul_left 4 hdeeper)), hmemory, kept.byte]

theorem Stacking.of_keepsStack {mid : Processor FlatMemory} (hkept : KeepsStack cpu mid)
    (h : Stacking mid ops ys cpu') : Stacking cpu ops ys cpu' := by
  cases h with
  | done kept => exact .done (hkept.trans kept)
  | push kept rest => exact .push (hkept.trans kept) rest
  | pop kept rest => exact .pop (hkept.trans kept) rest

/-- A run goes on with another one. -/
theorem Stacking.append {mid : Processor FlatMemory} {ops' : List StackOp} {ys' : List Word}
    (h : Stacking cpu ops ys mid) (h' : Stacking mid ops' ys' cpu') :
    Stacking cpu (ops ++ ops') (ys ++ ys') cpu' := by
  induction h with
  | done kept => exact h'.of_keepsStack kept
  | push kept _ ih => exact .push kept (ih h')
  | pop kept _ ih => exact .pop kept (ih h')

/-! ### The instructions that use the stack -/

section Instructions

variable (cpu) {w : Word}

/-- The processor that has fetched an instruction and its operand. -/
def fetched (w : Word) : Processor FlatMemory :=
  { cpu with pc := cpu.pc + BitVec.ofNat 32 (Instruction.length w) }

theorem execute_eq_perform {op : Operation}
    (h : Operation.ofOpcode? (Instruction.opcode w) = some op) :
    (cpu.execute w).2 = ((cpu.fetched w).perform op (Instruction.destination w)
      (Instruction.source w) (cpu.operand w)).2 := by
  rw [execute_eq_outcome, outcome_of_ofOpcode? h, fetchOperand_eq]
  rfl

theorem keepsStack_fetched (w : Word) : KeepsStack cpu (cpu.fetched w) := ⟨rfl, rfl⟩

theorem keepsStack_set {r : Reg} (h : r ≠ .stack) (x : Word) : KeepsStack cpu (cpu.set r x) :=
  ⟨rfl, (cpu.get_set r .stack x).trans (if_neg h)⟩

theorem keepsStack_setFlag (pc : Word) (f : Flag) (b : Bool) :
    KeepsStack cpu ({ cpu with pc := pc }.setFlag f b) :=
  ⟨rfl, (get_setFlag _ f b .stack).trans (if_neg (by decide))⟩

/-- The instruction PUSH stores the word that its operand had. -/
theorem stacking_push (h : Operation.ofOpcode? (Instruction.opcode w) = some .push) :
    Stacking cpu [.push ((cpu.operand w).value cpu.registers)] [] (cpu.execute w).2 := by
  rw [cpu.execute_eq_perform h]
  exact .push (cpu.keepsStack_fetched w) (.done ⟨rfl, rfl⟩)

/-- Every form of CALL stores the address of the next instruction. -/
theorem stacking_call {t : JumpTarget}
    (h : Operation.ofOpcode? (Instruction.opcode w) = some (.call t)) :
    Stacking cpu [.push (cpu.pc + BitVec.ofNat 32 (Instruction.length w))] []
      (cpu.execute w).2 := by
  rw [cpu.execute_eq_perform h]
  exact .push (cpu.keepsStack_fetched w) (.done ⟨rfl, rfl⟩)

theorem stacking_ret (h : Operation.ofOpcode? (Instruction.opcode w) = some .ret) :
    Stacking cpu [.pop] [(cpu.execute w).2.pc] (cpu.execute w).2 := by
  rw [cpu.execute_eq_perform h]
  exact .pop (cpu.keepsStack_fetched w) (.done ⟨rfl, rfl⟩)

theorem stacking_pop (h : Operation.ofOpcode? (Instruction.opcode w) = some .pop) {r : Reg}
    (hoperand : cpu.operand w = .register r) (hr : r ≠ .stack) :
    Stacking cpu [.pop] [(cpu.execute w).2.get r] (cpu.execute w).2 := by
  let popped := (cpu.fetched w).pop
  have hafter : (cpu.execute w).2 = popped.2.set r popped.1 := by
    rw [cpu.execute_eq_perform h, hoperand]
    rfl
  rw [hafter, get_set, if_pos rfl]
  exact .pop (cpu.keepsStack_fetched w) (.done (popped.2.keepsStack_set hr _))

/-- What the pop returns wins over what it makes of the stack pointer. -/
theorem execute_pop_stack (h : Operation.ofOpcode? (Instruction.opcode w) = some .pop)
    (hoperand : cpu.operand w = .register .stack) :
    (cpu.execute w).2.get .stack = cpu.pop.1 ∧ (cpu.execute w).2.memory = cpu.memory := by
  rw [cpu.execute_eq_perform h, hoperand]
  exact ⟨(get_set _ _ _ _).trans (if_pos rfl), rfl⟩

/-- The way out of a handler pops register zero and the program counter. -/
theorem stacking_leave (h : Operation.ofOpcode? (Instruction.opcode w) = some .leave) :
    Stacking cpu [.pop, .pop] [(cpu.execute w).2.get 0, (cpu.execute w).2.pc]
      (cpu.execute w).2 := by
  let first := (cpu.fetched w).pop
  let second := (first.2.set 0 first.1).pop
  have hafter : (cpu.execute w).2 =
      { second.2 with pc := second.1 }.setFlag .inService false := by
    rw [cpu.execute_eq_perform h]
    rfl
  have hzero : (cpu.execute w).2.get 0 = first.1 := by
    rw [hafter, get_setFlag, if_neg (by decide)]
    refine (get_set _ .stack 0 _).trans ?_
    rw [if_neg (by decide)]
    exact (get_set _ _ _ _).trans (if_pos rfl)
  rw [hzero, hafter]
  exact .pop (cpu.keepsStack_fetched w) (.pop (first.2.keepsStack_set (by decide) _)
    (.done (second.2.keepsStack_setFlag second.1 .inService false)))

/-- Entering a handler pushes the program counter and register zero. -/
theorem stacking_service (hpending : cpu.pending) (henabled : cpu.flag .enabled)
    (hhandler : (Memory.readWord cpu.memory (cpu.vector cpu.message)).1 ≠ 0) :
    Stacking cpu [.push cpu.pc, .push (cpu.get 0)] [] cpu.service := by
  rw [cpu.service_eq_enter hpending henabled rfl hhandler]
  let awake := { cpu with pending := false, sleeping := false }
  let saved := (awake.push cpu.pc).push (cpu.get 0)
  have hset : KeepsStack saved (saved.set 0 (cpu.message.setWidth 32)) :=
    saved.keepsStack_set (by decide) _
  have hawake : KeepsStack cpu awake := ⟨rfl, rfl⟩
  exact .push hawake (.push ⟨rfl, rfl⟩
    (.done (hset.trans (keepsStack_setFlag _ _ .inService true))))

end Instructions

/-- A run from any stack pointer that takes no more off the stack than it put there, and never
puts more there than memory has room for, does what it would do to a list: the pops return what
it takes off the list, the stack pointer counts the words on it downwards, and nothing is written
but the place of the words that were on it at once. This is so at every moment, up to which the
operations are themselves a run. Such runs are what each of the instructions that use the stack
does, with the word that PUSH stores read before the stack pointer moves, and entering a handler;
only what POP loads into the stack pointer stays there. -/
theorem stack_refines_list :
    (∀ {cpu cpu' : Processor FlatMemory} {ops : List StackOp} {ys : List Word},
      Stacking cpu ops ys cpu' → ∀ popped xs, StackOp.run [] ops = some (popped, xs) →
        ys = popped ∧
        cpu'.get .stack = cpu.get .stack - BitVec.ofNat 32 (4 * xs.length) ∧
        cpu'.Stacked xs ∧
        ∀ a, ¬Below (cpu.get .stack) (4 * StackOp.deepest 0 ops) a →
          cpu'.memory.byte a = cpu.memory.byte a) ∧
    (∀ (cpu : Processor FlatMemory) (w : Word) (op : Operation),
      Operation.ofOpcode? (Instruction.opcode w) = some op →
      let after := (cpu.execute w).2
      (op = .push →
        Stacking cpu [.push ((cpu.operand w).value cpu.registers)] [] after ∧
        (cpu.operand w = .register .stack →
          after.get .stack = cpu.get .stack - 4 ∧
          (Memory.readWord after.memory (cpu.get .stack - 4)).1 = cpu.get .stack)) ∧
      (∀ r, op = .pop → cpu.operand w = .register r →
        (r ≠ .stack → Stacking cpu [.pop] [after.get r] after) ∧
        (r = .stack →
          after.get .stack = (Memory.readWord cpu.memory (cpu.get .stack)).1 ∧
          after.memory = cpu.memory ∧
          ∀ x xs, cpu.Stacked (x :: xs) → after.get .stack = x)) ∧
      (∀ t, op = .call t →
        Stacking cpu [.push (cpu.pc + BitVec.ofNat 32 (Instruction.length w))] [] after) ∧
      (op = .ret → Stacking cpu [.pop] [after.pc] after) ∧
      (op = .leave → Stacking cpu [.pop, .pop] [after.get 0, after.pc] after)) ∧
    ∀ cpu : Processor FlatMemory, cpu.pending → cpu.flag .enabled →
      (Memory.readWord cpu.memory (cpu.vector cpu.message)).1 ≠ 0 →
      Stacking cpu [.push cpu.pc, .push (cpu.get 0)] [] cpu.service := by
  refine ⟨fun h popped xs hrun => ?_, fun cpu w op hop => ?_, stacking_service⟩
  · obtain ⟨hys, hr, hbyte⟩ := h.refines (represents_nil _) hrun
    exact ⟨hys, hr.stack, hr.stacked, hbyte⟩
  · refine ⟨?_, ?_, ?_, ?_, ?_⟩
    · rintro rfl
      have hrun := cpu.stacking_push hop
      refine ⟨hrun, fun hoperand => ?_⟩
      rw [hoperand] at hrun
      obtain ⟨-, hr, -⟩ := hrun.refines cpu.represents_nil rfl
      have hstack : (cpu.execute w).2.get .stack = cpu.get .stack - 4 := hr.stack
      refine ⟨hstack, ?_⟩
      rw [← hstack]
      exact hr.pop.1
    · rintro r rfl hoperand
      refine ⟨cpu.stacking_pop hop hoperand, ?_⟩
      rintro rfl
      obtain ⟨hstack, hmemory⟩ := cpu.execute_pop_stack hop hoperand
      refine ⟨hstack, hmemory, fun x xs hstacked => ?_⟩
      rw [hstack, hstacked.pop.1]
    · rintro t rfl
      exact cpu.stacking_call hop
    · rintro rfl
      exact cpu.stacking_ret hop
    · rintro rfl
      exact cpu.stacking_leave hop

/-- The stack begins at address two, so that it reaches around the end of memory and of the words.
The old stack pointer is pushed, a routine called, its return address popped, and the stack
pointer popped back. A handler is entered from a stack that begins at zero. -/
theorem stack_refines_list_wrapping :
    (let cpu : Processor FlatMemory := { Processor.new FlatMemory.zero with
        registers := Registers.zero.set .stack 2 }
      let pushed := (cpu.execute 0x1400001F).2
      let called := (pushed.execute 0x16800040).2
      let popped := (called.execute 0x13000001).2
      popped.get 1 = 0x100008 ∧ popped.get .stack = 0xFFFFFFFE ∧ popped.Stacked [2] ∧
        popped.memory.byte 2 = 0 ∧ (popped.execute 0x1300001F).2.get .stack = 2) ∧
    let cpu : Processor FlatMemory := { Processor.new (FlatMemory.zero.write 0 1) with
      registers := Registers.zero.set .flags 0x100, pending := true }
    cpu.service.get .stack = 0xFFFFFFF8 ∧ cpu.service.Stacked [0, 0x100000] := by
  obtain ⟨hrun, hinstruction, hentry⟩ := stack_refines_list
  constructor
  · intro cpu pushed called popped
    have hpush := (hinstruction cpu 0x1400001F _ rfl).1 rfl
    have hcall := (hinstruction pushed 0x16800040 _ rfl).2.2.1 _ rfl
    have hpop := ((hinstruction called 0x13000001 _ rfl).2.1 1 rfl rfl).1 (by decide)
    have hwhole := hpush.1.append (hcall.append hpop)
    obtain ⟨hys, hstack, hstacked, hbyte⟩ := hrun hwhole [0x100008] [2] rfl
    have htop := ((hinstruction popped 0x1300001F _ rfl).2.1 .stack rfl rfl).2 rfl
    refine ⟨List.singleton_inj.mp hys, hstack, hstacked, ?_, htop.2.2 2 [] hstacked⟩
    exact hbyte 2 (by decide)
  · intro cpu
    have h := hentry cpu rfl (by decide) (by decide)
    obtain ⟨-, hstack, hstacked, -⟩ := hrun h [] [0, 0x100000] rfl
    exact ⟨hstack, hstacked⟩

end Processor

end Microcomputer
