import Microcomputer.Processor.Service
import Microcomputer.Proofs.Codec.WordAt
import Microcomputer.Proofs.Memory.Flat

/-! The stack over flat memory. The words on it stand from the stack pointer up, the one that
was pushed last first. Addresses may wrap anywhere: the words only have to leave room for one
another in the 24-bit address range. -/

namespace Microcomputer.Processor

variable {M : Type}

theorem get_set (cpu : Processor M) (r r' : Reg) (x : Word) :
    (cpu.set r x).get r' = if r = r' then x else cpu.get r' :=
  cpu.registers.get_set r r' x

theorem get_setFlag (cpu : Processor M) (f : Flag) (b : Bool) (r : Reg) :
    (cpu.setFlag f b).get r = if .flags = r then cpu.flags.setFlag f b else cpu.get r :=
  cpu.get_set .flags r _

theorem get_push [Memory M] (cpu : Processor M) (x : Word) (r : Reg) :
    (cpu.push x).get r = if .stack = r then cpu.get .stack - 4 else cpu.get r :=
  get_set _ .stack r _

theorem get_push_push [Memory M] (cpu : Processor M) (x y : Word) (r : Reg) :
    ((cpu.push x).push y).get r = if .stack = r then cpu.get .stack - 8 else cpu.get r := by
  rw [get_push, get_push, get_push, if_pos rfl, BitVec.sub_sub]
  by_cases h : .stack = r
  · rw [if_pos h, if_pos h]
    rfl
  · rw [if_neg h, if_neg h, if_neg h]

/-- Words stand on the stack, the top of it first. -/
def Stacked (cpu : Processor FlatMemory) (xs : List Word) : Prop :=
  cpu.memory.Holds (cpu.get .stack) (xs.flatMap LittleEndian.ofWord)

variable {cpu : Processor FlatMemory} {x : Word} {xs : List Word}

theorem stacked_nil (cpu : Processor FlatMemory) : cpu.Stacked [] := rfl

/-- The stack depends on memory and the stack pointer only. -/
theorem Stacked.congr {cpu' : Processor FlatMemory} (h : cpu.Stacked xs)
    (hmemory : cpu'.memory = cpu.memory) (hstack : cpu'.get .stack = cpu.get .stack) :
    cpu'.Stacked xs := by
  rwa [Stacked, hmemory, hstack]

theorem Stacked.push (h : cpu.Stacked xs) (x : Word) (hlen : 4 * (xs.length + 1) ≤ 0x1000000) :
    (cpu.push x).Stacked (x :: xs) := by
  have htop : cpu.get .stack - 4 + BitVec.ofNat 32 (LittleEndian.ofWord x).length =
      cpu.get .stack := BitVec.sub_add_cancel _ _
  rw [Stacked, ← htop] at h
  rw [Stacked, get_push, if_pos rfl]
  refine h.writeBytes ?_
  rw [LittleEndian.length_ofWord, LittleEndian.length_flatMap_ofWord]
  omega

/-- A pop takes the top of the stack and leaves memory alone. -/
theorem Stacked.pop (h : cpu.Stacked (x :: xs)) :
    cpu.pop = (x, cpu.set .stack (cpu.get .stack + 4)) ∧
      (cpu.set .stack (cpu.get .stack + 4)).Stacked xs := by
  rw [Stacked, List.flatMap_cons, FlatMemory.holds_append] at h
  obtain ⟨htop, hrest⟩ := h
  constructor
  · rw [Processor.pop, htop.readWord]
  · rw [Stacked, get_set, if_pos rfl]
    exact hrest

/-- A push writes the four bytes below the stack pointer. -/
theorem byte_push (cpu : Processor FlatMemory) (x : Word) {a : Address}
    (h : 4 ≤ (a - Address.ofWord (cpu.get .stack - 4)).toNat) :
    (cpu.push x).memory.byte a = cpu.memory.byte a :=
  cpu.memory.byte_writeBytes_of_le _ (by rwa [LittleEndian.length_ofWord])

end Microcomputer.Processor
