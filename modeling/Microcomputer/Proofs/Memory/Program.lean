import Microcomputer.Memory.Access

/-! Programs of memory accesses: what a computation asks of a memory, and how it goes on
with the bytes that it reads. A program runs on every memory, and it runs alike on memories
that answer alike. -/

namespace Microcomputer

inductive Memory.Program (α : Type) where
  | done (x : α)
  | read (a : Word) (next : Byte → Program α)
  | write (a : Word) (b : Byte) (next : Program α)

/-- Memories so related answer alike, and stay related whatever is asked of them. -/
structure Memory.Simulation {M N : Type} [Memory M] [Memory N] (R : M → N → Prop) : Prop where
  answer_eq : ∀ {m n}, R m n → ∀ a, (readByte m a).1 = (readByte n a).1
  read : ∀ {m n}, R m n → ∀ a, R (readByte m a).2 (readByte n a).2
  write : ∀ {m n}, R m n → ∀ a b, R (writeByte m a b) (writeByte n a b)

/-- A property that accesses keep, seen as a relation of a memory to itself. -/
theorem Memory.Simulation.of_invariant {M : Type} [Memory M] {P : M → Prop}
    (hread : ∀ {m}, P m → ∀ a, P (readByte m a).2)
    (hwrite : ∀ {m}, P m → ∀ a b, P (writeByte m a b)) :
    Simulation fun m n : M => m = n ∧ P m where
  answer_eq h a := by
    obtain ⟨rfl, -⟩ := h
    rfl
  read h a := by
    obtain ⟨rfl, h⟩ := h
    exact ⟨rfl, hread h a⟩
  write h a b := by
    obtain ⟨rfl, h⟩ := h
    exact ⟨rfl, hwrite h a b⟩

namespace Memory.Program

variable {M N : Type} [Memory M] [Memory N] {α β : Type}

def run : Program α → M → α × M
  | done x, m => (x, m)
  | read a next, m => (next (readByte m a).1).run (readByte m a).2
  | write a b next, m => next.run (writeByte m a b)

def bind : Program α → (α → Program β) → Program β
  | done x, f => f x
  | read a next, f => read a fun b => (next b).bind f
  | write a b next, f => write a b (next.bind f)

theorem run_bind (p : Program α) (f : α → Program β) (m : M) :
    (p.bind f).run m = (f (p.run m).1).run (p.run m).2 := by
  induction p generalizing m with
  | done x => rfl
  | read a next ih => exact ih _ _
  | write a b next ih => exact ih _

theorem run_simulation {R : M → N → Prop} (hR : Simulation R) (p : Program α) {m : M} {n : N}
    (h : R m n) : (p.run m).1 = (p.run n).1 ∧ R (p.run m).2 (p.run n).2 := by
  induction p generalizing m n with
  | done x => exact ⟨rfl, h⟩
  | read a next ih =>
    rw [run, run, hR.answer_eq h a]
    exact ih _ (hR.read h a)
  | write a b next ih => exact ih (hR.write h a b)

/-! ### Accesses of several bytes -/

def readBytes : Nat → Word → Program Bytes
  | 0, _ => done []
  | n + 1, a => read a fun b => (readBytes n (a + 1)).bind fun bs => done (b :: bs)

def writeBytes : Word → Bytes → Program Unit
  | _, [] => done ()
  | a, b :: bs => write a b (writeBytes (a + 1) bs)

theorem run_readBytes (n : Nat) (a : Word) (m : M) :
    (readBytes n a).run m = Memory.readBytes n m a := by
  induction n generalizing a m with
  | zero => rfl
  | succ n ih =>
    rw [readBytes, run, run_bind, ih]
    rfl

theorem run_writeBytes (a : Word) (bs : Bytes) (m : M) :
    (writeBytes a bs).run m = ((), Memory.writeBytes m a bs) := by
  induction bs generalizing a m with
  | nil => rfl
  | cons b bs ih => exact ih _ _

end Memory.Program

end Microcomputer
