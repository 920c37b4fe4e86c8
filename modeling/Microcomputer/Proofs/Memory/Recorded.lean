import Microcomputer.Proofs.Memory.Program

/-! Memories that keep a record of their accesses. Recording changes nothing else, and with
the record it can be said which addresses a run uses and what it made of a memory. Memories
that agree only on some accesses are alike to all programs that keep to these:
`Program.run_within`. -/

namespace Microcomputer

namespace Memory

/-- One access to a byte, whatever the byte is that is read. -/
inductive Access where
  | read (a : Word)
  | write (a : Word) (b : Byte)
deriving DecidableEq

/-- A memory with its accesses so far. -/
structure Recorded (M : Type) where
  memory : M
  accesses : List Access

variable {M N : Type} [Memory M] [Memory N] {α : Type}

def Access.run : Access → M → M
  | read a, m => (readByte m a).2
  | write a b, m => writeByte m a b

/-- The memory after accesses one after the other. -/
def replay (xs : List Access) (m : M) : M := xs.foldl (fun m x => x.run m) m

theorem replay_append (xs ys : List Access) (m : M) :
    replay (xs ++ ys) m = replay ys (replay xs m) := List.foldl_append

instance : Memory (Recorded M) where
  readByte r a := ((readByte r.memory a).1, ⟨(readByte r.memory a).2, r.accesses ++ [.read a]⟩)
  writeByte r a b := ⟨writeByte r.memory a b, r.accesses ++ [.write a b]⟩

/-- Recording changes nothing else. -/
theorem simulation_recorded : Simulation fun (r : Recorded M) (m : M) => r.memory = m where
  answer_eq h a := by rw [← h]; rfl
  read h a := by rw [← h]; rfl
  write h a b := by rw [← h]; rfl

/-- The record tells what became of the memory `m` with which it began. -/
theorem simulation_replayed (m : M) :
    Simulation fun (r : Recorded M) (n : M) => r.memory = n ∧ replay r.accesses m = n where
  answer_eq h a := simulation_recorded.answer_eq h.1 a
  read h a := by
    obtain ⟨rfl, hreplay⟩ := h
    exact ⟨rfl, (replay_append _ [.read a] m).trans (congrArg (Access.read a).run hreplay)⟩
  write h a b := by
    obtain ⟨rfl, hreplay⟩ := h
    exact ⟨rfl, (replay_append _ [.write a b] m).trans (congrArg (Access.write a b).run hreplay)⟩

/-- Memories so related answer alike, and stay related, as long as accesses are inside. -/
structure SimulationWithin (inside : Access → Prop) (R : M → N → Prop) : Prop where
  answer_eq : ∀ {m n}, R m n → ∀ a, inside (.read a) → (readByte m a).1 = (readByte n a).1
  read : ∀ {m n}, R m n → ∀ a, inside (.read a) → R (readByte m a).2 (readByte n a).2
  write : ∀ {m n}, R m n → ∀ a b, inside (.write a b) → R (writeByte m a b) (writeByte n a b)

namespace Program

/-- A record only grows. -/
theorem accesses_grow (p : Program α) (r : Recorded M) :
    r.accesses <+: (p.run r).2.accesses := by
  induction p generalizing r with
  | done x => exact List.prefix_refl _
  | read a next ih =>
    exact (List.prefix_append r.accesses [.read a]).trans (ih (readByte r a).1 (readByte r a).2)
  | write a b next ih =>
    exact (List.prefix_append r.accesses [.write a b]).trans (ih (writeByte r a b))

theorem run_within {inside : Access → Prop} {R : M → N → Prop} (hR : SimulationWithin inside R)
    (p : Program α) {r : Recorded M} {n : N} (h : R r.memory n)
    (hin : ∀ x ∈ (p.run r).2.accesses, inside x) :
    (p.run r).1 = (p.run n).1 ∧ R (p.run r).2.memory (p.run n).2 := by
  induction p generalizing r n with
  | done x => exact ⟨rfl, h⟩
  | read a next ih =>
    -- the first access stands in the record of the whole run
    have ha : inside (.read a) := by
      refine hin _ (((next _).accesses_grow _).mem ?_)
      exact List.mem_append_right _ List.mem_cons_self
    have hanswer := hR.answer_eq h a ha
    have hnext := ih (readByte r a).1 (r := (readByte r a).2) (hR.read h a ha) hin
    rw [run, run, ← hanswer]
    exact hnext
  | write a b next ih =>
    have ha : inside (.write a b) := by
      refine hin _ ((next.accesses_grow _).mem ?_)
      exact List.mem_append_right _ List.mem_cons_self
    exact ih (r := writeByte r a b) (hR.write h a b ha) hin

end Program

end Memory

end Microcomputer
