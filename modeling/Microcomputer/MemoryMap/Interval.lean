import Microcomputer.Memory.Address

/-! Intervals of 24-bit addresses, both ends included, and so never empty. -/

namespace Microcomputer

structure Interval where
  start : Nat
  stop : Nat
  start_le_stop : start ≤ stop
  stop_le_last : stop ≤ Address.last
deriving DecidableEq

namespace Interval

/-- The interval between two addresses, if they are in order and in range. -/
def between? (start stop : Nat) : Option Interval :=
  if h : start ≤ stop ∧ stop ≤ Address.last then some ⟨start, stop, h.1, h.2⟩ else none

def contains (i : Interval) (a : Nat) : Bool := i.start ≤ a && a ≤ i.stop

def overlaps (i j : Interval) : Bool := i.start ≤ j.stop && j.start ≤ i.stop

theorem contains_iff {i : Interval} {a : Nat} : i.contains a ↔ i.start ≤ a ∧ a ≤ i.stop := by
  simp [contains]

/-- Two intervals overlap exactly if they have an address in common. -/
theorem overlaps_iff {i j : Interval} : i.overlaps j ↔ ∃ a, i.contains a ∧ j.contains a := by
  have hi := i.start_le_stop
  have hj := j.start_le_stop
  simp only [overlaps, contains_iff, Bool.and_eq_true, decide_eq_true_eq]
  constructor
  · intro h
    exact ⟨max i.start j.start, by omega⟩
  · rintro ⟨a, ha, hb⟩
    omega

end Interval

end Microcomputer
