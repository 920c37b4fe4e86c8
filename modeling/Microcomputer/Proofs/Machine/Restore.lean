import Microcomputer.Proofs.Machine.Reachable

/-! Loading a snapshot is all or nothing: a machine that refuses one is left as it was,
down to the traces of its devices. -/

namespace Microcomputer.Machine

variable {m : Machine}

/-- A refused snapshot changes nothing, whichever of its states was the one refused. -/
theorem eq_of_restore_error (h : m.Reachable) {s : Snapshot} {e : RestoreError}
    (he : (m.restore s).2 = some e) : (m.restore s).1 = m := by
  simp only [restore] at he ⊢
  split
  · rfl
  · next hm =>
    split
    · next map e hr =>
      have hback := h.valid.restore_of_error (congrArg Prod.snd hr)
      rw [hr] at hback
      have heq : map = m.map := hback
      rw [heq]
      rfl
    · next map hr =>
      rw [hm] at he
      simp only [hr] at he
      cases he

/-- A machine with one byte of RAM and an exerciser in slot 3. -/
def bench : Machine :=
  run [.attach 3 (.exerciser (.new ⟨1, 2, 3, 4⟩ true 5))]
    ((build ⟨1, #[], 1, some 0, 0⟩ 0).toOption.get (by decide))

theorem reachable_bench : bench.Reachable := ⟨⟨1, #[], 1, some 0, 0⟩, 0, _, _, rfl, rfl⟩

/-- A snapshot with other states throughout, of which that of the exerciser is cut short. -/
def cutShort : Snapshot :=
  ⟨.initial, [9], [.replicate 19 1, [2, 2], .replicate 24 3, .replicate 64 4],
    [⟨3, ⟨5, .replicate 5 6⟩, .replicate 10 7⟩]⟩

/-- Every peripheral has taken a state over by the time the exerciser refuses its own. -/
theorem eq_of_restore_error_bench :
    (bench.map.restoreEach cutShort.peripherals cutShort.cards).1 ≠ bench.map ∧
      (bench.restore cutShort).2 = some (.size 11 10) ∧ (bench.restore cutShort).1 = bench := by
  have he : (bench.restore cutShort).2 = some (.size 11 10) := by decide
  exact ⟨by decide, he, eq_of_restore_error reachable_bench he⟩

end Microcomputer.Machine
