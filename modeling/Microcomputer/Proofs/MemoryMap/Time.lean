import Microcomputer.Proofs.MemoryMap.Layout

/-! The time that passes for a memory map. Clock cycles add up: cycles that pass at once do
what they do one after the other, for counters, devices and whole maps. The one exception is
the clock of seconds, which takes parts of seconds instead and rounds their sums; so the
statement about maps is about those without one, `Clockless.tick_add`. -/

namespace Microcomputer

/-! ### Counters and devices -/

theorem Counter.run_add (enabled : Bool) (a b : Nat) (c : Counter) :
    run enabled b (run enabled a c) = run enabled (a + b) c := by
  induction a generalizing c with
  | zero => rw [Nat.zero_add, run]
  | succ a ih => rw [Nat.succ_add, run, run, ih]

namespace IntervalTimer

theorem tick_zero (t : IntervalTimer) : t.tick 0 = t := by
  unfold tick
  split <;> split <;> rfl

theorem tick_add (t : IntervalTimer) (a b : Nat) : (t.tick a).tick b = t.tick (a + b) := by
  unfold tick
  split <;> split <;> simp only [Counter.run_add, *]

end IntervalTimer

namespace Exerciser

theorem tick_zero (e : Exerciser) : e.tick 0 = e := by
  simp only [tick]
  split
  · simp
  · next hd =>
    have hraised : ¬e.registers[3].toNat ≤ 0 := fun h => hd (Nat.le_zero.mp h)
    simp [hraised]

theorem tick_add (e : Exerciser) (a b : Nat) : (e.tick a).tick b = e.tick (a + b) := by
  have hlt := e.registers[3].isLt
  generalize hd : e.registers[3].toNat = d at hlt
  by_cases hzero : d = 0
  · simp [tick, hd, hzero, BitVec.add_assoc, BitVec.ofNat_add]
  · -- register D is put back at the end of the first time and read again for the second
    have hleft : (BitVec.ofNat 16 (d - a)).toNat = d - a := by
      rw [BitVec.toNat_ofNat, Nat.mod_eq_of_lt (by omega)]
    simp only [tick, hd, hzero, if_false, Vector.getElem_set_self, hleft]
    split
    · next hdone =>
      have hab : d - (a + b) = d - a := by omega
      have hle : d ≤ a ∧ d ≤ a + b := by omega
      simp [hab, hle, BitVec.add_assoc, BitVec.ofNat_add]
    · next hmore =>
      have hle : ¬d ≤ a := by omega
      have hiff : d - a ≤ b ↔ d ≤ a + b := by omega
      simp [hle, hiff, Nat.sub_sub, BitVec.add_assoc, BitVec.ofNat_add]

end Exerciser

theorem Device.tick_zero (d : Device) : d.tick 0 = d := by
  cases d with
  | exerciser e => exact congrArg exerciser e.tick_zero
  | inert i => rfl

theorem Device.tick_add (d : Device) (a b : Nat) : (d.tick a).tick b = d.tick (a + b) := by
  cases d with
  | exerciser e => exact congrArg exerciser (e.tick_add a b)
  | inert i => rfl

theorem Device.synchronous_tick (d : Device) (n : Nat) :
    (d.tick n).synchronous = d.synchronous := by
  cases d with
  | exerciser e =>
    simp only [tick, synchronous, Exerciser.tick]
    split <;> rfl
  | inert i => rfl

namespace Card

theorem tick_zero (c : Card) : c.tick 0 = c := by
  simp only [tick, Device.tick_zero, ite_self]

theorem tick_add (c : Card) (a b : Nat) : (c.tick a).tick b = c.tick (a + b) := by
  unfold tick
  by_cases hs : c.device.synchronous
  · simp only [if_pos hs, Device.synchronous_tick, Device.tick_add]
  · simp only [if_neg hs]

end Card

/-! ### Maps without a clock of seconds -/

namespace Peripheral

variable {p : Peripheral}

theorem tick_zero (h : p.kind ≠ .clock) (x : Binary64) : p.tick 0 x = p := by
  cases p with
  | timer t => exact congrArg timer t.tick_zero
  | clock c => exact absurd rfl h
  | _ => rfl

theorem tick_add (h : p.kind ≠ .clock) (a b : Nat) (x y z : Binary64) :
    (p.tick a x).tick b y = p.tick (a + b) z := by
  cases p with
  | timer t => exact congrArg timer (t.tick_add a b)
  | clock c => exact absurd rfl h
  | _ => rfl

end Peripheral

namespace Region.Content

variable {c : Content}

theorem tick_zero (h : c.kind ≠ .peripheral .clock) (x : Binary64) : c.tick 0 x = c := by
  cases c with
  | peripheral p => exact congrArg peripheral (p.tick_zero (fun hp => h (congrArg _ hp)) x)
  | card k => exact congrArg card k.tick_zero

theorem tick_add (h : c.kind ≠ .peripheral .clock) (a b : Nat) (x y z : Binary64) :
    (c.tick a x).tick b y = c.tick (a + b) z := by
  cases c with
  | peripheral p => exact congrArg peripheral (p.tick_add (fun hp => h (congrArg _ hp)) a b x y z)
  | card k => exact congrArg card (k.tick_add a b)

end Region.Content

namespace MemoryMap

/-- No region leads to a clock of seconds. -/
def Clockless (m : MemoryMap) : Prop := ∀ r ∈ m.regions, r.content.kind ≠ .peripheral .clock

instance (m : MemoryMap) : Decidable m.Clockless :=
  inferInstanceAs (Decidable (∀ r ∈ m.regions, _))

variable {m n : MemoryMap}

theorem Clockless.of_layout_eq (h : m.Clockless) (hl : n.layout = m.layout) : n.Clockless := by
  intro r hr
  obtain ⟨s, hs, hsr⟩ := exists_region_of_layout_eq hl hr
  have hkind : s.content.kind = r.content.kind := congrArg Region.Place.kind hsr
  exact hkind ▸ h s hs

theorem Clockless.tick_zero (h : m.Clockless) (x : Binary64) : m.tick 0 x = m := by
  have hregions : m.regions.map (fun r => { r with content := r.content.tick 0 x }) =
      m.regions.map id :=
    List.map_congr_left fun r hr => by rw [Region.Content.tick_zero (h r hr)]; rfl
  rw [tick, mapContents, hregions, List.map_id]

/-- Cycles that pass in two parts pass at once. -/
theorem Clockless.tick_add (h : m.Clockless) (a b : Nat) (x y z : Binary64) :
    (m.tick a x).tick b y = m.tick (a + b) z := by
  simp only [tick, mapContents, List.map_map, MemoryMap.mk.injEq, true_and, and_true]
  refine List.map_congr_left fun r hr => ?_
  simp only [Function.comp, Region.Content.tick_add (h r hr) a b x y z]

end MemoryMap

end Microcomputer
