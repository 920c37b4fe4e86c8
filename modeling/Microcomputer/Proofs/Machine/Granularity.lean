import Microcomputer.Proofs.Machine.Restore
import Microcomputer.Proofs.MemoryMap.Time
import Microcomputer.Proofs.Processor.Granularity

/-! Steps and ticks of the whole machine. A step lets the whole cost of a slot pass at once;
ticks let it pass cycle by cycle, and poll for interrupts each time. While interrupts are
disabled the polls change nothing, and where cycles add up the two lead to the same machine:
`tick_eq_steps_of_disabled`. -/

namespace Microcomputer.Machine

variable {m : Machine}

/-! ### Routing leaves flags alone -/

theorem route_of_disabled (h : ¬m.cpu.flag .enabled) : m.route = m := by
  have hrefused : ¬m.cpu.accepts := fun ha => h (Processor.State.accepts_iff.mp ha).1
  unfold route
  split
  · exact if_neg hrefused
  · rfl

theorem flag_route (m : Machine) (f : Flag) : m.route.cpu.flag f = m.cpu.flag f := by
  unfold route
  split
  · split
    · next ha =>
      rw [Processor.offer, if_pos ha]
      rfl
    · rfl
  · rfl

theorem flag_step (m : Machine) (f : Flag) : m.step.2.cpu.flag f = m.cpu.step.2.flag f :=
  flag_route _ f

/-! ### Waiting out a slot -/

/-- The machine after so many cycles in which its processor only waits. -/
def waited (m : Machine) (n : Nat) (elapsed : Binary64) : Machine :=
  { m with cpu := { m.cpu with
      waitCycles := m.cpu.waitCycles - BitVec.ofNat 32 n
      cycles := m.cpu.cycles + BitVec.ofNat 64 n
      memory := m.map.tick n elapsed } }

theorem waited_zero (hclock : m.map.Clockless) (x : Binary64) : m.waited 0 x = m := by
  have hwait : m.cpu.waitCycles - BitVec.ofNat 32 0 = m.cpu.waitCycles := BitVec.sub_zero _
  have hcycles : m.cpu.cycles + BitVec.ofNat 64 0 = m.cpu.cycles := BitVec.add_zero _
  rw [waited, hwait, hcycles, hclock.tick_zero]
  rfl

theorem waited_waited (hclock : m.map.Clockless) (a b : Nat) (x y z : Binary64) :
    (m.waited a x).waited b y = m.waited (a + b) z := by
  have hwait : m.cpu.waitCycles - BitVec.ofNat 32 a - BitVec.ofNat 32 b =
      m.cpu.waitCycles - BitVec.ofNat 32 (a + b) := by
    grind [BitVec.ofNat_add]
  have hcycles : m.cpu.cycles + BitVec.ofNat 64 a + BitVec.ofNat 64 b =
      m.cpu.cycles + BitVec.ofNat 64 (a + b) := by
    rw [BitVec.ofNat_add, BitVec.add_assoc]
  rw [waited, waited, waited, ← hwait, ← hcycles, ← hclock.tick_add a b x y z]
  rfl

theorem clockless_waited (hclock : m.map.Clockless) (n : Nat) (x : Binary64) :
    (m.waited n x).map.Clockless :=
  hclock.of_layout_eq (m.map.layout_tick n x)

theorem cycle_of_waiting (hwait : m.cpu.waitCycles ≠ 0) (h : ¬m.cpu.flag .enabled) :
    m.cycle = m.waited 1 (m.elapsed 1) := by
  rw [cycle, Processor.cycle, if_neg hwait]
  exact route_of_disabled h

/-- Ticks that only wait. -/
theorem tick_of_waiting {n : Nat} (hn : n ≤ m.cpu.waitCycles.toNat) (h : ¬m.cpu.flag .enabled)
    (hclock : m.map.Clockless) (x : Binary64) : m.tick n = m.waited n x := by
  induction n generalizing m with
  | zero => exact (waited_zero hclock x).symm
  | succ n ih =>
    have hwait : m.cpu.waitCycles ≠ 0 := by
      intro hzero
      rw [hzero] at hn
      contradiction
    have hleft : n ≤ (m.cpu.waitCycles - 1).toNat := by
      have := Processor.toNat_sub_one hwait
      omega
    calc m.tick (n + 1)
      _ = (m.waited 1 (m.elapsed 1)).tick n := by rw [tick, cycle_of_waiting hwait h]
      _ = (m.waited 1 (m.elapsed 1)).waited n x := ih hleft h (clockless_waited hclock 1 _)
      _ = m.waited (n + 1) x := by rw [waited_waited hclock 1 n _ _ x, Nat.add_comm]

/-- The machine whose processor has run a slot and has still to pay for all of it. -/
def started (m : Machine) : Machine :=
  { m with cpu := { m.cpu.slot.2 with waitCycles := BitVec.ofNat 32 m.cpu.slot.1 } }

/-- The first cycle of a slot runs it and pays for one cycle. -/
theorem cycle_started (hwait : m.cpu.waitCycles = 0) : m.started.cycle = m.cycle := by
  have hcpu : m.started.cpu.cycle = m.cpu.cycle := by
    rw [Processor.cycle, Processor.cycle, if_pos hwait,
      if_neg (show m.started.cpu.waitCycles ≠ 0 from m.cpu.slot_cost_ne_zero)]
    rfl
  rw [cycle, cycle, hcpu]
  rfl

/-- While interrupts are disabled, a step runs a slot and waits. -/
theorem step_eq_waited (hwait : m.cpu.waitCycles = 0) (h : ¬m.cpu.slot.2.flag .enabled) :
    m.step.2 = m.started.waited m.cpu.slot.1 (m.elapsed m.cpu.slot.1) := by
  have hcost : BitVec.ofNat 32 m.cpu.slot.1 - BitVec.ofNat 32 m.cpu.slot.1 =
      m.cpu.slot.2.waitCycles := by
    rw [BitVec.sub_self, (Prod.mk.inj m.cpu.clock_slot).1, hwait]
    rfl
  rw [step, Processor.step_of_idle hwait, waited, started, hcost]
  exact route_of_disabled h

/-- The ticks of a whole slot. -/
theorem tick_slot_cost (hwait : m.cpu.waitCycles = 0) (h : ¬m.cpu.slot.2.flag .enabled)
    (hclock : m.cpu.slot.2.memory.Clockless) : m.tick m.cpu.slot.1 = m.step.2 := by
  have hcost : m.cpu.slot.1 = m.started.cpu.waitCycles.toNat := m.cpu.toNat_slot_cost.symm
  obtain ⟨n, hn⟩ : ∃ n, m.cpu.slot.1 = n + 1 := Nat.exists_eq_succ_of_ne_zero (by
    have := m.cpu.slot_cost
    omega)
  calc m.tick m.cpu.slot.1
    _ = m.started.tick m.cpu.slot.1 := by rw [hn, tick, tick, cycle_started hwait]
    _ = m.started.waited m.cpu.slot.1 _ := tick_of_waiting (Nat.le_of_eq hcost) h hclock _
    _ = m.step.2 := (step_eq_waited hwait h).symm

/-! ### Runs of slots -/

/-- So many steps. -/
def steps : Nat → Machine → Machine
  | 0, m => m
  | k + 1, m => steps k m.step.2

/-- The costs of so many steps. -/
def costs : Nat → Machine → List Nat
  | 0, _ => []
  | k + 1, m => m.step.1 :: costs k m.step.2

theorem tick_add (a b : Nat) (m : Machine) : tick (a + b) m = tick b (tick a m) := by
  induction a generalizing m with
  | zero => rw [Nat.zero_add, tick]
  | succ a ih => rw [Nat.succ_add, tick, ih, tick]

/-- A machine between two slots, with a valid memory map and without a clock of seconds. -/
structure Steady (m : Machine) : Prop where
  idle : m.cpu.waitCycles = 0
  valid : m.map.Valid
  clockless : m.map.Clockless

namespace Steady

theorem memory_slot (h : m.Steady) :
    m.cpu.slot.2.memory.Valid ∧ m.cpu.slot.2.memory.Clockless := by
  have hstep : m.cpu.step.2.memory = m.cpu.slot.2.memory := by
    rw [Processor.step_of_idle h.idle]
  rw [← hstep]
  refine Processor.memory_step (P := fun map : MemoryMap => map.Valid ∧ map.Clockless)
    (fun {map} hmap a => ?_) (fun {map} hmap a b => ?_) ⟨h.valid, h.clockless⟩
  · have hlayout := hmap.1.layout_readByte a
    exact ⟨hmap.1.of_layout_eq hlayout, hmap.2.of_layout_eq hlayout⟩
  · have hlayout := hmap.1.layout_writeByte a b
    exact ⟨hmap.1.of_layout_eq hlayout, hmap.2.of_layout_eq hlayout⟩

theorem step (h : m.Steady) (hdisabled : ¬m.cpu.slot.2.flag .enabled) : m.step.2.Steady := by
  obtain ⟨hvalid, hclock⟩ := h.memory_slot
  rw [step_eq_waited h.idle hdisabled]
  refine ⟨BitVec.sub_self _, hvalid.of_layout_eq ?_, clockless_waited (m := m.started) hclock _ _⟩
  exact m.cpu.slot.2.memory.layout_tick m.cpu.slot.1 _

theorem tick_sum_costs (h : m.Steady) (k : Nat)
    (hdisabled : ∀ j < k, ¬(steps (j + 1) m).cpu.flag .enabled) :
    m.tick (costs k m).sum = steps k m := by
  induction k generalizing m with
  | zero => rfl
  | succ k ih =>
    have hslot : ¬m.cpu.slot.2.flag .enabled := by
      have hfirst := hdisabled 0 (Nat.succ_pos k)
      rw [steps, steps, flag_step, Processor.step_of_idle h.idle] at hfirst
      exact hfirst
    have hcost : m.step.1 = m.cpu.slot.1 := by
      rw [Machine.step, Processor.step_of_idle h.idle]
    rw [costs, List.sum_cons, tick_add, hcost, tick_slot_cost h.idle hslot h.memory_slot.2,
      ih (h.step hslot), steps]
    exact fun j hj => hdisabled (j + 1) (Nat.succ_lt_succ hj)

end Steady

/-- From a machine that has nothing to wait for and no clock of seconds, `k` steps after each
of which interrupts are disabled lead where the ticks of their costs lead, polls and all. -/
theorem tick_eq_steps_of_disabled (h : m.Reachable) (hidle : m.cpu.waitCycles = 0)
    (hclock : m.map.Clockless) (k : Nat)
    (hdisabled : ∀ j < k, ¬(steps (j + 1) m).cpu.flag .enabled) :
    m.tick (costs k m).sum = steps k m := by
  have hsteady : m.Steady := ⟨hidle, h.valid, hclock⟩
  exact hsteady.tick_sum_costs k hdisabled

/-- A machine whose clock of seconds is unmapped. Its program reads the running count of the
timer, squares it, has the exerciser count the square down, and reads the count again. -/
def stopwatch : Machine :=
  let program := (Instruction.two 0x25 1 (.literal 0x11E008)).words ++
    (Instruction.three 0x4F 2 1 (.register 1)).words ++
    (Instruction.two 0x29 2 (.literal 0x110310)).words ++
    (Instruction.two 0x25 3 (.literal 0x11E008)).words
  let c : Configuration := ⟨64, (Instruction.image program).toArray, 1, some 0, 0⟩
  run [.map (.unregister 2), .attach 3 (.exerciser (.new ⟨1, 2, 3, 4⟩ true 5)),
    .map (.write 0x11E000 9), .map (.write 0x11E003 0), .map (.write 0x11E010 3)]
    ((build c 0).toOption.get (by decide +kernel))

theorem reachable_stopwatch : stopwatch.Reachable := (reachable_get _).run _

/-- Both timer and exerciser ask for interrupts meanwhile. -/
theorem tick_eq_steps_of_disabled_stopwatch :
    stopwatch.Reachable ∧ stopwatch.cpu.waitCycles = 0 ∧ stopwatch.map.Clockless ∧
      (∀ j < 4, ¬(steps (j + 1) stopwatch).cpu.flag .enabled) ∧
      costs 4 stopwatch = [4, 20, 4, 4] ∧ stopwatch.tick 32 = steps 4 stopwatch ∧
      (steps 4 stopwatch).map.request? = some ⟨.peripheral 0, 1⟩ ∧
      (steps 4 stopwatch).cpu.get 3 = 8 := by
  have hidle : stopwatch.cpu.waitCycles = 0 := by decide +kernel
  have hclock : stopwatch.map.Clockless := by decide +kernel
  have hdisabled : ∀ j < 4, ¬(steps (j + 1) stopwatch).cpu.flag .enabled := by decide +kernel
  have hcosts : costs 4 stopwatch = [4, 20, 4, 4] := by decide +kernel
  have htick := tick_eq_steps_of_disabled reachable_stopwatch hidle hclock 4 hdisabled
  rw [hcosts] at htick
  exact ⟨reachable_stopwatch, hidle, hclock, hdisabled, hcosts, htick, by decide +kernel,
    by decide +kernel⟩

end Microcomputer.Machine
