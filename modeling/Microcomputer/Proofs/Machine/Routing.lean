import Microcomputer.Proofs.Machine.Restore
import Microcomputer.Proofs.MemoryMap.Interrupts

/-! The routing of interrupts at the end of a step and of every cycle. A round of routing
leaves the machine as it was, or it latches the message of the first source that asks and
tells that source and no other: `routes_route`. -/

namespace Microcomputer.Machine

variable {m : Machine}

/-! ### When interrupts are routed -/

/-- The machine after a slot and the time that the slot took. -/
def afterSlot (m : Machine) : Machine :=
  { m with cpu := m.cpu.step.2 }.withMap (·.tick m.cpu.step.1 (m.elapsed m.cpu.step.1))

/-- The machine after a cycle of the processor and the time of one cycle. -/
def afterCycle (m : Machine) : Machine :=
  { m with cpu := m.cpu.cycle }.withMap (·.tick 1 (m.elapsed 1))

theorem step_eq_route (m : Machine) : m.step.2 = m.afterSlot.route := rfl

theorem cycle_eq_route (m : Machine) : m.cycle = m.afterCycle.route := rfl

theorem tick_succ (n : Nat) (m : Machine) : m.tick (n + 1) = (m.tick n).cycle := by
  induction n generalizing m with
  | zero => rfl
  | succ n ih => exact ih m.cycle

theorem valid_afterSlot (h : m.map.Reachable) : m.afterSlot.map.Valid :=
  (kept_reachable.tick (kept_reachable.of_processor h .step) _ _).valid

theorem valid_afterCycle (h : m.map.Reachable) : m.afterCycle.map.Valid := by
  have hcycle : m.cpu.cycle.memory.Reachable :=
    Processor.memory_cycle kept_reachable.read kept_reachable.write h
  exact (hcycle.op (.tick _ _)).valid

/-! ### What routing does -/

/-- The processor takes the message of the first source that asks for an interrupt, and that
source is told. -/
structure Delivers (m : Machine) (r : InterruptRequest) (m' : Machine) : Prop where
  accepts : m.cpu.flag .enabled ∧ ¬m.cpu.pending ∧ ¬m.cpu.flag .inService
  requested : m.map.requested r.source = some r.message
  first : ∀ s, s.Precedes r.source → m.map.requested s = none
  state_eq : m'.cpu.toState = { m.cpu.toState with pending := true, message := r.message }
  peripheral?_eq : ∀ id, m'.map.peripheral? id =
    if r.source = .peripheral id then (m.map.peripheral? id).map Peripheral.acknowledge
    else m.map.peripheral? id
  card?_eq : ∀ slot, m'.map.card? slot =
    if r.source = .slot slot then (m.map.card? slot).map Card.acknowledge
    else m.map.card? slot
  ram_eq : m'.map.ram = m.map.ram
  layout_eq : m'.map.layout = m.map.layout
  configuration_eq : m'.configuration = m.configuration

/-- Nothing happens, because no source asks or the processor does not accept, or one message
is delivered. -/
def Routes (m m' : Machine) : Prop :=
  (m' = m ∧ ((∀ s, m.map.requested s = none) ∨
    ¬m.cpu.flag .enabled ∨ m.cpu.pending ∨ m.cpu.flag .inService)) ∨
  ∃ r, m.Delivers r m'

theorem delivers_route (hm : m.map.Valid) {r : InterruptRequest} (hr : m.map.request? = some r)
    (ha : m.cpu.accepts) :
    m.Delivers r ({ m with cpu := m.cpu.offer r.message }.withMap (·.acknowledge r.source)) := by
  obtain ⟨hrequested, hfirst⟩ := hm.of_request? hr
  have hoffer : m.cpu.offer r.message = { m.cpu with pending := true, message := r.message } :=
    if_pos ha
  rw [hoffer]
  exact ⟨Processor.State.accepts_iff.mp ha, hrequested, hfirst, rfl,
    hm.peripheral?_acknowledge r.source, m.map.card?_acknowledge r.source,
    m.map.ram_acknowledge r.source, hm.layout_acknowledge r.source, rfl⟩

theorem routes_route (hm : m.map.Valid) : m.Routes m.route := by
  unfold route
  split
  · next r hr =>
    split
    · next ha => exact .inr ⟨r, delivers_route hm hr ha⟩
    · next ha =>
      rw [Processor.State.accepts_iff, not_and_or, not_and_or, not_not, not_not] at ha
      exact .inl ⟨rfl, .inr ha⟩
  · next hr => exact .inl ⟨rfl, .inl (hm.of_request?_eq_none hr)⟩

/-- Every round of routing, at the end of a step and of each cycle, delivers one message or
changes nothing. In any memory map that there can be, polls that are each acknowledged show
every interrupt that is asked for once, by priority, and then none. -/
theorem routes_once (h : m.Reachable) :
    m.afterSlot.Routes m.step.2 ∧
    (∀ n, (m.tick n).afterCycle.Routes (m.tick (n + 1))) ∧
    ∀ map : MemoryMap, map.Reachable →
      map.asserted.Pairwise InterruptRequest.Precedes ∧
      (∀ r, r ∈ map.asserted ↔ r.message ∈ map.assertedBy r.source) ∧
      ∀ n, MemoryMap.polls (map.asserted.length + n) map =
        map.asserted.map some ++ List.replicate n none := by
  refine ⟨?_, fun n => ?_, fun map hmap => ?_⟩
  · rw [step_eq_route]
    exact routes_route (valid_afterSlot h.map)
  · rw [tick_succ, cycle_eq_route]
    exact routes_route (valid_afterCycle (kept_reachable.of_tick h.map n))
  · exact ⟨hmap.valid.pairwise_asserted, fun r => hmap.valid.mem_asserted, hmap.valid.polls_eq⟩

/-- A machine in which both channels of the timer and the exerciser ask for an interrupt, and
whose processor accepts one. -/
def busy : Machine :=
  run [.map (.write 0x11E010 0x0F), .map (.tick 1 ⟨0⟩), .map (.call 3 (.command 2)),
    .processor (.setState { Processor.State.initial with
      registers := Registers.zero.set .flags 0x100 })] bench

theorem routes_once_busy :
    let first : InterruptRequest := ⟨.peripheral 0, 1⟩
    let second : InterruptRequest := ⟨.peripheral 0, 2⟩
    let third : InterruptRequest := ⟨.slot 3, 5⟩
    busy.Reachable ∧ busy.map.Reachable ∧ busy.map.asserted = [first, second, third] ∧
      busy.afterSlot.Routes busy.step.2 ∧ busy.step.2.cpu.latched = some 1 ∧
      MemoryMap.polls 5 busy.map = [some first, some second, some third, none, none] := by
  intro first second third
  have h : busy.Reachable := reachable_bench.run _
  have hasserted : busy.map.asserted = [first, second, third] := by decide +kernel
  obtain ⟨hstep, -, hmap⟩ := routes_once h
  have hpolls := (hmap busy.map h.map).2.2 2
  rw [hasserted] at hpolls
  exact ⟨h, h.map, hasserted, hstep, by decide +kernel, hpolls⟩

end Microcomputer.Machine
