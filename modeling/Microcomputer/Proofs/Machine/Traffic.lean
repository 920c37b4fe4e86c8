import Microcomputer.Proofs.Machine.Reachable
import Microcomputer.Proofs.Processor.Interchange

/-! What a machine does to its memory map. The processor reads and writes, time passes, interrupts
are acknowledged, and the rest is asked for from outside; nothing else happens to the map. So the
map of a machine after any operations is what these operations on the map make of it:
`map_run`. -/

namespace Microcomputer

open Memory (Access replay)

/-! ### Accesses -/

/-- An access of a processor as an operation on its map. -/
def Memory.Access.op : Access → MemoryMap.Op
  | .read a => .read a
  | .write a b => .write a b

theorem MemoryMap.run_append (ops ops' : List Op) (map : MemoryMap) :
    run (ops ++ ops') map = run ops' (run ops map) := List.foldl_append

theorem MemoryMap.run_accesses (xs : List Access) (map : MemoryMap) :
    run (xs.map Access.op) map = replay xs map := by
  induction xs generalizing map with
  | nil => rfl
  | cons x xs ih => cases x <;> exact ih _

namespace Machine

/-- The operations on the map in a call to the processor. -/
def accessed (m : Machine) (call : Processor.Call) : List MemoryMap.Op :=
  (Processor.accesses [call] m.cpu).map Access.op

theorem run_accessed (m : Machine) (call : Processor.Call) :
    MemoryMap.run (m.accessed call) m.map = (call.run m.cpu).memory :=
  (MemoryMap.run_accesses _ _).trans (Processor.memory_run [call] m.cpu).symm

/-! ### Rounds -/

def routeTraffic (m : Machine) : List MemoryMap.Op :=
  match m.map.request? with
  | some r => if m.cpu.accepts then [.acknowledge r.source] else []
  | none => []

def roundTraffic (m : Machine) (n : Nat) : List MemoryMap.Op :=
  .tick n (m.elapsed n) :: (m.withMap (·.tick n (m.elapsed n))).routeTraffic

def stepTraffic (m : Machine) : List MemoryMap.Op :=
  m.accessed .step ++ { m with cpu := m.cpu.step.2 }.roundTraffic m.cpu.step.1

def cycleTraffic (m : Machine) : List MemoryMap.Op :=
  m.accessed (.tick 1) ++ { m with cpu := m.cpu.cycle }.roundTraffic 1

def tickTraffic : Nat → Machine → List MemoryMap.Op
  | 0, _ => []
  | n + 1, m => m.cycleTraffic ++ tickTraffic n m.cycle

theorem map_route (m : Machine) : m.route.map = MemoryMap.run m.routeTraffic m.map := by
  unfold route routeTraffic
  cases m.map.request? with
  | none => rfl
  | some r =>
    by_cases h : m.cpu.accepts
    · simp only [if_pos h, Processor.offer]
      rfl
    · simp only [if_neg h]
      rfl

theorem map_round (m : Machine) (n : Nat) :
    (m.round n).map = MemoryMap.run (m.roundTraffic n) m.map :=
  (m.withMap (·.tick n (m.elapsed n))).map_route

theorem map_step (m : Machine) : m.step.2.map = MemoryMap.run m.stepTraffic m.map := by
  rw [stepTraffic, MemoryMap.run_append, run_accessed]
  exact map_round { m with cpu := m.cpu.step.2 } m.cpu.step.1

theorem map_cycle (m : Machine) : m.cycle.map = MemoryMap.run m.cycleTraffic m.map := by
  rw [cycleTraffic, MemoryMap.run_append, run_accessed]
  exact map_round { m with cpu := m.cpu.cycle } 1

theorem map_tick (n : Nat) (m : Machine) :
    (m.tick n).map = MemoryMap.run (tickTraffic n m) m.map := by
  induction n generalizing m with
  | zero => rfl
  | succ n ih => rw [tick, tickTraffic, MemoryMap.run_append, ih, map_cycle]

/-! ### Operations -/

/-- A snapshot brings states first and then RAM. -/
def restoreTraffic (m : Machine) (s : Snapshot) : List MemoryMap.Op :=
  match m.mismatch? s with
  | some _ => []
  | none =>
    .restore s.peripherals s.cards ::
      match (m.map.restore s.peripherals s.cards).2 with
      | some _ => []
      | none => [.load 0 s.ram]

/-- What an operation on a machine does to its map. -/
def Op.traffic : Op → Machine → List MemoryMap.Op
  | step, m => m.stepTraffic
  | tick n, m => tickTraffic n m
  | reset, _ => [.reset]
  | load a bs, _ => [.load a bs]
  | tone, _ => [.read (BitVec.ofNat 32 toneBase), .read (BitVec.ofNat 32 toneBase + 1)]
  | attach slot d, _ => [.attach slot d]
  | attachNamed c name slot, _ => ((c.device? name).map (.attach slot)).toList
  | detach slot, _ => [.detach slot]
  | restore s, m => m.restoreTraffic s
  | processor .step, m => m.accessed .step
  | processor (.tick n), m => m.accessed (.tick n)
  | processor .reset, _ | processor (.offer _), _ | processor (.setState _), _ => []
  | map op, _ => [op]

/-- All that operations on a machine do to its map. -/
def traffic : List Op → Machine → List MemoryMap.Op
  | [], _ => []
  | op :: ops, m => op.traffic m ++ traffic ops (op.run m)

theorem map_restore (m : Machine) (s : Snapshot) :
    (m.restore s).1.map = MemoryMap.run (m.restoreTraffic s) m.map := by
  unfold restore restoreTraffic
  cases m.mismatch? s with
  | some e => rfl
  | none =>
    cases hr : m.map.restore s.peripherals s.cards with
    | mk map error =>
      have hmap : (MemoryMap.Op.restore s.peripherals s.cards).run m.map = map :=
        congrArg Prod.fst hr
      cases error with
      | some e => exact hmap.symm
      | none => exact congrArg (MemoryMap.Op.load 0 s.ram).run hmap.symm

theorem Op.map_run (op : Op) (m : Machine) :
    (op.run m).map = MemoryMap.run (op.traffic m) m.map := by
  cases op with
  | step => exact m.map_step
  | tick n => exact map_tick n m
  | reset | load a bs | tone | map op => rfl
  | attach slot d =>
    rw [run_attach]
    rfl
  | attachNamed c name slot =>
    rw [run_attachNamed, traffic]
    cases c.device? name <;> rfl
  | detach slot =>
    rw [run_detach]
    rfl
  | restore s => exact m.map_restore s
  | processor op =>
    cases op with
    | step => exact (m.run_accessed .step).symm
    | tick n => exact (m.run_accessed (.tick n)).symm
    | reset | setState s => rfl
    | offer message =>
      change (m.cpu.offer message).memory = m.cpu.memory
      unfold Processor.offer
      split <;> rfl

/-- Whatever is done to a machine, nothing happens to its map but these operations. -/
theorem map_run (ops : List Op) (m : Machine) :
    (run ops m).map = MemoryMap.run (traffic ops m) m.map := by
  induction ops generalizing m with
  | nil => rfl
  | cons op ops ih =>
    rw [traffic, MemoryMap.run_append, ← op.map_run]
    exact ih (op.run m)

end Machine

end Microcomputer
