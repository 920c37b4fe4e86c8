import Microcomputer.Proofs.Machine.Traffic
import Microcomputer.Proofs.MemoryMap.Lifetime

/-! One time for the whole machine. A step lets its cost pass at once and a tick its cycles one
by one, and either of them gives the memory map what it adds to the cycle counter. So
whatever else is done to the machine meanwhile, all that is mapped and stays is given the same
portions of time, which add up to what the counter has grown: `time_shared`. -/

namespace Microcomputer.Machine

variable {m m' : Machine} {ops : List MemoryMap.Op}

/-! ### The time of an operation -/

/-- Operations in which time passes for the whole machine, or for no part of it. -/
def Op.shares : Op → Bool
  | step | tick _ | reset | load .. | tone | attach .. | attachNamed .. | detach _ => true
  | processor (.reset) | processor (.offer _) => true
  | map (.read _) | map (.write ..) | map (.load ..) | map (.register ..) | map (.unregister _)
  | map (.attach ..) | map (.detach _) | map .reset | map (.acknowledge _) => true
  | restore _ | processor _ | map _ => false

/-- The cycles that an operation takes, in the portions in which they pass: all cycles that a
step returns at once, and those of a tick one by one. -/
def Op.portions : Op → Machine → List Nat
  | step, m => [m.step.1]
  | tick n, _ => List.replicate n 1
  | _, _ => []

/-- The portions of a run. -/
def portions : List Op → Machine → List Nat
  | [], _ => []
  | op :: ops, m => op.portions m ++ portions ops (op.run m)

/-- The cycles that an operation takes: what a step returns and what a tick is given. -/
def Op.duration : Op → Machine → Nat
  | step, m => m.step.1
  | tick n, _ => n
  | _, _ => 0

def duration : List Op → Machine → Nat
  | [], _ => 0
  | op :: ops, m => op.duration m + duration ops (op.run m)

theorem Op.sum_portions (op : Op) (m : Machine) : (op.portions m).sum = op.duration m := by
  cases op with
  | step => exact List.sum_singleton
  | tick n => exact (List.sum_replicate_nat).trans (Nat.mul_one n)
  | _ => rfl

theorem sum_portions (ops : List Op) (m : Machine) :
    (portions ops m).sum = duration ops m := by
  induction ops generalizing m with
  | nil => rfl
  | cons op ops ih => rw [portions, List.sum_append, op.sum_portions, ih, duration]

/-- So many cycles with the seconds that they take. -/
def portion (m : Machine) (n : Nat) : Portion := (n, m.elapsed n)

/-- The cycles that pass for the counter, and those that operations bring to the map. -/
structure Passed (ns : List Nat) (ops : List MemoryMap.Op) (m m' : Machine) : Prop where
  configuration_eq : m'.configuration = m.configuration
  cycles_eq : m'.cpu.cycles = m.cpu.cycles + BitVec.ofNat 64 ns.sum
  portions_eq : ops.filterMap MemoryMap.Op.portion? = ns.map m.portion
  quiet : ∀ op ∈ ops, op.quiet

namespace Passed

/-- No time passes. -/
theorem still (hconfiguration : m'.configuration = m.configuration)
    (hcycles : m'.cpu.cycles = m.cpu.cycles)
    (h : ∀ op ∈ ops, op.quiet ∧ op.portion? = none) : Passed [] ops m m' where
  configuration_eq := hconfiguration
  cycles_eq := hcycles.trans (BitVec.add_zero _).symm
  portions_eq := List.filterMap_eq_nil_iff.mpr fun op hop => (h op hop).2
  quiet op hop := (h op hop).1

theorem refl (m : Machine) : Passed [] [] m m := still rfl rfl (List.forall_mem_nil _)

theorem trans {ns ns' : List Nat} {ops' : List MemoryMap.Op} {m'' : Machine}
    (h : Passed ns ops m m') (h' : Passed ns' ops' m' m'') :
    Passed (ns ++ ns') (ops ++ ops') m m'' where
  configuration_eq := h'.configuration_eq.trans h.configuration_eq
  cycles_eq := by
    rw [h'.cycles_eq, h.cycles_eq, List.sum_append, BitVec.ofNat_add, BitVec.add_assoc]
  portions_eq := by
    have hportion : m'.portion = m.portion := by
      funext n
      rw [portion, elapsed, h.configuration_eq]
      rfl
    rw [List.filterMap_append, h.portions_eq, h'.portions_eq, hportion, List.map_append]
  quiet := List.forall_mem_append.mpr ⟨h.quiet, h'.quiet⟩

/-- One operation on the map in which no time passes. -/
theorem single {op : MemoryMap.Op} (hconfiguration : m'.configuration = m.configuration)
    (hcycles : m'.cpu.cycles = m.cpu.cycles) (hquiet : op.quiet) (hop : op.portion? = none) :
    Passed [] [op] m m' :=
  still hconfiguration hcycles (List.forall_mem_singleton.mpr ⟨hquiet, hop⟩)

theorem route (m : Machine) : Passed [] m.routeTraffic m m.route := by
  unfold Machine.route routeTraffic
  cases m.map.request? with
  | none => exact refl m
  | some r =>
    by_cases h : m.cpu.accepts
    · simp only [if_pos h, Processor.offer]
      exact single rfl rfl rfl rfl
    · simp only [if_neg h]
      exact refl m

/-- The accesses of a processor bring no time to the map, and the round after them all of it. -/
theorem round {cpu : Processor MemoryMap} {n : Nat} (call : Processor.Call)
    (hcycles : cpu.cycles = m.cpu.cycles + BitVec.ofNat 64 n) :
    Passed [n] (m.accessed call ++ { m with cpu := cpu }.roundTraffic n) m
      ({ m with cpu := cpu }.round n) := by
  let ticked : Machine := { m with cpu := cpu }.withMap (·.tick n (m.elapsed n))
  have hquiet : ∀ op ∈ m.accessed call, op.quiet ∧ op.portion? = none := by
    intro op hop
    obtain ⟨x, -, rfl⟩ := List.mem_map.mp hop
    cases x <;> exact ⟨rfl, rfl⟩
  have hticked : Passed [n] (m.accessed call ++ [.tick n (m.elapsed n)]) m ticked := {
    configuration_eq := rfl
    cycles_eq := by rw [List.sum_singleton]; exact hcycles
    portions_eq := by
      rw [List.filterMap_append, List.filterMap_eq_nil_iff.mpr fun op hop => (hquiet op hop).2]
      rfl
    quiet := List.forall_mem_append.mpr
      ⟨fun op hop => (hquiet op hop).1, List.forall_mem_singleton.mpr rfl⟩ }
  have hrouted := hticked.trans (route ticked)
  rw [List.append_assoc] at hrouted
  exact hrouted

theorem step (m : Machine) : Passed [m.step.1] m.stepTraffic m m.step.2 :=
  round .step m.cpu.cycles_step

theorem cycle (m : Machine) : Passed [1] m.cycleTraffic m m.cycle :=
  round (.tick 1) m.cpu.cycles_cycle

theorem tick (n : Nat) (m : Machine) :
    Passed (List.replicate n 1) (tickTraffic n m) m (m.tick n) := by
  induction n generalizing m with
  | zero => exact refl m
  | succ n ih => exact (cycle m).trans (ih m.cycle)

/-- One operation, and the time in it. -/
theorem op {op : Op} (h : op.shares) : Passed (op.portions m) (op.traffic m) m (op.run m) := by
  cases op with
  | step => exact step m
  | tick n => exact tick n m
  | reset | load a bs => exact single rfl rfl rfl rfl
  | tone =>
    have hlow : Passed [] [.read (BitVec.ofNat 32 toneBase)] m m := single rfl rfl rfl rfl
    exact hlow.trans (single rfl rfl rfl rfl)
  | attach slot d => exact run_attach m slot d ▸ single rfl rfl rfl rfl
  | attachNamed c name slot =>
    rw [run_attachNamed, Op.traffic]
    cases c.device? name with
    | some d => exact single rfl rfl rfl rfl
    | none => exact refl m
  | detach slot => exact run_detach m slot ▸ single rfl rfl rfl rfl
  | processor op =>
    cases op with
    | reset => exact still rfl rfl (List.forall_mem_nil _)
    | offer message =>
      have hclock : (m.cpu.offer message).clock = m.cpu.clock := m.cpu.clock_offer message
      exact still rfl (congrArg Prod.snd hclock) (List.forall_mem_nil _)
    | step | tick n | setState s => cases h
  | map op =>
    cases op with
    | tick n elapsed | call slot c | restore ps cs => cases h
    | _ => exact single rfl rfl rfl rfl
  | restore s => cases h

theorem run {ops : List Op} (h : ∀ op ∈ ops, op.shares) (m : Machine) :
    Passed (portions ops m) (traffic ops m) m (run ops m) := by
  induction ops generalizing m with
  | nil => exact refl m
  | cons op ops ih =>
    exact (Passed.op (h op List.mem_cons_self)).trans
      (ih (fun op' hop' => h op' (List.mem_cons_of_mem op hop')) (op.run m))

end Passed

/-! ### Nothing drifts -/

/-- What reaches the region of a name in a run: accesses to it, time, acknowledgements of its
interrupts, and resets. -/
def given (ops : List Op) (m : Machine) (id : RegionId) : List Region.Event :=
  MemoryMap.events id (traffic ops m) m.map

/-- The cycles among events. -/
def cyclesOf (events : List Region.Event) : Nat :=
  ((events.filterMap Region.Event.portion?).map Prod.fst).sum

/-- A region that stayed through a run, as it was and as it is. -/
structure Lived (ops : List Op) (m : Machine) (r s : Region) : Prop where
  span_eq : s.span = r.span
  /-- What was given to the region makes all that has become of it. -/
  content_eq : s.content = r.content.live (given ops m r.id)
  /-- Peripherals and synchronous devices are given these portions and no others, and other
  devices none. -/
  portions_eq : (given ops m r.id).filterMap Region.Event.portion? =
    if r.content.Timed then (portions ops m).map m.portion else []
  cyclesOf_eq : cyclesOf (given ops m r.id) = if r.content.Timed then duration ops m else 0
  ticks_eq : ∀ k, r.content = .card k → ∃ k', s.content = .card k' ∧ k'.device.ticks =
    k.device.ticks + if k.device.synchronous then BitVec.ofNat 32 (duration ops m) else 0

/-- The cycle counter and all that stays mapped agree on the time of a run. -/
structure InStep (ops : List Op) (m : Machine) : Prop where
  cycles_eq : (run ops m).cpu.cycles = m.cpu.cycles + BitVec.ofNat 64 (duration ops m)
  /-- Nothing happens to the map but what the machine does to it. -/
  map_eq : (run ops m).map = MemoryMap.run (traffic ops m) m.map
  lived : ∀ r ∈ m.map.regions, ∀ s ∈ (run ops m).map.regions, s.id = r.id → Lived ops m r s

theorem cyclesOf_of_portions {events : List Region.Event} {ns : List Nat}
    (h : events.filterMap Region.Event.portion? = ns.map m.portion) : cyclesOf events = ns.sum := by
  rw [cyclesOf, h, List.map_map]
  exact congrArg List.sum (List.map_id ns)

theorem lived_run (hm : m.map.Valid) {ops : List Op} (hops : ∀ op ∈ ops, op.shares) {r s : Region}
    (hr : r ∈ m.map.regions) (hs : s ∈ (run ops m).map.regions) (hid : s.id = r.id) :
    Lived ops m r s := by
  have hpassed := Passed.run hops m
  rw [map_run] at hs
  obtain ⟨hspan, hcontent, hportions⟩ := MemoryMap.lives_run hm hpassed.quiet hr hs hid
  rw [hpassed.portions_eq] at hportions
  have htotal : cyclesOf (given ops m r.id) = if r.content.Timed then duration ops m else 0 := by
    rw [Region.Content.received] at hportions
    split at hportions
    · rw [if_pos ‹_›, given, cyclesOf_of_portions hportions, sum_portions]
    · rw [if_neg ‹_›, cyclesOf, given, hportions]
      rfl
  refine ⟨hspan, hcontent, hportions, htotal, fun k hk => ?_⟩
  rw [hk] at hcontent hportions htotal
  by_cases hsync : k.device.synchronous
  · have htimed : (Region.Content.card k).Timed := hsync
    rw [if_pos htimed] at htotal
    obtain ⟨k', hk', hticks⟩ := Region.Content.ticks_live (.inl hsync)
    exact ⟨k', hcontent.trans hk', by rw [hticks, if_pos hsync, ← htotal]; rfl⟩
  · have htimed : ¬(Region.Content.card k).Timed := hsync
    rw [Region.Content.received, if_neg htimed] at hportions
    obtain ⟨k', hk', hticks⟩ := Region.Content.ticks_live (.inr hportions)
    exact ⟨k', hcontent.trans hk', by rw [hticks, if_neg hsync, hportions]; rfl⟩

/-- However steps, ticks and operations that take no time follow one another, the cycle counter,
all peripherals and all synchronous devices that stay attached are given the same time: what
the steps return and what the ticks are given. Other devices are given none. -/
theorem time_shared (h : m.Reachable) (ops : List Op) (hops : ∀ op ∈ ops, op.shares) :
    InStep ops m ∧ (portions ops m).sum = duration ops m := by
  have hsum := sum_portions ops m
  exact ⟨⟨hsum ▸ (Passed.run hops m).cycles_eq, map_run ops m,
    fun _ hr _ hs hid => lived_run h.valid hops hr hs hid⟩, hsum⟩

/-- A machine with a clock of seconds and a timer that runs, whose program multiplies twice. A
synchronous device is in slot 3 and one that is not in slot 4. -/
def multiplying : Machine :=
  let multiply := (Instruction.three 0x4F 2 1 (.register 1)).words
  let c : Configuration := ⟨64, (Instruction.image (multiply ++ multiply)).toArray, 1, some 0, 0⟩
  run [.attach 3 (.exerciser (.new ⟨1, 2, 3, 4⟩ true 5)),
    .attach 4 (.exerciser (.new ⟨1, 2, 3, 4⟩ false 5)), .map (.write 0x11E000 9),
    .map (.write 0x11E003 0), .map (.write 0x11E010 3)]
    ((build c 0).toOption.get (by decide +kernel))

/-- Five cycles into the first multiplication a step drops the rest of it, another device comes,
and time goes on. The timer stays all the while, under the first name. -/
theorem time_shared_multiplying :
    let ops : List Op := [.tick 5, .step, .attach 5 (.inert ⟨1, 2, 3, 4⟩), .tick 3]
    multiplying.Reachable ∧ (∀ op ∈ ops, op.shares) ∧ InStep ops multiplying ∧
      portions ops multiplying = [1, 1, 1, 1, 1, 20, 1, 1, 1] ∧
      (run ops multiplying).cpu.cycles = 28 ∧ cyclesOf (given ops multiplying 0) = 28 := by
  intro ops
  have hreachable : multiplying.Reachable := (reachable_get _).run _
  have hops : ∀ op ∈ ops, op.shares := by decide
  have hportions : portions ops multiplying = [1, 1, 1, 1, 1, 20, 1, 1, 1] := by decide +kernel
  obtain ⟨r, hr, hid, htimed⟩ : ∃ r ∈ multiplying.map.regions, r.id = 0 ∧ r.content.Timed := by
    decide +kernel
  obtain ⟨s, hs, hname⟩ : ∃ s ∈ (run ops multiplying).map.regions, s.id = 0 := by decide +kernel
  obtain ⟨hstep, hsum⟩ := time_shared hreachable ops hops
  have hduration : duration ops multiplying = 28 := by rw [← hsum, hportions]; rfl
  have hcycles := hstep.cycles_eq
  have hgiven := (hstep.lived r hr s hs (hname.trans hid.symm)).cyclesOf_eq
  rw [hduration] at hcycles
  rw [if_pos htimed, hid, hduration] at hgiven
  exact ⟨hreachable, hops, hstep, hportions, hcycles.trans (by decide +kernel), hgiven⟩

end Microcomputer.Machine
