import Microcomputer.Machine
import Microcomputer.Proofs.MemoryMap.Reachable
import Microcomputer.Proofs.Processor.Uniform

/-! The machines that there can be: all that come from a built one by operations on the
machine, on its processor and on its memory map in any order, whether they succeed or not.
Their memory maps are among those that there can be. -/

namespace Microcomputer

/-- The operations on a processor alone. -/
inductive Processor.Op where
  | step
  | tick (n : Nat)
  | reset
  | offer (message : Half)
  | setState (s : Processor.State)

def Processor.Op.run {M : Type} [Memory M] : Op → Processor M → Processor M
  | step, cpu => cpu.step.2
  | tick n, cpu => cpu.tick n
  | reset, cpu => cpu.reset
  | offer message, cpu => cpu.offer message
  | setState s, cpu => { cpu with toState := s }

namespace Machine

/-- The operations on a machine. -/
inductive Op where
  | step
  | tick (n : Nat)
  | reset
  | load (a : Nat) (bs : Bytes)
  | tone
  | attach (slot : Nat) (d : Device)
  | attachNamed (c : Catalogue) (name : String) (slot : Nat)
  | detach (slot : Nat)
  | restore (s : Snapshot)
  | processor (op : Processor.Op)
  | map (op : MemoryMap.Op)

/-- The machine after an operation. One that fails changes nothing. -/
def Op.run : Op → Machine → Machine
  | step, m => m.step.2
  | tick n, m => m.tick n
  | reset, m => m.reset
  | load a bs, m => m.load a bs
  | tone, m => m.tone.2
  | attach slot d, m => (m.attach slot d).toOption.getD m
  | attachNamed c name slot, m => (m.attachNamed c name slot).toOption.getD m
  | detach slot, m => ((m.detach slot).map Prod.snd).getD m
  | restore s, m => (m.restore s).1
  | processor op, m => { m with cpu := op.run m.cpu }
  | map op, m => m.withMap op.run

def run (ops : List Op) (m : Machine) : Machine := ops.foldl (fun m op => op.run m) m

/-- A machine that comes from a built one by operations. -/
def Reachable (m : Machine) : Prop :=
  ∃ c entropy built ops, build c entropy = .ok built ∧ run ops built = m

variable {m : Machine}

theorem Reachable.run (h : m.Reachable) (ops : List Op) : (run ops m).Reachable := by
  obtain ⟨c, entropy, built, before, hb, rfl⟩ := h
  exact ⟨c, entropy, built, before ++ ops, hb, List.foldl_append⟩

theorem reachable_get {c : Configuration} {entropy : DoubleWord}
    (h : (build c entropy).toOption.isSome) : ((build c entropy).toOption.get h).Reachable := by
  have hsome := Option.some_get h
  generalize (build c entropy).toOption.get h = built at hsome ⊢
  refine ⟨c, entropy, built, [], ?_, rfl⟩
  cases hb : build c entropy with
  | error e =>
    rw [hb] at hsome
    cases hsome
  | ok m =>
    rw [hb] at hsome
    rw [Option.some.inj hsome]

/-! ### Slots -/

/-- The slots of a machine are those of its memory map. -/
theorem run_attach (m : Machine) (slot : Nat) (d : Device) :
    (Op.attach slot d).run m = m.withMap (MemoryMap.Op.attach slot d).run := by
  simp only [Op.run, attach, withMap, MemoryMap.Op.run, map]
  cases m.cpu.memory.attach slot d <;> rfl

theorem run_attachNamed (m : Machine) (c : Catalogue) (name : String) (slot : Nat) :
    (Op.attachNamed c name slot).run m =
      match c.device? name with
      | some d => m.withMap (MemoryMap.Op.attach slot d).run
      | none => m := by
  simp only [Op.run, attachNamed]
  cases c.device? name with
  | some d => exact run_attach m slot d
  | none => rfl

theorem run_detach (m : Machine) (slot : Nat) :
    (Op.detach slot).run m = m.withMap (MemoryMap.Op.detach slot).run := by
  simp only [Op.run, detach, withMap, MemoryMap.Op.run, map]
  cases m.cpu.memory.detach slot <;> rfl

/-! ### The memory map -/

theorem build_eq_ok {c : Configuration} {entropy : DoubleWord} (h : build c entropy = .ok m) :
    ∃ map, (builtIn c.epoch (c.seed.getD entropy)).foldlM mapBuiltIn (.new c.ram ⟨c.rom⟩) =
        .ok map ∧ m = ⟨.new map, c⟩ := by
  obtain ⟨_, -, h⟩ := MemoryMap.bind_eq_ok h
  obtain ⟨map, hmap, h⟩ := MemoryMap.bind_eq_ok h
  obtain rfl := Except.ok.inj h
  cases hf : (builtIn c.epoch (c.seed.getD entropy)).foldlM mapBuiltIn
    (MemoryMap.new c.ram ⟨c.rom⟩) with
  | error e =>
    rw [hf] at hmap
    cases hmap
  | ok map' =>
    rw [hf] at hmap
    obtain rfl := Except.ok.inj hmap
    exact ⟨map', rfl, rfl⟩

/-- What every mapping of a peripheral keeps of a memory map. -/
theorem of_foldlM_mapBuiltIn {P : MemoryMap → Prop} {ps : List (Nat × Nat × Peripheral)}
    (hregister : ∀ q ∈ ps, ∀ {map i id map'}, P map →
      MemoryMap.register map i q.2.2 = .ok (id, map') → P map')
    {map map' : MemoryMap} (hmap : P map) (h : ps.foldlM mapBuiltIn map = .ok map') : P map' := by
  induction ps generalizing map with
  | nil =>
    obtain rfl := Except.ok.inj h
    exact hmap
  | cons p ps ih =>
    obtain ⟨next, hnext, h⟩ := MemoryMap.bind_eq_ok h
    refine ih (fun q hq => hregister q (.tail p hq)) ?_ h
    obtain ⟨i, -, hnext⟩ := MemoryMap.bind_eq_ok hnext
    obtain ⟨⟨id, n⟩, hr, hnext⟩ := MemoryMap.bind_eq_ok hnext
    obtain rfl := Except.ok.inj hnext
    exact hregister p List.mem_cons_self hmap hr

theorem reachable_of_build {c : Configuration} {entropy : DoubleWord}
    (h : build c entropy = .ok m) : m.map.Reachable := by
  obtain ⟨map, hmap, rfl⟩ := build_eq_ok h
  refine of_foldlM_mapBuiltIn (fun q _ {map i id map'} hm hr => ?_)
    (MemoryMap.Reachable.new c.ram ⟨c.rom⟩) hmap
  have hop := hm.op (.register i q.2.2)
  simpa [MemoryMap.Op.run, hr, Except.map, Except.toOption] using hop

/-- What accesses, time and acknowledged interrupts keep of a memory map. -/
structure Kept (P : MemoryMap → Prop) : Prop where
  read : ∀ {map : MemoryMap}, P map → ∀ a, P (map.readByte a).2
  write : ∀ {map : MemoryMap}, P map → ∀ a b, P (map.writeByte a b)
  tick : ∀ {map : MemoryMap}, P map → ∀ n elapsed, P (map.tick n elapsed)
  acknowledge : ∀ {map : MemoryMap}, P map → ∀ source, P (map.acknowledge source)

namespace Kept

variable {P : MemoryMap → Prop}

theorem of_processor (h : Kept P) {cpu : Processor MemoryMap} (hP : P cpu.memory)
    (op : Processor.Op) : P (op.run cpu).memory := by
  cases op with
  | step => exact Processor.memory_step h.read h.write hP
  | tick n => exact Processor.memory_tick h.read h.write hP n
  | reset => exact hP
  | offer message =>
    simp only [Processor.Op.run, Processor.offer]
    split <;> exact hP
  | setState s => exact hP

theorem of_route (h : Kept P) (hP : P m.map) : P m.route.map := by
  unfold route
  split
  · split
    · exact h.acknowledge (h.of_processor hP (.offer _)) _
    · exact hP
  · exact hP

theorem of_round (h : Kept P) (hP : P m.map) (n : Nat) : P (m.round n).map :=
  h.of_route (m := m.withMap (·.tick n (m.elapsed n))) (h.tick hP n (m.elapsed n))

theorem of_step (h : Kept P) (hP : P m.map) : P m.step.2.map :=
  h.of_round (m := { m with cpu := m.cpu.step.2 }) (h.of_processor hP .step) m.cpu.step.1

theorem of_cycle (h : Kept P) (hP : P m.map) : P m.cycle.map := by
  have hcpu : P m.cpu.cycle.memory := Processor.memory_cycle h.read h.write hP
  exact h.of_round (m := { m with cpu := m.cpu.cycle }) hcpu 1

theorem of_tick (h : Kept P) (hP : P m.map) (n : Nat) : P (m.tick n).map := by
  induction n generalizing m with
  | zero => exact hP
  | succ n ih => exact ih (h.of_cycle hP)

theorem of_tone (h : Kept P) (hP : P m.map) : P m.tone.2.map := by
  have hlow := h.read hP (BitVec.ofNat 32 toneBase)
  exact h.read hlow (BitVec.ofNat 32 toneBase + 1)

end Kept

theorem kept_reachable : Kept MemoryMap.Reachable where
  read h a := h.op (.read a)
  write h a b := h.op (.write a b)
  tick h n elapsed := h.op (.tick n elapsed)
  acknowledge h source := h.op (.acknowledge source)

theorem reachable_restore (h : m.map.Reachable) (s : Snapshot) :
    (m.restore s).1.map.Reachable := by
  have hop := h.op (.restore s.peripherals s.cards)
  simp only [MemoryMap.Op.run] at hop
  simp only [restore]
  split
  · exact h
  · split
    · next map e hr =>
      rw [hr] at hop
      exact hop
    · next map hr =>
      rw [hr] at hop
      exact hop.op (.load 0 s.ram)

theorem reachable_op (h : m.map.Reachable) (op : Op) : (op.run m).map.Reachable := by
  cases op with
  | step => exact kept_reachable.of_step h
  | tick n => exact kept_reachable.of_tick h n
  | reset => exact h.op .reset
  | load a bs => exact h.op (.load a bs)
  | tone => exact kept_reachable.of_tone h
  | attach slot d =>
    rw [run_attach]
    exact h.op (.attach slot d)
  | attachNamed c name slot =>
    rw [run_attachNamed]
    split
    · next d _ => exact h.op (.attach slot d)
    · exact h
  | detach slot =>
    rw [run_detach]
    exact h.op (.detach slot)
  | restore s => exact reachable_restore h s
  | processor op => exact kept_reachable.of_processor h op
  | map op => exact h.op op

theorem Reachable.map (h : m.Reachable) : m.map.Reachable := by
  obtain ⟨c, entropy, built, ops, hb, rfl⟩ := h
  have hr := reachable_of_build hb
  clear hb
  induction ops generalizing built with
  | nil => exact hr
  | cons op ops ih => exact ih (op.run built) (reachable_op hr op)

theorem Reachable.valid (h : m.Reachable) : m.map.Valid := h.map.valid

end Machine

end Microcomputer
