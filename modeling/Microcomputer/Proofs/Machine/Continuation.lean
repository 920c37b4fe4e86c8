import Microcomputer.Proofs.Machine.Restore
import Microcomputer.Proofs.Machine.Save

/-! A restored machine goes on exactly like the saved one. Machines with one processor
state over memory maps that look alike answer every call alike and stay so; a machine that
has loaded the snapshot of another is so related to it. -/

namespace Microcomputer.Machine

/-- What can be asked of a running machine. -/
inductive Call where
  | step
  | tick (n : Nat)
  | readByte (a : Word)
  | readHalf (a : Word)
  | readWord (a : Word)
  | writeByte (a : Word) (x : Byte)
  | writeHalf (a : Word) (x : Half)
  | writeWord (a x : Word)
  | poll
  | acknowledge (source : InterruptSource)
  | reset
  | save

inductive Answer where
  /-- The cycles that a step took, and the state of the processor after it. -/
  | stepped (cost : Nat) (s : Processor.State)
  | ticked (s : Processor.State)
  | byte (x : Byte)
  | half (x : Half)
  | word (x : Word)
  | polled (r : Option InterruptRequest)
  | saved (s : Snapshot)
  | done
deriving DecidableEq

/-- The answer to a call, and the machine after it. -/
def Call.run : Call → Machine → Answer × Machine
  | step, m => (.stepped m.step.1 m.step.2.cpu.toState, m.step.2)
  | tick n, m => (.ticked (m.tick n).cpu.toState, m.tick n)
  | readByte a, m =>
    let r := Memory.readByte m.map a
    (.byte r.1, m.withMap fun _ => r.2)
  | readHalf a, m =>
    let r := Memory.readHalf m.map a
    (.half r.1, m.withMap fun _ => r.2)
  | readWord a, m =>
    let r := Memory.readWord m.map a
    (.word r.1, m.withMap fun _ => r.2)
  | writeByte a x, m => (.done, m.withMap fun map => Memory.writeByte map a x)
  | writeHalf a x, m => (.done, m.withMap fun map => Memory.writeHalf map a x)
  | writeWord a x, m => (.done, m.withMap fun map => Memory.writeWord map a x)
  | poll, m => (.polled m.map.request?, m)
  | acknowledge source, m => (.done, m.withMap (·.acknowledge source))
  | reset, m => (.done, m.reset)
  | save, m => (.saved m.save, m)

/-- The answers to calls one after the other. -/
def answers : List Call → Machine → List Answer
  | [], _ => []
  | c :: cs, m => (c.run m).1 :: answers cs (c.run m).2

/-- Machines with one clock and one processor state, over maps that look alike. -/
structure Alike (a b : Machine) : Prop where
  clock_eq : a.configuration.clock = b.configuration.clock
  cpu : Processor.Related MemoryMap.Alike a.cpu b.cpu

theorem step_snd (m : Machine) :
    m.step.2 = { m with cpu := m.cpu.step.2 }.round m.cpu.step.1 := rfl

namespace Alike

variable {a b : Machine}

theorem map (h : a.Alike b) : a.map.Alike b.map := h.cpu.memory

theorem withMap (h : a.Alike b) {f g : MemoryMap → MemoryMap} (hfg : (f a.map).Alike (g b.map)) :
    (a.withMap f).Alike (b.withMap g) :=
  ⟨h.clock_eq, h.cpu.state_eq, hfg⟩

theorem route (h : a.Alike b) : a.route.Alike b.route := by
  have haccepts : a.cpu.accepts = b.cpu.accepts := congrArg Processor.State.accepts h.cpu.state_eq
  simp only [Machine.route, h.map.request?_eq, haccepts]
  split
  · next r _ =>
    split
    · have hoffer : Alike { a with cpu := a.cpu.offer r.message }
          { b with cpu := b.cpu.offer r.message } := ⟨h.clock_eq, h.cpu.offer r.message⟩
      exact hoffer.withMap (hoffer.map.acknowledge r.source)
    · exact h
  · exact h

theorem round (h : a.Alike b) (n : Nat) : (a.round n).Alike (b.round n) := by
  refine (h.withMap ?_).route
  rw [elapsed, h.clock_eq]
  exact h.map.tick n _

theorem step (h : a.Alike b) : a.step.1 = b.step.1 ∧ a.step.2.Alike b.step.2 := by
  obtain ⟨hcost, hcpu⟩ := h.cpu.step MemoryMap.Alike.simulation
  have hslot : Alike { a with cpu := a.cpu.step.2 } { b with cpu := b.cpu.step.2 } :=
    ⟨h.clock_eq, hcpu⟩
  refine ⟨hcost, ?_⟩
  rw [step_snd, step_snd, hcost]
  exact hslot.round _

theorem cycle (h : a.Alike b) : a.cycle.Alike b.cycle := by
  have hcycle := h.cpu.cycle MemoryMap.Alike.simulation
  have hcpu : Alike { a with cpu := a.cpu.cycle } { b with cpu := b.cpu.cycle } :=
    ⟨h.clock_eq, hcycle⟩
  rw [Machine.cycle, Machine.cycle]
  exact hcpu.round 1

theorem tick (h : a.Alike b) (n : Nat) : (a.tick n).Alike (b.tick n) := by
  induction n generalizing a b with
  | zero => exact h
  | succ n ih => exact ih h.cycle

theorem reset (h : a.Alike b) : a.reset.Alike b.reset := by
  have hcpu : Alike { a with cpu := a.cpu.reset } { b with cpu := b.cpu.reset } :=
    ⟨h.clock_eq, h.cpu.reset⟩
  exact hcpu.withMap hcpu.map.reset

theorem save_eq (h : a.Alike b) : a.save = b.save := by
  simp only [Machine.save, h.cpu.state_eq, h.map.ram_eq, h.map.savePeripherals_eq,
    h.map.saveCards_eq]

/-- Both machines give the same bytes. -/
theorem readBytes (h : a.Alike b) (n : Nat) (w : Word) :
    (Memory.readBytes n a.map w).1 = (Memory.readBytes n b.map w).1 ∧
      (Memory.readBytes n a.map w).2.Alike (Memory.readBytes n b.map w).2 := by
  have := (Memory.Program.readBytes n w).run_simulation MemoryMap.Alike.simulation h.map
  rwa [Memory.Program.run_readBytes, Memory.Program.run_readBytes] at this

theorem writeBytes (h : a.Alike b) (w : Word) (bs : Bytes) :
    (Memory.writeBytes a.map w bs).Alike (Memory.writeBytes b.map w bs) := by
  have := (Memory.Program.writeBytes w bs).run_simulation MemoryMap.Alike.simulation h.map
  rw [Memory.Program.run_writeBytes, Memory.Program.run_writeBytes] at this
  exact this.2

theorem call (h : a.Alike b) (c : Call) :
    (c.run a).1 = (c.run b).1 ∧ (c.run a).2.Alike (c.run b).2 := by
  cases c with
  | step =>
    obtain ⟨hcost, hstep⟩ := h.step
    exact ⟨by simp only [Call.run, hcost, hstep.cpu.state_eq], hstep⟩
  | tick n => exact ⟨by simp only [Call.run, (h.tick n).cpu.state_eq], h.tick n⟩
  | readByte w =>
    obtain ⟨heq, hmap⟩ := h.map.readByte w
    exact ⟨congrArg Answer.byte heq, h.clock_eq, h.cpu.state_eq, hmap⟩
  | readHalf w =>
    obtain ⟨heq, hmap⟩ := h.readBytes 2 w
    simp only [Call.run, Memory.readHalf, heq, true_and]
    exact h.withMap hmap
  | readWord w =>
    obtain ⟨heq, hmap⟩ := h.readBytes 4 w
    simp only [Call.run, Memory.readWord, heq, true_and]
    exact h.withMap hmap
  | writeByte w x => exact ⟨rfl, h.clock_eq, h.cpu.state_eq, h.map.writeByte w x⟩
  | writeHalf w x =>
    simp only [Call.run, Memory.writeHalf, true_and]
    exact h.withMap (h.writeBytes w (LittleEndian.ofWord x))
  | writeWord w x =>
    simp only [Call.run, Memory.writeWord, true_and]
    exact h.withMap (h.writeBytes w (LittleEndian.ofWord x))
  | poll => exact ⟨congrArg Answer.polled h.map.request?_eq, h⟩
  | acknowledge source => exact ⟨rfl, h.clock_eq, h.cpu.state_eq, h.map.acknowledge source⟩
  | reset => exact ⟨rfl, h.reset⟩
  | save => exact ⟨congrArg Answer.saved h.save_eq, h⟩

theorem answers_eq (h : a.Alike b) (cs : List Call) : answers cs a = answers cs b := by
  induction cs generalizing a b with
  | nil => rfl
  | cons c cs ih =>
    obtain ⟨heq, hnext⟩ := h.call c
    rw [answers, answers, heq, ih hnext]

end Alike

/-- A machine that loads the written snapshot of another of its outline and clock goes on
like it, whatever the two did before; only the bytes of a scratchpad can be too many to be
written. One that loads its own stays as it is. -/
theorem answers_after_restore {a b : Machine} (ha : a.Reachable) (hb : b.Reachable)
    (hlayout : b.map.layout.outline = a.map.layout.outline)
    (hclock : b.configuration.clock = a.configuration.clock) (hs : a.map.layout.Storable) :
    ∃ s b', Snapshot.ofBytes a.save.toBytes = .ok s ∧ b.restore s = (b', none) ∧
      (∀ calls, answers calls b' = answers calls a) ∧ a.restore s = (a, none) := by
  obtain ⟨b', hrun, hconfiguration, hstate, hmap⟩ :=
    exists_restore_save ha.valid hb.valid hlayout
  have halike : b'.Alike a := ⟨by rw [hconfiguration, hclock], hstate, hmap⟩
  exact ⟨a.save, b', ofBytes_toBytes_save ha.valid hs, hrun, halike.answers_eq,
    restore_save_self ha.valid⟩

/-- The machine with a scratchpad, after some time. -/
def benchUsed : Machine :=
  run [.map (.register ⟨0x120000, 0x120007, by decide, by decide⟩ (.scratchpad (.zero 8 none))),
    .load 0 [9], .map (.write 0x11E000 5), .map (.write 0x120001 6),
    .map (.call 3 (.setRegister 2 8)), .tick 3] bench

/-- The same with the exerciser plugged in later and so under another name. -/
def benchReplugged : Machine :=
  run [.detach 3,
    .map (.register ⟨0x120000, 0x120007, by decide, by decide⟩ (.scratchpad (.zero 8 none))),
    .attach 3 (.exerciser (.new ⟨1, 2, 3, 4⟩ true 5)), .step] bench

theorem answers_after_restore_bench : ∃ s b', Snapshot.ofBytes benchUsed.save.toBytes = .ok s ∧
    benchReplugged.restore s = (b', none) ∧
      (∀ calls, answers calls b' = answers calls benchUsed) ∧
        benchUsed.restore s = (benchUsed, none) :=
  answers_after_restore (reachable_bench.run _) (reachable_bench.run _) (by decide +kernel)
    (by decide +kernel) (by decide +kernel)

end Microcomputer.Machine
