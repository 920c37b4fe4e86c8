import Microcomputer.Proofs.MemoryMap.Mapping
import Microcomputer.Proofs.MemoryMap.Restore

/-! The memory maps that there can be: all that come from a new one by the operations in
any order, whether they succeed or not. Their layout is valid. -/

namespace Microcomputer

namespace MemoryMap

variable {m : MemoryMap}

/-- The operations on a memory map. -/
inductive Op where
  | read (a : Word)
  | write (a : Word) (b : Byte)
  | load (a : Nat) (bs : Bytes)
  | register (i : Interval) (p : Peripheral)
  | unregister (id : RegionId)
  | attach (slot : Nat) (d : Device)
  | detach (slot : Nat)
  | call (slot : Nat) (c : Device.Call)
  | tick (n : Nat) (elapsed : Binary64)
  | reset
  | acknowledge (source : InterruptSource)
  | restore (peripherals : List Bytes) (cards : List CardState)

/-- The map after a call to the device in a slot. -/
def call (m : MemoryMap) (slot : Nat) (c : Device.Call) : MemoryMap :=
  match m.card? slot with
  | some d => m.setCard slot { d with device := c.run d.device }
  | none => m

/-- The map after an operation. One that fails changes nothing. -/
def Op.run : Op → MemoryMap → MemoryMap
  | read a, m => (m.readByte a).2
  | write a b, m => m.writeByte a b
  | load a bs, m => { m with ram := m.ram.load a bs }
  | register i p, m => ((m.register i p).map Prod.snd).toOption.getD m
  | unregister id, m => ((m.unregister id).map Prod.snd).getD m
  | attach slot d, m => (m.attach slot d).toOption.getD m
  | detach slot, m => ((m.detach slot).map Prod.snd).getD m
  | call slot c, m => m.call slot c
  | tick n elapsed, m => m.tick n elapsed
  | reset, m => m.reset
  | acknowledge source, m => m.acknowledge source
  | restore peripherals cards, m => (m.restore peripherals cards).1

def run (ops : List Op) (m : MemoryMap) : MemoryMap := ops.foldl (fun m op => op.run m) m

/-- A map that comes from a new one by operations. -/
def Reachable (m : MemoryMap) : Prop := ∃ ramSize rom ops, run ops (new ramSize rom) = m

theorem Reachable.new (ramSize : Nat) (rom : Rom) : (new ramSize rom).Reachable :=
  ⟨ramSize, rom, [], rfl⟩

theorem Reachable.run (h : m.Reachable) (ops : List Op) : (run ops m).Reachable := by
  obtain ⟨ramSize, rom, before, rfl⟩ := h
  exact ⟨ramSize, rom, before ++ ops, List.foldl_append⟩

theorem Reachable.op (h : m.Reachable) (op : Op) : (op.run m).Reachable := h.run [op]

/-! ### Validity -/

theorem Valid.layout_call (hm : m.Valid) (slot : Nat) (c : Device.Call) :
    (m.call slot c).layout = m.layout := by
  simp only [call]
  split
  · next d hd => exact hm.layout_setCard hd (c.kind_run d.device)
  · rfl

theorem Valid.op (hm : m.Valid) (op : Op) : (op.run m).Valid := by
  cases op with
  | read a => exact hm.of_layout_eq (hm.layout_readByte a)
  | write a b => exact hm.of_layout_eq (hm.layout_writeByte a b)
  | load a bs => exact hm.of_layout_eq (m.layout_load a bs)
  | register i p =>
    cases h : m.register i p with
    | error e => simpa [Op.run, h, Except.map, Except.toOption] using hm
    | ok r =>
      simp only [Op.run, h, Except.map, Except.toOption, Option.getD_some]
      exact hm.register h
  | unregister id =>
    cases h : m.unregister id with
    | none => simpa [Op.run, h] using hm
    | some r =>
      simp only [Op.run, h, Option.map_some, Option.getD_some]
      exact hm.unregister h
  | attach slot d =>
    cases h : m.attach slot d with
    | error e => simpa [Op.run, h, Except.toOption] using hm
    | ok m' =>
      simp only [Op.run, h, Except.toOption, Option.getD_some]
      exact hm.attach h
  | detach slot =>
    cases h : m.detach slot with
    | none => simpa [Op.run, h] using hm
    | some r =>
      simp only [Op.run, h, Option.map_some, Option.getD_some]
      exact hm.detach h
  | call slot c => exact hm.of_layout_eq (hm.layout_call slot c)
  | tick n elapsed => exact hm.of_layout_eq (m.layout_tick n elapsed)
  | reset => exact hm.of_layout_eq m.layout_reset
  | acknowledge source => exact hm.of_layout_eq (hm.layout_acknowledge source)
  | restore peripherals cards =>
    exact hm.of_layout_eq (keeps_restore hm peripherals cards).layout_eq

theorem Valid.run (hm : m.Valid) (ops : List Op) : (run ops m).Valid := by
  induction ops generalizing m with
  | nil => exact hm
  | cons op ops ih => exact ih (hm.op op)

theorem Reachable.valid (h : m.Reachable) : m.Valid := by
  obtain ⟨ramSize, rom, ops, rfl⟩ := h
  exact (valid_new ramSize rom).run ops

end MemoryMap

end Microcomputer
