import Microcomputer.Proofs.MemoryMap.Reachable

/-! The arrangement of a memory map as its accesses, names and slots see it. Every map of
valid layout is so arranged. Names are handed out one by one, at most one for each attempt to
map something, so that they stay as small as the number of attempts. -/

namespace Microcomputer.MemoryMap

/-- How the regions of a map lie, are named and are listed. -/
structure Arranged (m : MemoryMap) : Prop where
  /-- No address is in two regions. -/
  apart : m.regions.Pairwise fun r s => ∀ a, ¬(r.span.contains a ∧ s.span.contains a)
  /-- The addresses of a region have 24 bits and are neither in RAM nor in the ROM window. -/
  inside : ∀ r ∈ m.regions, ∀ a, r.span.contains a →
    a < 0x1000000 ∧ ¬m.ram.contains a ∧ ¬Rom.windowContains a
  /-- A region is kept under its own start. -/
  startingAt? : ∀ r a, m.startingAt? a = some r ↔ r ∈ m.regions ∧ r.span.start = a
  named_apart : (m.regions.map Region.id).Nodup
  id_lt : ∀ r ∈ m.regions, r.id < m.nextId
  /-- The order ascends, and so lists no name twice. -/
  ascending : m.order.Pairwise (· < ·)
  /-- The order lists the names of the peripherals and no others. -/
  mem_order : ∀ id, id ∈ m.order ↔ ∃ r ∈ m.regions, r.id = id ∧ r.content.peripheral?.isSome
  /-- A card fills the block of the slot in which it is. -/
  of_card : ∀ r ∈ m.regions, ∀ c, r.content = .card c → ∃ slot < slotCount,
    m.card? slot = some c ∧ r.span.start = slotBase slot ∧ r.span.stop = slotBase slot + 19
  /-- A slot holds only what fills its block. -/
  of_slot : ∀ slot c, m.card? slot = some c → slot < slotCount ∧ ∃ r ∈ m.regions,
    r.content = .card c ∧ r.span.start = slotBase slot ∧ r.span.stop = slotBase slot + 19

variable {m : MemoryMap}

/-! ### Valid layouts -/

theorem Valid.apart (hm : m.Valid) :
    m.regions.Pairwise fun r s => ∀ a, ¬(r.span.contains a ∧ s.span.contains a) := by
  refine hm.pairwise.imp fun {r s} h a => ?_
  rw [Interval.contains_iff, Interval.contains_iff]
  omega

theorem Valid.outside_of_contains (hm : m.Valid) {r : Region} (hr : r ∈ m.regions) {a : Nat}
    (ha : r.span.contains a) :
    a < 0x1000000 ∧ ¬m.ram.contains a ∧ ¬Rom.windowContains a := by
  have hplace : r.place ∈ m.layout.places := List.mem_map_of_mem hr
  have hram : m.ram.size ≤ r.span.start := hm.outside_ram r.place hplace
  have hrom : r.span.stop < Rom.base ∨ Rom.base + Rom.windowSize ≤ r.span.start :=
    hm.outside_rom r.place hplace
  have hlast : r.span.stop ≤ 0xFFFFFF := r.span.stop_le_last
  rw [Interval.contains_iff] at ha
  simp only [Ram.contains, Rom.windowContains, Bool.and_eq_true, decide_eq_true_eq]
  omega

theorem Valid.arranged (hm : m.Valid) : m.Arranged where
  apart := hm.apart
  inside r hr a ha := hm.outside_of_contains hr ha
  startingAt? r a := hm.startingAt?_eq_some_iff
  named_apart := hm.ids_nodup
  id_lt r hr := hm.id_lt r.place (List.mem_map_of_mem hr)
  ascending := hm.ordered
  mem_order id := by
    simp only [hm.mem_order_iff_region, isCard_eq_false_iff]
  of_card r hr c hc := hm.exists_slot_of_mem hr hc
  of_slot slot c hc := by
    obtain ⟨hslot, r, hr, hstart, hcontent⟩ := hm.card?_eq_some_iff.mp hc
    obtain ⟨s, hs, -, hstart', hstop⟩ := hm.exists_slot_of_mem hr hcontent
    obtain rfl := slotBase_inj hslot hs (hstart.symm.trans hstart')
    exact ⟨hslot, r, hr, hcontent, hstart, hstop⟩

/-! ### Names -/

/-- The operations that name a region where they succeed. -/
def Op.maps : Op → Bool
  | register _ _ | attach _ _ => true
  | _ => false

theorem nextId_register_le (m : MemoryMap) (i : Interval) (p : Peripheral) :
    (((m.register i p).map Prod.snd).toOption.getD m).nextId ≤ m.nextId + 1 := by
  cases h : m.register i p with
  | error e => exact Nat.le_succ _
  | ok r =>
    obtain ⟨-, -, hr⟩ := register_eq_ok h
    exact Nat.le_of_eq (congrArg nextId hr)

theorem nextId_attach_le (m : MemoryMap) (slot : Nat) (d : Device) :
    ((m.attach slot d).toOption.getD m).nextId ≤ m.nextId + 1 := by
  cases h : m.attach slot d with
  | error e => exact Nat.le_succ _
  | ok m' =>
    obtain ⟨-, -, i, -, -, -, hm'⟩ := attach_eq_ok h
    exact Nat.le_of_eq (congrArg nextId hm')

theorem nextId_unregister (m : MemoryMap) (id : RegionId) :
    (((m.unregister id).map Prod.snd).getD m).nextId = m.nextId := by
  simp only [unregister]
  cases m.peripheral? id <;> rfl

theorem nextId_detach (m : MemoryMap) (slot : Nat) :
    (((m.detach slot).map Prod.snd).getD m).nextId = m.nextId := by
  simp only [detach]
  cases m.card? slot <;> rfl

theorem Valid.nextId_op_le (hm : m.Valid) (op : Op) :
    (op.run m).nextId ≤ m.nextId + if op.maps then 1 else 0 := by
  have hlayout {n : MemoryMap} (h : n.layout = m.layout) : n.nextId ≤ m.nextId :=
    Nat.le_of_eq (congrArg Layout.nextId h)
  cases op with
  | read a => exact hlayout (hm.layout_readByte a)
  | write a b => exact hlayout (hm.layout_writeByte a b)
  | load a bs => exact hlayout (m.layout_load a bs)
  | register i p => exact m.nextId_register_le i p
  | unregister id => exact Nat.le_of_eq (m.nextId_unregister id)
  | attach slot d => exact m.nextId_attach_le slot d
  | detach slot => exact Nat.le_of_eq (m.nextId_detach slot)
  | call slot c => exact hlayout (hm.layout_call slot c)
  | tick n elapsed => exact hlayout (m.layout_tick n elapsed)
  | reset => exact hlayout m.layout_reset
  | acknowledge source => exact hlayout (hm.layout_acknowledge source)
  | restore peripherals cards =>
    exact hlayout (keeps_restore hm peripherals cards).layout_eq

theorem Valid.nextId_run_le (hm : m.Valid) (ops : List Op) :
    (MemoryMap.run ops m).nextId ≤ m.nextId + ops.countP Op.maps := by
  induction ops generalizing m with
  | nil => exact Nat.le_refl _
  | cons op ops ih =>
    calc (MemoryMap.run ops (op.run m)).nextId
      _ ≤ (op.run m).nextId + ops.countP Op.maps := ih (hm.op op)
      _ ≤ m.nextId + (if op.maps then 1 else 0) + ops.countP Op.maps :=
        Nat.add_le_add_right (hm.nextId_op_le op) _
      _ = m.nextId + (op :: ops).countP Op.maps := by
        rw [List.countP_cons, Nat.add_assoc, Nat.add_comm (ops.countP Op.maps)]

end Microcomputer.MemoryMap
