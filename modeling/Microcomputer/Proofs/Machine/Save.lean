import Microcomputer.Machine
import Microcomputer.Proofs.Codec.Snapshot
import Microcomputer.Proofs.MemoryMap.Alike

/-! Snapshots that a machine makes of itself. They can be written and read back, and every
machine of the same outline accepts them. -/

namespace Microcomputer

/-- The saved states of a kind fit behind a length of four bytes. Those of a scratchpad may
not, whose size is free; those of all other kinds do. -/
def Region.Kind.Storable : Kind → Prop
  | .peripheral (.scratchpad size _) => size < 2 ^ 32
  | _ => True

instance : DecidablePred Region.Kind.Storable
  | .peripheral (.scratchpad size _) => inferInstanceAs (Decidable (size < 2 ^ 32))
  | .peripheral .timer | .peripheral .tone | .peripheral .clock | .peripheral .random
  | .peripheral .ramp | .card _ => isTrue trivial

def Layout.Storable (l : Layout) : Prop := ∀ q ∈ l.places, q.kind.Storable

instance (l : Layout) : Decidable l.Storable :=
  inferInstanceAs (Decidable (∀ q ∈ l.places, q.kind.Storable))

namespace MemoryMap

variable {m : MemoryMap}

/-! ### How much is saved -/

/-- Disjoint regions from an address on are not more than there are addresses. -/
theorem length_add_le_of_pairwise {rs : List Region} {a : Nat} (ha : a ≤ Address.last + 1)
    (h : rs.Pairwise fun r s => r.span.stop < s.span.start) (hr : ∀ r ∈ rs, a ≤ r.span.start) :
    rs.length + a ≤ Address.last + 1 := by
  induction rs generalizing a with
  | nil => simpa using ha
  | cons r rs ih =>
    obtain ⟨hlt, hrs⟩ := List.pairwise_cons.mp h
    have hstart := hr r List.mem_cons_self
    have hle := r.span.start_le_stop
    have hlast := r.span.stop_le_last
    have := ih (a := r.span.stop + 1) (by omega) hrs hlt
    rw [List.length_cons]
    omega

theorem Valid.length_regions_le (hm : m.Valid) : m.regions.length ≤ 2 ^ 24 :=
  length_add_le_of_pairwise (Nat.zero_le _) hm.pairwise fun _ _ => Nat.zero_le _

theorem Valid.length_order_le (hm : m.Valid) : m.order.length ≤ m.regions.length := by
  have hnodup : m.order.Nodup := hm.ordered.imp Nat.ne_of_lt
  have hsubset : m.order ⊆ m.regions.map Region.id := by
    intro id hid
    obtain ⟨r, hr, rfl, -⟩ := hm.mem_order_iff_region.mp hid
    exact List.mem_map_of_mem hr
  have := hnodup.length_le_of_subset hsubset
  rwa [List.length_map] at this

theorem Valid.length_savePeripherals (hm : m.Valid) :
    m.savePeripherals.length = m.order.length := by
  rw [savePeripherals, List.length_filterMap_eq_countP, List.countP_eq_length]
  intro id hid
  rw [Option.isSome_map]
  exact hm.mem_order_iff.mp hid

theorem length_saveCards_le (m : MemoryMap) : m.saveCards.length ≤ slotCount := by
  have := List.length_filterMap_le (fun slot => (m.card? slot).map fun c =>
    (⟨BitVec.ofNat 8 slot, c.block, c.device.save⟩ : CardState)) (List.range slotCount)
  rwa [List.length_range] at this

theorem mem_saveCards {s : CardState} (h : s ∈ m.saveCards) :
    ∃ slot c, m.card? slot = some c ∧ s.slot.toNat = slot ∧ s.device = c.device.save := by
  obtain ⟨slot, hslot, h⟩ := List.mem_filterMap.mp h
  obtain ⟨c, hc, rfl⟩ := Option.map_eq_some_iff.mp h
  have hlt : slot < 32 := List.mem_range.mp hslot
  exact ⟨slot, c, hc, by simp only [BitVec.toNat_ofNat]; omega, rfl⟩

theorem Valid.length_lt_of_mem_savePeripherals (hm : m.Valid) (hs : m.layout.Storable)
    {bs : Bytes} (h : bs ∈ m.savePeripherals) : bs.length < 2 ^ 32 := by
  obtain ⟨id, -, h⟩ := List.mem_filterMap.mp h
  obtain ⟨p, hp, rfl⟩ := Option.map_eq_some_iff.mp h
  obtain ⟨r, hr, -, hc⟩ := hm.peripheral?_eq_some_iff.mp hp
  have hkind : (Region.Kind.peripheral p.kind).Storable := by
    have := hs r.place (List.mem_map_of_mem hr)
    rwa [Region.place, hc] at this
  rw [p.length_save]
  cases hk : p.kind with
  | scratchpad size message =>
    rw [hk] at hkind
    exact hkind
  | timer => decide
  | tone => decide
  | clock => decide
  | random => decide
  | ramp => decide

end MemoryMap

namespace Machine

variable {a b : Machine}

theorem fits_save (ha : a.map.Valid) (hs : a.map.layout.Storable) : a.save.Fits where
  ram := by
    have := a.map.ram.size_le
    simp only [save, Array.length_toList]
    omega
  peripherals := by
    have := ha.length_regions_le
    have := ha.length_order_le
    simp only [save, ha.length_savePeripherals]
    omega
  blobs _ h := ha.length_lt_of_mem_savePeripherals hs h
  cards := by
    have : a.map.saveCards.length ≤ 32 := a.map.length_saveCards_le
    simp only [save]
    omega
  devices c h := by
    obtain ⟨slot, d, -, -, hd⟩ := MemoryMap.mem_saveCards h
    have := d.device.length_save_le
    rw [hd]
    omega

theorem ofBytes_toBytes_save (ha : a.map.Valid) (hs : a.map.layout.Storable) :
    Snapshot.ofBytes a.save.toBytes = .ok a.save :=
  a.save.ofBytes_toBytes (fits_save ha hs)

/-! ### Who accepts it -/

theorem mismatch?_save (ha : a.map.Valid) (hb : b.map.Valid)
    (h : b.map.layout.outline = a.map.layout.outline) : b.mismatch? a.save = none := by
  have hram : a.save.ram.length = b.map.ram.size := (congrArg Layout.ramSize h).symm
  have horder : b.map.order = a.map.order := congrArg Layout.order h
  have hperipherals : a.save.peripherals.length = b.map.order.length := by
    rw [horder, save]
    exact ha.length_savePeripherals
  have hcards : (a.save.cards.find? fun c => (b.map.card? c.slot.toNat).isNone) = none := by
    refine List.find?_eq_none.mpr fun c hc => ?_
    obtain ⟨slot, d, hd, hslot, -⟩ := MemoryMap.mem_saveCards hc
    have hkind := (ha.map_kind_eq hb h).2 slot
    rw [hd, Option.map_some, Option.map_eq_some_iff] at hkind
    obtain ⟨e, he, -⟩ := hkind
    simp [hslot, he]
  rw [mismatch?, if_neg (by simp [hram]), if_neg (by simp [hperipherals]), hcards]
  rfl

/-- A machine accepts the snapshot of any machine of its outline and then has its
processor state and, to all appearance, its memory map. -/
theorem exists_restore_save (ha : a.map.Valid) (hb : b.map.Valid)
    (h : b.map.layout.outline = a.map.layout.outline) :
    ∃ b', b.restore a.save = (b', none) ∧ b'.configuration = b.configuration ∧
      b'.cpu.toState = a.cpu.toState ∧ b'.map.Alike a.map := by
  obtain ⟨n, hrun, hlayout, hram, halike⟩ := ha.alike_of_restore_save hb h
  have hsize : n.ram.size = a.map.ram.size := by
    rw [hram]
    exact congrArg Layout.ramSize h
  refine ⟨⟨⟨a.cpu.toState, { n with ram := a.map.ram }⟩, b.configuration⟩, ?_, rfl, rfl, halike⟩
  rw [restore, mismatch?_save ha hb h]
  simp only [save, hrun, Ram.load_bytes hsize]

/-- A machine that loads its own snapshot stays as it is. -/
theorem restore_save_self (ha : a.map.Valid) : a.restore a.save = (a, none) := by
  have hload : a.map.ram.load 0 a.map.ram.bytes.toList = a.map.ram := Ram.load_bytes rfl
  rw [restore, mismatch?_save ha ha rfl]
  simp only [save, ha.restore_save_self, hload]
  rfl

end Machine

end Microcomputer
