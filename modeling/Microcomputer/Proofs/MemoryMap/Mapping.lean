import Microcomputer.MemoryMap.Mapping
import Microcomputer.Proofs.MemoryMap.Layout

/-! Mapping and unmapping keep a layout valid. The regions ascend, so the one region that
is looked at before a new one is mapped stands for all: `Valid.free_of_conflict?`. -/

namespace Microcomputer.MemoryMap

variable {m : MemoryMap}

/-! ### The region below an address -/

/-- The last region that starts at or below an address, of regions that ascend. -/
theorem getLast?_takeWhile_start {rs : List Region} (a : Nat)
    (h : rs.Pairwise fun r s => r.span.stop < s.span.start) :
    match (rs.takeWhile fun r => r.span.start ≤ a).getLast? with
    | none => ∀ r ∈ rs, a < r.span.start
    | some l => l ∈ rs ∧ l.span.start ≤ a ∧
        ∀ r ∈ rs, r = l ∨ r.span.stop < l.span.start ∨ a < r.span.start := by
  induction rs with
  | nil => simp
  | cons r rs ih =>
    obtain ⟨hr, hrs⟩ := List.pairwise_cons.mp h
    have hle := r.span.start_le_stop
    by_cases ha : r.span.start ≤ a
    · rw [List.takeWhile_cons_of_pos (by simpa using ha), List.getLast?_cons]
      have hi := ih hrs
      cases hl : (rs.takeWhile fun r => r.span.start ≤ a).getLast? with
      | none =>
        rw [hl] at hi
        refine ⟨List.mem_cons_self, ha, fun s hs => ?_⟩
        rcases List.mem_cons.mp hs with rfl | hs
        · exact .inl rfl
        · exact .inr (.inr (hi s hs))
      | some l =>
        rw [hl] at hi
        refine ⟨List.mem_cons_of_mem _ hi.1, hi.2.1, fun s hs => ?_⟩
        rcases List.mem_cons.mp hs with rfl | hs
        · exact .inr (.inl (hr l hi.1))
        · exact hi.2.2 s hs
    · rw [List.takeWhile_cons_of_neg (by simpa using ha)]
      intro s hs
      rcases List.mem_cons.mp hs with rfl | hs
      · omega
      · have := hr s hs
        omega

theorem Valid.lt_start_of_below?_eq_none (hm : m.Valid) {a : Nat} (h : m.below? a = none)
    {r : Region} (hr : r ∈ m.regions) : a < r.span.start := by
  have hspec := getLast?_takeWhile_start a hm.pairwise
  rw [below?] at h
  rw [h] at hspec
  exact hspec r hr

theorem Valid.of_below?_eq_some (hm : m.Valid) {a : Nat} {l : Region} (h : m.below? a = some l) :
    l ∈ m.regions ∧ l.span.start ≤ a ∧
      ∀ r ∈ m.regions, r = l ∨ r.span.stop < l.span.start ∨ a < r.span.start := by
  have hspec := getLast?_takeWhile_start a hm.pairwise
  rw [below?] at h
  rwa [h] at hspec

/-! ### Free intervals -/

/-- An interval that meets nothing. -/
structure Free (m : MemoryMap) (i : Interval) : Prop where
  outside_ram : m.ram.size ≤ i.start
  outside_rom : i.stop < Rom.base ∨ Rom.base + Rom.windowSize ≤ i.start
  apart : ∀ r ∈ m.regions, r.span.stop < i.start ∨ i.stop < r.span.start

/-- The windows of a map: RAM, if there is any, and the ROM window. -/
theorem windows_eq (m : MemoryMap) : ∃ ram rom : Interval,
    m.windows = (if 0 < m.ram.size then [(Window.ram, ram)] else []) ++ [(Window.rom, rom)] ∧
      (ram.start = 0 ∧ ram.stop = m.ram.size - 1) ∧
        rom.start = Rom.base ∧ rom.stop = Rom.base + Rom.windowSize - 1 := by
  have hsize : m.ram.size ≤ 0x100000 := m.ram.size_le
  have hlast : 0 ≤ m.ram.size - 1 ∧ m.ram.size - 1 ≤ Address.last := by
    simp only [Address.last]
    omega
  have hrom : Rom.base ≤ Rom.base + Rom.windowSize - 1 ∧
      Rom.base + Rom.windowSize - 1 ≤ Address.last := by decide
  refine ⟨⟨_, _, hlast.1, hlast.2⟩, ⟨_, _, hrom.1, hrom.2⟩, ?_, ⟨rfl, rfl⟩, rfl, rfl⟩
  rw [windows, Interval.between?, dif_pos hlast, Interval.between?, dif_pos hrom,
    Option.filter_some]
  by_cases hpos : 0 < m.ram.size <;> simp [hpos]

theorem of_between?_eq_some {start stop : Nat} {i : Interval}
    (h : Interval.between? start stop = some i) : i.start = start ∧ i.stop = stop := by
  obtain ⟨_, hi⟩ := Option.dite_none_right_eq_some.mp h
  obtain rfl := Option.some.inj hi
  exact ⟨rfl, rfl⟩

theorem Valid.free_of_conflict? (hm : m.Valid) {i : Interval} (h : m.conflict? i = none) :
    m.Free i := by
  have hi := i.start_le_stop
  simp only [conflict?] at h
  split at h
  · cases h
  · next hwindows =>
    have hmeets (k : Window) (w : Interval) (hw : (k, w) ∈ m.windows) :
        ¬(i.start ≤ w.stop ∧ w.start ≤ i.stop) := by
      simpa [Interval.overlaps] using List.find?_eq_none.mp hwindows (k, w) hw
    obtain ⟨ram, rom, heq, hram, hrom⟩ := m.windows_eq
    refine ⟨?_, ?_, fun r hr => ?_⟩
    · by_cases hsize : 0 < m.ram.size
      · have := hmeets .ram ram (by rw [heq, if_pos hsize]; exact List.mem_cons_self)
        omega
      · omega
    · have := hmeets .rom rom (by rw [heq]; exact List.mem_append_right _ List.mem_cons_self)
      have : 0 < Rom.windowSize := by decide
      omega
    · cases hl : m.below? i.stop with
      | none => exact .inr (hm.lt_start_of_below?_eq_none hl hr)
      | some l =>
        obtain ⟨-, hstart, hall⟩ := hm.of_below?_eq_some hl
        have hstop := l.span.start_le_stop
        have hmeet : ¬(l.span.start ≤ i.stop ∧ i.start ≤ l.span.stop) := by
          rw [hl] at h
          simpa [Option.filter, Interval.overlaps] using h
        rcases hall r hr with rfl | hr | hr
        · omega
        · omega
        · exact .inr hr

theorem conflict?_eq_none_of_free {i : Interval} (h : m.Free i) : m.conflict? i = none := by
  have hram := h.outside_ram
  have hrom := h.outside_rom
  have hwindows : (m.windows.find? fun w => i.overlaps w.2) = none := by
    obtain ⟨ram, rom, heq, hramBounds, hromBounds⟩ := m.windows_eq
    have hpos : 0 < Rom.windowSize := by decide
    refine List.find?_eq_none.mpr fun w hw => ?_
    simp only [Interval.overlaps, Bool.and_eq_true, decide_eq_true_eq]
    rw [heq, List.mem_append, List.mem_singleton] at hw
    rcases hw with hw | rfl
    · split at hw
      · rw [List.mem_singleton.mp hw]
        simp only
        omega
      · cases hw
    · simp only
      omega
  simp only [conflict?, hwindows, Option.map_eq_none_iff, Option.filter_eq_none_iff]
  intro r hr
  have hapart := h.apart r ((List.takeWhile_sublist _).mem (List.mem_of_getLast? hr))
  simp only [Interval.overlaps, Bool.and_eq_true, decide_eq_true_eq]
  omega

/-! ### Mapping -/

theorem insertRegion_perm (r : Region) (rs : List Region) :
    (insertRegion r rs).Perm (r :: rs) := by
  induction rs with
  | nil => exact .refl _
  | cons s rs ih =>
    rw [insertRegion]
    split
    · exact .refl _
    · exact (ih.cons s).trans (.swap r s rs)

theorem pairwise_insertRegion {r : Region} {rs : List Region}
    (h : rs.Pairwise fun r s => r.span.stop < s.span.start)
    (hr : ∀ s ∈ rs, s.span.stop < r.span.start ∨ r.span.stop < s.span.start) :
    (insertRegion r rs).Pairwise fun r s => r.span.stop < s.span.start := by
  have hle := r.span.start_le_stop
  induction rs with
  | nil => exact List.pairwise_singleton _ _
  | cons s rs ih =>
    obtain ⟨hs, hrs⟩ := List.pairwise_cons.mp h
    have hle' := s.span.start_le_stop
    have hsr := hr s List.mem_cons_self
    rw [insertRegion]
    split
    · next hlt =>
      refine List.pairwise_cons.mpr ⟨fun t ht => ?_, h⟩
      rcases List.mem_cons.mp ht with rfl | ht
      · omega
      · have := hs t ht
        omega
    · next hlt =>
      refine List.pairwise_cons.mpr ⟨fun t ht => ?_, ih hrs fun t ht => hr t (.tail _ ht)⟩
      rcases List.mem_cons.mp ((insertRegion_perm r rs).mem_iff.mp ht) with rfl | ht
      · omega
      · exact hs t ht

/-- The map with one more region, which takes its place in the order if it is one of a
peripheral. -/
def withRegion (m : MemoryMap) (i : Interval) (c : Region.Content) : MemoryMap :=
  { m with
    regions := insertRegion ⟨m.nextId, i, c⟩ m.regions
    order := if c.kind.isCard then m.order else m.order ++ [m.nextId]
    nextId := m.nextId + 1 }

theorem Valid.lt_of_mem_order (hm : m.Valid) {id : RegionId} (h : id ∈ m.order) :
    id < m.nextId := by
  obtain ⟨q, hq, rfl, -⟩ := (hm.mem_order id).mp h
  exact hm.id_lt q hq

theorem Valid.withRegion (hm : m.Valid) {i : Interval} {c : Region.Content} (hi : m.Free i)
    (hc : c.kind.isCard → ∃ slot < slotCount, i.start = slotBase slot ∧
      i.stop = slotBase slot + 19) : (m.withRegion i c).Valid := by
  have hperm : ((m.withRegion i c).layout.places).Perm
      (⟨m.nextId, i, c.kind⟩ :: m.layout.places) :=
    (insertRegion_perm _ _).map Region.place
  have hmem (q : Region.Place) : q ∈ (m.withRegion i c).layout.places ↔
      q = ⟨m.nextId, i, c.kind⟩ ∨ q ∈ m.layout.places :=
    hperm.mem_iff.trans List.mem_cons
  refine ⟨?_, fun q hq => ?_, fun q hq => ?_, ?_, fun q hq => ?_, ?_, fun id => ?_, fun q hq => ?_⟩
  · exact List.pairwise_map.mpr (pairwise_insertRegion hm.pairwise hi.apart)
  · rcases (hmem q).mp hq with rfl | hq
    · exact hi.outside_ram
    · exact hm.outside_ram q hq
  · rcases (hmem q).mp hq with rfl | hq
    · exact hi.outside_rom
    · exact hm.outside_rom q hq
  · rw [(hperm.map Region.Place.id).nodup_iff, List.map_cons, List.nodup_cons]
    refine ⟨fun h => ?_, hm.named_apart⟩
    obtain ⟨q, hq, hid⟩ := List.mem_map.mp h
    exact Nat.lt_irrefl _ (hid ▸ hm.id_lt q hq)
  · rcases (hmem q).mp hq with rfl | hq
    · exact Nat.lt_succ_self _
    · exact Nat.lt_succ_of_lt (hm.id_lt q hq)
  · change (if c.kind.isCard then m.order else m.order ++ [m.nextId]).Pairwise _
    split
    · exact hm.ordered
    · refine List.pairwise_append.mpr ⟨hm.ordered, List.pairwise_singleton _ _, ?_⟩
      intro id hid next hnext
      rw [List.mem_singleton.mp hnext]
      exact hm.lt_of_mem_order hid
  · change (id ∈ if c.kind.isCard then m.order else m.order ++ [m.nextId]) ↔ _
    have hold : id ∈ m.order ↔ ∃ q ∈ m.layout.places, q.id = id ∧ q.kind.isCard = false :=
      hm.mem_order id
    simp only [hmem, or_and_right, exists_or, exists_eq_left, ← hold]
    cases hk : c.kind.isCard with
    | true => simp
    | false => simp [or_comm, eq_comm]
  · rcases (hmem q).mp hq with rfl | hq
    · exact hc
    · exact hm.slotted q hq

/-- What mapping does where it succeeds. -/
theorem insert_eq_ok {i : Interval} {c : Region.Content} {id : RegionId} {m' : MemoryMap}
    (h : m.insert i c = .ok (id, m')) :
    m.conflict? i = none ∧ id = m.nextId ∧
      m' = { m with
        regions := insertRegion ⟨m.nextId, i, c⟩ m.regions, nextId := m.nextId + 1 } := by
  simp only [insert] at h
  split at h
  · cases h
  · next hc =>
    obtain ⟨rfl, rfl⟩ := Prod.mk.inj (Except.ok.inj h)
    exact ⟨hc, rfl, rfl⟩

theorem bind_eq_ok {ε α β : Type} {x : Except ε α} {f : α → Except ε β} {b : β}
    (h : x >>= f = .ok b) : ∃ a, x = .ok a ∧ f a = .ok b := by
  cases x with
  | error e => cases h
  | ok a => exact ⟨a, rfl, h⟩

theorem register_eq_ok {i : Interval} {p : Peripheral} {id : RegionId} {m' : MemoryMap}
    (h : m.register i p = .ok (id, m')) :
    m.conflict? i = none ∧ id = m.nextId ∧ m' = m.withRegion i (.peripheral p) := by
  obtain ⟨⟨j, n⟩, hn, h⟩ := bind_eq_ok h
  obtain ⟨hc, rfl, rfl⟩ := insert_eq_ok hn
  obtain ⟨rfl, rfl⟩ := Prod.mk.inj (Except.ok.inj h)
  exact ⟨hc, rfl, rfl⟩

theorem register_of_free {i : Interval} (p : Peripheral) (h : m.Free i) :
    m.register i p = .ok (m.nextId, m.withRegion i (.peripheral p)) := by
  rw [register, insert, conflict?_eq_none_of_free h]
  rfl

theorem Valid.register (hm : m.Valid) {i : Interval} {p : Peripheral} {id : RegionId}
    {m' : MemoryMap} (h : m.register i p = .ok (id, m')) : m'.Valid := by
  obtain ⟨hc, -, rfl⟩ := register_eq_ok h
  exact hm.withRegion (hm.free_of_conflict? hc) nofun

theorem of_ofLength_eq_ok {start length : Nat} {i : Interval}
    (h : Interval.ofLength start length = .ok i) :
    i.start = start ∧ i.stop = start + (length - 1) := by
  simp only [Interval.ofLength, Interval.between] at h
  split at h
  · cases h
  · split at h
    · cases h
    · split at h
      · next j hj =>
        obtain rfl := Except.ok.inj h
        exact of_between?_eq_some hj
      · cases h

theorem exists_ofLength {start length : Nat} (hpos : 0 < length)
    (hle : start + length ≤ Address.last + 1) :
    ∃ i, Interval.ofLength start length = .ok i ∧ i.start = start ∧
      i.stop = start + (length - 1) := by
  have hlast : Address.last = 0xFFFFFF := rfl
  have hb : start ≤ start + (length - 1) ∧ start + (length - 1) ≤ Address.last := by omega
  refine ⟨⟨_, _, hb.1, hb.2⟩, ?_, rfl, rfl⟩
  rw [Interval.ofLength, if_neg (by omega), if_neg (by omega), Interval.between,
    Interval.between?, dif_pos hb]

theorem attach_eq_ok {slot : Nat} {d : Device} {m' : MemoryMap} (h : m.attach slot d = .ok m') :
    slot < slotCount ∧ m.card? slot = none ∧ ∃ i : Interval, m.conflict? i = none ∧
      i.start = slotBase slot ∧ i.stop = slotBase slot + 19 ∧
      m' = m.withRegion i (.card (.new d)) := by
  rw [attach] at h
  split at h
  · cases h
  · next hslot =>
    split at h
    · cases h
    · next hcard =>
      obtain ⟨i, hi, h⟩ := bind_eq_ok h
      obtain ⟨⟨id, n⟩, hn, h⟩ := bind_eq_ok h
      obtain ⟨hc, rfl, rfl⟩ := insert_eq_ok hn
      obtain rfl := Except.ok.inj h
      obtain ⟨hstart, hstop⟩ := of_ofLength_eq_ok hi
      exact ⟨Nat.lt_of_not_le hslot, Option.not_isSome_iff_eq_none.mp hcard, i, hc, hstart, hstop,
        rfl⟩

theorem Valid.attach (hm : m.Valid) {slot : Nat} {d : Device} {m' : MemoryMap}
    (h : m.attach slot d = .ok m') : m'.Valid := by
  obtain ⟨hslot, -, i, hc, hstart, hstop, rfl⟩ := attach_eq_ok h
  exact hm.withRegion (hm.free_of_conflict? hc) fun _ => ⟨slot, hslot, hstart, hstop⟩

/-! ### Unmapping -/

/-- Unmapping keeps a layout valid if the order loses the names of the peripherals that
go. -/
theorem Valid.filter (hm : m.Valid) {keep : Region → Bool} {order : List RegionId}
    (horder : order.Sublist m.order)
    (hmem : ∀ id, id ∈ order ↔
      ∃ r ∈ m.regions, keep r ∧ r.id = id ∧ r.content.kind.isCard = false) :
    Valid { m with regions := m.regions.filter keep, order := order } := by
  have hplaces : ((m.regions.filter keep).map Region.place).Sublist m.layout.places :=
    List.filter_sublist.map Region.place
  refine ⟨hm.ascending.sublist hplaces, fun q hq => hm.outside_ram q (hplaces.mem hq),
    fun q hq => hm.outside_rom q (hplaces.mem hq),
    hm.named_apart.sublist (hplaces.map Region.Place.id), fun q hq => hm.id_lt q (hplaces.mem hq),
    hm.ordered.sublist horder, fun id => ?_, fun q hq => hm.slotted q (hplaces.mem hq)⟩
  refine (hmem id).trans ?_
  constructor
  · rintro ⟨r, hr, hk, hid, hc⟩
    exact ⟨r.place, List.mem_map_of_mem (List.mem_filter.mpr ⟨hr, hk⟩), hid, hc⟩
  · rintro ⟨q, hq, hid, hc⟩
    obtain ⟨r, hr, rfl⟩ := List.mem_map.mp hq
    obtain ⟨hr, hk⟩ := List.mem_filter.mp hr
    exact ⟨r, hr, hk, hid, hc⟩

theorem Valid.unregister (hm : m.Valid) {id : RegionId} {p : Peripheral} {m' : MemoryMap}
    (h : m.unregister id = some (p, m')) : m'.Valid := by
  obtain ⟨q, -, h⟩ := Option.bind_eq_some_iff.mp h
  obtain ⟨-, rfl⟩ := Prod.mk.inj (Option.some.inj h)
  refine hm.filter List.filter_sublist fun i => ?_
  rw [List.mem_filter, hm.mem_order_iff_region]
  constructor
  · rintro ⟨⟨r, hr, hid, hc⟩, hi⟩
    refine ⟨r, hr, ?_, hid, hc⟩
    simp_all
  · rintro ⟨r, hr, hk, hid, hc⟩
    refine ⟨⟨r, hr, hid, hc⟩, ?_⟩
    rw [isCard_eq_false_iff] at hc
    simp_all

theorem Valid.detach (hm : m.Valid) {slot : Nat} {d : Device} {m' : MemoryMap}
    (h : m.detach slot = some (d, m')) : m'.Valid := by
  obtain ⟨c, -, h⟩ := Option.bind_eq_some_iff.mp h
  obtain ⟨-, rfl⟩ := Prod.mk.inj (Option.some.inj h)
  refine hm.filter (List.Sublist.refl _) fun i => ?_
  rw [hm.mem_order_iff_region]
  constructor
  · rintro ⟨r, hr, hid, hc⟩
    refine ⟨r, hr, ?_, hid, hc⟩
    have : ¬r.content.card?.isSome := by
      rw [← isCard_iff, hc]
      exact Bool.false_ne_true
    simp_all
  · rintro ⟨r, hr, -, hid, hc⟩
    exact ⟨r, hr, hid, hc⟩

theorem valid_new (ramSize : Nat) (rom : Rom) : (new ramSize rom).Valid := by
  refine ⟨List.Pairwise.nil, nofun, nofun, List.nodup_nil, nofun, List.Pairwise.nil, ?_, nofun⟩
  exact fun id => ⟨nofun, fun ⟨_, h, _⟩ => nomatch h⟩

end Microcomputer.MemoryMap
