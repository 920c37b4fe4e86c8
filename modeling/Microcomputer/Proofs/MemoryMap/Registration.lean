import Microcomputer.Proofs.MemoryMap.Arrangement
import Microcomputer.Proofs.MemoryMap.Resolution

/-! Mapping as reserving addresses. An interval is mapped exactly if all its addresses are
vacant, although of the regions only one is looked at; otherwise the map says what it meets.
Unmapping takes one region away, whose addresses become vacant again and whose name never
returns: `Retired.run`. -/

namespace Microcomputer.MemoryMap

/-- Neither RAM, nor the ROM window, nor a region has the address. -/
structure Vacant (m : MemoryMap) (a : Nat) : Prop where
  ram : ¬m.ram.contains a
  rom : ¬Rom.windowContains a
  regions : ∀ r ∈ m.regions, ¬r.span.contains a

/-- Why an interval is not mapped. The ROM window counts only where RAM is not met, and a
region only where neither is. -/
inductive Refused (m : MemoryMap) (i : Interval) : MapError → Prop where
  | ram (a : Nat) : i.contains a → m.ram.contains a → Refused m i (.reserved i .ram)
  | rom (a : Nat) : (∀ b, i.contains b → ¬m.ram.contains b) → i.contains a →
    Rom.windowContains a → Refused m i (.reserved i .rom)
  | region (r : Region) (a : Nat) :
    (∀ b, i.contains b → ¬m.ram.contains b ∧ ¬Rom.windowContains b) → r ∈ m.regions →
    i.contains a → r.span.contains a → Refused m i (.overlap i r.span)

/-- The second map is the first with one more region, which has the next name and comes last
in the order if it is one of a peripheral. -/
structure Maps (m : MemoryMap) (i : Interval) (c : Region.Content) (n : MemoryMap) : Prop where
  regions : n.regions.Perm (⟨m.nextId, i, c⟩ :: m.regions)
  order : n.order = if c.peripheral?.isSome then m.order ++ [m.nextId] else m.order
  nextId : n.nextId = m.nextId + 1
  ram : n.ram = m.ram
  rom : n.rom = m.rom

/-- The second map is the first without a region. -/
structure Unmaps (m : MemoryMap) (r : Region) (n : MemoryMap) : Prop where
  regions : n.regions = m.regions.filter fun s => s ≠ r
  order : n.order = m.order.filter fun id => id ≠ r.id
  nextId : n.nextId = m.nextId
  ram : n.ram = m.ram
  rom : n.rom = m.rom

theorem slotBase_le_last (slot : Nat) : slotBase slot + 19 ≤ Address.last := by
  have hslot : slot % slotCount < slotCount := Nat.mod_lt _ (by decide)
  simp only [slotBase, Address.last, slotCount] at hslot ⊢
  omega

/-- The block of a slot. -/
def slotSpan (slot : Nat) : Interval :=
  ⟨slotBase slot, slotBase slot + 19, Nat.le_add_right _ _, slotBase_le_last slot⟩

variable {m n : MemoryMap}

/-! ### Vacant addresses -/

theorem ram_contains_iff {a : Nat} : m.ram.contains a ↔ a < m.ram.size := decide_eq_true_iff

theorem Free.vacant {i : Interval} (h : m.Free i) {a : Nat} (ha : i.contains a) : m.Vacant a := by
  have hram := h.outside_ram
  have hrom := h.outside_rom
  rw [Interval.contains_iff] at ha
  refine ⟨?_, ?_, fun r hr => ?_⟩
  · rw [ram_contains_iff]
    omega
  · rw [windowContains_iff]
    omega
  · have hapart := h.apart r hr
    rw [Interval.contains_iff]
    omega

/-- An interval is free exactly if all its addresses are vacant. -/
theorem free_iff {i : Interval} : m.Free i ↔ ∀ a, i.contains a → m.Vacant a := by
  refine ⟨fun h a => h.vacant, fun h => ?_⟩
  have hi := i.start_le_stop
  refine ⟨?_, ?_, fun r hr => ?_⟩
  · have hstart := (h i.start (Interval.contains_iff.mpr ⟨Nat.le_refl _, hi⟩)).ram
    rw [ram_contains_iff] at hstart
    exact Nat.le_of_not_lt hstart
  · by_contra hmeet
    have hsize : 0 < Rom.windowSize := by decide
    have hmax := (h (max i.start Rom.base) (Interval.contains_iff.mpr (by omega))).rom
    rw [windowContains_iff] at hmax
    omega
  · by_contra hmeet
    have hoverlap : i.overlaps r.span := by
      simp only [Interval.overlaps, Bool.and_eq_true, decide_eq_true_eq]
      omega
    obtain ⟨a, ha, hra⟩ := Interval.overlaps_iff.mp hoverlap
    exact (h a ha).regions r hr hra

/-! ### Refusals -/

section Windows

variable {i : Interval}

theorem find?_windows_of_ram {a : Nat} (ha : i.contains a) (hram : m.ram.contains a) :
    ∃ w, (m.windows.find? fun w => i.overlaps w.2) = some (.ram, w) := by
  obtain ⟨ram, rom, hwindows, ⟨hstart, hstop⟩, -⟩ := m.windows_eq
  rw [ram_contains_iff] at hram
  have hpos : 0 < m.ram.size := Nat.zero_lt_of_lt hram
  have hmeet : i.overlaps ram :=
    Interval.overlaps_iff.mpr ⟨a, ha, Interval.contains_iff.mpr (by omega)⟩
  refine ⟨ram, ?_⟩
  rw [hwindows, if_pos hpos, List.singleton_append, List.find?_cons, hmeet]

/-- Where RAM is not met, only the ROM window is left to be met. -/
theorem find?_windows_of_outside_ram (hram : ∀ a, i.contains a → ¬m.ram.contains a) :
    ∃ rom : Interval, (∀ a, rom.contains a ↔ Rom.windowContains a) ∧
      (m.windows.find? fun w => i.overlaps w.2) =
        [(Window.rom, rom)].find? fun w => i.overlaps w.2 := by
  obtain ⟨ram, rom, hwindows, ⟨hstart, hstop⟩, hrom⟩ := m.windows_eq
  refine ⟨rom, fun a => ?_, ?_⟩
  · have : 0 < Rom.windowSize := by decide
    rw [Interval.contains_iff, windowContains_iff]
    omega
  rw [hwindows]
  split
  · next hpos =>
    have hmeet : ¬i.overlaps ram := by
      rw [Interval.overlaps_iff]
      rintro ⟨a, ha, hra⟩
      rw [Interval.contains_iff] at hra
      exact hram a ha (ram_contains_iff.mpr (by omega))
    rw [List.singleton_append, List.find?_cons, Bool.eq_false_iff.mpr hmeet]
  · rfl

theorem find?_windows_of_rom {a : Nat} (hram : ∀ a, i.contains a → ¬m.ram.contains a)
    (ha : i.contains a) (hrom : Rom.windowContains a) :
    ∃ w, (m.windows.find? fun w => i.overlaps w.2) = some (.rom, w) := by
  obtain ⟨rom, hcontains, hfind⟩ := find?_windows_of_outside_ram hram
  have hmeet : i.overlaps rom := Interval.overlaps_iff.mpr ⟨a, ha, (hcontains a).mpr hrom⟩
  exact ⟨rom, by rw [hfind, List.find?_cons, hmeet]⟩

theorem find?_windows_eq_none
    (h : ∀ a, i.contains a → ¬m.ram.contains a ∧ ¬Rom.windowContains a) :
    (m.windows.find? fun w => i.overlaps w.2) = none := by
  obtain ⟨rom, hcontains, hfind⟩ := find?_windows_of_outside_ram fun a ha => (h a ha).1
  have hmeet : ¬i.overlaps rom := by
    rw [Interval.overlaps_iff]
    rintro ⟨a, ha, hra⟩
    exact (h a ha).2 ((hcontains a).mp hra)
  rw [hfind, List.find?_cons, Bool.eq_false_iff.mpr hmeet, List.find?_nil]

/-- What an interval is refused for is really met. -/
theorem refused_of_conflict? {e : MapError} (h : m.conflict? i = some e) : m.Refused i e := by
  rw [conflict?] at h
  by_cases hram : ∃ a, i.contains a ∧ m.ram.contains a
  · obtain ⟨a, ha, hmeet⟩ := hram
    obtain ⟨w, hw⟩ := find?_windows_of_ram ha hmeet
    rw [hw] at h
    obtain rfl := Option.some.inj h
    exact .ram a ha hmeet
  have houtside : ∀ a, i.contains a → ¬m.ram.contains a := fun a ha hmeet => hram ⟨a, ha, hmeet⟩
  by_cases hrom : ∃ a, i.contains a ∧ Rom.windowContains a
  · obtain ⟨a, ha, hmeet⟩ := hrom
    obtain ⟨w, hw⟩ := find?_windows_of_rom houtside ha hmeet
    rw [hw] at h
    obtain rfl := Option.some.inj h
    exact .rom a houtside ha hmeet
  · have hneither : ∀ a, i.contains a → ¬m.ram.contains a ∧ ¬Rom.windowContains a :=
      fun a ha => ⟨houtside a ha, fun hmeet => hrom ⟨a, ha, hmeet⟩⟩
    rw [find?_windows_eq_none hneither] at h
    obtain ⟨r, hr, rfl⟩ := Option.map_eq_some_iff.mp h
    obtain ⟨hbelow, hoverlap⟩ := Option.filter_eq_some_iff.mp hr
    obtain ⟨a, hra, ha⟩ := Interval.overlaps_iff.mp hoverlap
    exact .region r a hneither ((List.takeWhile_sublist _).mem (List.mem_of_getLast? hbelow)) ha hra

end Windows

/-- An interval is mapped exactly if all its addresses are vacant. -/
theorem Valid.conflict?_eq_none_iff (hm : m.Valid) {i : Interval} :
    m.conflict? i = none ↔ ∀ a, i.contains a → m.Vacant a := by
  rw [← free_iff]
  exact ⟨hm.free_of_conflict?, conflict?_eq_none_of_free⟩

/-! ### Mapping -/

theorem maps_withRegion (m : MemoryMap) (i : Interval) (c : Region.Content) :
    m.Maps i c (m.withRegion i c) where
  regions := insertRegion_perm _ _
  order := by cases c <;> rfl
  nextId := rfl
  ram := rfl
  rom := rfl

theorem Maps.vacant_iff {i : Interval} {c : Region.Content} (h : m.Maps i c n) {a : Nat} :
    n.Vacant a ↔ m.Vacant a ∧ ¬i.contains a := by
  have hmem (r : Region) : r ∈ n.regions ↔ r = ⟨m.nextId, i, c⟩ ∨ r ∈ m.regions :=
    h.regions.mem_iff.trans List.mem_cons
  constructor
  · intro ha
    have hram := ha.ram
    rw [h.ram] at hram
    refine ⟨⟨hram, ha.rom, fun r hr => ha.regions r ((hmem r).mpr (.inr hr))⟩, ?_⟩
    exact ha.regions ⟨m.nextId, i, c⟩ ((hmem _).mpr (.inl rfl))
  · rintro ⟨ha, hi⟩
    refine ⟨by rw [h.ram]; exact ha.ram, ha.rom, fun r hr => ?_⟩
    rcases (hmem r).mp hr with rfl | hr
    · exact hi
    · exact ha.regions r hr

section Register

variable {i : Interval} {p : Peripheral}

theorem register_of_conflict? (p : Peripheral) {e : MapError} (h : m.conflict? i = some e) :
    m.register i p = .error e := by
  rw [register, insert, h]
  rfl

theorem conflict?_of_register {e : MapError} (h : m.register i p = .error e) :
    m.conflict? i = some e := by
  cases hc : m.conflict? i with
  | some e' =>
    rw [register_of_conflict? p hc] at h
    exact congrArg some (Except.error.inj h)
  | none =>
    rw [register, insert, hc] at h
    cases h

theorem Valid.exists_register_iff (hm : m.Valid) :
    (∃ id n, m.register i p = .ok (id, n)) ↔ ∀ a, i.contains a → m.Vacant a := by
  rw [← hm.conflict?_eq_none_iff]
  constructor
  · rintro ⟨id, n, h⟩
    exact (register_eq_ok h).1
  · intro h
    exact ⟨_, _, register_of_free p (hm.free_of_conflict? h)⟩

theorem exists_reserved_iff :
    (∃ k, m.register i p = .error (.reserved i k)) ↔
      ∃ a, i.contains a ∧ (m.ram.contains a ∨ Rom.windowContains a) := by
  constructor
  · rintro ⟨k, h⟩
    cases refused_of_conflict? (conflict?_of_register h) with
    | ram a ha hram => exact ⟨a, ha, .inl hram⟩
    | rom a _ ha hrom => exact ⟨a, ha, .inr hrom⟩
  · rintro ⟨a, ha, hmeet⟩
    by_cases hram : ∃ b, i.contains b ∧ m.ram.contains b
    · obtain ⟨b, hb, hram⟩ := hram
      obtain ⟨w, hw⟩ := find?_windows_of_ram hb hram
      exact ⟨.ram, register_of_conflict? p (by rw [conflict?, hw])⟩
    · have houtside : ∀ b, i.contains b → ¬m.ram.contains b := fun b hb h => hram ⟨b, hb, h⟩
      obtain ⟨w, hw⟩ :=
        find?_windows_of_rom houtside ha (hmeet.resolve_left (houtside a ha))
      exact ⟨.rom, register_of_conflict? p (by rw [conflict?, hw])⟩

theorem maps_register {id : RegionId} (h : m.register i p = .ok (id, n)) :
    id = m.nextId ∧ m.Maps i (.peripheral p) n := by
  obtain ⟨-, rfl, rfl⟩ := register_eq_ok h
  exact ⟨rfl, m.maps_withRegion i _⟩

end Register

section Attach

variable {slot : Nat} {d : Device}

theorem outside_of_contains_slotSpan {a : Nat} (h : (slotSpan slot).contains a) :
    ¬m.ram.contains a ∧ ¬Rom.windowContains a := by
  have hsize : m.ram.size ≤ 0x100000 := m.ram.size_le
  have hstart : 0x110000 ≤ slotBase slot := Nat.le_add_right _ _
  have ha : slotBase slot ≤ a := (Interval.contains_iff.mp h).1
  rw [ram_contains_iff, windowContains_iff]
  simp only [Rom.base, Rom.windowSize]
  omega

theorem eq_slotSpan {i : Interval} (hstart : i.start = slotBase slot)
    (hstop : i.stop = slotBase slot + 19) : i = slotSpan slot := by
  obtain ⟨start, stop, _, _⟩ := i
  obtain rfl : start = slotBase slot := hstart
  obtain rfl : stop = slotBase slot + 19 := hstop
  rfl

theorem ofLength_slotBase (slot : Nat) :
    Interval.ofLength (slotBase slot) ControlBlock.size = .ok (slotSpan slot) := by
  have hlast : slotBase slot + ControlBlock.size ≤ Address.last + 1 :=
    Nat.succ_le_succ (slotBase_le_last slot)
  obtain ⟨i, hi, hstart, hstop⟩ := exists_ofLength (by decide) hlast
  rw [hi, eq_slotSpan hstart hstop]

theorem attach_eq (hslot : slot < slotCount) (hcard : m.card? slot = none) :
    m.attach slot d = (m.insert (slotSpan slot) (.card (.new d))).map Prod.snd := by
  rw [attach, if_neg (Nat.not_le.mpr hslot), hcard, ofLength_slotBase]
  change (m.insert (slotSpan slot) (.card (.new d)) >>= fun r => .ok r.2) = _
  cases m.insert (slotSpan slot) (.card (.new d)) <;> rfl

theorem Valid.exists_attach_iff (hm : m.Valid) :
    (∃ n, m.attach slot d = .ok n) ↔ slot < slotCount ∧ m.card? slot = none ∧
      ∀ a, (slotSpan slot).contains a → ∀ r ∈ m.regions, ¬r.span.contains a := by
  have hvacant : (∀ a, (slotSpan slot).contains a → m.Vacant a) ↔
      ∀ a, (slotSpan slot).contains a → ∀ r ∈ m.regions, ¬r.span.contains a := by
    refine forall_congr' fun a => forall_congr' fun ha => ⟨Vacant.regions, fun h => ?_⟩
    obtain ⟨hram, hrom⟩ := outside_of_contains_slotSpan (m := m) ha
    exact ⟨hram, hrom, h⟩
  rw [← hvacant, ← hm.conflict?_eq_none_iff]
  constructor
  · rintro ⟨n, h⟩
    obtain ⟨hslot, hcard, i, hi, hstart, hstop, -⟩ := attach_eq_ok h
    obtain rfl := eq_slotSpan hstart hstop
    exact ⟨hslot, hcard, hi⟩
  · rintro ⟨hslot, hcard, hi⟩
    rw [attach_eq hslot hcard, insert, hi]
    exact ⟨_, rfl⟩

theorem Valid.maps_attach (hm : m.Valid) (h : m.attach slot d = .ok n) :
    m.Maps (slotSpan slot) (.card (.new d)) n ∧ n.card? slot = some (.new d) := by
  have hvalid := hm.attach h
  obtain ⟨hslot, -, i, -, hstart, hstop, rfl⟩ := attach_eq_ok h
  obtain rfl := eq_slotSpan hstart hstop
  have hmaps := m.maps_withRegion (slotSpan slot) (.card (.new d))
  refine ⟨hmaps, hvalid.card?_eq_some_iff.mpr ⟨hslot, ⟨m.nextId, slotSpan slot, _⟩, ?_, rfl, rfl⟩⟩
  exact hmaps.regions.mem_iff.mpr List.mem_cons_self

end Attach

/-! ### Unmapping -/

theorem Unmaps.eq {r : Region} {l : MemoryMap} (hn : m.Unmaps r n) (hl : m.Unmaps r l) : n = l := by
  obtain ⟨ram, rom, regions, order, nextId⟩ := n
  obtain ⟨ram', rom', regions', order', nextId'⟩ := l
  obtain ⟨rfl, rfl, rfl, rfl, rfl⟩ := hn
  obtain ⟨rfl, rfl, rfl, rfl, rfl⟩ := hl
  rfl

section Unmap

variable {r : Region}

theorem Unmaps.mem_iff (h : m.Unmaps r n) {s : Region} :
    s ∈ n.regions ↔ s ∈ m.regions ∧ s ≠ r := by
  rw [h.regions, List.mem_filter, decide_eq_true_iff]

theorem filter_eq_filter_ne {keep : Region → Bool} (hself : ¬keep r)
    (hother : ∀ s ∈ m.regions, s ≠ r → keep s) :
    m.regions.filter keep = m.regions.filter fun s => s ≠ r := by
  refine List.filter_congr fun s hs => ?_
  by_cases h : s = r
  · rw [h, Bool.eq_false_iff.mpr hself]
    simp
  · simp [hother s hs h, h]

theorem Valid.unmaps_of_peripheral (hm : m.Valid) (hr : r ∈ m.regions) {p : Peripheral}
    (hc : r.content = .peripheral p) : m.Unmaps r { m with
      regions := m.regions.filter fun s => !(s.id == r.id && s.content.peripheral?.isSome)
      order := m.order.filter fun i => i != r.id } := by
  refine ⟨filter_eq_filter_ne ?_ fun s hs hne => ?_, ?_, rfl, rfl, rfl⟩
  · simp [hc, Region.Content.peripheral?]
  · have hid : s.id ≠ r.id := fun hid => hne (hm.eq_of_id_eq hs hr hid)
    simp [hid]
  · exact List.filter_congr fun i _ => Bool.eq_iff_iff.mpr (by simp)

theorem Valid.unregister_eq_some_iff (hm : m.Valid) {id : RegionId} {p : Peripheral} :
    m.unregister id = some (p, n) ↔
      ∃ r ∈ m.regions, r.id = id ∧ r.content = .peripheral p ∧ m.Unmaps r n := by
  constructor
  · intro h
    obtain ⟨q, hq, h⟩ := Option.bind_eq_some_iff.mp h
    obtain ⟨rfl, rfl⟩ := Prod.mk.inj (Option.some.inj h)
    obtain ⟨r, hr, rfl, hc⟩ := hm.peripheral?_eq_some_iff.mp hq
    exact ⟨r, hr, rfl, hc, hm.unmaps_of_peripheral hr hc⟩
  · rintro ⟨r, hr, rfl, hc, hn⟩
    rw [hn.eq (hm.unmaps_of_peripheral hr hc), MemoryMap.unregister,
      hm.peripheral?_eq_some_iff.mpr ⟨r, hr, rfl, hc⟩]
    rfl

/-- No card is named in the order, so that unplugging it leaves the order as it is. -/
theorem Valid.unmaps_of_card (hm : m.Valid) (hr : r ∈ m.regions) {c : Card} {slot : Nat}
    (hc : r.content = .card c) (hstart : r.span.start = slotBase slot) : m.Unmaps r { m with
      regions := m.regions.filter fun s =>
        !(s.span.start == slotBase slot && s.content.card?.isSome) } := by
  refine ⟨filter_eq_filter_ne ?_ fun s hs hne => ?_, ?_, rfl, rfl, rfl⟩
  · simp [hc, hstart, Region.Content.card?]
  · have hne : s.span.start ≠ slotBase slot := fun h =>
      hne (hm.eq_of_start_eq hs hr (h.trans hstart.symm))
    simp [hne]
  · refine (List.filter_eq_self.mpr fun i hi => ?_).symm
    rw [decide_eq_true_iff]
    intro hid
    obtain ⟨s, hs, hsid, hcard⟩ := hm.mem_order_iff_region.mp hi
    obtain rfl := hm.eq_of_id_eq hs hr (hsid.trans hid)
    rw [hc] at hcard
    cases hcard

theorem Valid.detach_eq_some_iff (hm : m.Valid) {slot : Nat} {d : Device} :
    m.detach slot = some (d, n) ↔ slot < slotCount ∧
      ∃ r ∈ m.regions, ∃ c, r.span = slotSpan slot ∧ r.content = .card c ∧ c.device = d ∧
        m.Unmaps r n := by
  constructor
  · intro h
    obtain ⟨c, hcard, h⟩ := Option.bind_eq_some_iff.mp h
    obtain ⟨rfl, rfl⟩ := Prod.mk.inj (Option.some.inj h)
    obtain ⟨hslot, r, hr, hstart, hc⟩ := hm.card?_eq_some_iff.mp hcard
    obtain ⟨k, hk, -, hstart', hstop⟩ := hm.exists_slot_of_mem hr hc
    obtain rfl := slotBase_inj hslot hk (hstart.symm.trans hstart')
    exact ⟨hslot, r, hr, c, eq_slotSpan hstart hstop, hc, rfl, hm.unmaps_of_card hr hc hstart⟩
  · rintro ⟨hslot, r, hr, c, hspan, hc, rfl, hn⟩
    have hstart : r.span.start = slotBase slot := congrArg Interval.start hspan
    rw [hn.eq (hm.unmaps_of_card hr hc hstart), MemoryMap.detach,
      hm.card?_eq_some_iff.mpr ⟨hslot, r, hr, hstart, hc⟩]
    rfl

theorem Valid.unmaps (hm : m.Valid) (hr : r ∈ m.regions) (h : m.Unmaps r n) : n.Valid := by
  obtain ⟨ram, rom, regions, order, nextId⟩ := n
  obtain ⟨rfl, rfl, rfl, rfl, rfl⟩ := h
  refine hm.filter List.filter_sublist fun id => ?_
  rw [List.mem_filter, hm.mem_order_iff_region, decide_eq_true_iff]
  constructor
  · rintro ⟨⟨s, hs, rfl, hc⟩, hne⟩
    exact ⟨s, hs, decide_eq_true fun h => hne (congrArg Region.id h), rfl, hc⟩
  · rintro ⟨s, hs, hne, rfl, hc⟩
    exact ⟨⟨s, hs, rfl, hc⟩, fun hid => of_decide_eq_true hne (hm.eq_of_id_eq hs hr hid)⟩

theorem Valid.vacant_unmaps_iff (hm : m.Valid) (hr : r ∈ m.regions) (h : m.Unmaps r n) {a : Nat} :
    n.Vacant a ↔ m.Vacant a ∨ r.span.contains a := by
  constructor
  · intro ha
    refine or_iff_not_imp_right.mpr fun hra => ⟨h.ram ▸ ha.ram, ha.rom, fun s hs => ?_⟩
    by_cases hsr : s = r
    · rwa [hsr]
    · exact ha.regions s (h.mem_iff.mpr ⟨hs, hsr⟩)
  · rintro (ha | hra)
    · exact ⟨h.ram ▸ ha.ram, ha.rom, fun s hs => ha.regions s (h.mem_iff.mp hs).1⟩
    · obtain ⟨-, hram, hrom⟩ := hm.outside_of_contains hr hra
      refine ⟨h.ram ▸ hram, hrom, fun s hs hsa => ?_⟩
      obtain ⟨hs, hne⟩ := h.mem_iff.mp hs
      exact hne (hm.eq_of_contains hs hr hsa hra)

/-- What is done to all regions is done to the others as it would have been. -/
theorem Valid.regions_mapContents (hm : m.Valid) (hr : r ∈ m.regions) (h : m.Unmaps r n)
    (f : Region → Region.Content) :
    (n.mapContents f).regions = (m.mapContents f).regions.filter fun s => s.id ≠ r.id := by
  have hkeep : m.regions.filter (fun s => s ≠ r) = m.regions.filter fun s => s.id ≠ r.id := by
    refine (filter_eq_filter_ne (by simp) fun s hs hne => ?_).symm
    exact decide_eq_true fun hid => hne (hm.eq_of_id_eq hs hr hid)
  rw [mapContents, mapContents, h.regions, hkeep, List.filter_map]
  rfl

end Unmap

/-- A vacant address reads as zero and takes no writing. -/
theorem Vacant.leads {a : Nat} (h : m.Vacant a) : m.Leads a .nothing :=
  .nothing (Nat.le_of_not_lt fun ha => h.ram (ram_contains_iff.mpr ha)) h.rom h.regions

/-! ### Names that never return -/

/-- The name was given, and no region has it any more. -/
structure Retired (m : MemoryMap) (id : RegionId) : Prop where
  lt_nextId : id < m.nextId
  id_ne : ∀ r ∈ m.regions, r.id ≠ id

/-- An operation changes at most states, or maps one region, or unmaps one. -/
theorem Valid.op_cases (hm : m.Valid) (op : Op) :
    (op.run m).layout = m.layout ∨ (∃ i c, m.Maps i c (op.run m)) ∨
      ∃ r ∈ m.regions, m.Unmaps r (op.run m) := by
  cases op with
  | read a => exact .inl (hm.layout_readByte a)
  | write a b => exact .inl (hm.layout_writeByte a b)
  | load a bs => exact .inl (m.layout_load a bs)
  | register i p =>
    simp only [Op.run]
    cases h : m.register i p with
    | error e => exact .inl rfl
    | ok r => exact .inr (.inl ⟨i, _, (maps_register h).2⟩)
  | unregister id =>
    simp only [Op.run]
    cases h : m.unregister id with
    | none => exact .inl rfl
    | some x =>
      obtain ⟨r, hr, -, -, hn⟩ := hm.unregister_eq_some_iff.mp h
      exact .inr (.inr ⟨r, hr, hn⟩)
  | attach slot d =>
    simp only [Op.run]
    cases h : m.attach slot d with
    | error e => exact .inl rfl
    | ok n => exact .inr (.inl ⟨_, _, (hm.maps_attach h).1⟩)
  | detach slot =>
    simp only [Op.run]
    cases h : m.detach slot with
    | none => exact .inl rfl
    | some x =>
      obtain ⟨-, r, hr, c, -, -, -, hn⟩ := hm.detach_eq_some_iff.mp h
      exact .inr (.inr ⟨r, hr, hn⟩)
  | call slot c => exact .inl (hm.layout_call slot c)
  | tick n elapsed => exact .inl (m.layout_tick n elapsed)
  | reset => exact .inl m.layout_reset
  | acknowledge source => exact .inl (hm.layout_acknowledge source)
  | restore peripherals cards => exact .inl (keeps_restore hm peripherals cards).layout_eq

theorem Retired.of_layout_eq {id : RegionId} (h : m.Retired id) (heq : n.layout = m.layout) :
    n.Retired id := by
  have hnext : n.nextId = m.nextId := congrArg Layout.nextId heq
  refine ⟨hnext ▸ h.lt_nextId, fun r hr => ?_⟩
  obtain ⟨s, hs, hplace⟩ := exists_region_of_layout_eq heq hr
  have hid : s.id = r.id := congrArg Region.Place.id hplace
  exact hid ▸ h.id_ne s hs

theorem Retired.op {id : RegionId} (h : m.Retired id) (hm : m.Valid) (op : Op) :
    (op.run m).Retired id := by
  rcases hm.op_cases op with heq | ⟨i, c, hmaps⟩ | ⟨r, -, hunmaps⟩
  · exact h.of_layout_eq heq
  · refine ⟨hmaps.nextId ▸ Nat.lt_succ_of_lt h.lt_nextId, fun s hs => ?_⟩
    rcases List.mem_cons.mp (hmaps.regions.mem_iff.mp hs) with rfl | hs
    · exact Nat.ne_of_gt h.lt_nextId
    · exact h.id_ne s hs
  · refine ⟨hunmaps.nextId ▸ h.lt_nextId, fun s hs => ?_⟩
    rw [hunmaps.regions] at hs
    exact h.id_ne s (List.mem_of_mem_filter hs)

theorem Retired.run {id : RegionId} (h : m.Retired id) (hm : m.Valid) (ops : List Op) :
    (MemoryMap.run ops m).Retired id := by
  induction ops generalizing m with
  | nil => exact h
  | cons op ops ih => exact ih (h.op hm op) (hm.op op)

theorem Valid.retired (hm : m.Valid) {r : Region} (hr : r ∈ m.regions) (h : m.Unmaps r n) :
    n.Retired r.id := by
  refine ⟨h.nextId ▸ hm.id_lt r.place (List.mem_map_of_mem hr), fun s hs hid => ?_⟩
  obtain ⟨hs, hne⟩ := h.mem_iff.mp hs
  exact hne (hm.eq_of_id_eq hs hr hid)

theorem Retired.peripheral?_eq_none {id : RegionId} (h : m.Retired id) (hm : m.Valid) :
    m.peripheral? id = none := by
  refine Option.eq_none_iff_forall_ne_some.mpr fun p hp => ?_
  obtain ⟨s, hs, hid, -⟩ := hm.peripheral?_eq_some_iff.mp hp
  exact h.id_ne s hs hid

theorem Retired.not_mem_sources {id : RegionId} (h : m.Retired id) (hm : m.Valid) :
    .peripheral id ∉ m.sources := by
  intro hsource
  have horder : id ∈ m.order := by simpa [sources] using hsource
  rw [hm.mem_order_iff, h.peripheral?_eq_none hm] at horder
  cases horder

/-! ### Intervals reserved and given back -/

/-- The operation finds nothing to do or is refused. -/
def Op.Fails (m : MemoryMap) : Op → Prop
  | register i p => ∃ e, m.register i p = .error e
  | unregister id => m.unregister id = none
  | attach slot d => ∃ e, m.attach slot d = .error e
  | detach slot => m.detach slot = none
  | _ => False

theorem Op.Fails.run_eq {op : Op} (h : op.Fails m) : op.run m = m := by
  cases op with
  | register i p =>
    obtain ⟨e, he⟩ := h
    rw [Op.run, he]
    rfl
  | unregister id =>
    have hnone : m.unregister id = none := h
    rw [Op.run, hnone]
    rfl
  | attach slot d =>
    obtain ⟨e, he⟩ := h
    rw [Op.run, he]
    rfl
  | detach slot =>
    have hnone : m.detach slot = none := h
    rw [Op.run, hnone]
    rfl
  | _ => exact h.elim

/-- A region was taken away, and nothing leads to it any more. Its addresses, and they alone,
can be mapped again; no access reaches it, time and reset go on for the others as they would
have, and nothing done later brings its name back. -/
structure Gone (m : MemoryMap) (r : Region) (n : MemoryMap) : Prop where
  vacant_iff : ∀ a, n.Vacant a ↔ m.Vacant a ∨ r.span.contains a
  exists_register_iff : ∀ i p, (∃ id l, n.register i p = .ok (id, l)) ↔
    ∀ a, i.contains a → m.Vacant a ∨ r.span.contains a
  readByte_eq : ∀ w, r.span.contains (w.toNat % 0x1000000) → n.readByte w = (0, n)
  writeByte_eq : ∀ w b, r.span.contains (w.toNat % 0x1000000) → n.writeByte w b = n
  card?_eq : ∀ slot, r.span.start = slotBase slot →
    n.card? slot = none ∧ n.requested (.slot slot) = none
  tick : ∀ k elapsed, (n.tick k elapsed).regions =
    (m.tick k elapsed).regions.filter fun s => s.id ≠ r.id
  reset : n.reset.regions = m.reset.regions.filter fun s => s.id ≠ r.id
  id_ne : ∀ ops, ∀ s ∈ (run ops n).regions, s.id ≠ r.id
  not_polled : ∀ ops, .peripheral r.id ∉ (run ops n).sources
  requested_eq : ∀ ops, (run ops n).requested (.peripheral r.id) = none

theorem Valid.gone (hm : m.Valid) {r : Region} (hr : r ∈ m.regions) (h : m.Unmaps r n) :
    m.Gone r n := by
  have hn := hm.unmaps hr h
  have hvacant {a : Nat} : n.Vacant a ↔ m.Vacant a ∨ r.span.contains a :=
    hm.vacant_unmaps_iff hr h
  have hretired (ops : List Op) : (MemoryMap.run ops n).Retired r.id :=
    (hm.retired hr h).run hn ops
  exact {
    vacant_iff _ := hvacant
    exists_register_iff i p := by simp only [hn.exists_register_iff, hvacant]
    readByte_eq w hw := hn.readByte_eq (hvacant.mpr (.inr hw)).leads
    writeByte_eq w b hw := hn.writeByte_eq b (hvacant.mpr (.inr hw)).leads
    card?_eq slot hstart := by
      have hslot : n.card? slot = none := by
        refine Option.eq_none_iff_forall_ne_some.mpr fun c hc => ?_
        obtain ⟨-, s, hs, hstart', -⟩ := hn.card?_eq_some_iff.mp hc
        obtain ⟨hs, hne⟩ := h.mem_iff.mp hs
        exact hne (hm.eq_of_start_eq hs hr (hstart'.trans hstart.symm))
      exact ⟨hslot, by rw [requested, hslot, Option.bind_none]⟩
    tick _ _ := hm.regions_mapContents hr h _
    reset := hm.regions_mapContents hr h _
    id_ne ops := (hretired ops).id_ne
    not_polled ops := (hretired ops).not_mem_sources (hn.run ops)
    requested_eq ops := by
      rw [requested, (hretired ops).peripheral?_eq_none (hn.run ops), Option.bind_none] }

/-- How a map reserves addresses and gives them back. -/
structure Reserves (m : MemoryMap) : Prop where
  exists_register_iff : ∀ i p,
    (∃ id n, m.register i p = .ok (id, n)) ↔ ∀ a, i.contains a → m.Vacant a
  exists_reserved_iff : ∀ i p, (∃ k, m.register i p = .error (.reserved i k)) ↔
    ∃ a, i.contains a ∧ (m.ram.contains a ∨ Rom.windowContains a)
  refused : ∀ i p e, m.register i p = .error e → m.Refused i e
  register : ∀ i p id n, m.register i p = .ok (id, n) →
    id = m.nextId ∧ m.Maps i (.peripheral p) n
  exists_attach_iff : ∀ slot d, (∃ n, m.attach slot d = .ok n) ↔
    slot < slotCount ∧ m.card? slot = none ∧
      ∀ a, (slotSpan slot).contains a → ∀ r ∈ m.regions, ¬r.span.contains a
  attach : ∀ slot d n, m.attach slot d = .ok n →
    m.Maps (slotSpan slot) (.card (.new d)) n ∧ n.card? slot = some (.new d)
  vacant_iff : ∀ i c n, m.Maps i c n → ∀ a, n.Vacant a ↔ m.Vacant a ∧ ¬i.contains a
  unregister_eq_some_iff : ∀ id p n, m.unregister id = some (p, n) ↔
    ∃ r ∈ m.regions, r.id = id ∧ r.content = .peripheral p ∧ m.Unmaps r n
  detach_eq_some_iff : ∀ slot d n, m.detach slot = some (d, n) ↔ slot < slotCount ∧
    ∃ r ∈ m.regions, ∃ c, r.span = slotSpan slot ∧ r.content = .card c ∧ c.device = d ∧
      m.Unmaps r n
  gone : ∀ r ∈ m.regions, ∀ n, m.Unmaps r n → m.Gone r n
  run_eq : ∀ op : Op, op.Fails m → op.run m = m

theorem Reachable.reserves (h : m.Reachable) : m.Reserves where
  exists_register_iff _ _ := h.valid.exists_register_iff
  exists_reserved_iff _ _ := MemoryMap.exists_reserved_iff
  refused _ _ _ he := refused_of_conflict? (conflict?_of_register he)
  register _ _ _ _ hn := maps_register hn
  exists_attach_iff _ _ := h.valid.exists_attach_iff
  attach _ _ _ hn := h.valid.maps_attach hn
  vacant_iff _ _ _ hn _ := hn.vacant_iff
  unregister_eq_some_iff _ _ _ := h.valid.unregister_eq_some_iff
  detach_eq_some_iff _ _ _ := h.valid.detach_eq_some_iff
  gone _ hr _ hn := h.valid.gone hr hn
  run_eq _ hop := hop.run_eq

/-- Two peripherals close to each other and a card. -/
def crowded : MemoryMap :=
  run [
    .register ⟨0x200000, 0x200003, by decide, by decide⟩ .ramp,
    .register ⟨0x200008, 0x20000B, by decide, by decide⟩ (.scratchpad (.zero 4 none)),
    .attach 1 (.inert ⟨1, 2, 3, 4⟩)]
    (new 4 ⟨#[]⟩)

theorem reachable_crowded : crowded.Reachable := (Reachable.new 4 ⟨#[]⟩).run _

/-- An interval that swallows both peripherals. -/
def swallowing : Interval := ⟨0x1FFFFF, 0x300000, by decide, by decide⟩

/-- It is refused for the second peripheral, and fits once both are gone. -/
theorem reserves_crowded :
    crowded.Reachable ∧ crowded.Reserves ∧
      crowded.register swallowing .ramp =
        .error (.overlap swallowing ⟨0x200008, 0x20000B, by decide, by decide⟩) ∧
      ((run [.unregister 1] crowded).register swallowing .ramp).isOk = false ∧
      ((run [.unregister 1, .unregister 0] crowded).register swallowing .ramp).isOk :=
  ⟨reachable_crowded, reachable_crowded.reserves,
    register_of_conflict? .ramp (by decide +kernel), by decide +kernel, by decide +kernel⟩

end Microcomputer.MemoryMap
