import Microcomputer.Proofs.Machine.Restore

/-! What a loaded snapshot reaches. Peripherals are counted, so that each of them takes a
state over. Cards are not: a snapshot has only to name slots that are occupied. The card of
a slot then takes over the state that is listed last for it, and a card whose slot is not
named stays as it was: `loads_of_restore`. All cards are in the state of the snapshot if it
names all occupied slots, which nothing sees to: `stale_bench`. -/

namespace Microcomputer

/-- A device takes a state over in the same way whatever it took over before. -/
theorem Device.restore_restore {d e : Device} {bs : Bytes} (h : d.restore bs = .ok e)
    (bs' : Bytes) : e.restore bs' = d.restore bs' := by
  cases d with
  | exerciser x =>
    simp only [restore, Exerciser.restore] at h
    split at h
    · obtain rfl := Except.ok.inj h
      rfl
    · cases h
  | inert i =>
    obtain rfl := Except.ok.inj h
    rfl

/-- What becomes of a card with the state for it, if there is one. -/
def Card.Takes (c : Card) (state? : Option CardState) (c' : Card) : Prop :=
  match state? with
  | some s => c'.block = s.block ∧ c.device.restore s.device = .ok c'.device
  | none => c' = c

/-- The state that is listed last for a slot. -/
def lastState? (states : List CardState) (slot : Nat) : Option CardState :=
  (states.filter fun s => s.slot.toNat == slot).getLast?

section LastState

variable {s : CardState} {states : List CardState} {slot : Nat}

theorem lastState?_cons_of_ne (h : s.slot.toNat ≠ slot) :
    lastState? (s :: states) slot = lastState? states slot := by
  rw [lastState?, List.filter_cons_of_neg (by simpa using h), lastState?]

theorem lastState?_cons_self :
    lastState? (s :: states) s.slot.toNat = some ((lastState? states s.slot.toNat).getD s) := by
  rw [lastState?, List.filter_cons_of_pos (by simp), List.getLast?_cons, lastState?]

theorem mem_of_lastState? (h : lastState? states slot = some s) :
    s ∈ states ∧ s.slot.toNat = slot := by
  have hmem := List.mem_of_getLast? h
  simpa using List.mem_filter.mp hmem

theorem lastState?_isSome_iff :
    (lastState? states slot).isSome ↔ slot ∈ states.map fun s => s.slot.toNat := by
  constructor
  · intro h
    obtain ⟨s, hs⟩ := Option.isSome_iff_exists.mp h
    obtain ⟨hmem, rfl⟩ := mem_of_lastState? hs
    exact List.mem_map_of_mem hmem
  · intro h
    obtain ⟨s, hs, rfl⟩ := List.mem_map.mp h
    rw [lastState?, Option.isSome_iff_ne_none, Ne, List.getLast?_eq_none_iff]
    exact List.ne_nil_of_mem (List.mem_filter.mpr ⟨hs, beq_self_eq_true _⟩)

end LastState

namespace MemoryMap

variable {m n : MemoryMap}

/-! ### Peripherals -/

theorem peripheral?_of_restorePeripherals_of_notMem (ids : List RegionId) (states : List Bytes)
    (hm : m.Valid) {id : RegionId} (hid : id ∉ ids) :
    (restorePeripherals ids states m).1.peripheral? id = m.peripheral? id := by
  induction ids generalizing m states with
  | nil => rfl
  | cons i ids ih =>
    obtain ⟨hi, hids⟩ := List.ne_and_not_mem_of_not_mem_cons hid
    cases states with
    | nil => rfl
    | cons bs rest =>
      simp only [restorePeripherals]
      split
      · exact ih rest hm hids
      · next q hq =>
        split
        · next q' hq' =>
          have hkind := Peripheral.kind_of_restore hq'
          rw [ih rest (hm.of_layout_eq (hm.layout_setPeripheral hq hkind)) hids,
            hm.peripheral?_setPeripheral hq hkind, if_neg hi]
        · rfl

/-- Each peripheral is given the state at its place in the order. -/
theorem peripheral?_of_restorePeripherals {ids : List RegionId} {states : List Bytes}
    (hm : m.Valid) (hids : ids.Nodup) (h : restorePeripherals ids states m = (n, none))
    {id : RegionId} {bs : Bytes} (hmem : (id, bs) ∈ ids.zip states) {p : Peripheral}
    (hp : m.peripheral? id = some p) :
    ∃ p', n.peripheral? id = some p' ∧ p.restore bs = .ok p' := by
  induction ids generalizing m states with
  | nil => simp at hmem
  | cons i ids ih =>
    obtain ⟨hi, hids⟩ := List.nodup_cons.mp hids
    cases states with
    | nil => simp at hmem
    | cons b rest =>
      rw [List.zip_cons_cons, List.mem_cons] at hmem
      simp only [restorePeripherals] at h
      split at h
      · next hnone =>
        rcases hmem with hhead | htail
        · obtain ⟨rfl, rfl⟩ := Prod.mk.inj hhead
          rw [hp] at hnone
          cases hnone
        · exact ih hm hids h htail hp
      · next q hq =>
        split at h
        · next q' hq' =>
          have hkind := Peripheral.kind_of_restore hq'
          have hset := hm.peripheral?_setPeripheral hq hkind
          have hm' := hm.of_layout_eq (hm.layout_setPeripheral hq hkind)
          rcases hmem with hhead | htail
          · obtain ⟨rfl, rfl⟩ := Prod.mk.inj hhead
            rw [hp, Option.some.injEq] at hq
            obtain rfl := hq
            have hstays := peripheral?_of_restorePeripherals_of_notMem ids rest hm' hi
            rw [h, hset, if_pos rfl] at hstays
            exact ⟨q', hstays, hq'⟩
          · have hne : id ≠ i := fun heq => hi (heq ▸ (List.of_mem_zip htail).1)
            exact ih hm' hids h htail (by rw [hset, if_neg hne, hp])
        · cases h

/-! ### Cards -/

/-- A card takes over the state that is listed last for its slot. -/
theorem card?_of_restoreCards {states : List CardState} (hm : m.Valid)
    (h : restoreCards states m = (n, none)) {slot : Nat} {c : Card} (hc : m.card? slot = some c) :
    ∃ c', n.card? slot = some c' ∧ c.Takes (lastState? states slot) c' := by
  induction states generalizing m c with
  | nil =>
    obtain rfl := congrArg Prod.fst h
    exact ⟨c, hc, rfl⟩
  | cons s rest ih =>
    simp only [restoreCards] at h
    split at h
    · next hnone =>
      have hne : s.slot.toNat ≠ slot := by
        rintro rfl
        rw [hc] at hnone
        cases hnone
      rw [lastState?_cons_of_ne hne]
      exact ih hm h hc
    · next d hd =>
      split at h
      · next e he =>
        have hset := card?_setCard (c := ⟨s.block, e⟩) hd slot
        have hm' := hm.of_layout_eq
          (hm.layout_setCard (c := ⟨s.block, e⟩) hd (Device.of_restore he).1)
        by_cases hslot : slot = s.slot.toNat
        · subst hslot
          rw [if_pos rfl] at hset
          rw [hc, Option.some.injEq] at hd
          subst hd
          obtain ⟨c', hc', htakes⟩ := ih hm' h hset
          refine ⟨c', hc', ?_⟩
          rw [lastState?_cons_self]
          cases hlast : lastState? rest s.slot.toNat with
          | none =>
            rw [hlast] at htakes
            obtain rfl : c' = _ := htakes
            exact ⟨rfl, he⟩
          | some s' =>
            rw [hlast] at htakes
            exact ⟨htakes.1, by rw [← Device.restore_restore he]; exact htakes.2⟩
        · rw [if_neg hslot, hc] at hset
          rw [lastState?_cons_of_ne (Ne.symm hslot)]
          exact ih hm' h hset
      · cases h

theorem mem_occupiedSlots {slot : Nat} : slot ∈ m.occupiedSlots ↔ (m.card? slot).isSome := by
  rw [occupiedSlots, List.mem_filter, List.mem_range, and_iff_right_iff_imp]
  intro h
  rw [card?_eq] at h
  split at h
  · assumption
  · cases h

end MemoryMap

namespace Machine

variable {m m' : Machine} {s : Snapshot}

/-- What a snapshot that `m` accepted was like, and what it made of `m`. -/
structure Loads (s : Snapshot) (m m' : Machine) : Prop where
  ram_length : s.ram.length = m.map.ram.size
  peripherals_length : s.peripherals.length = m.map.order.length
  named_subset : (s.cards.map fun c => c.slot.toNat) ⊆ m.map.occupiedSlots
  processor_eq : m'.cpu.toState = s.processor
  ram_eq : m'.map.ram.bytes.toList = s.ram
  layout_eq : m'.map.layout = m.map.layout
  peripheral : ∀ q ∈ m.map.order.zip s.peripherals, ∃ p p', m.map.peripheral? q.1 = some p ∧
    m'.map.peripheral? q.1 = some p' ∧ p.restore q.2 = .ok p'
  card : ∀ slot c, m.map.card? slot = some c →
    ∃ c', m'.map.card? slot = some c' ∧ c.Takes (lastState? s.cards slot) c'

theorem of_mismatch?_eq_none (h : m.mismatch? s = none) :
    s.ram.length = m.map.ram.size ∧ s.peripherals.length = m.map.order.length ∧
      (s.cards.map fun c => c.slot.toNat) ⊆ m.map.occupiedSlots := by
  rw [mismatch?] at h
  split at h
  · cases h
  · next hram =>
    split at h
    · cases h
    · next hperipherals =>
      refine ⟨by simpa using hram, by simpa using hperipherals, fun slot hslot => ?_⟩
      obtain ⟨c, hc, rfl⟩ := List.mem_map.mp hslot
      rw [Option.map_eq_none_iff, List.find?_eq_none] at h
      simpa [MemoryMap.mem_occupiedSlots, ← Option.isSome_iff_ne_none] using h c hc

/-- A snapshot that is accepted fits the size of RAM and the number of peripherals and names
occupied slots only. Peripherals and named cards are in the state of the snapshot then, and
other cards as they were. So if the snapshot names every occupied slot, all cards are in its
state. -/
theorem loads_of_restore (hm : m.Reachable) (h : m.restore s = (m', none)) :
    Loads s m m' ∧
      ((m.map.occupiedSlots ⊆ s.cards.map fun c => c.slot.toNat) →
        ∀ slot c, m.map.card? slot = some c → ∃ c', m'.map.card? slot = some c' ∧
          ∃ state ∈ s.cards, state.slot.toNat = slot ∧ c.Takes (some state) c') := by
  have hv := hm.valid
  simp only [restore] at h
  split at h
  · cases h
  next hmatch =>
  split at h
  · cases h
  next map hmap =>
  obtain rfl := congrArg Prod.fst h
  obtain ⟨hram, hperipherals, hnamed⟩ := of_mismatch?_eq_none hmatch
  -- nothing was refused, so that nothing was taken back either
  have heach : m.map.restoreEach s.peripherals s.cards = (map, none) := by
    rw [MemoryMap.restore] at hmap
    split at hmap
    · next heq => rw [heq, ← hmap]
    · cases hmap
  have hkeeps := MemoryMap.keeps_restoreEach hv s.peripherals s.cards
  rw [heach] at hkeeps
  rw [MemoryMap.restoreEach] at heach
  split at heach
  case h_2 => cases heach
  next first hfirst =>
  have hkeepsFirst := MemoryMap.keeps_restorePeripherals m.map.order s.peripherals hv
  have hcardsFirst := MemoryMap.card?_restorePeripherals m.map.order s.peripherals m.map
  rw [hfirst] at hkeepsFirst hcardsFirst
  have hvFirst := hv.of_layout_eq hkeepsFirst.layout_eq
  have hperipheralsLast := MemoryMap.peripheral?_restoreCards s.cards hvFirst
  rw [heach] at hperipheralsLast
  have hloads : Loads s m ⟨⟨s.processor, { map with ram := map.ram.load 0 s.ram }⟩,
      m.configuration⟩ := {
    ram_length := hram
    peripherals_length := hperipherals
    named_subset := hnamed
    processor_eq := rfl
    ram_eq := Ram.bytes_load (by rw [hram, hkeeps.ram_eq])
    layout_eq := (map.layout_load 0 s.ram).trans hkeeps.layout_eq
    peripheral := by
      rintro ⟨id, bs⟩ hq
      have hid := hv.mem_order_iff.mp (List.of_mem_zip hq).1
      obtain ⟨p, hp⟩ := Option.isSome_iff_exists.mp hid
      obtain ⟨p', hp', hrestore⟩ := MemoryMap.peripheral?_of_restorePeripherals hv
        (hv.ordered.imp Nat.ne_of_lt) hfirst hq hp
      exact ⟨p, p', hp, (hperipheralsLast id).trans hp', hrestore⟩
    card := fun slot c hc =>
      MemoryMap.card?_of_restoreCards hvFirst heach ((hcardsFirst slot).trans hc) }
  refine ⟨hloads, fun hnamed slot c hc => ?_⟩
  obtain ⟨c', hc', htakes⟩ := hloads.card slot c hc
  have hslot : slot ∈ m.map.occupiedSlots := MemoryMap.mem_occupiedSlots.mpr (by rw [hc]; rfl)
  obtain ⟨state, hlast⟩ :=
    Option.isSome_iff_exists.mp (lastState?_isSome_iff.mpr (hnamed hslot))
  obtain ⟨hstate, hname⟩ := mem_of_lastState? hlast
  rw [hlast] at htakes
  exact ⟨c', hc', state, hstate, hname, htakes⟩

/-- A snapshot with other states throughout and these states of cards. -/
def overwriting (cards : List CardState) : Snapshot :=
  ⟨.initial, [9], [.replicate 19 1, [2, 2], .replicate 24 3, .replicate 64 4], cards⟩

theorem loads_of_restore_bench :
    let s := overwriting [⟨3, ⟨5, .replicate 5 6⟩, .replicate 11 7⟩]
    ∃ m', bench.restore s = (m', none) ∧ Loads s bench m' ∧
      ∀ slot c, bench.map.card? slot = some c → ∃ c', m'.map.card? slot = some c' ∧
        ∃ state ∈ s.cards, state.slot.toNat = slot ∧ c.Takes (some state) c' := by
  intro s
  have hnone : (bench.restore s).2 = none := by decide
  have hnamed : bench.map.occupiedSlots ⊆ s.cards.map fun c => c.slot.toNat := by decide
  obtain ⟨hloads, hcards⟩ := loads_of_restore reachable_bench (Prod.ext rfl hnone)
  exact ⟨_, Prod.ext rfl hnone, hloads, hcards hnamed⟩

/-- A snapshot made before a device was plugged in is accepted and leaves the device as it is,
its register A at 7. One that names a slot twice is accepted as well. -/
theorem stale_bench :
    let used := run [.map (.write 0x11030A 7), .map (.write 0x11030B 0)] bench
    let before := (run [.detach 3] bench).save
    let twice := overwriting
      [⟨3, .zero, .replicate 11 7⟩, ⟨3, ⟨5, .replicate 5 6⟩, .replicate 11 8⟩]
    used.Reachable ∧ used.map.occupiedSlots = [3] ∧
      (used.restore before).2 = none ∧ before.cards = [] ∧
      (used.restore before).1.map.card? 3 = used.map.card? 3 ∧
      (used.map.card? 3).map (fun c => c.device.register 0) = some 7 ∧
      (used.restore twice).2 = none ∧
      (used.restore twice).1.map.card? 3 ≠ used.map.card? 3 := by
  exact ⟨reachable_bench.run _, by decide, by decide, by decide, by decide, by decide, by decide,
    by decide⟩

end Machine

end Microcomputer
