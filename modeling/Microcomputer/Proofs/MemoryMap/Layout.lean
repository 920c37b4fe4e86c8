import Microcomputer.MemoryMap.Request
import Microcomputer.MemoryMap.Saved
import Microcomputer.Proofs.Codec.Peripherals
import Microcomputer.Proofs.Memory.Ram

/-! The layout of a memory map: all of it but the bytes of RAM and the states of what is
mapped. Accesses, time, interrupts and restored states leave the layout alone. In a map of
valid layout names and slots are found exactly where they stand, and a map is determined
by its layout and by what is found under every name and in every slot. -/

namespace Microcomputer

theorem Device.Call.kind_run (c : Call) (d : Device) : (c.run d).kind = d.kind := by
  cases c with
  | reset => exact d.kind_reset
  | command c => exact d.kind_command c
  | setRegister i x => exact d.kind_setRegister i x
  | tick n => exact d.kind_tick n
  | acknowledge => exact d.kind_acknowledge
  | restore bs =>
    cases h : d.restore bs with
    | error e => simp [run, h, Except.toOption]
    | ok e =>
      simp only [run, h, Except.toOption, Option.getD_some]
      exact (Device.of_restore h).1

@[simp] theorem Card.kind_write (c : Card) (offset : Nat) (b : Byte) :
    (c.write offset b).device.kind = c.device.kind := by
  simp only [write]
  cases (c.block.write offset b).2 with
  | none => rfl
  | some call => exact call.kind_run c.device

/-- What a region leads to, whatever its state. -/
inductive Region.Kind where
  | peripheral (k : Peripheral.Kind)
  | card (k : Device.Kind)
deriving DecidableEq

namespace Region

def Kind.isCard : Kind → Bool
  | .peripheral _ => false
  | .card _ => true

def Content.kind : Content → Kind
  | .peripheral p => .peripheral p.kind
  | .card c => .card c.device.kind

@[simp] theorem Content.kind_read (c : Content) (offset : Nat) :
    (c.read offset).2.kind = c.kind := by
  cases c with
  | peripheral p => simp [read, kind]
  | card c => rfl

@[simp] theorem Content.kind_write (c : Content) (offset : Nat) (b : Byte) :
    (c.write offset b).kind = c.kind := by
  cases c <;> simp [write, kind]

@[simp] theorem Content.kind_tick (c : Content) (n : Nat) (elapsed : Binary64) :
    (c.tick n elapsed).kind = c.kind := by
  cases c with
  | peripheral p => simp [tick, kind]
  | card c =>
    simp only [tick, kind, Card.tick]
    split <;> simp

@[simp] theorem Content.kind_reset (c : Content) : c.reset.kind = c.kind := by
  cases c <;> simp [reset, kind, Card.reset, Card.new]

theorem Content.cases_of_kind_eq {c d : Content} (h : c.kind = d.kind) :
    (∃ p q, c = .peripheral p ∧ d = .peripheral q) ∨ ∃ j k, c = .card j ∧ d = .card k := by
  cases c with
  | peripheral p =>
    cases d with
    | peripheral q => exact .inl ⟨p, q, rfl, rfl⟩
    | card k => cases h
  | card j =>
    cases d with
    | peripheral q => cases h
    | card k => exact .inr ⟨j, k, rfl, rfl⟩

/-- A region without the state of what it leads to. -/
structure Place where
  id : RegionId
  span : Interval
  kind : Kind
deriving DecidableEq

def place (r : Region) : Place := ⟨r.id, r.span, r.content.kind⟩

end Region

structure Layout where
  ramSize : Nat
  rom : Rom
  places : List Region.Place
  order : List RegionId
  nextId : RegionId
deriving DecidableEq

def MemoryMap.layout (m : MemoryMap) : Layout :=
  ⟨m.ram.size, m.rom, m.regions.map Region.place, m.order, m.nextId⟩

/-- Regions are disjoint from each other, from RAM and from the ROM window, and are named
apart; the order lists the peripherals as they were named; a card fills the block of a
slot. -/
structure Layout.Valid (l : Layout) : Prop where
  ascending : l.places.Pairwise fun p q => p.span.stop < q.span.start
  outside_ram : ∀ p ∈ l.places, l.ramSize ≤ p.span.start
  outside_rom : ∀ p ∈ l.places,
    p.span.stop < Rom.base ∨ Rom.base + Rom.windowSize ≤ p.span.start
  named_apart : (l.places.map Region.Place.id).Nodup
  id_lt : ∀ p ∈ l.places, p.id < l.nextId
  ordered : l.order.Pairwise (· < ·)
  mem_order : ∀ id, id ∈ l.order ↔ ∃ p ∈ l.places, p.id = id ∧ p.kind.isCard = false
  slotted : ∀ p ∈ l.places, p.kind.isCard →
    ∃ slot < MemoryMap.slotCount, p.span.start = MemoryMap.slotBase slot ∧
      p.span.stop = MemoryMap.slotBase slot + 19

/-! ### Lists whose members have different keys -/

section Keys

variable {α κ : Type} [DecidableEq κ] {key : α → κ} {xs : List α}

theorem filter_key_eq_toList (h : (xs.map key).Nodup) (k : κ) :
    xs.filter (fun x => key x == k) = (xs.find? fun x => key x == k).toList := by
  induction xs with
  | nil => rfl
  | cons x xs ih =>
    obtain ⟨hx, hxs⟩ := List.nodup_cons.mp h
    by_cases hk : key x = k
    · have hnone : xs.filter (fun y => key y == k) = [] := by
        rw [List.filter_eq_nil_iff]
        intro y hy he
        exact hx (List.mem_map.mpr ⟨y, hy, (eq_of_beq he).trans hk.symm⟩)
      simp [hk, hnone]
    · simpa [hk] using ih hxs

theorem find?_key_eq_some_iff (h : (xs.map key).Nodup) {k : κ} {x : α} :
    xs.find? (fun x => key x == k) = some x ↔ x ∈ xs ∧ key x = k := by
  have hm : x ∈ xs.filter (fun x => key x == k) ↔ x ∈ xs ∧ key x = k := by
    simp [List.mem_filter]
  rw [← hm, filter_key_eq_toList h, Option.mem_toList]

end Keys

/-- A place without the name of a card, which nothing refers to. -/
def Region.Place.outline (p : Place) : Place := if p.kind.isCard then { p with id := 0 } else p

theorem Region.Place.span_outline (p : Place) : p.outline.span = p.span := by
  unfold outline
  split <;> rfl

theorem Region.Place.kind_outline (p : Place) : p.outline.kind = p.kind := by
  unfold outline
  split <;> rfl

/-- What two maps have in common if one can take the states of the other over. -/
def Layout.outline (l : Layout) : Layout :=
  { l with places := l.places.map Region.Place.outline, nextId := 0 }

namespace MemoryMap

def Valid (m : MemoryMap) : Prop := m.layout.Valid

variable {m n : MemoryMap}

theorem Valid.of_layout_eq (hm : m.Valid) (h : n.layout = m.layout) : n.Valid := by
  rw [Valid, h]
  exact hm

theorem exists_region_of_layout_eq (h : n.layout = m.layout) {r : Region} (hr : r ∈ n.regions) :
    ∃ s ∈ m.regions, s.place = r.place := by
  have hplace : r.place ∈ m.layout.places := h ▸ List.mem_map_of_mem hr
  exact List.mem_map.mp hplace

theorem Valid.pairwise (hm : m.Valid) :
    m.regions.Pairwise fun r s => r.span.stop < s.span.start :=
  List.pairwise_map.mp hm.ascending

theorem Valid.ids_nodup (hm : m.Valid) : (m.regions.map Region.id).Nodup := by
  have h := hm.named_apart
  rwa [layout, List.map_map] at h

theorem Valid.starts_nodup (hm : m.Valid) : (m.regions.map fun r => r.span.start).Nodup := by
  refine List.pairwise_map.mpr (hm.pairwise.imp fun {r s} h => ?_)
  have := r.span.start_le_stop
  omega

theorem isCard_eq_false_iff (c : Region.Content) :
    c.kind.isCard = false ↔ c.peripheral?.isSome := by
  cases c <;> simp [Region.Content.kind, Region.Kind.isCard, Region.Content.peripheral?]

theorem isCard_iff (c : Region.Content) : c.kind.isCard = true ↔ c.card?.isSome := by
  cases c <;> simp [Region.Content.kind, Region.Kind.isCard, Region.Content.card?]

/-! ### Looking up -/

/-- The region of a name. -/
def named? (m : MemoryMap) (id : RegionId) : Option Region := m.regions.find? fun r => r.id == id

/-- The region that starts at an address. -/
def startingAt? (m : MemoryMap) (a : Nat) : Option Region :=
  m.regions.find? fun r => r.span.start == a

theorem Valid.named?_eq_some_iff (hm : m.Valid) {id : RegionId} {r : Region} :
    m.named? id = some r ↔ r ∈ m.regions ∧ r.id = id :=
  find?_key_eq_some_iff hm.ids_nodup

theorem Valid.startingAt?_eq_some_iff (hm : m.Valid) {a : Nat} {r : Region} :
    m.startingAt? a = some r ↔ r ∈ m.regions ∧ r.span.start = a :=
  find?_key_eq_some_iff hm.starts_nodup

theorem Valid.eq_of_id_eq (hm : m.Valid) {r s : Region} (hr : r ∈ m.regions) (hs : s ∈ m.regions)
    (h : r.id = s.id) : r = s := by
  have hr' := hm.named?_eq_some_iff.mpr ⟨hr, h⟩
  rw [hm.named?_eq_some_iff.mpr ⟨hs, rfl⟩] at hr'
  exact (Option.some.inj hr').symm

theorem Valid.eq_of_start_eq (hm : m.Valid) {r s : Region} (hr : r ∈ m.regions)
    (hs : s ∈ m.regions) (h : r.span.start = s.span.start) : r = s := by
  have hr' := hm.startingAt?_eq_some_iff.mpr ⟨hr, h⟩
  rw [hm.startingAt?_eq_some_iff.mpr ⟨hs, rfl⟩] at hr'
  exact (Option.some.inj hr').symm

/-- A name leads to one region only, so the search behind it has nothing to choose. -/
theorem Valid.peripheral?_eq (hm : m.Valid) (id : RegionId) :
    m.peripheral? id = (m.named? id).bind fun r => r.content.peripheral? := by
  rw [peripheral?, filter_key_eq_toList hm.ids_nodup]
  change _ = (m.regions.find? fun r => r.id == id).bind _
  cases m.regions.find? fun r => r.id == id with
  | none => rfl
  | some r =>
    rw [Option.toList_some, List.findSome?_cons, Option.bind_some]
    cases r.content.peripheral? <;> rfl

theorem Valid.peripheral?_eq_some_iff (hm : m.Valid) {id : RegionId} {p : Peripheral} :
    m.peripheral? id = some p ↔ ∃ r ∈ m.regions, r.id = id ∧ r.content = .peripheral p := by
  have hc (r : Region) : r.content.peripheral? = some p ↔ r.content = .peripheral p := by
    cases r.content <;> simp [Region.Content.peripheral?]
  simp only [hm.peripheral?_eq, Option.bind_eq_some_iff, hm.named?_eq_some_iff, hc, and_assoc]

theorem card?_eq (m : MemoryMap) (slot : Nat) :
    m.card? slot =
      if slot < slotCount then (m.startingAt? (slotBase slot)).bind fun r => r.content.card?
      else none := rfl

theorem Valid.card?_eq_some_iff (hm : m.Valid) {slot : Nat} {c : Card} :
    m.card? slot = some c ↔
      slot < slotCount ∧ ∃ r ∈ m.regions, r.span.start = slotBase slot ∧ r.content = .card c := by
  have hc (r : Region) : r.content.card? = some c ↔ r.content = .card c := by
    cases r.content <;> simp [Region.Content.card?]
  rw [card?_eq]
  split
  · next h =>
    simp only [h, true_and, Option.bind_eq_some_iff, hm.startingAt?_eq_some_iff, hc, and_assoc]
  · next h => simp [h]

theorem Valid.mem_order_iff_region (hm : m.Valid) {id : RegionId} :
    id ∈ m.order ↔ ∃ r ∈ m.regions, r.id = id ∧ r.content.kind.isCard = false := by
  constructor
  · intro h
    obtain ⟨q, hq, hid, hkind⟩ := (hm.mem_order id).mp h
    obtain ⟨r, hr, rfl⟩ := List.mem_map.mp hq
    exact ⟨r, hr, hid, hkind⟩
  · rintro ⟨r, hr, hid, hkind⟩
    exact (hm.mem_order id).mpr ⟨r.place, List.mem_map_of_mem hr, hid, hkind⟩

/-- The order lists the names under which there is a peripheral. -/
theorem Valid.mem_order_iff (hm : m.Valid) {id : RegionId} :
    id ∈ m.order ↔ (m.peripheral? id).isSome := by
  rw [hm.mem_order_iff_region, Option.isSome_iff_exists]
  constructor
  · rintro ⟨r, hr, hid, hkind⟩
    cases hc : r.content with
    | peripheral p => exact ⟨p, hm.peripheral?_eq_some_iff.mpr ⟨r, hr, hid, hc⟩⟩
    | card c =>
      rw [hc] at hkind
      cases hkind
  · rintro ⟨p, hp⟩
    obtain ⟨r, hr, hid, hc⟩ := hm.peripheral?_eq_some_iff.mp hp
    refine ⟨r, hr, hid, ?_⟩
    rw [hc]
    rfl

/-! ### Changing what regions lead to -/

theorem named?_mapContents (m : MemoryMap) (f : Region → Region.Content) (id : RegionId) :
    (m.mapContents f).named? id = (m.named? id).map fun r => { r with content := f r } := by
  simp only [named?, mapContents, List.find?_map]
  rfl

theorem startingAt?_mapContents (m : MemoryMap) (f : Region → Region.Content) (a : Nat) :
    (m.mapContents f).startingAt? a =
      (m.startingAt? a).map fun r => { r with content := f r } := by
  simp only [startingAt?, mapContents, List.find?_map]
  rfl

theorem layout_mapContents {f : Region → Region.Content}
    (h : ∀ r ∈ m.regions, (f r).kind = r.content.kind) : (m.mapContents f).layout = m.layout := by
  have hp : (m.mapContents f).regions.map Region.place = m.regions.map Region.place := by
    simp only [mapContents, List.map_map]
    refine List.map_congr_left fun r hr => ?_
    simp only [Function.comp, Region.place, h r hr]
  simp only [layout, hp]
  rfl

theorem Valid.peripheral?_mapContents (hm : m.Valid) {f : Region → Region.Content}
    (h : ∀ r ∈ m.regions, (f r).kind = r.content.kind) (id : RegionId) :
    (m.mapContents f).peripheral? id = (m.named? id).bind fun r => (f r).peripheral? := by
  rw [(hm.of_layout_eq (layout_mapContents h)).peripheral?_eq, named?_mapContents,
    Option.bind_map]
  rfl

theorem card?_mapContents (m : MemoryMap) (f : Region → Region.Content) (slot : Nat) :
    (m.mapContents f).card? slot =
      if slot < slotCount then (m.startingAt? (slotBase slot)).bind fun r => (f r).card?
      else none := by
  rw [card?_eq, startingAt?_mapContents, Option.bind_map]
  rfl

theorem Valid.layout_setContent (hm : m.Valid) {r : Region} (hr : r ∈ m.regions)
    {c : Region.Content} (h : c.kind = r.content.kind) :
    (m.setContent r.id c).layout = m.layout := by
  refine layout_mapContents fun s hs => ?_
  split
  · next hid => rw [h, hm.eq_of_id_eq hs hr hid]
  · rfl

section SetPeripheral

variable {id : RegionId} {p q : Peripheral}

theorem Valid.kind_setPeripheral (hm : m.Valid) (hq : m.peripheral? id = some q)
    (hk : p.kind = q.kind) (r : Region) (hr : r ∈ m.regions) :
    Region.Content.kind
      (if r.id = id ∧ r.content.peripheral?.isSome then .peripheral p else r.content) =
        r.content.kind := by
  split
  · next h =>
    obtain ⟨s, hs, hid, hc⟩ := hm.peripheral?_eq_some_iff.mp hq
    obtain rfl := hm.eq_of_id_eq hr hs (h.1.trans hid.symm)
    rw [hc, Region.Content.kind, hk, Region.Content.kind]
  · rfl

theorem Valid.layout_setPeripheral (hm : m.Valid) (hq : m.peripheral? id = some q)
    (hk : p.kind = q.kind) : (m.setPeripheral id p).layout = m.layout :=
  layout_mapContents (hm.kind_setPeripheral hq hk)

theorem Valid.peripheral?_setPeripheral (hm : m.Valid) (hq : m.peripheral? id = some q)
    (hk : p.kind = q.kind) (i : RegionId) :
    (m.setPeripheral id p).peripheral? i = if i = id then some p else m.peripheral? i := by
  obtain ⟨s, hs, hid, hc⟩ := hm.peripheral?_eq_some_iff.mp hq
  rw [setPeripheral, hm.peripheral?_mapContents (hm.kind_setPeripheral hq hk)]
  split
  · next h =>
    rw [hm.named?_eq_some_iff.mpr ⟨hs, hid.trans h.symm⟩, Option.bind_some, hc,
      if_pos ⟨hid, rfl⟩]
    rfl
  · next h =>
    rw [hm.peripheral?_eq]
    refine Option.bind_congr fun r hr => ?_
    have hi := (hm.named?_eq_some_iff.mp hr).2
    rw [if_neg fun hc => h (hi.symm.trans hc.1)]

theorem card?_setPeripheral (m : MemoryMap) (id : RegionId) (p : Peripheral) (slot : Nat) :
    (m.setPeripheral id p).card? slot = m.card? slot := by
  rw [setPeripheral, card?_mapContents, card?_eq]
  congr 2
  funext r
  cases r.content with
  | peripheral q =>
    rw [apply_ite Region.Content.card?]
    exact ite_self none
  | card c => simp [Region.Content.peripheral?]

end SetPeripheral

section SetCard

variable {slot : Nat} {c d : Card}

theorem slotBase_inj {slot s : Nat} (h : slot < slotCount) (hs : s < slotCount)
    (he : slotBase slot = slotBase s) : slot = s := by
  simp only [slotBase, Nat.mod_eq_of_lt h, Nat.mod_eq_of_lt hs] at he
  omega

theorem Valid.kind_setCard (hm : m.Valid) (hd : m.card? slot = some d)
    (hk : c.device.kind = d.device.kind) (r : Region) (hr : r ∈ m.regions) :
    Region.Content.kind
      (if r.span.start = slotBase slot ∧ r.content.card?.isSome then .card c else r.content) =
        r.content.kind := by
  split
  · next h =>
    obtain ⟨-, s, hs, hstart, hc⟩ := hm.card?_eq_some_iff.mp hd
    obtain rfl := hm.eq_of_start_eq hr hs (h.1.trans hstart.symm)
    rw [hc, Region.Content.kind, hk, Region.Content.kind]
  · rfl

theorem Valid.layout_setCard (hm : m.Valid) (hd : m.card? slot = some d)
    (hk : c.device.kind = d.device.kind) : (m.setCard slot c).layout = m.layout := by
  rw [setCard]
  split
  · exact layout_mapContents (hm.kind_setCard hd hk)
  · rfl

theorem card?_setCard (hd : m.card? slot = some d) (s : Nat) :
    (m.setCard slot c).card? s = if s = slot then some c else m.card? s := by
  rw [card?_eq] at hd
  split at hd
  · next hslot =>
    rw [setCard, if_pos hslot, card?_mapContents]
    split
    · next hs =>
      split
      · next h =>
        subst h
        obtain ⟨r, hr, hc⟩ := Option.bind_eq_some_iff.mp hd
        have hstart : r.span.start = slotBase s := by simpa using List.find?_some hr
        rw [hr, Option.bind_some, hc, if_pos ⟨hstart, rfl⟩]
        rfl
      · next h =>
        rw [card?_eq, if_pos hs]
        refine Option.bind_congr fun r hr => ?_
        have hstart : r.span.start = slotBase s := by simpa using List.find?_some hr
        rw [if_neg fun hc => h (slotBase_inj hs hslot (hstart.symm.trans hc.1))]
    · next hs =>
      rw [card?_eq, if_neg hs, if_neg fun h : s = slot => hs (h ▸ hslot)]
  · contradiction

theorem Valid.peripheral?_setCard (hm : m.Valid) (hd : m.card? slot = some d)
    (hk : c.device.kind = d.device.kind) (id : RegionId) :
    (m.setCard slot c).peripheral? id = m.peripheral? id := by
  have hl := hm.layout_setCard hd hk
  rw [(hm.of_layout_eq hl).peripheral?_eq, hm.peripheral?_eq, setCard]
  split
  · rw [named?_mapContents, Option.bind_map]
    refine Option.bind_congr fun r hr => ?_
    simp only [Function.comp]
    cases r.content with
    | peripheral q => simp [Region.Content.card?]
    | card c' =>
      rw [apply_ite Region.Content.peripheral?]
      exact ite_self none
  · rfl

end SetCard

/-! ### Accesses, time and interrupts -/

theorem mem_of_regionAt? {a : Nat} {r : Region} (h : m.regionAt? a = some r) :
    r ∈ m.regions ∧ r.span.contains a := by
  obtain ⟨hb, hc⟩ := Option.filter_eq_some_iff.mp h
  exact ⟨(List.takeWhile_sublist _).mem (List.mem_of_getLast? hb), hc⟩

theorem Valid.layout_readByte (hm : m.Valid) (a : Word) : (m.readByte a).2.layout = m.layout := by
  simp only [readByte]
  split
  · rfl
  · split
    · rfl
    · split
      · next r hr =>
        exact hm.layout_setContent (mem_of_regionAt? hr).1 (r.content.kind_read _)
      · rfl

theorem Valid.layout_writeByte (hm : m.Valid) (a : Word) (b : Byte) :
    (m.writeByte a b).layout = m.layout := by
  simp only [writeByte]
  split
  · simp [layout]
  · split
    · rfl
    · split
      · next r hr =>
        exact hm.layout_setContent (mem_of_regionAt? hr).1 (r.content.kind_write _ _)
      · rfl

theorem layout_tick (m : MemoryMap) (k : Nat) (elapsed : Binary64) :
    (m.tick k elapsed).layout = m.layout :=
  layout_mapContents fun r _ => r.content.kind_tick k elapsed

theorem layout_reset (m : MemoryMap) : m.reset.layout = m.layout :=
  layout_mapContents fun r _ => r.content.kind_reset

theorem Valid.layout_acknowledge (hm : m.Valid) (source : InterruptSource) :
    (m.acknowledge source).layout = m.layout := by
  cases source with
  | peripheral id =>
    simp only [acknowledge]
    split
    · next p hp => exact hm.layout_setPeripheral hp p.kind_acknowledge
    · rfl
  | slot s =>
    simp only [acknowledge]
    split
    · next c hc => exact hm.layout_setCard hc c.device.kind_acknowledge
    · rfl

theorem layout_load (m : MemoryMap) (a : Nat) (bs : Bytes) :
    layout { m with ram := m.ram.load a bs } = m.layout := by
  simp [layout]

/-! ### A map is its layout and what is found in it -/

theorem map_eq_map_of_imp {α β γ : Type} {f : α → β} {g g' : α → γ} {xs ys : List α}
    (h : xs.map f = ys.map f) (hg : ∀ x ∈ xs, ∀ y ∈ ys, f x = f y → g x = g' y) :
    xs.map g = ys.map g' := by
  induction xs generalizing ys with
  | nil =>
    cases ys with
    | nil => rfl
    | cons y ys => cases h
  | cons x xs ih =>
    cases ys with
    | nil => cases h
    | cons y ys =>
      obtain ⟨hxy, hs⟩ := List.cons.inj h
      rw [List.map_cons, List.map_cons, hg x List.mem_cons_self y List.mem_cons_self hxy,
        ih hs fun a ha b hb => hg a (List.mem_cons_of_mem _ ha) b (List.mem_cons_of_mem _ hb)]

theorem Valid.peripheral?_of_mem (hm : m.Valid) {r : Region} (hr : r ∈ m.regions) {p : Peripheral}
    (hc : r.content = .peripheral p) : m.peripheral? r.id = some p :=
  hm.peripheral?_eq_some_iff.mpr ⟨r, hr, rfl, hc⟩

/-- A card is found in the slot whose block its region fills. -/
theorem Valid.exists_slot_of_mem (hm : m.Valid) {r : Region} (hr : r ∈ m.regions) {c : Card}
    (hc : r.content = .card c) : ∃ slot < slotCount, m.card? slot = some c ∧
      r.span.start = slotBase slot ∧ r.span.stop = slotBase slot + 19 := by
  obtain ⟨slot, hslot, hstart, hstop⟩ := hm.slotted r.place (List.mem_map_of_mem hr)
    (by simp only [Region.place, hc, Region.Content.kind, Region.Kind.isCard])
  exact ⟨slot, hslot, hm.card?_eq_some_iff.mpr ⟨hslot, r, hr, hstart, hc⟩, hstart, hstop⟩

theorem outline_of_peripheral {r : Region} {p : Peripheral} (h : r.content = .peripheral p) :
    r.place.outline = ⟨r.id, r.span, .peripheral p.kind⟩ := by
  rw [Region.place, h]
  rfl

theorem outline_of_card {r : Region} {c : Card} (h : r.content = .card c) :
    r.place.outline = ⟨0, r.span, .card c.device.kind⟩ := by
  rw [Region.place, h]
  rfl

theorem span_kind_of_outline_eq {r s : Region} (h : r.place.outline = s.place.outline) :
    r.span = s.span ∧ r.content.kind = s.content.kind := by
  have hspan := congrArg Region.Place.span h
  have hkind := congrArg Region.Place.kind h
  rw [Region.Place.span_outline, Region.Place.span_outline] at hspan
  rw [Region.Place.kind_outline, Region.Place.kind_outline] at hkind
  exact ⟨hspan, hkind⟩

theorem mem_outline_places {q : Region.Place} :
    q ∈ m.layout.outline.places ↔ ∃ r ∈ m.regions, r.place.outline = q := by
  simp [layout, Layout.outline]

theorem Valid.map_kind_peripheral?_eq_some_iff (hm : m.Valid) {id : RegionId}
    {k : Peripheral.Kind} :
    (m.peripheral? id).map Peripheral.kind = some k ↔
      ∃ span, ⟨id, span, .peripheral k⟩ ∈ m.layout.outline.places := by
  simp only [Option.map_eq_some_iff, hm.peripheral?_eq_some_iff, mem_outline_places]
  constructor
  · rintro ⟨p, ⟨r, hr, rfl, hc⟩, rfl⟩
    exact ⟨r.span, r, hr, outline_of_peripheral hc⟩
  · rintro ⟨span, r, hr, ho⟩
    cases hc : r.content with
    | peripheral p =>
      rw [outline_of_peripheral hc, Region.Place.mk.injEq, Region.Kind.peripheral.injEq] at ho
      exact ⟨p, ⟨r, hr, ho.1, hc⟩, ho.2.2⟩
    | card c =>
      rw [outline_of_card hc, Region.Place.mk.injEq] at ho
      cases ho.2.2

theorem Valid.map_kind_card?_eq_some_iff (hm : m.Valid) {slot : Nat} {k : Device.Kind} :
    (m.card? slot).map (fun c => c.device.kind) = some k ↔
      slot < slotCount ∧ ∃ q ∈ m.layout.outline.places,
        q.span.start = slotBase slot ∧ q.kind = .card k := by
  simp only [Option.map_eq_some_iff, hm.card?_eq_some_iff, mem_outline_places]
  constructor
  · rintro ⟨c, ⟨hslot, r, hr, hstart, hc⟩, rfl⟩
    exact ⟨hslot, _, ⟨r, hr, outline_of_card hc⟩, hstart, rfl⟩
  · rintro ⟨hslot, q, ⟨r, hr, rfl⟩, hstart, hkind⟩
    cases hc : r.content with
    | peripheral p =>
      rw [outline_of_peripheral hc] at hkind
      cases hkind
    | card c =>
      rw [outline_of_card hc] at hstart hkind
      exact ⟨c, ⟨hslot, r, hr, hstart, hc⟩, Region.Kind.card.inj hkind⟩

/-- Maps of one outline hold the same kinds of peripherals and of devices at the same
names and slots. -/
theorem Valid.map_kind_eq (hm : m.Valid) (hn : n.Valid)
    (h : n.layout.outline = m.layout.outline) :
    (∀ id, (n.peripheral? id).map Peripheral.kind = (m.peripheral? id).map Peripheral.kind) ∧
    (∀ slot, (n.card? slot).map (fun c => c.device.kind) =
      (m.card? slot).map fun c => c.device.kind) := by
  constructor
  · intro id
    refine Option.ext fun k => ?_
    rw [hn.map_kind_peripheral?_eq_some_iff, hm.map_kind_peripheral?_eq_some_iff, h]
  · intro slot
    refine Option.ext fun k => ?_
    rw [hn.map_kind_card?_eq_some_iff, hm.map_kind_card?_eq_some_iff, h]

/-- Regions of one outline hold what is found under their name or in their slot. -/
theorem Valid.content_cases (hm : m.Valid) (hn : n.Valid) {r s : Region} (hr : r ∈ n.regions)
    (hs : s ∈ m.regions) (h : r.place.outline = s.place.outline) :
    (∃ q p, r.content = .peripheral q ∧ s.content = .peripheral p ∧ r.id = s.id ∧
      n.peripheral? s.id = some q ∧ m.peripheral? s.id = some p) ∨
    ∃ d c slot, r.content = .card d ∧ s.content = .card c ∧
      n.card? slot = some d ∧ m.card? slot = some c := by
  obtain ⟨hspan, hkind⟩ := span_kind_of_outline_eq h
  rcases Region.Content.cases_of_kind_eq hkind with ⟨q, p, hq, hp⟩ | ⟨d, c, hd, hc⟩
  · rw [outline_of_peripheral hq, outline_of_peripheral hp, Region.Place.mk.injEq] at h
    have hfound := hn.peripheral?_of_mem hr hq
    rw [h.1] at hfound
    exact .inl ⟨q, p, hq, hp, h.1, hfound, hm.peripheral?_of_mem hs hp⟩
  · obtain ⟨slot, hslot, hcard, hstart, -⟩ := hm.exists_slot_of_mem hs hc
    have hfound := hn.card?_eq_some_iff.mpr ⟨hslot, r, hr, by rw [hspan, hstart], hd⟩
    exact .inr ⟨d, c, slot, hd, hc, hfound, hcard⟩

theorem Valid.eq_of_layout_eq (hm : m.Valid) (h : n.layout = m.layout) (hram : n.ram = m.ram)
    (hp : ∀ id, n.peripheral? id = m.peripheral? id) (hc : ∀ slot, n.card? slot = m.card? slot) :
    n = m := by
  have hn := hm.of_layout_eq h
  have hregions : n.regions.map id = m.regions.map id := by
    refine map_eq_map_of_imp (congrArg Layout.places h) fun r hr s hs hrs => ?_
    have hid : r.id = s.id := congrArg Region.Place.id hrs
    have hspan : r.span = s.span := congrArg Region.Place.span hrs
    have hcontent : r.content = s.content := by
      rcases hm.content_cases hn hr hs (congrArg Region.Place.outline hrs) with
        ⟨q, p, hrc, hsc, -, hq, hp'⟩ | ⟨d, c, slot, hrc, hsc, hd, hc'⟩
      · rw [hp, hp'] at hq
        rw [hrc, hsc, Option.some.inj hq]
      · rw [hc, hc'] at hd
        rw [hrc, hsc, Option.some.inj hd]
    cases r
    cases s
    cases hid
    cases hspan
    cases hcontent
    rfl
  rw [List.map_id, List.map_id] at hregions
  cases n
  cases m
  cases hram
  cases hregions
  cases congrArg Layout.rom h
  cases congrArg Layout.order h
  cases congrArg Layout.nextId h
  rfl

end MemoryMap

end Microcomputer
