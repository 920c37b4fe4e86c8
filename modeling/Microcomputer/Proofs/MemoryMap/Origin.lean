import Microcomputer.Proofs.MemoryMap.Alike
import Microcomputer.Proofs.MemoryMap.Lifetime
import Microcomputer.Proofs.MemoryMap.Registration

/-! What a reset returns to. Of a peripheral or a card it is fixed from the beginning: neither
accesses nor time nor interrupts nor resets change what a reset would make of it, traces of
devices apart. So maps that come from one beginning are equal after a reset but for RAM and
for these traces, whatever happened to them before: `SameOrigin.traceless_reset`. -/

namespace Microcomputer

/-! ### Peripherals and devices -/

namespace Peripheral

theorem reset_read (p : Peripheral) (offset : Nat) : (p.read offset).2.reset = p.reset := by
  cases p with
  | random r =>
    have hseed : (r.read offset).2.seed = r.seed := by
      simp only [RandomSource.read]
      split <;> rfl
    exact congrArg (fun seed => random (.ofSeed seed)) hseed
  | _ => rfl

theorem reset_write (p : Peripheral) (offset : Nat) (b : Byte) :
    (p.write offset b).reset = p.reset := by
  cases p with
  | random r =>
    have hseed : (r.write offset b).seed = r.seed := by
      simp only [RandomSource.write]
      split <;> rfl
    exact congrArg (fun seed => random (.ofSeed seed)) hseed
  | scratchpad s =>
    have hlength : (s.write offset b).bytes.length = s.bytes.length := List.length_set
    exact congrArg (fun size => scratchpad (.zero size s.message)) hlength
  | _ => rfl

theorem reset_tick (p : Peripheral) (n : Nat) (elapsed : Binary64) :
    (p.tick n elapsed).reset = p.reset := by
  cases p with
  | clock c =>
    have hepoch : (c.tick elapsed).epoch = c.epoch := by
      simp only [WallClock.tick]
      split <;> rfl
    exact congrArg (fun epoch => clock (.startingAt epoch)) hepoch
  | _ => rfl

theorem reset_acknowledge (p : Peripheral) : p.acknowledge.reset = p.reset := by
  cases p with
  | scratchpad s => exact (scratchpad s).reset_write 0 0
  | _ => rfl

theorem reset_reset (p : Peripheral) : p.reset.reset = p.reset := by
  cases p with
  | scratchpad s =>
    exact congrArg (fun size => scratchpad (.zero size s.message)) List.length_replicate
  | _ => rfl

end Peripheral

/-- A reset leaves nothing of a device but its kind and its trace. -/
theorem Device.visible_reset_eq {d e : Device} (h : d.kind = e.kind) :
    d.reset.visible = e.reset.visible := by
  cases d with
  | exerciser x =>
    cases e with
    | exerciser y =>
      obtain ⟨hidentity, hsynchronous, hmessage⟩ := Kind.exerciser.inj h
      simp only [reset, Exerciser.reset, visible, withTrace, hidentity, hsynchronous, hmessage]
    | inert j => cases h
  | inert i =>
    cases e with
    | exerciser y => cases h
    | inert j => exact congrArg inert (Kind.inert.inj h)

namespace Region

/-- What a reset makes of a content, but for the trace of a device. -/
def Content.origin (c : Content) : Content := c.reset.visible

def origin (r : Region) : Region := { r with content := r.content.origin }

namespace Content

theorem origin_card {c : Content} {k : Card} (h : c.kind = (card k).kind) :
    c.origin = (card k).origin := by
  rcases cases_of_kind_eq h with ⟨p, q, -, hk⟩ | ⟨j, l, rfl, hl⟩
  · cases hk
  · exact congrArg card (Card.visible_eq rfl (Device.visible_reset_eq (Kind.card.inj h)))

theorem origin_peripheral {p q : Peripheral} (h : p.reset = q.reset) :
    (peripheral p).origin = (peripheral q).origin :=
  congrArg peripheral h

@[simp] theorem kind_origin (c : Content) : c.origin.kind = c.kind := by
  rw [origin, kind_visible, kind_reset]

end Content

theorem Event.origin_run (e : Event) (c : Content) : (e.run c).origin = c.origin := by
  cases c with
  | card k => exact Content.origin_card (e.kind_run (.card k))
  | peripheral p =>
    cases e with
    | read offset => exact Content.origin_peripheral (p.reset_read offset)
    | write offset b => exact Content.origin_peripheral (p.reset_write offset b)
    | tick q => exact Content.origin_peripheral (p.reset_tick q.1 q.2)
    | acknowledge => exact Content.origin_peripheral p.reset_acknowledge
    | reset => exact Content.origin_peripheral p.reset_reset

/-- The origin stays the same for life. -/
theorem Content.origin_live (events : List Event) (c : Content) :
    (c.live events).origin = c.origin := by
  induction events generalizing c with
  | nil => rfl
  | cons e events ih => exact (ih (e.run c)).trans (e.origin_run c)

end Region

/-! ### Maps -/

namespace MemoryMap

variable {m n l : MemoryMap}

/-- Maps of one layout that a reset makes equal, but for RAM and for the traces of devices. -/
structure SameOrigin (m n : MemoryMap) : Prop where
  size_eq : m.ram.size = n.ram.size
  rom_eq : m.rom = n.rom
  order_eq : m.order = n.order
  nextId_eq : m.nextId = n.nextId
  regions_eq : m.regions.map Region.origin = n.regions.map Region.origin

namespace SameOrigin

theorem refl (m : MemoryMap) : m.SameOrigin m := ⟨rfl, rfl, rfl, rfl, rfl⟩

theorem symm (h : m.SameOrigin n) : n.SameOrigin m :=
  ⟨h.size_eq.symm, h.rom_eq.symm, h.order_eq.symm, h.nextId_eq.symm, h.regions_eq.symm⟩

theorem trans (h : l.SameOrigin m) (h' : m.SameOrigin n) : l.SameOrigin n :=
  ⟨h.size_eq.trans h'.size_eq, h.rom_eq.trans h'.rom_eq, h.order_eq.trans h'.order_eq,
    h.nextId_eq.trans h'.nextId_eq, h.regions_eq.trans h'.regions_eq⟩

theorem layout_eq (h : m.SameOrigin n) : m.layout = n.layout := by
  have hplace (k : MemoryMap) :
      k.regions.map Region.place = (k.regions.map Region.origin).map Region.place := by
    rw [List.map_map]
    refine List.map_congr_left fun r _ => ?_
    simp only [Function.comp, Region.place, Region.origin, Region.Content.kind_origin]
  simp only [layout, hplace, h.regions_eq, h.size_eq, h.rom_eq, h.order_eq, h.nextId_eq]

/-- Whatever reaches the regions, they keep their origin. -/
theorem of_passed (hm : m.Valid) (hlayout : n.layout = m.layout)
    {events : Region → List Region.Event} (h : m.Passed events n) : m.SameOrigin n where
  size_eq := (congrArg Layout.ramSize hlayout).symm
  rom_eq := (congrArg Layout.rom hlayout).symm
  order_eq := (congrArg Layout.order hlayout).symm
  nextId_eq := (congrArg Layout.nextId hlayout).symm
  regions_eq := by
    refine map_eq_map_of_imp (congrArg Layout.places hlayout).symm fun r hr s hs hrs => ?_
    have hid : r.id = s.id := congrArg Region.Place.id hrs
    have hlt : r.id < m.nextId := hm.id_lt r.place (List.mem_map_of_mem hr)
    obtain ⟨q, hq, hqs, hspan, hlives⟩ := h.lives s hs (hid ▸ hlt)
    obtain rfl := hm.eq_of_id_eq hq hr (hqs.trans hid.symm)
    simp only [Region.origin, hid, hspan, hlives, Region.Content.origin_live]

theorem call (hm : m.Valid) (slot : Nat) (c : Device.Call) : m.SameOrigin (m.call slot c) := by
  simp only [MemoryMap.call]
  split
  · next k hk =>
    obtain ⟨hslot, r, hr, hstart, hrk⟩ := hm.card?_eq_some_iff.mp hk
    have hkind : (Region.Content.card { k with device := c.run k.device }).kind =
        (Region.Content.card k).kind := congrArg Region.Kind.card (c.kind_run k.device)
    rw [setCard, if_pos hslot]
    refine ⟨rfl, rfl, rfl, rfl, ?_⟩
    rw [mapContents, List.map_map]
    refine List.map_congr_left fun s hs => ?_
    simp only [Function.comp, Region.origin]
    split
    · next hstarts =>
      rw [hm.eq_of_start_eq hs hr (hstarts.1.trans hstart.symm), hrk,
        Region.Content.origin_card hkind]
    · rfl
  · exact refl m

end SameOrigin

/-! ### Resets -/

/-- A map without the traces of its devices. -/
def traceless (m : MemoryMap) : MemoryMap := m.mapContents fun r => r.content.visible

/-- Whatever happened to them, maps of one origin are made equal by a reset, but for RAM. -/
theorem SameOrigin.traceless_reset (h : m.SameOrigin n) :
    m.reset.traceless = { n.reset.traceless with ram := m.ram } := by
  have heq (k : MemoryMap) : k.reset.traceless =
      ⟨k.ram, k.rom, k.regions.map Region.origin, k.order, k.nextId⟩ := by
    simp only [traceless, MemoryMap.reset, MemoryMap.mapContents, List.map_map]
    rfl
  rw [heq, heq, h.rom_eq, h.regions_eq, h.order_eq, h.nextId_eq]

/-! ### Slots -/

theorem map_insertRegion {f : Region → Region} (hf : ∀ r, (f r).span = r.span) (r : Region)
    (rs : List Region) : (insertRegion r rs).map f = insertRegion (f r) (rs.map f) := by
  induction rs with
  | nil => rfl
  | cons s rs ih =>
    simp only [insertRegion, List.map_cons, hf]
    split
    · rfl
    · rw [List.map_cons, ih]

/-- The map without the card of a slot. -/
def withoutCard (m : MemoryMap) (slot : Nat) : MemoryMap :=
  { m with regions := m.regions.filter fun r =>
      !(r.span.start == slotBase slot && r.content.card?.isSome) }

theorem map_filter_card {f : Region → Region} (hspan : ∀ r, (f r).span = r.span)
    (hkind : ∀ r, (f r).content.kind = r.content.kind) (slot : Nat) (rs : List Region) :
    (rs.filter fun r => !(r.span.start == slotBase slot && r.content.card?.isSome)).map f =
      (rs.map f).filter fun r => !(r.span.start == slotBase slot && r.content.card?.isSome) := by
  rw [List.filter_map]
  refine congrArg (List.map f) (List.filter_congr fun r _ => ?_)
  have hcard : (f r).content.card?.isSome = r.content.card?.isSome := by
    rw [Bool.eq_iff_iff, ← isCard_iff, ← isCard_iff, hkind]
  simp only [Function.comp, hspan, hcard]

theorem isSome_card?_of_layout_eq (hm : m.Valid) (hn : n.Valid) (h : n.layout = m.layout)
    (slot : Nat) : (n.card? slot).isSome = (m.card? slot).isSome := by
  have hkind := (hm.map_kind_eq hn (congrArg Layout.outline h)).2 slot
  simpa using congrArg Option.isSome hkind

/-- A device is plugged into maps of one layout, or into neither. -/
theorem run_attach_cases (hm : m.Valid) (hn : n.Valid) (h : n.layout = m.layout) (slot : Nat)
    (d : Device) :
    ((Op.attach slot d).run m = m.withRegion (slotSpan slot) (.card (.new d)) ∧
      (Op.attach slot d).run n = n.withRegion (slotSpan slot) (.card (.new d))) ∨
    ((Op.attach slot d).run m = m ∧ (Op.attach slot d).run n = n) := by
  have hok {k : MemoryMap} (hk : ∃ k', k.attach slot d = .ok k') :
      (Op.attach slot d).run k = k.withRegion (slotSpan slot) (.card (.new d)) := by
    obtain ⟨k', hk'⟩ := hk
    obtain ⟨-, -, i, -, hstart, hstop, rfl⟩ := attach_eq_ok hk'
    rw [Op.run, hk', eq_slotSpan hstart hstop]
    rfl
  have hfailed {k : MemoryMap} (hk : ¬∃ k', k.attach slot d = .ok k') :
      (Op.attach slot d).run k = k := by
    cases hc : k.attach slot d with
    | ok k' => exact absurd ⟨k', hc⟩ hk
    | error e => rw [Op.run, hc]; rfl
  have hiff : (∃ n', n.attach slot d = .ok n') ↔ ∃ m', m.attach slot d = .ok m' := by
    have hcard : n.card? slot = none ↔ m.card? slot = none := by
      rw [← Option.isNone_iff_eq_none, ← Option.isNone_iff_eq_none, ← Option.not_isSome,
        ← Option.not_isSome, isSome_card?_of_layout_eq hm hn h]
    have hregions (a : Nat) : (∀ r ∈ n.regions, ¬r.span.contains a) ↔
        ∀ r ∈ m.regions, ¬r.span.contains a := by
      have hspan {k k' : MemoryMap} (hk : k.layout = k'.layout)
          (hall : ∀ r ∈ k'.regions, ¬r.span.contains a) : ∀ r ∈ k.regions, ¬r.span.contains a := by
        intro r hr
        obtain ⟨s, hs, hsr⟩ := exists_region_of_layout_eq hk hr
        have hspan : s.span = r.span := congrArg Region.Place.span hsr
        exact hspan ▸ hall s hs
      exact ⟨hspan h.symm, hspan h⟩
    rw [hn.exists_attach_iff, hm.exists_attach_iff, hcard]
    simp only [hregions]
  by_cases hex : ∃ m', m.attach slot d = .ok m'
  · exact .inl ⟨hok hex, hok (hiff.mpr hex)⟩
  · exact .inr ⟨hfailed hex, hfailed (mt hiff.mp hex)⟩

theorem run_detach_cases (hm : m.Valid) (hn : n.Valid) (h : n.layout = m.layout) (slot : Nat) :
    ((Op.detach slot).run m = m.withoutCard slot ∧ (Op.detach slot).run n = n.withoutCard slot) ∨
    ((Op.detach slot).run m = m ∧ (Op.detach slot).run n = n) := by
  have hsome := isSome_card?_of_layout_eq hm hn h slot
  simp only [Op.run, detach]
  cases hc : m.card? slot with
  | none =>
    rw [hc, Option.isSome_none, Option.isSome_eq_false_iff, Option.isNone_iff_eq_none] at hsome
    rw [hsome]
    exact .inr ⟨rfl, rfl⟩
  | some c =>
    rw [hc, Option.isSome_some, Option.isSome_iff_exists] at hsome
    obtain ⟨d, hd⟩ := hsome
    rw [hd]
    exact .inl ⟨rfl, rfl⟩

namespace SameOrigin

theorem attach (h : m.SameOrigin n) (hm : m.Valid) (hn : n.Valid) (slot : Nat) (d : Device) :
    ((Op.attach slot d).run m).SameOrigin ((Op.attach slot d).run n) := by
  rcases run_attach_cases hm hn h.layout_eq.symm slot d with ⟨hm', hn'⟩ | ⟨hm', hn'⟩
  · rw [hm', hn']
    refine ⟨h.size_eq, h.rom_eq, h.order_eq, congrArg (· + 1) h.nextId_eq, ?_⟩
    have hspan (r : Region) : r.origin.span = r.span := rfl
    simp only [withRegion, map_insertRegion hspan, h.regions_eq, h.nextId_eq]
  · rwa [hm', hn']

theorem detach (h : m.SameOrigin n) (hm : m.Valid) (hn : n.Valid) (slot : Nat) :
    ((Op.detach slot).run m).SameOrigin ((Op.detach slot).run n) := by
  rcases run_detach_cases hm hn h.layout_eq.symm slot with ⟨hm', hn'⟩ | ⟨hm', hn'⟩
  · rw [hm', hn']
    refine ⟨h.size_eq, h.rom_eq, h.order_eq, h.nextId_eq, ?_⟩
    have hspan (r : Region) : r.origin.span = r.span := rfl
    have hkind (r : Region) : r.origin.content.kind = r.content.kind := r.content.kind_origin
    simp only [withoutCard, map_filter_card hspan hkind, h.regions_eq]
  · rwa [hm', hn']

end SameOrigin

/-! ### Operations -/

/-- Operations that leave the peripherals in place, without states from elsewhere. -/
def Op.ordinary : Op → Bool
  | register .. | unregister _ | restore .. => false
  | _ => true

/-- Operations on slots. -/
def Op.plugs : Op → Bool
  | attach .. | detach _ => true
  | _ => false

/-- Only operations on slots change what a reset returns to. -/
theorem SameOrigin.of_op (hm : m.Valid) (op : Op) (h : op.ordinary) (hplugs : op.plugs = false) :
    m.SameOrigin (op.run m) := by
  have hpassed (hquiet : op.quiet) : m.Passed (fun r => op.reached m r) (op.run m) := .op hm hquiet
  cases op with
  | read a => exact of_passed hm (hm.layout_readByte a) (hpassed rfl)
  | write a b => exact of_passed hm (hm.layout_writeByte a b) (hpassed rfl)
  | load a bs => exact of_passed hm (m.layout_load a bs) (hpassed rfl)
  | call slot c => exact call hm slot c
  | tick k elapsed => exact of_passed hm (m.layout_tick k elapsed) (hpassed rfl)
  | reset => exact of_passed hm m.layout_reset (hpassed rfl)
  | acknowledge source => exact of_passed hm (hm.layout_acknowledge source) (hpassed rfl)
  | attach slot d | detach slot => cases hplugs
  | register i p | unregister id | restore ps cs => cases h

theorem SameOrigin.op (h : m.SameOrigin n) (hm : m.Valid) (hn : n.Valid) {op : Op}
    (hop : op.ordinary) : (op.run m).SameOrigin (op.run n) := by
  cases hplugs : op.plugs with
  | false => exact ((of_op hm op hop hplugs).symm.trans h).trans (of_op hn op hop hplugs)
  | true =>
    cases op with
    | attach slot d => exact h.attach hm hn slot d
    | detach slot => exact h.detach hm hn slot
    | _ => cases hplugs

end MemoryMap

end Microcomputer
