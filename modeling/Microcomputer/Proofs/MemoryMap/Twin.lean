import Microcomputer.Proofs.MemoryMap.Origin

/-! Memory maps that are equal but for the traces of devices. Operations that leave the
peripherals in place keep them so, whatever these do to states, to time, to RAM and to slots:
`Twin.op`. -/

namespace Microcomputer

theorem Region.Content.visible_visible (c : Content) : c.visible.visible = c.visible := by
  cases c with
  | peripheral p => rfl
  | card k => exact congrArg card (Card.visible_eq rfl (k.device.visible_withTrace _))

namespace MemoryMap

variable {m n : MemoryMap}

namespace Alike

theorem load (h : m.Alike n) (a : Nat) (bs : Bytes) :
    Alike { m with ram := m.ram.load a bs } { n with ram := n.ram.load a bs } where
  left := h.left.of_layout_eq (m.layout_load a bs)
  right := h.right.of_layout_eq (n.layout_load a bs)
  ram_eq := congrArg (·.load a bs) h.ram_eq
  rom_eq := h.rom_eq
  order_eq := h.order_eq
  regions_eq := h.regions_eq

theorem call (h : m.Alike n) (slot : Nat) (c : Device.Call) :
    (m.call slot c).Alike (n.call slot c) := by
  simp only [MemoryMap.call]
  rcases h.card?_cases slot with ⟨hc, hd⟩ | ⟨j, k, hc, hd, hjk⟩
  · rw [hc, hd]
    exact h
  · rw [hc, hd]
    obtain ⟨hblock, hdevice⟩ := Card.of_visible_eq hjk
    refine h.setCard hc hd (c.kind_run j.device) (c.kind_run k.device) ?_
    refine Card.visible_eq hblock ?_
    rw [← Device.Call.visible_run, hdevice, Device.Call.visible_run]

theorem attach (h : m.Alike n) (hl : m.layout = n.layout) (slot : Nat) (d : Device) :
    ((Op.attach slot d).run m).Alike ((Op.attach slot d).run n) := by
  have hleft := h.left.op (.attach slot d)
  have hright := h.right.op (.attach slot d)
  rcases run_attach_cases h.left h.right hl.symm slot d with ⟨hm, hn⟩ | ⟨hm, hn⟩
  · rw [hm] at hleft ⊢
    rw [hn] at hright ⊢
    refine ⟨hleft, hright, h.ram_eq, h.rom_eq, h.order_eq, ?_⟩
    have hspan (r : Region) : r.visible.span = r.span := rfl
    have hnext : m.nextId = n.nextId := congrArg Layout.nextId hl
    simp only [withRegion, map_insertRegion hspan, h.regions_eq, hnext]
  · rwa [hm, hn]

theorem detach (h : m.Alike n) (hl : m.layout = n.layout) (slot : Nat) :
    ((Op.detach slot).run m).Alike ((Op.detach slot).run n) := by
  have hleft := h.left.op (.detach slot)
  have hright := h.right.op (.detach slot)
  rcases run_detach_cases h.left h.right hl.symm slot with ⟨hm, hn⟩ | ⟨hm, hn⟩
  · rw [hm] at hleft ⊢
    rw [hn] at hright ⊢
    refine ⟨hleft, hright, h.ram_eq, h.rom_eq, h.order_eq, ?_⟩
    have hspan (r : Region) : r.visible.span = r.span := rfl
    have hkind (r : Region) : r.visible.content.kind = r.content.kind := r.content.kind_visible
    simp only [withoutCard, map_filter_card hspan hkind, h.regions_eq]
  · rwa [hm, hn]

end Alike

/-- Maps that are equal but for the traces of devices: they look alike, and have one origin. -/
structure Twin (m n : MemoryMap) : Prop where
  alike : m.Alike n
  sameOrigin : m.SameOrigin n

namespace Twin

theorem of_traceless_eq (hm : m.Valid) (h : m.traceless = n.traceless) : m.Twin n := by
  have hvisible (k : MemoryMap) :
      k.regions.map Region.visible = k.traceless.regions.map Region.visible := by
    simp only [traceless, mapContents, List.map_map]
    refine List.map_congr_left fun r _ => ?_
    simp only [Function.comp, Region.visible, Region.Content.kind_visible,
      Region.Content.visible_visible]
  have horigin (k : MemoryMap) :
      k.regions.map Region.origin = k.traceless.regions.map Region.origin := by
    simp only [traceless, mapContents, List.map_map]
    refine List.map_congr_left fun r _ => ?_
    have hreset := Region.Content.reset_visible r.content.visible_visible
    simp only [Function.comp, Region.origin, Region.Content.origin, hreset]
  have hram : m.traceless.ram = n.traceless.ram := congrArg ram h
  have hrom : m.traceless.rom = n.traceless.rom := congrArg rom h
  have horder : m.traceless.order = n.traceless.order := congrArg order h
  have hnext : m.traceless.nextId = n.traceless.nextId := congrArg nextId h
  have hsame : m.SameOrigin n :=
    ⟨congrArg Ram.size hram, hrom, horder, hnext, by rw [horigin, h, ← horigin]⟩
  exact ⟨⟨hm, hm.of_layout_eq hsame.layout_eq.symm, hram, hrom, horder,
    by rw [hvisible, h, ← hvisible]⟩, hsame⟩

theorem traceless_eq (h : m.Twin n) : m.traceless = n.traceless := by
  have heq (k : MemoryMap) : k.traceless =
      ⟨k.ram, k.rom, List.zipWith (fun r s => { r with content := s.content })
        (k.regions.map Region.origin) (k.regions.map Region.visible), k.order, k.nextId⟩ := by
    rw [List.zipWith_map, List.zipWith_self]
    rfl
  rw [heq, heq, h.alike.ram_eq, h.alike.rom_eq, h.alike.order_eq, h.alike.regions_eq,
    h.sameOrigin.regions_eq, h.sameOrigin.nextId_eq]

/-- Twins stay twins, whatever is done to both. -/
theorem op (h : m.Twin n) {op : Op} (hop : op.ordinary) : (op.run m).Twin (op.run n) := by
  refine ⟨?_, h.sameOrigin.op h.alike.left h.alike.right hop⟩
  have hlayout := h.sameOrigin.layout_eq
  cases op with
  | read a => exact (h.alike.readByte a).2
  | write a b => exact h.alike.writeByte a b
  | load a bs => exact h.alike.load a bs
  | attach slot d => exact h.alike.attach hlayout slot d
  | detach slot => exact h.alike.detach hlayout slot
  | call slot c => exact h.alike.call slot c
  | tick k elapsed => exact h.alike.tick k elapsed
  | reset => exact h.alike.reset
  | acknowledge source => exact h.alike.acknowledge source
  | register i p | unregister id | restore ps cs => cases hop

theorem simulation : Memory.Simulation Twin where
  answer_eq h a := (h.alike.readByte a).1
  read h a := h.op (show (Op.read a).ordinary from rfl)
  write h a b := h.op (show (Op.write a b).ordinary from rfl)

end Twin

end MemoryMap

end Microcomputer
