import Microcomputer.Proofs.Memory.Program
import Microcomputer.Proofs.MemoryMap.Restore
import Microcomputer.Proofs.MemoryMap.Visible

/-! Memory maps that look alike: they agree but for the traces of devices, the names of the
regions of cards, and the name that comes next. They answer alike, and go on looking alike
whatever is done to both. A map that takes the saved states of another over comes to look
like it. -/

namespace Microcomputer.MemoryMap

structure Alike (m n : MemoryMap) : Prop where
  left : m.Valid
  right : n.Valid
  ram_eq : m.ram = n.ram
  rom_eq : m.rom = n.rom
  order_eq : m.order = n.order
  regions_eq : m.regions.map Region.visible = n.regions.map Region.visible

namespace Alike

variable {m n : MemoryMap}

theorem symm (h : m.Alike n) : n.Alike m :=
  ⟨h.right, h.left, h.ram_eq.symm, h.rom_eq.symm, h.order_eq.symm, h.regions_eq.symm⟩

/-! ### Looking up -/

theorem exists_region (h : m.Alike n) {r : Region} (hr : r ∈ m.regions) :
    ∃ s ∈ n.regions, s.visible = r.visible := by
  have hmem : r.visible ∈ n.regions.map Region.visible := by
    rw [← h.regions_eq]
    exact List.mem_map_of_mem hr
  exact List.mem_map.mp hmem

theorem peripheral?_of_some (h : m.Alike n) {id : RegionId} {p : Peripheral}
    (hp : m.peripheral? id = some p) : n.peripheral? id = some p := by
  obtain ⟨r, hr, rfl, hc⟩ := h.left.peripheral?_eq_some_iff.mp hp
  obtain ⟨s, hs, hsr⟩ := h.exists_region hr
  have hid := Region.id_eq_of_visible_eq hsr.symm (by rw [hc]; rfl)
  have hcontent := (Region.of_visible_eq hsr).2
  refine h.right.peripheral?_eq_some_iff.mpr ⟨s, hs, hid.symm, ?_⟩
  rcases Region.Content.cases_of_visible_eq hcontent with ⟨q, hsc, hrc⟩ | ⟨j, k, -, hrc, -⟩
  · rw [hsc, ← hrc, hc]
  · rw [hc] at hrc
    cases hrc

theorem peripheral?_eq (h : m.Alike n) (id : RegionId) : m.peripheral? id = n.peripheral? id := by
  refine Option.ext fun p => ?_
  constructor
  · exact h.peripheral?_of_some
  · exact h.symm.peripheral?_of_some

theorem card?_of_some (h : m.Alike n) {slot : Nat} {c : Card} (hc : m.card? slot = some c) :
    ∃ d, n.card? slot = some d ∧ c.visible = d.visible := by
  obtain ⟨hslot, r, hr, hstart, hrc⟩ := h.left.card?_eq_some_iff.mp hc
  obtain ⟨s, hs, hsr⟩ := h.exists_region hr
  obtain ⟨hspan, hcontent⟩ := Region.of_visible_eq hsr
  rcases Region.Content.cases_of_visible_eq hcontent with ⟨q, -, hq⟩ | ⟨d, k, hsc, hk, hdk⟩
  · rw [hrc] at hq
    cases hq
  · rw [hrc] at hk
    cases hk
    exact ⟨d, h.right.card?_eq_some_iff.mpr ⟨hslot, s, hs, by rw [hspan, hstart], hsc⟩,
      hdk.symm⟩

/-- A slot holds cards that look alike, or none in both maps. -/
theorem card?_cases (h : m.Alike n) (slot : Nat) :
    (m.card? slot = none ∧ n.card? slot = none) ∨
      ∃ c d, m.card? slot = some c ∧ n.card? slot = some d ∧ c.visible = d.visible := by
  cases hc : m.card? slot with
  | some c =>
    obtain ⟨d, hd, hcd⟩ := h.card?_of_some hc
    exact .inr ⟨c, d, rfl, hd, hcd⟩
  | none =>
    cases hd : n.card? slot with
    | none => exact .inl ⟨rfl, rfl⟩
    | some d =>
      obtain ⟨c, hc', -⟩ := h.symm.card?_of_some hd
      rw [hc] at hc'
      cases hc'

theorem regionAt?_map_eq (h : m.Alike n) (a : Nat) :
    (m.regionAt? a).map Region.visible = (n.regionAt? a).map Region.visible := by
  have hv (k : MemoryMap) : (k.regionAt? a).map Region.visible =
      (((k.regions.map Region.visible).takeWhile fun r => r.span.start ≤ a).getLast?).filter
        fun r => r.span.contains a := by
    rw [List.takeWhile_map, List.getLast?_map, Option.filter_map]
    rfl
  rw [hv, hv, h.regions_eq]

/-! ### Acting on both -/

/-- Changes that look alike wherever the regions look alike. -/
theorem mapContents (h : m.Alike n) {f g : Region → Region.Content}
    (hf : ∀ r ∈ m.regions, (f r).kind = r.content.kind)
    (hg : ∀ s ∈ n.regions, (g s).kind = s.content.kind)
    (hfg : ∀ r ∈ m.regions, ∀ s ∈ n.regions, r.visible = s.visible →
      (f r).visible = (g s).visible) : (m.mapContents f).Alike (n.mapContents g) where
  left := h.left.of_layout_eq (layout_mapContents hf)
  right := h.right.of_layout_eq (layout_mapContents hg)
  ram_eq := h.ram_eq
  rom_eq := h.rom_eq
  order_eq := h.order_eq
  regions_eq := by
    simp only [MemoryMap.mapContents, List.map_map]
    refine map_eq_map_of_imp h.regions_eq fun r hr s hs hrs => ?_
    have hid : r.visible.id = s.visible.id := congrArg Region.id hrs
    simp only [Function.comp, Region.visible, hf r hr, hg s hs, hfg r hr s hs hrs,
      (Region.of_visible_eq hrs).1, Region.mk.injEq, and_true]
    exact hid

theorem setContent (h : m.Alike n) {r s : Region} (hr : r ∈ m.regions) (hs : s ∈ n.regions)
    (hrs : r.visible = s.visible) {c d : Region.Content} (hc : c.kind = r.content.kind)
    (hd : d.kind = s.content.kind) (hcd : c.visible = d.visible) :
    (m.setContent r.id c).Alike (n.setContent s.id d) := by
  refine h.mapContents (fun r' hr' => ?_) (fun s' hs' => ?_) fun r' hr' s' hs' hrs' => ?_
  · split
    · next hid => rw [hc, h.left.eq_of_id_eq hr' hr hid]
    · rfl
  · split
    · next hid => rw [hd, h.right.eq_of_id_eq hs' hs hid]
    · rfl
  · obtain ⟨hspan, -⟩ := Region.of_visible_eq hrs
    obtain ⟨hspan', hcontent'⟩ := Region.of_visible_eq hrs'
    -- names of cards differ between the two maps, but starts tell the regions apart as well
    have hid : r'.id = r.id ↔ s'.id = s.id := by
      constructor
      · intro hid
        have heq := h.left.eq_of_id_eq hr' hr hid
        rw [h.right.eq_of_start_eq hs' hs (by rw [← hspan', ← hspan, heq])]
      · intro hid
        have heq := h.right.eq_of_id_eq hs' hs hid
        rw [h.left.eq_of_start_eq hr' hr (by rw [hspan', hspan, heq])]
    by_cases hr : r'.id = r.id
    · rw [if_pos hr, if_pos (hid.mp hr), hcd]
    · rw [if_neg hr, if_neg (mt hid.mpr hr), hcontent']

/-- An address leads to regions that look alike, or to none in both maps. -/
theorem regionAt?_cases (h : m.Alike n) (a : Nat) :
    (m.regionAt? a = none ∧ n.regionAt? a = none) ∨
      ∃ r s, m.regionAt? a = some r ∧ n.regionAt? a = some s ∧ r.visible = s.visible := by
  have hv := h.regionAt?_map_eq a
  cases hm : m.regionAt? a with
  | none =>
    rw [hm, Option.map_none, eq_comm, Option.map_eq_none_iff] at hv
    exact .inl ⟨rfl, hv⟩
  | some r =>
    rw [hm, Option.map_some, eq_comm, Option.map_eq_some_iff] at hv
    obtain ⟨s, hs, hsr⟩ := hv
    exact .inr ⟨r, s, rfl, hs, hsr.symm⟩

theorem readByte (h : m.Alike n) (a : Word) :
    (m.readByte a).1 = (n.readByte a).1 ∧ (m.readByte a).2.Alike (n.readByte a).2 := by
  simp only [MemoryMap.readByte, h.ram_eq, h.rom_eq]
  split
  · exact ⟨rfl, h⟩
  · split
    · exact ⟨rfl, h⟩
    · rcases h.regionAt?_cases (Address.ofWord a).toNat with ⟨hm, hn⟩ | ⟨r, s, hm, hn, hrs⟩
      · rw [hm, hn]
        exact ⟨rfl, h⟩
      · obtain ⟨hspan, hcontent⟩ := Region.of_visible_eq hrs
        simp only [hm, hn, hspan]
        obtain ⟨hbyte, hread⟩ := Region.Content.read_visible hcontent
          ((Address.ofWord a).toNat - s.span.start)
        exact ⟨hbyte, h.setContent (mem_of_regionAt? hm).1 (mem_of_regionAt? hn).1 hrs
          (Region.Content.kind_read _ _) (Region.Content.kind_read _ _) hread⟩

theorem writeByte (h : m.Alike n) (a : Word) (b : Byte) :
    (m.writeByte a b).Alike (n.writeByte a b) := by
  simp only [MemoryMap.writeByte, h.ram_eq]
  split
  · exact ⟨h.left.of_layout_eq (by simp [layout, h.ram_eq]),
      h.right.of_layout_eq (by simp [layout]), rfl, h.rom_eq, h.order_eq, h.regions_eq⟩
  · split
    · exact h
    · rcases h.regionAt?_cases (Address.ofWord a).toNat with ⟨hm, hn⟩ | ⟨r, s, hm, hn, hrs⟩
      · rw [hm, hn]
        exact h
      · obtain ⟨hspan, hcontent⟩ := Region.of_visible_eq hrs
        simp only [hm, hn, hspan]
        exact h.setContent (mem_of_regionAt? hm).1 (mem_of_regionAt? hn).1 hrs
          (Region.Content.kind_write _ _ _) (Region.Content.kind_write _ _ _)
          (Region.Content.write_visible hcontent _ b)

theorem simulation : Memory.Simulation Alike where
  answer_eq h a := (h.readByte a).1
  read h a := (h.readByte a).2
  write h a b := h.writeByte a b

theorem tick (h : m.Alike n) (k : Nat) (elapsed : Binary64) :
    (m.tick k elapsed).Alike (n.tick k elapsed) :=
  h.mapContents (fun _ _ => Region.Content.kind_tick _ _ _)
    (fun _ _ => Region.Content.kind_tick _ _ _) fun _ _ _ _ hrs =>
      Region.Content.tick_visible (Region.of_visible_eq hrs).2 k elapsed

theorem reset (h : m.Alike n) : m.reset.Alike n.reset :=
  h.mapContents (fun _ _ => Region.Content.kind_reset _) (fun _ _ => Region.Content.kind_reset _)
    fun _ _ _ _ hrs => Region.Content.reset_visible (Region.of_visible_eq hrs).2

theorem setPeripheral (h : m.Alike n) {id : RegionId} {p q : Peripheral}
    (hq : m.peripheral? id = some q) (hk : p.kind = q.kind) :
    (m.setPeripheral id p).Alike (n.setPeripheral id p) := by
  have hq' : n.peripheral? id = some q := h.peripheral?_of_some hq
  refine h.mapContents (h.left.kind_setPeripheral hq hk) (h.right.kind_setPeripheral hq' hk)
    fun r hr s hs hrs => ?_
  obtain ⟨-, hcontent⟩ := Region.of_visible_eq hrs
  rcases Region.Content.cases_of_visible_eq hcontent with ⟨p', hrc, hsc⟩ | ⟨j, k, hrc, hsc, hjk⟩
  · have hid : r.id = s.id := Region.id_eq_of_visible_eq hrs (by rw [hrc]; rfl)
    rw [hrc, hsc, hid]
  · have hv : (Region.Content.card j).visible = (Region.Content.card k).visible :=
      congrArg Region.Content.card hjk
    simpa [hrc, hsc, Region.Content.peripheral?] using hv

theorem setCard (h : m.Alike n) {slot : Nat} {c d c' d' : Card} (hc : m.card? slot = some c)
    (hd : n.card? slot = some d) (hkc : c'.device.kind = c.device.kind)
    (hkd : d'.device.kind = d.device.kind) (hcd : c'.visible = d'.visible) :
    (m.setCard slot c').Alike (n.setCard slot d') := by
  simp only [MemoryMap.setCard]
  split
  · refine h.mapContents (h.left.kind_setCard hc hkc) (h.right.kind_setCard hd hkd)
      fun r _ s _ hrs => ?_
    obtain ⟨hspan, hcontent⟩ := Region.of_visible_eq hrs
    have hsome : r.content.card?.isSome = s.content.card?.isSome := by
      rw [Bool.eq_iff_iff, ← isCard_iff, ← isCard_iff,
        Region.Content.kind_eq_of_visible_eq hcontent]
    rw [hspan, hsome]
    split
    · exact congrArg Region.Content.card hcd
    · exact hcontent
  · exact h

theorem acknowledge (h : m.Alike n) (source : InterruptSource) :
    (m.acknowledge source).Alike (n.acknowledge source) := by
  cases source with
  | peripheral id =>
    simp only [MemoryMap.acknowledge, ← h.peripheral?_eq id]
    split
    · next p hp => exact h.setPeripheral hp p.kind_acknowledge
    · exact h
  | slot s =>
    simp only [MemoryMap.acknowledge]
    rcases h.card?_cases s with ⟨hc, hd⟩ | ⟨c, d, hc, hd, hcd⟩
    · rw [hc, hd]
      exact h
    · rw [hc, hd]
      obtain ⟨hblock, hdevice⟩ := Card.of_visible_eq hcd
      refine h.setCard hc hd c.device.kind_acknowledge d.device.kind_acknowledge ?_
      refine Card.visible_eq hblock ?_
      simp only [Card.acknowledge]
      rw [← Device.visible_acknowledge, hdevice, Device.visible_acknowledge]

/-! ### What is seen -/

theorem requested_eq (h : m.Alike n) (source : InterruptSource) :
    m.requested source = n.requested source := by
  cases source with
  | peripheral id => rw [requested, h.peripheral?_eq id, requested]
  | slot s =>
    simp only [requested]
    rcases h.card?_cases s with ⟨hc, hd⟩ | ⟨c, d, hc, hd, hcd⟩
    · rw [hc, hd]
    · rw [hc, hd, Option.bind_some, Option.bind_some, ← Device.interrupt_visible,
        (Card.of_visible_eq hcd).2, Device.interrupt_visible]

theorem request?_eq (h : m.Alike n) : m.request? = n.request? := by
  simp only [request?, sources, h.order_eq, h.requested_eq]

theorem savePeripherals_eq (h : m.Alike n) : m.savePeripherals = n.savePeripherals := by
  simp only [savePeripherals, h.order_eq, h.peripheral?_eq]

theorem saveCards_eq (h : m.Alike n) : m.saveCards = n.saveCards := by
  have hslot (s : Nat) :
      (m.card? s).map (fun c => (⟨BitVec.ofNat 8 s, c.block, c.device.save⟩ : CardState)) =
        (n.card? s).map fun c => ⟨BitVec.ofNat 8 s, c.block, c.device.save⟩ := by
    rcases h.card?_cases s with ⟨hc, hd⟩ | ⟨c, d, hc, hd, hcd⟩
    · rw [hc, hd]
    · obtain ⟨hblock, hdevice⟩ := Card.of_visible_eq hcd
      rw [hc, hd, Option.map_some, Option.map_some, hblock, ← Device.save_visible, hdevice,
        Device.save_visible]
  simp only [saveCards, hslot]

end Alike

/-! ### Taking states over -/

variable {m n : MemoryMap}

/-- Regions of one outline that hold what is found in maps in the same states. -/
theorem Valid.visible_eq_of_outline_eq (hm : m.Valid) (hn : n.Valid)
    (hp : ∀ id, n.peripheral? id = m.peripheral? id)
    (hc : ∀ slot c d, n.card? slot = some d → m.card? slot = some c → d.visible = c.visible)
    {r s : Region} (hr : r ∈ n.regions) (hs : s ∈ m.regions)
    (h : r.place.outline = s.place.outline) : r.visible = s.visible := by
  obtain ⟨hspan, -⟩ := span_kind_of_outline_eq h
  rcases hm.content_cases hn hr hs h with
    ⟨q, p, hrc, hsc, hid, hq, hp'⟩ | ⟨d, c, slot, hrc, hsc, hd, hc'⟩
  · rw [hp, hp'] at hq
    rw [Region.visible, Region.visible, hrc, hsc, hspan, hid, Option.some.inj hq]
  · have hv : (Region.Content.card d).visible = (Region.Content.card c).visible :=
      congrArg Region.Content.card (hc slot c d hd hc')
    rw [Region.visible, Region.visible, hrc, hsc, hspan, hv]
    rfl

/-- A map that takes the states of another over looks like it, but for the bytes of RAM. -/
theorem Valid.alike_of_restore_save (hm : m.Valid) (hn : n.Valid)
    (h : n.layout.outline = m.layout.outline) :
    ∃ n', n.restore m.savePeripherals m.saveCards = (n', none) ∧ n'.layout = n.layout ∧
      n'.ram = n.ram ∧ Alike { n' with ram := m.ram } m := by
  obtain ⟨n', hrun, hp, hc⟩ := hm.restoreEach_save hn h
  have hkeeps := keeps_restoreEach hn m.savePeripherals m.saveCards
  rw [hrun] at hkeeps
  have hlayout : n'.layout = n.layout := hkeeps.layout_eq
  have houtline : n'.layout.outline = m.layout.outline := by rw [hlayout, h]
  have hsize : m.ram.size = n'.ram.size := (congrArg Layout.ramSize houtline).symm
  have hn' : n'.Valid := hn.of_layout_eq hlayout
  refine ⟨n', by rw [restore, hrun], hlayout, hkeeps.ram_eq, ?_, hm, rfl, ?_, ?_, ?_⟩
  · exact hn'.of_layout_eq (by simp [layout, hsize])
  · exact congrArg Layout.rom houtline
  · exact congrArg Layout.order houtline
  · have hplaces : n'.regions.map (fun r => r.place.outline) =
        m.regions.map fun r => r.place.outline := by
      have := congrArg Layout.places houtline
      simp only [layout, Layout.outline, List.map_map] at this
      exact this
    refine map_eq_map_of_imp hplaces fun r hr s hs hrs =>
      hm.visible_eq_of_outline_eq hn' hp (fun slot c d hd hc' => ?_) hr hs hrs
    rw [hc, hc', Option.bind_some, Option.map_eq_some_iff] at hd
    obtain ⟨e, -, rfl⟩ := hd
    exact Card.visible_eq rfl (c.device.visible_withTrace _)

end Microcomputer.MemoryMap
