import Microcomputer.Proofs.MemoryMap.Layout

/-! Restoring states in a memory map. Whatever is restored, only states change, and of
these no trace of a device. The saved states of one map are accepted by any map of the
same outline, which then holds them: `restoreEach_save`. That is why a refused restore can
be taken back: `restore_of_error`. -/

namespace Microcomputer.MemoryMap

variable {m n : MemoryMap}

/-! ### What restoring keeps -/

/-- The second map differs from the first in nothing but states. -/
structure Keeps (m n : MemoryMap) : Prop where
  layout_eq : n.layout = m.layout
  ram_eq : n.ram = m.ram
  trace_eq : ∀ slot, (n.card? slot).map (fun c => c.device.trace) =
    (m.card? slot).map fun c => c.device.trace

namespace Keeps

theorem refl (m : MemoryMap) : Keeps m m := ⟨rfl, rfl, fun _ => rfl⟩

theorem trans {l : MemoryMap} (h : Keeps l m) (h' : Keeps m n) : Keeps l n :=
  ⟨h'.layout_eq.trans h.layout_eq, h'.ram_eq.trans h.ram_eq,
    fun slot => (h'.trace_eq slot).trans (h.trace_eq slot)⟩

theorem setPeripheral (hm : m.Valid) {id : RegionId} {p q : Peripheral}
    (hq : m.peripheral? id = some q) (hk : p.kind = q.kind) : Keeps m (m.setPeripheral id p) where
  layout_eq := hm.layout_setPeripheral hq hk
  ram_eq := rfl
  trace_eq slot := by rw [card?_setPeripheral]

theorem setCard (hm : m.Valid) {slot : Nat} {c d : Card} (hd : m.card? slot = some d)
    (hk : c.device.kind = d.device.kind) (ht : c.device.trace = d.device.trace) :
    Keeps m (m.setCard slot c) where
  layout_eq := hm.layout_setCard hd hk
  ram_eq := by
    rw [MemoryMap.setCard]
    split <;> rfl
  trace_eq s := by
    rw [card?_setCard hd]
    split
    · next h => rw [h, hd, Option.map_some, ht, Option.map_some]
    · rfl

end Keeps

theorem keeps_restorePeripherals (ids : List RegionId) (states : List Bytes) (hm : m.Valid) :
    Keeps m (restorePeripherals ids states m).1 := by
  induction ids generalizing m states with
  | nil => exact .refl m
  | cons id ids ih =>
    cases states with
    | nil => exact .refl m
    | cons bs rest =>
      simp only [restorePeripherals]
      split
      · exact ih rest hm
      · next p hp =>
        split
        · next q hq =>
          have hk := Keeps.setPeripheral hm hp (Peripheral.kind_of_restore hq)
          exact hk.trans (ih rest (hm.of_layout_eq hk.layout_eq))
        · exact .refl m

theorem keeps_restoreCards (states : List CardState) (hm : m.Valid) :
    Keeps m (restoreCards states m).1 := by
  induction states generalizing m with
  | nil => exact .refl m
  | cons s rest ih =>
    simp only [restoreCards]
    split
    · exact ih hm
    · next c hc =>
      split
      · next d hd =>
        obtain ⟨hkind, htrace⟩ := Device.of_restore hd
        have hk := Keeps.setCard hm (c := ⟨s.block, d⟩) hc hkind htrace
        exact hk.trans (ih (hm.of_layout_eq hk.layout_eq))
      · exact .refl m

theorem keeps_restoreEach (hm : m.Valid) (peripherals : List Bytes) (cards : List CardState) :
    Keeps m (m.restoreEach peripherals cards).1 := by
  have hp := keeps_restorePeripherals m.order peripherals hm
  simp only [restoreEach]
  split
  · next m' h =>
    rw [h] at hp
    exact hp.trans (keeps_restoreCards cards (hm.of_layout_eq hp.layout_eq))
  · next m' e h => rwa [h] at hp

theorem keeps_restore (hm : m.Valid) (peripherals : List Bytes) (cards : List CardState) :
    Keeps m (m.restore peripherals cards).1 := by
  have h := keeps_restoreEach hm peripherals cards
  simp only [restore]
  split
  · next m' he => rwa [he] at h
  · next m' e he =>
    rw [he] at h
    exact h.trans (keeps_restoreEach (hm.of_layout_eq h.layout_eq) _ _)

/-! ### Restoring saved states -/

theorem peripheral?_restoreCards (states : List CardState) (hm : m.Valid) (id : RegionId) :
    (restoreCards states m).1.peripheral? id = m.peripheral? id := by
  induction states generalizing m with
  | nil => rfl
  | cons s rest ih =>
    simp only [restoreCards]
    split
    · exact ih hm
    · next c hc =>
      split
      · next d hd =>
        have hkind : d.kind = c.device.kind := (Device.of_restore hd).1
        rw [ih (hm.of_layout_eq (hm.layout_setCard hc hkind)), hm.peripheral?_setCard hc hkind]
      · rfl

theorem card?_restorePeripherals (ids : List RegionId) (states : List Bytes) (m : MemoryMap)
    (slot : Nat) : (restorePeripherals ids states m).1.card? slot = m.card? slot := by
  induction ids generalizing m states with
  | nil => rfl
  | cons id ids ih =>
    cases states with
    | nil => rfl
    | cons bs rest =>
      simp only [restorePeripherals]
      split
      · exact ih rest m
      · split
        · rw [ih, card?_setPeripheral]
        · rfl

theorem restorePeripherals_save (ids : List RegionId) (hn : n.Valid)
    (hi : ∀ id ∈ ids, (m.peripheral? id).isSome)
    (hk : ∀ id, (n.peripheral? id).map Peripheral.kind = (m.peripheral? id).map Peripheral.kind) :
    ∃ n', restorePeripherals ids
        (ids.filterMap fun id => (m.peripheral? id).map Peripheral.save) n = (n', none) ∧
      ∀ id, n'.peripheral? id = if id ∈ ids then m.peripheral? id else n.peripheral? id := by
  induction ids generalizing n with
  | nil => exact ⟨n, rfl, fun id => by simp⟩
  | cons id ids ih =>
    obtain ⟨p, hp⟩ := Option.isSome_iff_exists.mp (hi id List.mem_cons_self)
    have hq := hk id
    rw [hp, Option.map_some, Option.map_eq_some_iff] at hq
    obtain ⟨q, hq, hqp⟩ := hq
    have hset := hn.peripheral?_setPeripheral hq hqp.symm
    obtain ⟨n', hrun, hn'⟩ := ih (hn.of_layout_eq (hn.layout_setPeripheral hq hqp.symm))
      (fun i h => hi i (List.mem_cons_of_mem _ h)) (fun i => by
        rw [hset]
        split
        · next h => rw [h, hp]
        · exact hk i)
    refine ⟨n', ?_, fun i => ?_⟩
    · rw [List.filterMap_cons_some (by rw [hp]; rfl), restorePeripherals, hq]
      simp only [Peripheral.restore_save hqp]
      exact hrun
    · rw [hn', hset]
      by_cases h : i = id
      · simp [h, hp]
      · simp [h]

/-- The card `d` in the state of `c`. Its trace is its own. -/
def inState (c d : Card) : Card := ⟨c.block, c.device.withTrace d.device.trace⟩

theorem restoreCards_save (slots : List Nat) (hn : n.Valid) (hs : slots.Nodup)
    (hi : ∀ s ∈ slots, s < slotCount)
    (hk : ∀ s, (n.card? s).map (fun c => c.device.kind) =
      (m.card? s).map fun c => c.device.kind) :
    ∃ n', restoreCards (slots.filterMap fun s =>
        (m.card? s).map fun c => ⟨BitVec.ofNat 8 s, c.block, c.device.save⟩) n = (n', none) ∧
      ∀ s, n'.card? s =
        if s ∈ slots then (m.card? s).bind fun c => (n.card? s).map (inState c)
        else n.card? s := by
  induction slots generalizing n with
  | nil => exact ⟨n, rfl, fun s => by simp⟩
  | cons slot slots ih =>
    obtain ⟨hslot, hslots⟩ := List.nodup_cons.mp hs
    have hlt := fun s h => hi s (List.mem_cons_of_mem _ h)
    cases hc : m.card? slot with
    | none =>
      have hd := hk slot
      rw [hc, Option.map_none, Option.map_eq_none_iff] at hd
      obtain ⟨n', hrun, hn'⟩ := ih hn hslots hlt hk
      refine ⟨n', by rw [List.filterMap_cons_none (by rw [hc]; rfl), hrun], fun s => ?_⟩
      rw [hn']
      by_cases h : s = slot
      · simp [h, hslot, hc, hd]
      · simp [h]
    | some c =>
      have hd := hk slot
      rw [hc, Option.map_some, Option.map_eq_some_iff] at hd
      obtain ⟨d, hd, hkind⟩ := hd
      have htoNat : (BitVec.ofNat 8 slot).toNat = slot := by
        have : slot < 32 := hi slot List.mem_cons_self
        simp only [BitVec.toNat_ofNat]
        omega
      have hrestore := Device.restore_save hkind
      have hkeep : (inState c d).device.kind = d.device.kind := (Device.of_restore hrestore).1
      obtain ⟨n', hrun, hn'⟩ := ih (hn.of_layout_eq (hn.layout_setCard hd hkeep)) hslots hlt
        (fun s => by
          rw [card?_setCard hd]
          split
          · next h => rw [h, hc, Option.map_some, hkeep, hkind, Option.map_some]
          · exact hk s)
      refine ⟨n', ?_, fun s => ?_⟩
      · rw [List.filterMap_cons_some (by rw [hc]; rfl), restoreCards]
        simp only [htoNat, hd, hrestore]
        exact hrun
      · rw [hn', card?_setCard hd]
        by_cases h : s = slot
        · simp [h, hslot, hc, hd]
        · simp [h]

/-- A map accepts the saved states of any map of its outline and then holds them. -/
theorem Valid.restoreEach_save (hm : m.Valid) (hn : n.Valid)
    (h : n.layout.outline = m.layout.outline) :
    ∃ n', n.restoreEach m.savePeripherals m.saveCards = (n', none) ∧
      (∀ id, n'.peripheral? id = m.peripheral? id) ∧
      ∀ slot, n'.card? slot = (m.card? slot).bind fun c => (n.card? slot).map (inState c) := by
  obtain ⟨hperipheral, hcard⟩ := hm.map_kind_eq hn h
  have horder : n.order = m.order := congrArg Layout.order h
  obtain ⟨n₁, hrun₁, hn₁⟩ := restorePeripherals_save m.order hn
    (fun id hid => hm.mem_order_iff.mp hid) hperipheral
  have hkeeps := keeps_restorePeripherals m.order m.savePeripherals hn
  have hcards := card?_restorePeripherals m.order m.savePeripherals n
  rw [savePeripherals, hrun₁] at hkeeps hcards
  have hv₁ : n₁.Valid := hn.of_layout_eq hkeeps.layout_eq
  obtain ⟨n₂, hrun₂, hn₂⟩ := restoreCards_save (m := m) (List.range slotCount) hv₁ List.nodup_range
    (fun s hs => List.mem_range.mp hs) (fun s => by rw [hcards, hcard])
  have hperipherals := peripheral?_restoreCards m.saveCards hv₁
  rw [saveCards, hrun₂] at hperipherals
  refine ⟨n₂, ?_, fun id => ?_, fun slot => ?_⟩
  · rw [restoreEach, horder, savePeripherals, hrun₁]
    exact hrun₂
  · rw [hperipherals, hn₁]
    split
    · rfl
    · next hid =>
      have hnone : m.peripheral? id = none := by
        cases hp : m.peripheral? id with
        | none => rfl
        | some p => exact absurd (hm.mem_order_iff.mpr (by rw [hp]; rfl)) hid
      have hnone' := hperipheral id
      rw [hnone, Option.map_none, Option.map_eq_none_iff] at hnone'
      rw [hnone, hnone']
  · rw [hn₂, hcards]
    split
    · rfl
    · next hslot =>
      have hlt : ¬slot < slotCount := fun h => hslot (List.mem_range.mpr h)
      rw [card?_eq, card?_eq, if_neg hlt, if_neg hlt]
      rfl

theorem inState_self (c : Card) : inState c c = c := by
  rw [inState, Device.withTrace_trace]

/-- A map that takes its own states over stays as it is. -/
theorem Valid.restore_save_self (hm : m.Valid) :
    m.restore m.savePeripherals m.saveCards = (m, none) := by
  obtain ⟨n, hrun, hperipheral, hcard⟩ := hm.restoreEach_save hm rfl
  have hkeeps := keeps_restoreEach hm m.savePeripherals m.saveCards
  rw [hrun] at hkeeps
  have hn : n = m := by
    refine hm.eq_of_layout_eq hkeeps.layout_eq hkeeps.ram_eq hperipheral fun slot => ?_
    rw [hcard]
    cases m.card? slot with
    | none => rfl
    | some c => rw [Option.bind_some, Option.map_some, inState_self]
  rw [restore, hrun, hn]

/-! ### Refused states -/

/-- Restoring is taken back as a whole, wherever a state was refused. -/
theorem Valid.restore_of_error (hm : m.Valid) {peripherals : List Bytes} {cards : List CardState}
    {e : RestoreError} (h : (m.restore peripherals cards).2 = some e) :
    (m.restore peripherals cards).1 = m := by
  have hkeeps := keeps_restoreEach hm peripherals cards
  simp only [restore] at h ⊢
  split at h
  · cases h
  · next m' e' he =>
    rw [he] at hkeeps
    have hv := hm.of_layout_eq hkeeps.layout_eq
    obtain ⟨n, hrun, hperipheral, hcard⟩ :=
      hm.restoreEach_save hv (congrArg Layout.outline hkeeps.layout_eq)
    have hback := hkeeps.trans (keeps_restoreEach hv m.savePeripherals m.saveCards)
    rw [hrun] at hback
    simp only [hrun]
    refine hm.eq_of_layout_eq hback.layout_eq hback.ram_eq hperipheral fun slot => ?_
    have htrace := hkeeps.trace_eq slot
    rw [hcard]
    cases hc : m.card? slot with
    | none => rfl
    | some c =>
      rw [hc, Option.map_some, Option.map_eq_some_iff] at htrace
      obtain ⟨d, hd, htrace⟩ := htrace
      rw [Option.bind_some, hd, Option.map_some, inState, htrace, Device.withTrace_trace]

end Microcomputer.MemoryMap
