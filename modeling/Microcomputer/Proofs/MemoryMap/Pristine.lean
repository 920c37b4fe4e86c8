import Microcomputer.Proofs.MemoryMap.Origin

/-! Memory maps to which nothing has happened yet. A map of newly built peripherals is what a reset
makes of it: `New.reset_eq`. With devices in its slots, of which the control blocks keep nothing
yet, a reset is one of the devices, slot after slot: `Pristine.run_deviceResets`. -/

namespace Microcomputer

/-- A peripheral as it is built. -/
inductive Peripheral.New : Peripheral → Prop where
  | timer : New (.timer .zero)
  | tone : New (.tone .silent)
  | clock (epoch : DoubleWord) : New (.clock (.startingAt epoch))
  | random (seed : DoubleWord) : New (.random (.ofSeed seed))
  | scratchpad (size : Nat) (message : Option Half) : New (.scratchpad (.zero size message))
  | ramp : New .ramp

/-- A reset gives a newly built peripheral back. -/
theorem Peripheral.New.reset_eq {p : Peripheral} (h : p.New) : p.reset = p := by
  cases h with
  | scratchpad size message =>
    exact congrArg (fun n => Peripheral.scratchpad (.zero n message)) List.length_replicate
  | _ => rfl

/-- As it is mapped, whatever device is plugged in. -/
def Region.Content.Pristine : Content → Prop
  | peripheral p => p.New
  | card c => c.block = .zero

namespace MemoryMap

variable {m n : MemoryMap}

/-! ### Calls to devices -/

theorem card?_call (m : MemoryMap) (slot : Nat) (c : Device.Call) (s : Nat) :
    (m.call slot c).card? s =
      if s = slot then (m.card? s).map fun k => { k with device := c.run k.device }
      else m.card? s := by
  cases hc : m.card? slot with
  | none =>
    have hcall : m.call slot c = m := by simp only [call, hc]
    rw [hcall]
    split
    · next h => rw [h, hc, Option.map_none]
    · rfl
  | some k =>
    have hcall : m.call slot c = m.setCard slot { k with device := c.run k.device } := by
      simp only [call, hc]
    rw [hcall, card?_setCard hc]
    split
    · next h => rw [h, hc, Option.map_some]
    · rfl

theorem Valid.peripheral?_call (hm : m.Valid) (slot : Nat) (c : Device.Call) (id : RegionId) :
    (m.call slot c).peripheral? id = m.peripheral? id := by
  unfold call
  split
  · next k hk => exact hm.peripheral?_setCard hk (c.kind_run k.device) id
  · rfl

/-- Resets of the devices in slots, and of nothing else. -/
def resets (slots : List Nat) : List Op := slots.map fun slot => .call slot .reset

theorem card?_run_resets (m : MemoryMap) {slots : List Nat} (h : slots.Nodup) (s : Nat) :
    (run (resets slots) m).card? s =
      if s ∈ slots then (m.card? s).map fun k => { k with device := k.device.reset }
      else m.card? s := by
  induction slots generalizing m with
  | nil => rfl
  | cons slot slots ih =>
    obtain ⟨hslot, hnodup⟩ := List.nodup_cons.mp h
    refine (ih (m.call slot .reset) hnodup).trans ?_
    rw [card?_call]
    by_cases hs : s = slot
    · subst hs
      rw [if_neg hslot, if_pos rfl, if_pos List.mem_cons_self]
      rfl
    · simp only [List.mem_cons, hs, false_or, if_false]

/-- They leave everything else of a map as it is. -/
theorem run_resets_frame (hm : m.Valid) (slots : List Nat) :
    (run (resets slots) m).layout = m.layout ∧ (run (resets slots) m).ram = m.ram ∧
      ∀ id, (run (resets slots) m).peripheral? id = m.peripheral? id := by
  induction slots generalizing m with
  | nil => exact ⟨rfl, rfl, fun _ => rfl⟩
  | cons slot slots ih =>
    have hlayout := hm.layout_call slot .reset
    obtain ⟨hlast, hram, hperipheral⟩ := ih (m := m.call slot .reset) (hm.of_layout_eq hlayout)
    exact ⟨hlast.trans hlayout, hram.trans (m.ram_call slot .reset),
      fun id => (hperipheral id).trans (hm.peripheral?_call slot .reset id)⟩

/-! ### New maps -/

/-- Newly built peripherals are all that is mapped. -/
def New (m : MemoryMap) : Prop := ∀ r ∈ m.regions, ∃ p, r.content = .peripheral p ∧ p.New

theorem new_new (size : Nat) (rom : Rom) : (MemoryMap.new size rom).New :=
  fun _ hr => absurd hr List.not_mem_nil

theorem New.withRegion (h : m.New) (i : Interval) {p : Peripheral} (hp : p.New) :
    (m.withRegion i (.peripheral p)).New := by
  intro r hr
  rcases List.mem_cons.mp ((insertRegion_perm _ _).mem_iff.mp hr) with rfl | hr
  · exact ⟨p, rfl, hp⟩
  · exact h r hr

/-- A reset gives a new map back. -/
theorem New.reset_eq (h : m.New) : m.reset = m := by
  have hregions : m.regions.map (fun r => { r with content := r.content.reset }) =
      m.regions.map id := by
    refine List.map_congr_left fun r hr => ?_
    obtain ⟨p, hp, hnew⟩ := h r hr
    have hcontent : r.content.reset = r.content := by
      rw [hp]
      exact congrArg Region.Content.peripheral hnew.reset_eq
    rw [hcontent]
    rfl
  rw [MemoryMap.reset, mapContents, hregions, List.map_id]

/-! ### Pristine maps -/

/-- Nothing has happened to what is mapped. -/
def Pristine (m : MemoryMap) : Prop := ∀ r ∈ m.regions, r.content.Pristine

theorem New.pristine (h : m.New) : m.Pristine := by
  intro r hr
  obtain ⟨p, hp, hnew⟩ := h r hr
  rw [hp]
  exact hnew

theorem Pristine.withRegion (h : m.Pristine) (i : Interval) {c : Region.Content}
    (hc : c.Pristine) : (m.withRegion i c).Pristine := by
  intro r hr
  rcases List.mem_cons.mp ((insertRegion_perm _ _).mem_iff.mp hr) with rfl | hr
  · exact hc
  · exact h r hr

/-- A device comes without anything kept. -/
theorem Pristine.attach (h : m.Pristine) (slot : Nat) (d : Device) :
    ((Op.attach slot d).run m).Pristine := by
  rw [Op.run]
  cases hr : m.attach slot d with
  | error e => exact h
  | ok n =>
    obtain ⟨-, -, i, -, -, -, rfl⟩ := attach_eq_ok hr
    exact h.withRegion i rfl

theorem Pristine.detach (h : m.Pristine) (slot : Nat) : ((Op.detach slot).run m).Pristine := by
  rw [Op.run]
  cases hr : m.detach slot with
  | none => exact h
  | some q =>
    obtain ⟨c, -, hc⟩ := Option.bind_eq_some_iff.mp hr
    obtain rfl := Option.some.inj hc
    exact fun r hr => h r (List.mem_filter.mp hr).1

theorem Pristine.op (h : m.Pristine) {op : Op} (hop : op.plugs) : (op.run m).Pristine := by
  cases op with
  | attach slot d => exact h.attach slot d
  | detach slot => exact h.detach slot
  | _ => cases hop

/-- Resets of the devices in all slots. -/
def deviceResets : List Op := resets (List.range slotCount)

theorem Pristine.run_deviceResets (h : m.Pristine) (hm : m.Valid) :
    run deviceResets m = m.reset := by
  have hvalid : m.reset.Valid := hm.of_layout_eq m.layout_reset
  obtain ⟨hlayout, hram, hperipheral⟩ := run_resets_frame hm (List.range slotCount)
  rw [deviceResets]
  refine hvalid.eq_of_layout_eq (hlayout.trans m.layout_reset.symm) hram (fun id => ?_) fun s => ?_
  · rw [hperipheral, MemoryMap.reset,
      hm.peripheral?_mapContents fun r _ => r.content.kind_reset, hm.peripheral?_eq]
    refine Option.bind_congr fun r hr => ?_
    have hpristine := h r (hm.named?_eq_some_iff.mp hr).1
    cases hc : r.content with
    | card c => rfl
    | peripheral p =>
      rw [hc] at hpristine
      exact congrArg some hpristine.reset_eq.symm
  · rw [card?_run_resets m List.nodup_range, MemoryMap.reset, card?_mapContents, card?_eq]
    by_cases hs : s < slotCount
    · rw [if_pos (List.mem_range.mpr hs), if_pos hs, if_pos hs, Option.map_bind]
      refine Option.bind_congr fun r hr => ?_
      have hpristine := h r (hm.startingAt?_eq_some_iff.mp hr).1
      change r.content.card?.map _ = r.content.reset.card?
      cases hc : r.content with
      | peripheral p => rfl
      | card c =>
        rw [hc] at hpristine
        exact congrArg (fun b => some (Card.mk b c.device.reset)) hpristine
    · rw [if_neg (mt List.mem_range.mp hs), if_neg hs, if_neg hs]

end MemoryMap

end Microcomputer
