import Microcomputer.Proofs.MemoryMap.Layout

/-! What can be seen of a device or a region from outside: all of it but the trace of a
device and the name of the region of a card. Where two look alike, they answer alike, and
look alike after whatever is done to both. -/

namespace Microcomputer

/-! ### Devices and cards -/

namespace Device

def visible (d : Device) : Device := d.withTrace .empty

@[simp] theorem kind_visible (d : Device) : d.visible.kind = d.kind := by cases d <;> rfl

@[simp] theorem visible_withTrace (d : Device) (t : Trace) :
    (d.withTrace t).visible = d.visible := by
  cases d <;> rfl

theorem identity_visible (d : Device) : d.visible.identity = d.identity := by cases d <;> rfl

theorem register_visible (d : Device) : d.visible.register = d.register := by cases d <;> rfl

theorem synchronous_visible (d : Device) : d.visible.synchronous = d.synchronous := by
  cases d <;> rfl

theorem interrupt_visible (d : Device) : d.visible.interrupt = d.interrupt := by
  cases d <;> rfl

theorem save_visible (d : Device) : d.visible.save = d.save := by cases d <;> rfl

theorem visible_reset (d : Device) : d.visible.reset.visible = d.reset.visible := by
  cases d <;> rfl

theorem visible_setRegister (d : Device) (i : Fin 5) (x : Half) :
    (d.visible.setRegister i x).visible = (d.setRegister i x).visible := by
  cases d <;> rfl

theorem visible_acknowledge (d : Device) :
    d.visible.acknowledge.visible = d.acknowledge.visible := by
  cases d <;> rfl

theorem visible_command (d : Device) (c : Half) :
    (d.visible.command c).visible = (d.command c).visible := by
  cases d with
  | exerciser e =>
    simp only [visible, withTrace, command, Exerciser.command]
    split
    · rfl
    · split
      · rfl
      · split <;> rfl
  | inert i => rfl

theorem visible_tick (d : Device) (n : Nat) : (d.visible.tick n).visible = (d.tick n).visible := by
  cases d with
  | exerciser e =>
    simp only [visible, withTrace, tick, Exerciser.tick]
    split <;> rfl
  | inert i => rfl

/-- A call does not depend on the trace of a device. -/
theorem Call.visible_run (c : Call) (d : Device) :
    (c.run d.visible).visible = (c.run d).visible := by
  cases c with
  | reset => exact d.visible_reset
  | command x => exact d.visible_command x
  | setRegister i x => exact d.visible_setRegister i x
  | tick n => exact d.visible_tick n
  | acknowledge => exact d.visible_acknowledge
  | restore bs =>
    cases d with
    | exerciser e =>
      by_cases h : bs.length = 11 <;>
        simp [run, Device.restore, visible, withTrace, Exerciser.restore, h, Except.map,
          Except.toOption]
    | inert i => rfl

end Device

theorem ControlBlock.read_visible (d : Device) (offset : Nat) :
    read d.visible offset = read d offset := by
  rw [read, view, Device.identity_visible, Device.register_visible]
  rfl

namespace Card

def visible (c : Card) : Card := { c with device := c.device.visible }

theorem visible_eq {c d : Card} (hb : c.block = d.block)
    (hd : c.device.visible = d.device.visible) : c.visible = d.visible := by
  rw [visible, visible, hb, hd]

theorem of_visible_eq {c d : Card} (h : c.visible = d.visible) :
    c.block = d.block ∧ c.device.visible = d.device.visible := by
  have hb := congrArg block h
  have hd := congrArg device h
  exact ⟨hb, hd⟩

theorem visible_write (c : Card) (offset : Nat) (b : Byte) :
    (c.visible.write offset b).visible = (c.write offset b).visible := by
  refine visible_eq rfl ?_
  change Device.visible (((c.block.write offset b).2.map (·.run c.device.visible)).getD _) = _
  simp only [write]
  cases (c.block.write offset b).2 with
  | none => exact c.device.visible_withTrace _
  | some call => exact call.visible_run c.device

end Card

/-! ### Regions -/

namespace Region

def Content.visible : Content → Content
  | .peripheral p => .peripheral p
  | .card c => .card c.visible

def visible (r : Region) : Region :=
  { r with id := if r.content.kind.isCard then 0 else r.id, content := r.content.visible }

namespace Content

variable {c d : Content}

@[simp] theorem kind_visible (c : Content) : c.visible.kind = c.kind := by
  cases c with
  | peripheral p => rfl
  | card c => simp [visible, kind, Card.visible]

theorem kind_eq_of_visible_eq (h : c.visible = d.visible) : c.kind = d.kind := by
  rw [← c.kind_visible, h, d.kind_visible]

/-- Contents that look alike are one peripheral or two cards. -/
theorem cases_of_visible_eq (h : c.visible = d.visible) :
    (∃ p, c = peripheral p ∧ d = peripheral p) ∨
      ∃ j k, c = card j ∧ d = card k ∧ j.visible = k.visible := by
  rcases cases_of_kind_eq (kind_eq_of_visible_eq h) with ⟨p, q, rfl, rfl⟩ | ⟨j, k, rfl, rfl⟩
  · cases h
    exact .inl ⟨p, rfl, rfl⟩
  · exact .inr ⟨j, k, rfl, rfl, card.inj h⟩

theorem read_visible (h : c.visible = d.visible) (offset : Nat) :
    (c.read offset).1 = (d.read offset).1 ∧
      (c.read offset).2.visible = (d.read offset).2.visible := by
  rcases cases_of_visible_eq h with ⟨p, rfl, rfl⟩ | ⟨j, k, rfl, rfl, hjk⟩
  · exact ⟨rfl, rfl⟩
  · obtain ⟨-, hd⟩ := Card.of_visible_eq hjk
    refine ⟨?_, h⟩
    simp only [read]
    rw [← ControlBlock.read_visible, hd, ControlBlock.read_visible]

theorem write_visible (h : c.visible = d.visible) (offset : Nat) (b : Byte) :
    (c.write offset b).visible = (d.write offset b).visible := by
  rcases cases_of_visible_eq h with ⟨p, rfl, rfl⟩ | ⟨j, k, rfl, rfl, hjk⟩
  · rfl
  · refine congrArg card ?_
    rw [← Card.visible_write, hjk, Card.visible_write]

theorem tick_visible (h : c.visible = d.visible) (n : Nat) (elapsed : Binary64) :
    (c.tick n elapsed).visible = (d.tick n elapsed).visible := by
  rcases cases_of_visible_eq h with ⟨p, rfl, rfl⟩ | ⟨j, k, rfl, rfl, hjk⟩
  · rfl
  · obtain ⟨hb, hd⟩ := Card.of_visible_eq hjk
    have hs : j.device.synchronous = k.device.synchronous := by
      rw [← Device.synchronous_visible, hd, Device.synchronous_visible]
    simp only [tick, Card.tick, hs]
    split
    · refine congrArg card (Card.visible_eq hb ?_)
      rw [← Device.visible_tick, hd, Device.visible_tick]
    · exact h

theorem reset_visible (h : c.visible = d.visible) : c.reset.visible = d.reset.visible := by
  rcases cases_of_visible_eq h with ⟨p, rfl, rfl⟩ | ⟨j, k, rfl, rfl, hjk⟩
  · rfl
  · obtain ⟨-, hd⟩ := Card.of_visible_eq hjk
    refine congrArg card (Card.visible_eq rfl ?_)
    simp only [Card.reset, Card.new]
    rw [← Device.visible_reset, hd, Device.visible_reset]

end Content

theorem of_visible_eq {r s : Region} (h : r.visible = s.visible) :
    r.span = s.span ∧ r.content.visible = s.content.visible := by
  have hspan := congrArg Region.span h
  have hcontent := congrArg Region.content h
  exact ⟨hspan, hcontent⟩

theorem id_eq_of_visible_eq {r s : Region} (h : r.visible = s.visible)
    (hr : r.content.kind.isCard = false) : r.id = s.id := by
  have hs : s.content.kind.isCard = false := by
    rw [← Content.kind_eq_of_visible_eq (of_visible_eq h).2, hr]
  have hid : (if r.content.kind.isCard then 0 else r.id) =
      if s.content.kind.isCard then 0 else s.id := congrArg Region.id h
  rwa [hr, hs] at hid

end Region

end Microcomputer
