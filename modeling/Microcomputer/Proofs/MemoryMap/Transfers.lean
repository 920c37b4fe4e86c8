import Microcomputer.Proofs.Device.Commits
import Microcomputer.Proofs.MemoryMap.Arrangement
import Microcomputer.Proofs.MemoryMap.Resolution

/-! Transfers to and from the control block of a card. Bytes, half-words and words are read and
written at any addresses; what of them meets the block is one sequence of bytes, which alone tells
what the device receives and what the block keeps: `commits_buffered`. -/

namespace Microcomputer.MemoryMap

open Memory (length_readBytes spread writeEach)

variable {m : MemoryMap} {slot : Nat} {c : Card} {a : Word}

/-! ### One byte -/

/-- The offset of an address in the block of a slot, if it has one. -/
def offset? (slot : Nat) (a : Word) : Option Nat :=
  let n := (Address.ofWord a).toNat
  if slotBase slot ≤ n ∧ n < slotBase slot + ControlBlock.size then some (n - slotBase slot)
  else none

theorem lt_size_of_offset? {offset : Nat} (h : offset? slot a = some offset) :
    offset < ControlBlock.size := by
  obtain ⟨hin, hoffset⟩ := Option.ite_none_right_eq_some.mp h
  have heq := Option.some.inj hoffset
  omega

theorem replace_content (m : MemoryMap) (r : Region) : m.replace r r.content = m := by
  have hsame (s : Region) : (if s = r then { s with content := r.content } else s) = s := by
    split
    · next h => rw [h]
    · rfl
  rw [replace]
  simp only [hsame, List.map_id']

/-- The card in a slot and the region that leads to it, where an address is in its block or not. -/
theorem Valid.offset?_cases (hm : m.Valid) (hc : m.card? slot = some c) (a : Word) :
    ∃ r ∈ m.regions, r.content = .card c ∧ r.span.start = slotBase slot ∧
      ((∃ offset, offset? slot a = some offset ∧
          m.Leads (a.toNat % 0x1000000) (.region r) ∧
          a.toNat % 0x1000000 - r.span.start = offset) ∨
        offset? slot a = none ∧ ¬r.span.contains (a.toNat % 0x1000000)) := by
  obtain ⟨-, r, hr, hcontent, hstart, hstop⟩ := hm.arranged.of_slot slot c hc
  refine ⟨r, hr, hcontent, hstart, ?_⟩
  have hcontains : r.span.contains (a.toNat % 0x1000000) ↔ slotBase slot ≤ a.toNat % 0x1000000 ∧
      a.toNat % 0x1000000 < slotBase slot + ControlBlock.size := by
    rw [Interval.contains_iff, hstart, hstop, ControlBlock.size]
    omega
  simp only [offset?, toNat_ofWord, ← hcontains]
  by_cases h : r.span.contains (a.toNat % 0x1000000)
  · obtain ⟨-, hram, hrom⟩ := hm.outside_of_contains hr h
    obtain ⟨hfirst, hlast⟩ := Interval.contains_iff.mp h
    refine .inl ⟨_, if_pos h, .region r ?_ hrom hr hfirst hlast, by rw [hstart]⟩
    simpa [Ram.contains] using hram
  · exact .inr ⟨if_neg h, h⟩

theorem Valid.readByte_card (hm : m.Valid) (hc : m.card? slot = some c) (a : Word) :
    (m.readByte a).2.card? slot = some c ∧
      ∀ offset, offset? slot a = some offset →
        (m.readByte a).1 = ControlBlock.read c.device offset := by
  obtain ⟨r, hr, hcontent, hstart, ⟨offset, hoffset, hleads, hplace⟩ | ⟨hnone, hout⟩⟩ :=
    hm.offset?_cases hc a
  · rw [hm.readByte_eq hleads, Target.read, hplace, hcontent]
    refine ⟨?_, fun o ho => ?_⟩
    · have hself : Region.Content.card c = r.content := hcontent.symm
      change (m.replace r (.card c)).card? slot = some c
      rw [hself, replace_content, hc]
    · obtain rfl := Option.some.inj (ho.symm.trans hoffset)
      rfl
  · refine ⟨?_, fun o ho => absurd (hnone.symm.trans ho) (Option.some_ne_none o).symm⟩
    obtain ⟨hslot, -⟩ := hm.card?_eq_some_iff.mp hc
    have hkeep := (hm.sameBut_readByte a).1
    exact (hm.of_layout_eq hkeep.layout_eq).card?_eq_some_iff.mpr
      ⟨hslot, r, hkeep.regions r hr hout, hstart, hcontent⟩

theorem Valid.card?_writeByte (hm : m.Valid) (hc : m.card? slot = some c) (a : Word) (b : Byte) :
    (m.writeByte a b).card? slot =
      some (c.receive ((offset? slot a).map fun offset => (offset, b)).toList) := by
  have hvalid := hm.of_layout_eq (hm.layout_writeByte a b)
  obtain ⟨hslot, -⟩ := hm.card?_eq_some_iff.mp hc
  obtain ⟨r, hr, hcontent, hstart, ⟨offset, hoffset, hleads, hplace⟩ | ⟨hnone, hout⟩⟩ :=
    hm.offset?_cases hc a
  · let written : Region := { r with content := .card (c.write offset b) }
    have hmem : written ∈ (m.writeByte a b).regions := by
      rw [hm.writeByte_eq b hleads, Target.write, hplace, hcontent]
      exact List.mem_map.mpr ⟨r, hr, if_pos rfl⟩
    rw [hoffset]
    exact hvalid.card?_eq_some_iff.mpr ⟨hslot, written, hmem, hstart, rfl⟩
  · rw [hnone]
    exact hvalid.card?_eq_some_iff.mpr
      ⟨hslot, r, (hm.sameBut_writeByte a b).regions r hr hout, hstart, hcontent⟩

/-! ### Several bytes -/

/-- The bytes of some that meet the block of a slot, with their offsets there. -/
def blockWrites (slot : Nat) (ws : List (Word × Byte)) : List (Nat × Byte) :=
  ws.filterMap fun w => (offset? slot w.1).map fun offset => (offset, w.2)

theorem Valid.card?_writeEach (hm : m.Valid) (hc : m.card? slot = some c)
    (ws : List (Word × Byte)) :
    (writeEach m ws).Valid ∧
      (writeEach m ws).card? slot = some (c.receive (blockWrites slot ws)) := by
  induction ws generalizing m c with
  | nil => exact ⟨hm, hc⟩
  | cons w ws ih =>
    have hvalid := hm.of_layout_eq (hm.layout_writeByte w.1 w.2)
    obtain ⟨hall, hcard⟩ := ih hvalid (hm.card?_writeByte hc w.1 w.2)
    refine ⟨hall, hcard.trans (congrArg some ?_)⟩
    rw [Card.receive, Card.receive, ← List.foldl_append, Card.receive, blockWrites, blockWrites,
      List.filterMap_cons]
    cases offset? slot w.1 <;> rfl

theorem Valid.readBytes_card (hm : m.Valid) (hc : m.card? slot = some c) (n : Nat) (a : Word) :
    (Memory.readBytes n m a).2.Valid ∧ (Memory.readBytes n m a).2.card? slot = some c ∧
      ∀ k < n, ∀ offset, offset? slot (a + BitVec.ofNat 32 k) = some offset →
        (Memory.readBytes n m a).1[k]? = some (ControlBlock.read c.device offset) := by
  induction n generalizing m a with
  | zero => exact ⟨hm, hc, nofun⟩
  | succ n ih =>
    obtain ⟨hcard, hread⟩ := hm.readByte_card hc a
    obtain ⟨hvalid, hlast, hrest⟩ := ih (hm.of_layout_eq (hm.layout_readByte a)) hcard (a + 1)
    refine ⟨hvalid, hlast, fun k hk offset hoffset => ?_⟩
    cases k with
    | zero =>
      rw [Memory.nth_zero] at hoffset
      exact congrArg some (hread offset hoffset)
    | succ k =>
      rw [Memory.nth_succ] at hoffset
      exact hrest k (Nat.lt_of_succ_lt_succ hk) offset hoffset

/-! ### Transfers -/

/-- One access of a program to memory. -/
inductive Transfer where
  | readByte (a : Word)
  | readHalf (a : Word)
  | readWord (a : Word)
  | writeByte (a : Word) (x : Byte)
  | writeHalf (a : Word) (x : Half)
  | writeWord (a : Word) (x : Word)

namespace Transfer

def run : Transfer → MemoryMap → MemoryMap
  | readByte a, m => (Memory.readByte m a).2
  | readHalf a, m => (Memory.readHalf m a).2
  | readWord a, m => (Memory.readWord m a).2
  | writeByte a x, m => Memory.writeByte m a x
  | writeHalf a x, m => Memory.writeHalf m a x
  | writeWord a x, m => Memory.writeWord m a x

def address : Transfer → Word
  | readByte a | readHalf a | readWord a => a
  | writeByte a _ | writeHalf a _ | writeWord a _ => a

/-- The bytes that are written, with their addresses. -/
def written : Transfer → List (Word × Byte)
  | writeByte a x => spread 1 a x
  | writeHalf a x => spread 2 a x
  | writeWord a x => spread 4 a x
  | readByte _ | readHalf _ | readWord _ => []

/-- The bytes of what is read, low byte first. -/
def returned : Transfer → MemoryMap → Bytes
  | readByte a, m => LittleEndian.ofWord (Memory.readByte m a).1
  | readHalf a, m => LittleEndian.ofWord (Memory.readHalf m a).1
  | readWord a, m => LittleEndian.ofWord (Memory.readWord m a).1
  | writeByte _ _, _ | writeHalf _ _, _ | writeWord _ _, _ => []

/-- A transfer writes its bytes one by one, or it reads them one by one. -/
theorem run_cases (t : Transfer) (m : MemoryMap) :
    (t.run m = writeEach m t.written ∧ t.returned m = []) ∨
      ∃ n, t.written = [] ∧ Memory.readBytes n m t.address = (t.returned m, t.run m) := by
  cases t with
  | readByte a =>
    have hone := LittleEndian.ofWord_byte (Memory.readByte m a).1
    exact .inr ⟨1, rfl, congrArg (·, (Memory.readByte m a).2) hone.symm⟩
  | readHalf a => exact .inr ⟨2, rfl, Memory.readBytes_two m a⟩
  | readWord a => exact .inr ⟨4, rfl, Memory.readBytes_four m a⟩
  | writeByte a x =>
    refine .inl ⟨?_, rfl⟩
    have hone := Memory.writeBytes_eq_writeEach m a 1 x
    rwa [show LittleEndian.encode 1 x.toNat = [x] from LittleEndian.ofWord_byte x] at hone
  | writeHalf a x => exact .inl ⟨Memory.writeBytes_eq_writeEach m a 2 x, rfl⟩
  | writeWord a x => exact .inl ⟨Memory.writeBytes_eq_writeEach m a 4 x, rfl⟩

end Transfer

/-- The map after transfers. -/
def transfer (ts : List Transfer) (m : MemoryMap) : MemoryMap := ts.foldl (fun m t => t.run m) m

theorem Valid.card?_run (hm : m.Valid) (hc : m.card? slot = some c) (t : Transfer) :
    (t.run m).Valid ∧ (t.run m).card? slot = some (c.receive (blockWrites slot t.written)) := by
  rcases t.run_cases m with ⟨hrun, -⟩ | ⟨n, hwritten, hread⟩
  · rw [hrun]
    exact hm.card?_writeEach hc t.written
  · obtain ⟨hvalid, hcard, -⟩ := hm.readBytes_card hc n t.address
    rw [hread] at hvalid hcard
    rw [hwritten]
    exact ⟨hvalid, hcard⟩

/-- A transfer that writes nothing reads what the device shows, and leaves its card alone. -/
theorem Valid.reads_card (hm : m.Valid) (hc : m.card? slot = some c) {t : Transfer}
    (ht : t.written = []) :
    (t.run m).card? slot = some c ∧
      ∀ k < (t.returned m).length, ∀ offset,
        offset? slot (t.address + BitVec.ofNat 32 k) = some offset →
        (t.returned m)[k]? = some (ControlBlock.read c.device offset) := by
  have hcard := (hm.card?_run hc t).2
  rw [ht] at hcard
  refine ⟨hcard, fun k hk offset hoffset => ?_⟩
  rcases t.run_cases m with ⟨-, hnone⟩ | ⟨n, -, hread⟩
  · rw [hnone] at hk
    exact absurd hk (Nat.not_lt_zero k)
  · have hlength := length_readBytes n m t.address
    obtain ⟨-, -, hshown⟩ := hm.readBytes_card hc n t.address
    rw [hread] at hlength hshown
    exact hshown k (hlength ▸ hk) offset hoffset

/-- A card receives the bytes of all transfers that meet its block. -/
theorem Valid.card?_transfer (hm : m.Valid) (hc : m.card? slot = some c) (ts : List Transfer) :
    (transfer ts m).Valid ∧ (transfer ts m).card? slot =
      some (c.receive (blockWrites slot (ts.flatMap Transfer.written))) := by
  induction ts generalizing m c with
  | nil => exact ⟨hm, hc⟩
  | cons t ts ih =>
    obtain ⟨hvalid, hcard⟩ := hm.card?_run hc t
    obtain ⟨hall, hlast⟩ := ih hvalid hcard
    refine ⟨hall, hlast.trans (congrArg some ?_)⟩
    rw [List.flatMap_cons, blockWrites, blockWrites, blockWrites, List.filterMap_append]
    exact List.foldl_append.symm

/-! ### The protocol of the block -/

/-- The device `d` has just come into a slot or back to its first state: it was attached, or the
map was reset and `d` is what that makes of the device there. -/
inductive Begins (slot : Nat) (d : Device) : MemoryMap → Prop where
  | attached {m m' : MemoryMap} (reachable : m.Reachable) (attach : m.attach slot d = .ok m') :
    Begins slot d m'
  | reset {m : MemoryMap} {c : Card} (reachable : m.Reachable) (card : m.card? slot = some c)
    (device : c.device.reset = d) : Begins slot d m.reset

theorem Begins.card?_eq {d : Device} (h : Begins slot d m) :
    m.Valid ∧ m.card? slot = some (.new d) := by
  cases h with
  | attached reachable attach =>
    have hvalid := reachable.valid.attach attach
    obtain ⟨hslot, -, i, -, hstart, -, rfl⟩ := attach_eq_ok attach
    exact ⟨hvalid, hvalid.card?_eq_some_iff.mpr ⟨hslot, ⟨_, i, .card (.new d)⟩,
      (insertRegion_perm _ _).mem_iff.mpr List.mem_cons_self, hstart, rfl⟩⟩
  | @reset m c reachable card device =>
    have hvalid : m.reset.Valid := reachable.valid.of_layout_eq m.layout_reset
    obtain ⟨hslot, r, hr, hstart, hcontent⟩ := reachable.valid.card?_eq_some_iff.mp card
    refine ⟨hvalid, hvalid.card?_eq_some_iff.mpr
      ⟨hslot, { r with content := r.content.reset }, List.mem_map_of_mem hr, hstart, ?_⟩⟩
    rw [← device, hcontent]
    rfl

/-- The control block commits what is buffered in it. Whatever is read and written at whatever
addresses, from attachment or a reset on, the bytes that meet the block decide what happened: the
block made one call for each byte written at offset 9, a command, and one for each byte written at
the high offset of a data register, which sets it, in order, each composed of this byte and the
last one at the offset below; no other call reached the device, and the block keeps the low bytes.
Reading gives what the block shows of the device, and changes neither; nor does writing at the
first eight offsets. -/
theorem commits_buffered {d : Device} (h : Begins slot d m) (ts : List Transfer) :
    let ws := blockWrites slot (ts.flatMap Transfer.written)
    let received := ControlBlock.calls [] ws
    let now := transfer ts m
    let card : Card := ⟨.kept ws, d.follow received⟩
    now.card? slot = some card ∧
    ControlBlock.zero.issued ws = received ∧
    (∀ e, d = .exerciser e → card.device.trace.commands.toList =
      e.trace.commands.toList ++ received.filterMap Device.Call.commanded?) ∧
    (∀ t : Transfer, t.written = [] → (t.run now).card? slot = some card ∧
      ∀ k < (t.returned now).length, ∀ offset,
        offset? slot (t.address + BitVec.ofNat 32 k) = some offset →
        ∃ b, (t.returned now)[k]? = some b ∧ ControlBlock.Shows card.device offset b) ∧
    ∀ a offset b, offset? slot a = some offset → offset < 8 →
      (now.writeByte a b).card? slot = some card := by
  intro ws received now card
  obtain ⟨hm, hc⟩ := h.card?_eq
  obtain ⟨hvalid, hcard⟩ := hm.card?_transfer hc ts
  have hnow : now.card? slot = some card := by
    refine hcard.trans (congrArg some ?_)
    rw [Card.new, ControlBlock.zero_eq_kept, Card.receive_kept]
    rfl
  have hissued : ControlBlock.zero.issued ws = received := by
    rw [ControlBlock.zero_eq_kept, ControlBlock.issued_kept]
  refine ⟨hnow, hissued, ?_, fun t ht => ?_, fun a offset b ha hlt => ?_⟩
  · rintro e rfl
    obtain ⟨last, hlast, hcommands⟩ := Device.exists_follow e received
    change ((Device.exerciser e).follow received).trace.commands.toList = _
    rw [hlast]
    exact hcommands
  · obtain ⟨hkept, hread⟩ := hvalid.reads_card hnow ht
    exact ⟨hkept, fun k hk offset hoffset => ⟨_, hread k hk offset hoffset,
      ControlBlock.shows_read card.device (lt_size_of_offset? hoffset)⟩⟩
  · rw [hvalid.card?_writeByte hnow, ha]
    refine congrArg some ?_
    change card.write offset b = card
    rw [Card.write, ControlBlock.write_outside _ _ (.inl hlt)]
    rfl

/-- A word from the read-only bytes over the command to register A, a half-word over registers A
and B, and a high byte of the command alone, which is given with the low byte kept before. After a
reset this low byte is forgotten. -/
theorem commits_buffered_straddling :
    (let d : Device := .exerciser (.new ⟨3, 1, 2, 0x1C6C8B36⟩ false 0)
      let m := (Op.attach 3 d).run (new 0 ⟨#[]⟩)
      let ts := [.writeWord 0x110307 0x11223344, .readHalf 0x110308,
        .writeHalf 0x11030B 0x5566, .writeByte 0x12110309 0x77]
      let now := transfer ts m
      ∃ card, now.card? 3 = some card ∧
        ControlBlock.zero.issued (blockWrites 3 (ts.flatMap Transfer.written)) =
          [.command 0x2233, .setRegister 0 0x6611, .command 0x7733] ∧
        card.device.trace.commands.toList = [0x2233, 0x7733] ∧
        card.device.register 0 = 0x6611 ∧ card.block.toBytes = [0x33, 0x11, 0x55, 0, 0, 0] ∧
        (Memory.readWord now 0x110309).2.card? 3 = some card ∧
        (now.writeByte 0x110300 0).card? 3 = some card) ∧
    let d : Device := .exerciser (.new ⟨3, 1, 2, 0x1C6C8B36⟩ false 0)
    let m := run [.attach 3 d, .write 0x110308 0x33] (new 0 ⟨#[]⟩)
    ∃ card, (transfer [.writeByte 0x110309 5] m.reset).card? 3 = some card ∧
      card.device.trace.commands.toList = [0x0500] := by
  constructor
  · intro d m ts now
    have h : Begins 3 d m := .attached (.new 0 ⟨#[]⟩) rfl
    obtain ⟨hcard, hissued, hcommands, hreads, hfirst⟩ := commits_buffered h ts
    refine ⟨_, hcard, hissued.trans (by decide), ?_, by decide, by decide, (hreads (.readWord 0x110309) rfl).1,
      hfirst 0x110300 0 0 rfl (by decide)⟩
    rw [hcommands _ rfl]
    decide
  · intro d m
    have hreachable : m.Reachable := (Reachable.new 0 ⟨#[]⟩).run _
    have hc : m.card? 3 = some ⟨⟨0x33, .replicate 5 0⟩, d⟩ := by decide
    have h : Begins 3 _ m.reset := .reset hreachable hc rfl
    obtain ⟨hcard, -⟩ := commits_buffered h [.writeByte 0x110309 5]
    exact ⟨_, hcard, by decide⟩

end Microcomputer.MemoryMap
