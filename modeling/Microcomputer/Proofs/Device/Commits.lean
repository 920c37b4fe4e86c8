import Microcomputer.Proofs.Memory.Written
import Microcomputer.Proofs.MemoryMap.Reachable

/-! The half-words that a control block commits. Low bytes are kept until the high byte of their
half-word is written, which alone reaches the device; they are not forgotten then. So what the
device receives is told by the bytes that were written last: `Card.receive_kept`. -/

namespace Microcomputer

/-- The command that a call gives. -/
def Device.Call.commanded? : Call → Option Half
  | command c => some c
  | _ => none

/-- The device after calls one after the other. -/
def Device.follow (d : Device) (calls : List Call) : Device := calls.foldl (fun d c => c.run d) d

/-- An exerciser records the commands that it is given, and nothing else among them. -/
theorem Device.Call.exists_run (c : Call) (e : Exerciser) :
    ∃ e', c.run (.exerciser e) = .exerciser e' ∧
      e'.trace.commands.toList = e.trace.commands.toList ++ c.commanded?.toList := by
  have hnone : e.trace.commands.toList = e.trace.commands.toList ++ [] := (List.append_nil _).symm
  cases c with
  | reset => exact ⟨e.reset, rfl, hnone⟩
  | command x =>
    refine ⟨e.command x, rfl, ?_⟩
    have hpush : (e.command x).trace.commands = e.trace.commands.push x := by
      unfold Exerciser.command
      dsimp only
      repeat' split
      all_goals rfl
    rw [hpush, Array.toList_push]
    rfl
  | setRegister i x => exact ⟨_, rfl, hnone⟩
  | tick n =>
    refine ⟨e.tick n, rfl, ?_⟩
    unfold Exerciser.tick
    dsimp only
    split <;> exact hnone
  | acknowledge => exact ⟨e.acknowledge, rfl, hnone⟩
  | restore bs =>
    cases h : e.restore bs with
    | error err =>
      refine ⟨e, ?_, hnone⟩
      rw [run, Device.restore, h]
      rfl
    | ok e' =>
      refine ⟨e', ?_, ?_⟩
      · rw [run, Device.restore, h]
        rfl
      · unfold Exerciser.restore at h
        split at h
        · obtain rfl := Except.ok.inj h
          exact hnone
        · cases h

theorem Device.exists_follow (e : Exerciser) (calls : List Call) :
    ∃ e', (exerciser e).follow calls = exerciser e' ∧
      e'.trace.commands.toList = e.trace.commands.toList ++ calls.filterMap Call.commanded? := by
  induction calls generalizing e with
  | nil => exact ⟨e, rfl, (List.append_nil _).symm⟩
  | cons c calls ih =>
    obtain ⟨one, hone, hcommands⟩ := c.exists_run e
    obtain ⟨last, hfollow, hall⟩ := ih one
    refine ⟨last, ?_, ?_⟩
    · rw [follow, List.foldl_cons, hone]
      exact hfollow
    · rw [hall, hcommands, List.append_assoc]
      cases c <;> rfl

namespace ControlBlock

/-! ### What bytes amount to -/

/-- The byte that was written last at an offset, zero where none was. -/
def lastByte (ws : List (Nat × Byte)) (offset : Nat) : Byte := (lastAt? offset ws).getD 0

/-- The half-word of two bytes. -/
def whole (low high : Byte) : Half := BitVec.ofNat 16 (256 * high.toNat + low.toNat)

/-- The register whose high byte is at an offset. -/
def register? (offset : Nat) : Option (Fin 5) :=
  (List.finRange 5).find? fun i => 0x0B + 2 * i.val == offset

/-- The call that the write of a byte leads to after others. -/
def call? (before : List (Nat × Byte)) (w : Nat × Byte) : Option Device.Call :=
  if w.1 = 9 then some (.command (whole (lastByte before 8) w.2))
  else (register? w.1).map fun i =>
    .setRegister i (whole (lastByte before (0x0A + 2 * i.val)) w.2)

/-- The calls that writes lead to after others. -/
def calls : List (Nat × Byte) → List (Nat × Byte) → List Device.Call
  | _, [] => []
  | before, w :: ws => (call? before w).toList ++ calls (before ++ [w]) ws

/-- The calls that a block makes while bytes are written to it. -/
def issued : ControlBlock → List (Nat × Byte) → List Device.Call
  | _, [] => []
  | b, w :: ws => (b.write w.1 w.2).2.toList ++ issued (b.write w.1 w.2).1 ws

/-- A block in which these bytes were written. -/
def kept (ws : List (Nat × Byte)) : ControlBlock :=
  ⟨lastByte ws 8, Vector.ofFn fun i => lastByte ws (0x0A + 2 * i.val)⟩

theorem register?_eq_some_iff {offset : Nat} {i : Fin 5} :
    register? offset = some i ↔ 0x0B + 2 * i.val = offset := by
  have hnodup : ((List.finRange 5).map fun i => 0x0B + 2 * i.val).Nodup := by decide
  exact (find?_key_eq_some_iff hnodup).trans (and_iff_right (List.mem_finRange i))

theorem whole_eq_append (low high : Byte) : whole low high = high ++ low := by
  apply BitVec.eq_of_toNat_eq
  have hlow := low.isLt
  have hhigh := high.isLt
  rw [whole, BitVec.toNat_append, ← Nat.shiftLeft_add_eq_or_of_lt hlow, Nat.shiftLeft_eq,
    BitVec.toNat_ofNat]
  omega

theorem lastByte_append (ws : List (Nat × Byte)) (w : Nat × Byte) (offset : Nat) :
    lastByte (ws ++ [w]) offset = if w.1 = offset then w.2 else lastByte ws offset := by
  rw [lastByte, lastAt?_append, lastAt?_singleton]
  split <;> rfl

/-! ### One write -/

/-- A byte is the low or the high one of the command or of a register, or it cannot be written. -/
theorem offset_cases (offset : Nat) :
    offset = 8 ∨ offset = 9 ∨ (∃ i : Fin 5, offset = 0x0A + 2 * i.val) ∨
      (∃ i : Fin 5, offset = 0x0B + 2 * i.val) ∨ offset < 8 ∨ 20 ≤ offset := by
  by_cases h : 10 ≤ offset ∧ offset < 20
  · rcases Nat.mod_two_eq_zero_or_one offset with heven | hodd
    · exact .inr (.inr (.inl ⟨⟨(offset - 10) / 2, by omega⟩, by dsimp only; omega⟩))
    · exact .inr (.inr (.inr (.inl ⟨⟨(offset - 11) / 2, by omega⟩, by dsimp only; omega⟩)))
  · omega

variable (b : ControlBlock) (i : Fin 5) (x : Byte)

theorem write_low :
    b.write (0x0A + 2 * i.val) x =
      ({ b with registers := b.registers.set i.val x i.isLt }, none) := by
  have hi := i.isLt
  have hindex : (0x0A + 2 * i.val - 10) / 2 = i.val := by omega
  rw [write, if_neg (by omega), if_neg (by omega), dif_pos (by omega)]
  simp only [hindex]
  rw [if_pos (by omega)]

theorem write_high :
    b.write (0x0B + 2 * i.val) x = (b, some (.setRegister i (x ++ b.registers.get i))) := by
  have hi := i.isLt
  have hindex : (0x0B + 2 * i.val - 10) / 2 = i.val := by omega
  rw [write, if_neg (by omega), if_neg (by omega), dif_pos (by omega)]
  simp only [hindex]
  rw [if_neg (by omega)]
  rfl

/-- At the other offsets nothing is written. -/
theorem write_outside {offset : Nat} (h : offset < 8 ∨ 20 ≤ offset) :
    b.write offset x = (b, none) := by
  rw [write, if_neg (by omega), if_neg (by omega), dif_neg (by omega)]

/-- What is written at no low byte leaves the block as it is. -/
theorem kept_append_of_ne (before : List (Nat × Byte)) {offset : Nat} (x : Byte)
    (hcommand : offset ≠ 8) (hregister : ∀ i : Fin 5, offset ≠ 0x0A + 2 * i.val) :
    kept (before ++ [(offset, x)]) = kept before := by
  rw [kept, kept, lastByte_append, if_neg hcommand]
  congr 2
  funext i
  rw [lastByte_append, if_neg (hregister i)]

theorem kept_append_command (before : List (Nat × Byte)) (x : Byte) :
    kept (before ++ [(8, x)]) = { kept before with command := x } := by
  rw [kept, kept, lastByte_append, if_pos rfl]
  congr 2
  funext i
  rw [lastByte_append, if_neg (by omega)]

theorem kept_append_low (before : List (Nat × Byte)) (i : Fin 5) (x : Byte) :
    kept (before ++ [(0x0A + 2 * i.val, x)]) =
      { kept before with registers := (kept before).registers.set i.val x i.isLt } := by
  rw [kept, kept, lastByte_append, if_neg (by omega)]
  refine congrArg (ControlBlock.mk _) (Vector.ext fun j hj => ?_)
  have hplace : 0x0A + 2 * i.val = 0x0A + 2 * j ↔ i.val = j := by omega
  simp only [Vector.getElem_set, Vector.getElem_ofFn, lastByte_append, hplace]

/-- What is written at no high byte calls nothing. -/
theorem call?_eq_none (before : List (Nat × Byte)) {offset : Nat} (x : Byte)
    (hcommand : offset ≠ 9) (hregister : ∀ i : Fin 5, offset ≠ 0x0B + 2 * i.val) :
    call? before (offset, x) = none := by
  rw [call?, if_neg hcommand, Option.map_eq_none_iff, Option.eq_none_iff_forall_ne_some]
  exact fun i hi => hregister i (register?_eq_some_iff.mp hi).symm

theorem call?_high (before : List (Nat × Byte)) (i : Fin 5) (x : Byte) :
    call? before (0x0B + 2 * i.val, x) =
      some (.setRegister i (x ++ (kept before).registers.get i)) := by
  have hlow : (kept before).registers.get i = lastByte before (0x0A + 2 * i.val) :=
    Vector.getElem_ofFn i.isLt
  rw [call?, if_neg (by omega), register?_eq_some_iff.mpr rfl, Option.map_some, whole_eq_append,
    hlow]

/-- A write from a block that other writes left. Its low byte is kept, its high byte commits what
the low one was last. -/
theorem write_kept (before : List (Nat × Byte)) (w : Nat × Byte) :
    (kept before).write w.1 w.2 = (kept (before ++ [w]), call? before w) := by
  obtain ⟨offset, x⟩ := w
  rcases offset_cases offset with rfl | rfl | ⟨i, rfl⟩ | ⟨i, rfl⟩ | hout
  · rw [kept_append_command, call?_eq_none _ _ (by decide) (by omega)]
    rfl
  · rw [kept_append_of_ne _ _ (by decide) (by omega), call?, if_pos rfl, whole_eq_append]
    rfl
  · rw [kept_append_low, call?_eq_none _ _ (by omega) (by omega), write_low]
  · rw [kept_append_of_ne _ _ (by omega) (by omega), call?_high, write_high]
  · rw [kept_append_of_ne _ _ (by omega) (by omega), call?_eq_none _ _ (by omega) (by omega),
      write_outside _ _ hout]

/-- The calls that a block makes are those that the bytes tell, one for each high byte. -/
theorem issued_kept (before ws : List (Nat × Byte)) :
    (kept before).issued ws = calls before ws := by
  induction ws generalizing before with
  | nil => rfl
  | cons w ws ih => rw [issued, calls, write_kept, ih]

theorem zero_eq_kept : zero = kept [] :=
  congrArg (ControlBlock.mk 0) (Vector.ext fun j hj => by
    rw [Vector.getElem_replicate, Vector.getElem_ofFn]
    rfl)

/-! ### What a block shows -/

/-- The bytes that a program reads at the offsets of a block. -/
inductive Shows (d : Device) : Nat → Byte → Prop where
  | presence : Shows d 0 0xFF
  | kind : Shows d 1 d.identity.kind
  | subkind : Shows d 2 d.identity.subkind
  | number : Shows d 3 d.identity.number
  | vendor (k : Nat) (h : k < 4) : Shows d (4 + k) (d.identity.vendor.extractLsb' (8 * k) 8)
  /-- The command register cannot be read. -/
  | command (offset : Nat) (h : offset = 8 ∨ offset = 9) : Shows d offset 0
  | low (i : Fin 5) : Shows d (0x0A + 2 * i.val) ((d.register i).extractLsb' 0 8)
  | high (i : Fin 5) : Shows d (0x0B + 2 * i.val) ((d.register i).extractLsb' 8 8)

/-- The bytes of a half-word stand in the register that begins at an offset. -/
theorem read_register (d : Device) (i : Fin 5) {k : Nat} (hk : k < 2) :
    read d (0x0A + 2 * i.val + k) = (d.register i).extractLsb' (8 * k) 8 := by
  have hview : (view d)[0x0A + 2 * i.val + k]? = (LittleEndian.ofWord (d.register i))[k]? := by
    obtain ⟨i, hi⟩ := i
    match i, hi, k, hk with
    | 0, _, 0, _ | 1, _, 0, _ | 2, _, 0, _ | 3, _, 0, _ | 4, _, 0, _ => rfl
    | 0, _, 1, _ | 1, _, 1, _ | 2, _, 1, _ | 3, _, 1, _ | 4, _, 1, _ => rfl
  rw [read, hview, LittleEndian.getElem?_ofWord _ hk]
  rfl

theorem read_vendor (d : Device) {k : Nat} (hk : k < 4) :
    read d (4 + k) = d.identity.vendor.extractLsb' (8 * k) 8 := by
  have hview : (view d)[4 + k]? = (LittleEndian.ofWord d.identity.vendor)[k]? := by
    match k, hk with
    | 0, _ | 1, _ | 2, _ | 3, _ => rfl
  rw [read, hview, LittleEndian.getElem?_ofWord _ hk]
  rfl

theorem shows_read (d : Device) {offset : Nat} (h : offset < size) :
    Shows d offset (read d offset) := by
  rcases offset_cases offset with rfl | rfl | ⟨i, rfl⟩ | ⟨i, rfl⟩ | hfirst | hlast
  · exact .command 8 (.inl rfl)
  · exact .command 9 (.inr rfl)
  · have hlow : read d (0x0A + 2 * i.val) = (d.register i).extractLsb' 0 8 :=
      read_register d i Nat.zero_lt_two
    rw [hlow]
    exact .low i
  · have hhigh : read d (0x0B + 2 * i.val) = (d.register i).extractLsb' 8 8 := by
      rw [show 0x0B + 2 * i.val = 0x0A + 2 * i.val + 1 by omega]
      exact read_register d i Nat.one_lt_two
    rw [hhigh]
    exact .high i
  · match offset, hfirst with
    | 0, _ => exact .presence
    | 1, _ => exact .kind
    | 2, _ => exact .subkind
    | 3, _ => exact .number
    | k + 4, hk =>
      rw [Nat.add_comm, read_vendor d (by omega)]
      exact .vendor k (by omega)
  · exact absurd h (Nat.not_lt.mpr hlast)

end ControlBlock

/-- The card after writes to its block. -/
def Card.receive (c : Card) (ws : List (Nat × Byte)) : Card :=
  ws.foldl (fun c w => c.write w.1 w.2) c

theorem Card.receive_kept (before ws : List (Nat × Byte)) (d : Device) :
    receive ⟨.kept before, d⟩ ws =
      ⟨.kept (before ++ ws), d.follow (ControlBlock.calls before ws)⟩ := by
  induction ws generalizing before d with
  | nil =>
    rw [List.append_nil]
    rfl
  | cons w ws ih =>
    have hwrite : Card.write ⟨.kept before, d⟩ w.1 w.2 =
        ⟨.kept (before ++ [w]), d.follow (ControlBlock.call? before w).toList⟩ := by
      rw [Card.write, ControlBlock.write_kept]
      cases ControlBlock.call? before w <;> rfl
    change receive (Card.write ⟨.kept before, d⟩ w.1 w.2) ws = _
    rw [hwrite, ih, List.append_assoc, ControlBlock.calls, Device.follow, Device.follow,
      Device.follow, List.foldl_append]
    rfl

end Microcomputer
