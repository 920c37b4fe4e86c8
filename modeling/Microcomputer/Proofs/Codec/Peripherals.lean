import Microcomputer.Device
import Microcomputer.Peripheral
import Microcomputer.Proofs.Codec.WordAt

/-! Peripherals and devices against their saved states. A saved state holds everything
about a peripheral but its kind, so a peripheral of the same kind takes the state over
whole, whatever its own state was: `restore_save`. A device takes over all but its
trace. -/

namespace Microcomputer

open LittleEndian

/-! ### Peripherals -/

namespace Counter

theorem length_toBytes (c : Counter) : c.toBytes.length = 9 := by
  simp [toBytes, length_ofWord]

theorem startingAt_toBytes_append (c : Counter) (bs : Bytes) :
    startingAt (c.toBytes ++ bs) 0 = c := by
  obtain ⟨reload, count, pending⟩ := c
  simp only [startingAt, toBytes, List.append_assoc]
  simp [wordAt_ofWord_append, wordAt_ofWord_append_of_le, wordAt_cons]
  cases pending <;> rfl

theorem startingAt_append_of_le (as bs : Bytes) (i : Nat) (h : as.length ≤ i) :
    startingAt (as ++ bs) i = startingAt bs (i - as.length) := by
  simp only [startingAt]
  rw [wordAt_append_of_le _ _ _ _ h, wordAt_append_of_le _ _ _ _ (by omega),
    wordAt_append_of_le _ _ _ _ (by omega), Nat.sub_add_comm h, Nat.sub_add_comm h]

end Counter

theorem IntervalTimer.length_toBytes (t : IntervalTimer) : t.toBytes.length = 19 := by
  simp [toBytes, Counter.length_toBytes]

theorem IntervalTimer.ofBytes_toBytes (t : IntervalTimer) : ofBytes t.toBytes = .ok t := by
  have hsecond : Counter.startingAt (t.first.toBytes ++ (t.second.toBytes ++ [t.control])) 9 =
      t.second := by
    rw [Counter.startingAt_append_of_le _ _ _ (Nat.le_of_eq t.first.length_toBytes),
      t.first.length_toBytes]
    exact Counter.startingAt_toBytes_append _ _
  have hcontrol : wordAt 8 (t.first.toBytes ++ t.second.toBytes ++ [t.control]) 18 = t.control := by
    have hc : (t.first.toBytes ++ t.second.toBytes).length = 18 := by
      simp [Counter.length_toBytes]
    rw [wordAt_append_of_le _ _ _ _ (Nat.le_of_eq hc), hc]
    exact wordAt_cons _ _
  rw [ofBytes, if_pos t.length_toBytes, toBytes, hcontrol, List.append_assoc, hsecond,
    Counter.startingAt_toBytes_append]

theorem ToneGenerator.ofBytes_toBytes (g : ToneGenerator) : ofBytes g.toBytes = .ok g := by
  rw [ofBytes, toBytes, if_pos (length_ofWord _), toWord_ofWord _ rfl]

theorem WallClock.length_toBytes (c : WallClock) : c.toBytes.length = 24 := by
  simp [toBytes, length_ofWord]

theorem WallClock.ofBytes_toBytes (c : WallClock) : ofBytes c.toBytes = .ok c := by
  rw [ofBytes, if_pos c.length_toBytes]
  simp [toBytes, wordAt_ofWord_append, wordAt_ofWord_append_of_le, wordAt_ofWord]

namespace RandomSource

theorem toBytes_eq (r : RandomSource) :
    r.toBytes = ofWord r.seed ++ (r.stream.key.toList.flatMap ofWord ++
      (encode 16 r.stream.position.toNat ++ (ofWord r.value ++ ofWord r.buffer))) := by
  simp only [toBytes, List.append_assoc]

theorem length_key (r : RandomSource) : (r.stream.key.toList.flatMap ofWord).length = 32 := by
  rw [length_flatMap_ofWord, Vector.length_toList]

/-- The position has 68 bits, and the sixteen bytes of a saved position hold more. -/
theorem toWord_encode_position (x : BitVec 68) : toWord 68 (encode 16 x.toNat) = x := by
  apply BitVec.eq_of_toNat_eq
  have hx : x.toNat < 256 ^ 16 := Nat.lt_trans x.isLt (by decide)
  rw [toWord, decode_encode, Nat.mod_eq_of_lt hx, BitVec.toNat_ofNat, Nat.mod_eq_of_lt x.isLt]

theorem length_toBytes (r : RandomSource) : r.toBytes.length = 64 := by
  simp only [toBytes_eq, List.length_append, length_ofWord, length_key, length_encode]

theorem ofBytes_toBytes (r : RandomSource) : ofBytes r.toBytes = .ok r := by
  have hkey (i : Fin 8) : wordAt 32 r.toBytes (8 + 4 * i) = r.stream.key[i] := by
    rw [toBytes_eq, wordAt_ofWord_append_of_le _ _ _ _ (Nat.le_add_right _ _),
      Nat.add_sub_cancel_left]
    exact wordAt_flatMap r.stream.key.toList _ rfl i (by simp)
  have hdrop : r.toBytes.drop 40 =
      encode 16 r.stream.position.toNat ++ (ofWord r.value ++ ofWord r.buffer) := by
    have hn : (ofWord r.seed ++ r.stream.key.toList.flatMap ofWord).length = 40 := by
      rw [List.length_append, length_ofWord, length_key]
    rw [toBytes_eq, ← List.append_assoc, ← hn, List.drop_left]
  have hposition : toWord 68 ((r.toBytes.drop 40).take 16) = r.stream.position := by
    rw [hdrop, List.take_left' (length_encode _ _), toWord_encode_position]
  have hfields (i : Nat) : wordAt 32 r.toBytes (40 + (16 + i)) =
      wordAt 32 (ofWord r.value ++ ofWord r.buffer) i := by
    rw [← wordAt_drop, hdrop, wordAt_append_of_le _ _ _ _ (by simp), length_encode,
      Nat.add_sub_cancel_left]
  have hvalue : wordAt 32 r.toBytes 56 = r.value :=
    (hfields 0).trans (wordAt_ofWord_append _ _ rfl)
  have hbuffer : wordAt 32 r.toBytes 60 = r.buffer := by
    rw [hfields 4, wordAt_ofWord_append_of_le _ _ _ _ (by decide)]
    exact wordAt_ofWord _ rfl
  have hseed : wordAt 64 r.toBytes 0 = r.seed := by
    rw [toBytes_eq, wordAt_ofWord_append _ _ rfl]
  rw [ofBytes, if_pos r.length_toBytes, hposition, hvalue, hbuffer, hseed]
  simp only [hkey]
  simp

end RandomSource

theorem exists_of_map_eq_ok {ε α β : Type} {f : α → β} {x : Except ε α} {b : β}
    (h : x.map f = .ok b) : ∃ a, x = .ok a ∧ f a = b := by
  cases x with
  | error e => contradiction
  | ok a => exact ⟨a, rfl, Except.ok.inj h⟩

namespace Peripheral

/-- What a peripheral is, whatever its state. -/
inductive Kind where
  | timer
  | tone
  | clock
  | random
  | scratchpad (size : Nat) (message : Option Half)
  | ramp
deriving DecidableEq

def kind : Peripheral → Kind
  | timer _ => .timer
  | tone _ => .tone
  | clock _ => .clock
  | random _ => .random
  | scratchpad s => .scratchpad s.bytes.length s.message
  | ramp => .ramp

@[simp] theorem kind_read (p : Peripheral) (i : Nat) : (p.read i).2.kind = p.kind := by
  cases p <;> rfl

@[simp] theorem kind_write (p : Peripheral) (i : Nat) (b : Byte) : (p.write i b).kind = p.kind := by
  cases p with
  | scratchpad s => simp [write, kind, Scratchpad.write]
  | _ => rfl

@[simp] theorem kind_reset (p : Peripheral) : p.reset.kind = p.kind := by
  cases p with
  | scratchpad s => simp [reset, kind, Scratchpad.reset, Scratchpad.zero]
  | _ => rfl

@[simp] theorem kind_tick (p : Peripheral) (n : Nat) (elapsed : Binary64) :
    (p.tick n elapsed).kind = p.kind := by
  cases p <;> rfl

@[simp] theorem kind_acknowledge (p : Peripheral) : p.acknowledge.kind = p.kind := by
  cases p with
  | scratchpad s => simp [acknowledge, kind, Scratchpad.acknowledge, Scratchpad.write]
  | _ => rfl

theorem kind_of_restore {p q : Peripheral} {bs : Bytes} (h : p.restore bs = .ok q) :
    q.kind = p.kind := by
  cases p with
  | ramp => cases h; rfl
  | scratchpad s =>
    simp only [restore, Scratchpad.restore] at h
    split at h
    · rename_i hl
      obtain rfl := Except.ok.inj h
      simp only [kind, hl]
    · contradiction
  | timer t | tone t | clock t | random t =>
    simp only [restore] at h
    obtain ⟨t', -, rfl⟩ := exists_of_map_eq_ok h
    rfl

/-- A peripheral takes the saved state of one of its kind over, whatever its own was. -/
theorem restore_save {p q : Peripheral} (h : q.kind = p.kind) : q.restore p.save = .ok p := by
  cases p with
  | timer t =>
    cases q with
    | timer t' =>
      rw [restore, save, t.ofBytes_toBytes]
      rfl
    | _ => cases h
  | tone g =>
    cases q with
    | tone g' =>
      rw [restore, save, g.ofBytes_toBytes]
      rfl
    | _ => cases h
  | clock c =>
    cases q with
    | clock c' =>
      rw [restore, save, c.ofBytes_toBytes]
      rfl
    | _ => cases h
  | random r =>
    cases q with
    | random r' =>
      rw [restore, save, r.ofBytes_toBytes]
      rfl
    | _ => cases h
  | scratchpad s =>
    cases q with
    | scratchpad s' =>
      obtain ⟨hl, hm⟩ := Kind.scratchpad.inj h
      rw [restore, save, Scratchpad.restore, if_pos hl.symm, hm]
      rfl
    | _ => cases h
  | ramp =>
    cases q with
    | ramp => rfl
    | _ => cases h

/-- Bytes of the saved states of a kind. -/
def Kind.savedSize : Kind → Nat
  | .timer => 19
  | .tone => 2
  | .clock => 24
  | .random => 64
  | .scratchpad size _ => size
  | .ramp => 0

theorem length_save (p : Peripheral) : p.save.length = p.kind.savedSize := by
  cases p with
  | timer t => exact t.length_toBytes
  | tone g => exact length_ofWord _
  | clock c => exact c.length_toBytes
  | random r => exact r.length_toBytes
  | scratchpad s => rfl
  | ramp => rfl

end Peripheral

/-! ### Devices -/

namespace Exerciser

theorem length_registers (e : Exerciser) : (e.registers.toList.flatMap ofWord).length = 10 := by
  rw [length_flatMap_ofWord, Vector.length_toList]

theorem length_toBytes (e : Exerciser) : e.toBytes.length = 11 := by
  rw [toBytes, List.length_append, length_registers]
  rfl

theorem restore_toBytes (e f : Exerciser) :
    f.restore e.toBytes = .ok { f with registers := e.registers, raised := e.raised } := by
  have hregister (i : Fin 5) : wordAt 16 e.toBytes (2 * i) = e.registers[i] :=
    wordAt_flatMap e.registers.toList _ rfl i (by simp)
  have hraised : wordAt 8 e.toBytes 10 = BitVec.ofNat 8 e.raised.toNat := by
    rw [toBytes, wordAt_append_of_le _ _ _ _ (Nat.le_of_eq e.length_registers), length_registers]
    exact wordAt_cons _ _
  rw [restore, if_pos e.length_toBytes, hraised]
  simp only [hregister]
  cases e.raised <;> simp

end Exerciser

namespace Device

/-- What a device is, whatever its state and its trace. -/
inductive Kind where
  | exerciser (identity : Identity) (synchronous : Bool) (message : Half)
  | inert (identity : Identity)
deriving DecidableEq

def kind : Device → Kind
  | exerciser e => .exerciser e.identity e.synchronous e.message
  | inert i => .inert i

/-- The device with another trace. -/
def withTrace (d : Device) (t : Trace) : Device :=
  match d with
  | exerciser e => exerciser { e with trace := t }
  | inert i => inert i

@[simp] theorem kind_reset (d : Device) : d.reset.kind = d.kind := by
  cases d <;> rfl

@[simp] theorem kind_command (d : Device) (c : Half) : (d.command c).kind = d.kind := by
  cases d with
  | exerciser e =>
    simp only [command, Exerciser.command]
    split
    · rfl
    · split
      · rfl
      · split <;> rfl
  | inert i => rfl

@[simp] theorem kind_setRegister (d : Device) (i : Fin 5) (x : Half) :
    (d.setRegister i x).kind = d.kind := by
  cases d <;> rfl

@[simp] theorem kind_tick (d : Device) (n : Nat) : (d.tick n).kind = d.kind := by
  cases d with
  | exerciser e =>
    simp only [tick, Exerciser.tick]
    split <;> rfl
  | inert i => rfl

@[simp] theorem kind_acknowledge (d : Device) : d.acknowledge.kind = d.kind := by
  cases d <;> rfl

theorem of_restore {d e : Device} {bs : Bytes} (h : d.restore bs = .ok e) :
    e.kind = d.kind ∧ e.trace = d.trace := by
  cases d with
  | exerciser x =>
    obtain ⟨y, hy, rfl⟩ := exists_of_map_eq_ok h
    simp only [Exerciser.restore] at hy
    split at hy
    · obtain rfl := Except.ok.inj hy
      exact ⟨rfl, rfl⟩
    · contradiction
  | inert i =>
    obtain rfl := Except.ok.inj h
    exact ⟨rfl, rfl⟩

/-- A device takes the saved state of one of its kind over and keeps its own trace. -/
theorem restore_save {d e : Device} (h : e.kind = d.kind) :
    e.restore d.save = .ok (d.withTrace e.trace) := by
  cases d with
  | exerciser x =>
    cases e with
    | exerciser y =>
      obtain ⟨hi, hs, hm⟩ := Kind.exerciser.inj h
      rw [restore, save, Exerciser.restore_toBytes, withTrace, hi, hs, hm]
      rfl
    | inert i => cases h
  | inert i =>
    cases e with
    | exerciser y => cases h
    | inert j => rw [restore, Kind.inert.inj h, withTrace]

theorem length_save_le (d : Device) : d.save.length ≤ 11 := by
  cases d with
  | exerciser e => exact Nat.le_of_eq e.length_toBytes
  | inert i => exact Nat.zero_le 11

@[simp] theorem withTrace_trace (d : Device) : d.withTrace d.trace = d := by
  cases d <;> rfl

end Device

end Microcomputer
