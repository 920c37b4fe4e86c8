import Microcomputer.Processor.Record
import Microcomputer.Proofs.Codec.WordAt

/-! The record of the processor. A state is recovered from its record, and a byte string
of the right size is the record of the state read from it once the five bits without a
meaning are cleared: `ofBytes_eq_ok_iff`. -/

namespace Microcomputer.Processor.State

open LittleEndian

/-- A byte string with the meaningless bits of the byte of state bits cleared. -/
def clearUnused (bs : Bytes) : Bytes := bs.modify (recordSize - 1) (· &&& 7)

theorem length_toBytes (s : State) : s.toBytes.length = recordSize := by
  simp only [toBytes, List.length_append, length_flatMap_ofWord, length_ofWord,
    Vector.length_toList]
  rfl

theorem bits_getElem (s : State) :
    s.bits[0] = s.pending ∧ s.bits[1] = s.skipping ∧ s.bits[2] = s.sleeping := by
  unfold bits
  cases s.pending <;> cases s.skipping <;> cases s.sleeping <;> decide

/-- The byte of state bits of a state that took its state bits from the byte `b`. -/
theorem bits_of_byte (b : Byte) :
    BitVec.ofNat 8 ((b.getLsbD 0).toNat + 2 * (b.getLsbD 1).toNat + 4 * (b.getLsbD 2).toNat) =
      b &&& 7 := by
  revert b
  decide

theorem ofBytes_toBytes (s : State) : ofBytes s.toBytes = .ok s := by
  obtain ⟨hp, hk, hl⟩ := bits_getElem s
  have hr (i : Fin 32) : wordAt 32 s.toBytes (4 * i) = s.registers.words[i] := by
    simp only [toBytes, List.append_assoc]
    exact wordAt_flatMap s.registers.words.toList _ rfl i (by simp)
  -- past the registers, fields are counted from the program counter on
  have hf (w i : Nat) (bs : Bytes) (hi : 128 ≤ i) :
      wordAt w (s.registers.words.toList.flatMap ofWord ++ bs) i = wordAt w bs (i - 128) := by
    have hn : (s.registers.words.toList.flatMap ofWord).length = 128 := by
      rw [length_flatMap_ofWord, Vector.length_toList]
    rw [wordAt_append_of_le _ _ _ _ (by omega), hn]
  rw [ofBytes, if_pos s.length_toBytes]
  simp only [hr]
  simp [toBytes, hf, wordAt_ofWord_append, wordAt_ofWord_append_of_le, wordAt_cons, hp, hk, hl]

theorem exists_ofBytes {bs : Bytes} (h : bs.length = recordSize) : ∃ s, ofBytes bs = .ok s :=
  ⟨_, by rw [ofBytes, if_pos h]⟩

theorem length_of_ofBytes {bs : Bytes} {s : State} (h : ofBytes bs = .ok s) :
    bs.length = recordSize := by
  unfold ofBytes at h
  split at h
  · assumption
  · contradiction

/-- Writing back a record that was read clears the bits without a meaning. -/
theorem toBytes_of_ofBytes {bs : Bytes} {s : State} (h : ofBytes bs = .ok s) :
    s.toBytes = clearUnused bs := by
  have hn := length_of_ofBytes h
  rw [ofBytes, if_pos hn] at h
  obtain rfl := Except.ok.inj h
  have hl : bs.length = 147 := hn
  have hb : wordAt 8 bs 146 = bs[146] := by
    have := ofWord_wordAt (w := 8) bs 146 rfl (by omega)
    rw [List.drop_eq_getElem_cons (by omega), ofWord_byte] at this
    exact (List.cons.inj this).1
  have hr : (List.ofFn fun i : Fin 32 => wordAt 32 bs (4 * i)).flatMap ofWord = bs.take 128 :=
    flatMap_ofWord_wordAt bs 32 rfl (by omega)
  have hpc : ofWord (wordAt 32 bs 128) = (bs.drop 128).take 4 := ofWord_wordAt bs 128 rfl (by omega)
  have hwait : ofWord (wordAt 32 bs 132) = (bs.drop 132).take 4 :=
    ofWord_wordAt bs 132 rfl (by omega)
  have hcycles : ofWord (wordAt 64 bs 136) = (bs.drop 136).take 8 :=
    ofWord_wordAt bs 136 rfl (by omega)
  have hmessage : ofWord (wordAt 16 bs 144) = (bs.drop 144).take 2 :=
    ofWord_wordAt bs 144 rfl (by omega)
  simp only [toBytes, bits, Vector.toList_ofFn, hr, hb, hpc, hwait, hcycles, hmessage, bits_of_byte]
  rw [← List.take_add, ← List.take_add, ← List.take_add, ← List.take_add, clearUnused,
    List.modify_eq_take_cons_drop (by simp only [recordSize]; omega),
    List.drop_eq_nil_of_le (by simp only [recordSize]; omega)]
  rfl

theorem ofBytes_eq_ok_iff {bs : Bytes} {s : State} :
    ofBytes bs = .ok s ↔ bs.length = recordSize ∧ clearUnused bs = s.toBytes := by
  constructor
  · intro h
    exact ⟨length_of_ofBytes h, (toBytes_of_ofBytes h).symm⟩
  · rintro ⟨hn, hs⟩
    obtain ⟨t, ht⟩ := exists_ofBytes hn
    rw [ht, ← ofBytes_toBytes t, toBytes_of_ofBytes ht, hs, ofBytes_toBytes]

theorem clearUnused_toBytes (s : State) : clearUnused s.toBytes = s.toBytes :=
  (toBytes_of_ofBytes (ofBytes_toBytes s)).symm

/-- What follows a record is left alone. -/
theorem clearUnused_eq_append (bs : Bytes) :
    clearUnused bs = clearUnused (bs.take recordSize) ++ bs.drop recordSize := by
  rw [← List.take_append_drop recordSize (clearUnused bs), clearUnused,
    List.take_modify, List.drop_modify_of_lt _ _ _ _ (by decide)]
  rfl

end Microcomputer.Processor.State
