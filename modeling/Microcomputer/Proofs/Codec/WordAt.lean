import Microcomputer.Proofs.Codec.LittleEndian

/-! Words inside a byte string: reading one where it was written, and writing back what
was read. Records of fixed fields are decoded field by field with these. -/

namespace Microcomputer.LittleEndian

variable {w : Nat}

theorem wordAt_append_of_le (w : Nat) (as bs : Bytes) (i : Nat) (h : as.length ≤ i) :
    wordAt w (as ++ bs) i = wordAt w bs (i - as.length) := by
  rw [wordAt, wordAt, List.drop_append, List.drop_eq_nil_of_le h, List.nil_append]

theorem wordAt_drop (w : Nat) (bs : Bytes) (n i : Nat) :
    wordAt w (bs.drop n) i = wordAt w bs (n + i) := by
  rw [wordAt, wordAt, List.drop_drop]

theorem wordAt_ofWord_append (x : BitVec w) (bs : Bytes) (hw : 8 * (w / 8) = w) :
    wordAt w (ofWord x ++ bs) 0 = x := by
  rw [wordAt, List.drop_zero, ← length_ofWord x, List.take_left, toWord_ofWord x hw]

/-- The words after a written one are found past it. -/
theorem wordAt_ofWord_append_of_le {v : Nat} (w : Nat) (x : BitVec v) (bs : Bytes) (i : Nat)
    (h : v / 8 ≤ i) : wordAt w (ofWord x ++ bs) i = wordAt w bs (i - v / 8) := by
  rw [wordAt_append_of_le w _ bs i (by rwa [length_ofWord]), length_ofWord]

theorem wordAt_ofWord (x : BitVec w) (hw : 8 * (w / 8) = w) : wordAt w (ofWord x) 0 = x := by
  simpa using wordAt_ofWord_append x [] hw

theorem ofWord_byte (b : Byte) : ofWord b = [b] := by
  simp [ofWord, encode]

theorem wordAt_cons (b : Byte) (bs : Bytes) : wordAt 8 (b :: bs) 0 = b := by
  rw [← List.singleton_append, ← ofWord_byte]
  exact wordAt_ofWord_append b bs rfl

/-- The word number `i` of an array of words. -/
theorem wordAt_flatMap (xs : List (BitVec w)) (bs : Bytes) (hw : 8 * (w / 8) = w) (i : Nat)
    (hi : i < xs.length) : wordAt w (xs.flatMap ofWord ++ bs) (w / 8 * i) = xs[i] := by
  induction xs generalizing i with
  | nil => simp at hi
  | cons x xs ih =>
    rw [List.flatMap_cons, List.append_assoc]
    cases i with
    | zero => exact wordAt_ofWord_append x _ hw
    | succ i =>
      rw [Nat.mul_succ, wordAt_append_of_le _ _ _ _ (by rw [length_ofWord]; omega), length_ofWord,
        Nat.add_sub_cancel]
      exact ih i (by simpa using hi)

theorem length_flatMap_ofWord (xs : List (BitVec w)) :
    (xs.flatMap ofWord).length = w / 8 * xs.length := by
  induction xs with
  | nil => simp
  | cons x xs ih =>
    rw [List.flatMap_cons, List.length_append, ih, length_ofWord, List.length_cons, Nat.mul_succ,
      Nat.add_comm]

/-- A word that was read is written back as the bytes it was read from. -/
theorem ofWord_wordAt (bs : Bytes) (i : Nat) (hw : 8 * (w / 8) = w) (h : i + w / 8 ≤ bs.length) :
    ofWord (wordAt w bs i) = (bs.drop i).take (w / 8) := by
  apply ofWord_toWord
  rw [List.length_take, List.length_drop, Nat.min_eq_left (by omega), hw]

/-- An array of words that was read is written back as the bytes it was read from. -/
theorem flatMap_ofWord_wordAt (bs : Bytes) (n : Nat) (hw : 8 * (w / 8) = w)
    (h : w / 8 * n ≤ bs.length) :
    (List.ofFn fun i : Fin n => wordAt w bs (w / 8 * i)).flatMap ofWord = bs.take (w / 8 * n) := by
  induction n with
  | zero => simp
  | succ n ih =>
    have hl : w / 8 * n + w / 8 ≤ bs.length := h
    rw [List.ofFn_succ_last, List.flatMap_append]
    simp only [Fin.val_castSucc, List.flatMap_cons, List.flatMap_nil, Fin.val_last, List.append_nil]
    rw [ih (by omega), ofWord_wordAt bs _ hw hl, Nat.mul_succ, List.take_add]

end Microcomputer.LittleEndian
