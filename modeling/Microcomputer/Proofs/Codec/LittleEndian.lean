import Mathlib.Algebra.Group.Nat.Defs
import Microcomputer.LittleEndian

/-! Little-endian byte strings and numbers. Main statements: `decode_encode` and
`encode_decode`, which make `encode n` and `decode` inverse between numbers below
`256 ^ n` and byte strings of length `n`, and for words of whole bytes `toWord_ofWord`
and `ofWord_toWord`. -/

namespace Microcomputer.LittleEndian

@[simp] theorem length_encode (n x : Nat) : (encode n x).length = n := by
  induction n generalizing x with
  | zero => rfl
  | succ n ih => simp [encode, ih]

theorem decode_encode (n x : Nat) : decode (encode n x) = x % 256 ^ n := by
  induction n generalizing x with
  | zero => simp [encode, decode, Nat.mod_one]
  | succ n ih =>
    rw [encode, decode, ih, Nat.pow_succ, Nat.mul_comm (256 ^ n), Nat.mod_mul]
    simp

theorem decode_lt (bs : Bytes) : decode bs < 256 ^ bs.length := by
  induction bs with
  | nil => simp [decode]
  | cons b bs ih =>
    have := b.isLt
    simp only [decode, List.length_cons, Nat.pow_succ]
    omega

theorem encode_decode (bs : Bytes) : encode bs.length (decode bs) = bs := by
  induction bs with
  | nil => rfl
  | cons b bs ih =>
    have hb := b.isLt
    have hd : (b.toNat + 256 * decode bs) / 256 = decode bs := by omega
    have hm : BitVec.ofNat 8 (b.toNat + 256 * decode bs) = b := by
      apply BitVec.eq_of_toNat_eq
      simp only [BitVec.toNat_ofNat]
      omega
    rw [List.length_cons, decode, encode, hd, ih, hm]

theorem getElem?_encode (x : Nat) {n k : Nat} (h : k < n) :
    (encode n x)[k]? = some (BitVec.ofNat 8 (x / 256 ^ k)) := by
  induction n generalizing x k with
  | zero => exact absurd h (Nat.not_lt_zero k)
  | succ n ih =>
    cases k with
    | zero => rw [encode, List.getElem?_cons_zero, Nat.pow_zero, Nat.div_one]
    | succ k =>
      rw [encode, List.getElem?_cons_succ, ih _ (Nat.lt_of_succ_lt_succ h), Nat.pow_succ',
        Nat.div_div_eq_div_mul]

theorem extractLsb'_eq_ofNat {w : Nat} (x : BitVec w) (k : Nat) :
    x.extractLsb' (8 * k) 8 = BitVec.ofNat 8 (x.toNat / 256 ^ k) := by
  rw [BitVec.extractLsb', Nat.shiftRight_eq_div_pow, Nat.pow_mul]

theorem getElem?_ofWord {w : Nat} (x : BitVec w) {k : Nat} (h : k < w / 8) :
    (ofWord x)[k]? = some (x.extractLsb' (8 * k) 8) := by
  rw [ofWord, getElem?_encode _ h, extractLsb'_eq_ofNat]

theorem length_ofWord {w : Nat} (x : BitVec w) : (ofWord x).length = w / 8 :=
  length_encode _ _

@[simp] theorem toWord_ofWord {w : Nat} (x : BitVec w) (hw : 8 * (w / 8) = w) :
    toWord w (ofWord x) = x := by
  apply BitVec.eq_of_toNat_eq
  rw [toWord, ofWord, decode_encode, BitVec.toNat_ofNat, show 256 = 2 ^ 8 from rfl,
    ← Nat.pow_mul, hw, Nat.mod_mod, Nat.mod_eq_of_lt x.isLt]

theorem ofWord_toWord {w : Nat} (bs : Bytes) (hw : 8 * bs.length = w) :
    ofWord (toWord w bs) = bs := by
  have hl : decode bs < 2 ^ w := by
    rw [← hw, Nat.pow_mul]
    exact decode_lt bs
  have hd : w / 8 = bs.length := by omega
  rw [ofWord, toWord, BitVec.toNat_ofNat, Nat.mod_eq_of_lt hl, hd, encode_decode]

theorem toNat_toWord (bs : Bytes) {w : Nat} (h : 8 * bs.length ≤ w) :
    (toWord w bs).toNat = decode bs := by
  have hlt : decode bs < 2 ^ w := by
    refine Nat.lt_of_lt_of_le (decode_lt bs) ?_
    rw [show 256 = 2 ^ 8 from rfl, ← Nat.pow_mul]
    exact Nat.pow_le_pow_right (by decide) h
  rw [toWord, BitVec.toNat_ofNat, Nat.mod_eq_of_lt hlt]

theorem byteAt_setByteAt {w : Nat} (x : BitVec w) (hw : 8 * (w / 8) = w) (i j : Nat) (b : Byte) :
    byteAt (setByteAt x i b) j = if i = j ∧ i < w / 8 then b else byteAt x j := by
  rw [byteAt, setByteAt, ofWord_toWord _ (by simpa [length_ofWord] using hw),
    List.getElem?_set, length_ofWord]
  by_cases h : i = j
  · subst h
    by_cases hi : i < w / 8 <;> simp [hi, byteAt]
    simp [length_ofWord, Nat.le_of_not_lt hi]
  · simp [h, byteAt]

end Microcomputer.LittleEndian
