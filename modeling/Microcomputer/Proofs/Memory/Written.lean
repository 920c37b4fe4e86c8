import Microcomputer.Memory.Access
import Microcomputer.Memory.Address
import Microcomputer.Proofs.Codec.LittleEndian

/-! Bytes written one after the other. A store of several bytes is a list of bytes with their
addresses, in the order in which they are written: `writeBytes_eq_writeEach`. Of a list only the
last entry for an address counts. -/

namespace Microcomputer

/-! ### What came last -/

/-- What a list has last under a key. -/
def lastAt? {κ β : Type} [DecidableEq κ] (k : κ) : List (κ × β) → Option β
  | [] => none
  | e :: es => (lastAt? k es).or (if e.1 = k then some e.2 else none)

theorem lastAt?_append {κ β : Type} [DecidableEq κ] (k : κ) (es fs : List (κ × β)) :
    lastAt? k (es ++ fs) = (lastAt? k fs).or (lastAt? k es) := by
  induction es with
  | nil => rw [List.nil_append, lastAt?, Option.or_none]
  | cons e es ih => rw [List.cons_append, lastAt?, ih, Option.or_assoc, lastAt?]

theorem lastAt?_singleton {κ β : Type} [DecidableEq κ] (k i : κ) (b : β) :
    lastAt? k [(i, b)] = if i = k then some b else none := rfl

namespace Memory

/-- The low bytes of a word, with the addresses at which they are stored. -/
def spread {v : Nat} (n : Nat) (a : Word) (x : BitVec v) : List (Word × Byte) :=
  (List.range n).map fun k => (a + BitVec.ofNat 32 k, x.extractLsb' (8 * k) 8)

/-- Bytes at the places that their addresses denote. -/
def placed (ws : List (Word × Byte)) : List (Address × Byte) :=
  ws.map fun w => (Address.ofWord w.1, w.2)

theorem placed_cons (w : Word × Byte) (ws : List (Word × Byte)) :
    placed (w :: ws) = (Address.ofWord w.1, w.2) :: placed ws := rfl

theorem placed_append (ws vs : List (Word × Byte)) :
    placed (ws ++ vs) = placed ws ++ placed vs := List.map_append

theorem nth_zero (a : Word) : a + BitVec.ofNat 32 0 = a := BitVec.add_zero a

/-- The addresses after the first are those from the next one on. -/
theorem nth_succ (a : Word) (k : Nat) :
    a + BitVec.ofNat 32 (k + 1) = a + 1 + BitVec.ofNat 32 k := by
  rw [Nat.add_comm k 1, BitVec.ofNat_add, BitVec.add_assoc]
  rfl

variable {M : Type} [Memory M]

/-- Memory after bytes are written in order. -/
def writeEach (m : M) (ws : List (Word × Byte)) : M :=
  ws.foldl (fun m w => writeByte m w.1 w.2) m

theorem writeBytes_encode (m : M) (a : Word) (n x : Nat) :
    writeBytes m a (LittleEndian.encode n x) = writeEach m ((List.range n).map fun k =>
      (a + BitVec.ofNat 32 k, BitVec.ofNat 8 (x / 256 ^ k))) := by
  induction n generalizing m a x with
  | zero => rfl
  | succ n ih =>
    have hnext (k : Nat) : (a + BitVec.ofNat 32 (k + 1), BitVec.ofNat 8 (x / 256 ^ (k + 1))) =
        (a + 1 + BitVec.ofNat 32 k, BitVec.ofNat 8 (x / 256 / 256 ^ k)) := by
      rw [nth_succ, Nat.pow_succ', Nat.div_div_eq_div_mul]
    rw [LittleEndian.encode, writeBytes, ih, List.range_succ_eq_map, List.map_cons, List.map_map]
    simp only [Function.comp_def, Nat.succ_eq_add_one, hnext, Nat.pow_zero, Nat.div_one, nth_zero]
    rfl

/-- A word is written as its low bytes are. -/
theorem writeBytes_eq_writeEach {v : Nat} (m : M) (a : Word) (n : Nat) (x : BitVec v) :
    writeBytes m a (LittleEndian.encode n x.toNat) = writeEach m (spread n a x) := by
  simp only [writeBytes_encode, spread, LittleEndian.extractLsb'_eq_ofNat]

theorem length_readBytes (n : Nat) (m : M) (a : Word) : (readBytes n m a).1.length = n := by
  induction n generalizing m a with
  | zero => rfl
  | succ n ih => exact congrArg (· + 1) (ih _ _)

/-- A half-word is read as its bytes are. -/
theorem readBytes_two (m : M) (a : Word) :
    readBytes 2 m a = (LittleEndian.ofWord (readHalf m a).1, (readHalf m a).2) :=
  have hbytes : LittleEndian.ofWord (readHalf m a).1 = (readBytes 2 m a).1 :=
    LittleEndian.ofWord_toWord _ (congrArg (8 * ·) (length_readBytes 2 m a))
  Prod.ext hbytes.symm rfl

theorem readBytes_four (m : M) (a : Word) :
    readBytes 4 m a = (LittleEndian.ofWord (readWord m a).1, (readWord m a).2) :=
  have hbytes : LittleEndian.ofWord (readWord m a).1 = (readBytes 4 m a).1 :=
    LittleEndian.ofWord_toWord _ (congrArg (8 * ·) (length_readBytes 4 m a))
  Prod.ext hbytes.symm rfl

end Memory

end Microcomputer
