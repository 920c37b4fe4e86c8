import Microcomputer.Memory.Flat
import Microcomputer.Proofs.Memory.Written

/-! Several bytes of flat memory at once: what is written stands there, in order behind its
address, and reads as it was written. Reading changes nothing. -/

namespace Microcomputer.FlatMemory

/-- Bytes written from an address on stand in order behind it, around the end of the
addresses. -/
theorem byte_writeBytes (m : FlatMemory) (a : Word) (bs : Bytes) (h : bs.length ≤ 0x1000000)
    (i : Address) :
    (Memory.writeBytes m a bs).byte i =
      bs[(i - Address.ofWord a).toNat]?.getD (m.byte i) := by
  induction bs generalizing m a with
  | nil => rfl
  | cons b bs ih =>
    rw [List.length_cons] at h
    have hnext : i - Address.ofWord (a + 1) = i - Address.ofWord a - 1 := by
      simp only [Address.ofWord]
      rw [BitVec.setWidth_add _ _ (by decide)]
      simp only [BitVec.sub_sub]
      rfl
    change (Memory.writeBytes (m.write (Address.ofWord a) b) (a + 1) bs).byte i = _
    rw [ih _ _ (Nat.le_of_succ_le h), hnext, byte_write]
    by_cases hi : Address.ofWord a = i
    · have hlast : bs[(i - i - 1 : Address).toNat]? = none := by
        rw [BitVec.sub_self]
        exact List.getElem?_eq_none (Nat.le_of_succ_le_succ h)
      rw [if_pos hi, hi, hlast, BitVec.sub_self]
      rfl
    · have hpos : (i - Address.ofWord a).toNat ≠ 0 := by bv_omega
      have hpred : (i - Address.ofWord a - 1).toNat = (i - Address.ofWord a).toNat - 1 := by
        bv_omega
      rw [if_neg hi, hpred, List.getElem?_cons, if_neg hpos]

/-- Bytes as far from an address as a string is long are not written with it. -/
theorem byte_writeBytes_of_le (m : FlatMemory) (a : Word) {bs : Bytes} {i : Address}
    (h : bs.length ≤ (i - Address.ofWord a).toNat) :
    (Memory.writeBytes m a bs).byte i = m.byte i := by
  have hlt := (i - Address.ofWord a).isLt
  rw [byte_writeBytes _ _ _ (by omega), List.getElem?_eq_none h]
  rfl

theorem readBytes_snd (m : FlatMemory) (a : Word) (n : Nat) : (Memory.readBytes n m a).2 = m := by
  induction n generalizing a with
  | zero => rfl
  | succ n ih => exact ih (a + 1)

/-! ### What stands at an address -/

/-- The bytes stand in order from an address on. -/
def Holds (m : FlatMemory) (a : Word) (bs : Bytes) : Prop :=
  (Memory.readBytes bs.length m a).1 = bs

theorem holds_cons {m : FlatMemory} {a : Word} {b : Byte} {bs : Bytes} :
    m.Holds a (b :: bs) ↔ m.byte (.ofWord a) = b ∧ m.Holds (a + 1) bs :=
  List.cons_eq_cons

theorem ofWord_add (a : Word) (n : Nat) :
    Address.ofWord (a + BitVec.ofNat 32 n) = Address.ofWord a + BitVec.ofNat 24 n := by
  rw [Address.ofWord, BitVec.setWidth_add _ _ (by decide), BitVec.setWidth_ofNat_of_le (by decide)]
  rfl

theorem toNat_ofWord_add_sub (a : Word) {n : Nat} (h : n < 0x1000000) :
    (Address.ofWord a + BitVec.ofNat 24 n - Address.ofWord a).toNat = n := by
  rw [BitVec.add_comm, BitVec.add_sub_cancel, BitVec.toNat_ofNat, Nat.mod_eq_of_lt h]

theorem holds_iff {m : FlatMemory} {a : Word} {bs : Bytes} :
    m.Holds a bs ↔ ∀ i b, bs[i]? = some b → m.byte (.ofWord a + BitVec.ofNat 24 i) = b := by
  induction bs generalizing a with
  | nil => exact ⟨fun _ i b h => by simp at h, fun _ => rfl⟩
  | cons b bs ih =>
    have hnext (i : Nat) : Address.ofWord (a + 1) + BitVec.ofNat 24 i =
        Address.ofWord a + BitVec.ofNat 24 (i + 1) := by
      rw [← ofWord_add, ← ofWord_add, Memory.nth_succ]
    have hzero : Address.ofWord a + BitVec.ofNat 24 0 = Address.ofWord a := BitVec.add_zero _
    simp only [holds_cons, ih, hnext]
    constructor
    · rintro ⟨hb, hbs⟩ (_ | i) c hc
      · rw [List.getElem?_cons_zero, Option.some.injEq] at hc
        rw [hzero, hb, hc]
      · exact hbs i c (by simpa using hc)
    · intro h
      exact ⟨hzero ▸ h 0 b rfl, fun i c hc => h (i + 1) c (by simpa using hc)⟩

theorem holds_append {m : FlatMemory} {a : Word} {bs cs : Bytes} :
    m.Holds a (bs ++ cs) ↔ m.Holds a bs ∧ m.Holds (a + BitVec.ofNat 32 bs.length) cs := by
  induction bs generalizing a with
  | nil =>
    rw [List.nil_append, List.length_nil, Memory.nth_zero]
    exact (and_iff_right rfl).symm
  | cons b bs ih =>
    rw [List.cons_append, holds_cons, ih, holds_cons, List.length_cons, Memory.nth_succ, and_assoc]

/-- What stands behind the place of a string stands behind the string once it is written. -/
theorem Holds.writeBytes {m : FlatMemory} {a : Word} {bs cs : Bytes}
    (h : m.Holds (a + BitVec.ofNat 32 bs.length) cs) (hlen : bs.length + cs.length ≤ 0x1000000) :
    (Memory.writeBytes m a bs).Holds a (bs ++ cs) := by
  rw [holds_iff] at h ⊢
  intro i b hi
  have hlt : i < (bs ++ cs).length := (List.getElem?_eq_some_iff.mp hi).1
  rw [List.length_append] at hlt
  rw [byte_writeBytes _ _ _ (by omega), toNat_ofWord_add_sub a (by omega)]
  by_cases hb : i < bs.length
  · rw [List.getElem?_append_left hb] at hi
    rw [hi]
    rfl
  · have hplace : Address.ofWord (a + BitVec.ofNat 32 bs.length) +
        BitVec.ofNat 24 (i - bs.length) = Address.ofWord a + BitVec.ofNat 24 i := by
      rw [ofWord_add, BitVec.add_assoc, ← BitVec.ofNat_add, Nat.add_sub_cancel' (by omega)]
    rw [List.getElem?_append_right (by omega)] at hi
    rw [List.getElem?_eq_none (by omega), ← hplace]
    exact h _ _ hi

/-- A word is read where it stands. -/
theorem Holds.readWord {m : FlatMemory} {a x : Word} (h : m.Holds a (LittleEndian.ofWord x)) :
    Memory.readWord m a = (x, m) := by
  have hbytes : (Memory.readBytes 4 m a).1 = LittleEndian.ofWord x := by
    rwa [Holds, LittleEndian.length_ofWord] at h
  change (LittleEndian.toWord 32 (Memory.readBytes 4 m a).1, m) = (x, m)
  rw [hbytes, LittleEndian.toWord_ofWord x rfl]

end Microcomputer.FlatMemory
