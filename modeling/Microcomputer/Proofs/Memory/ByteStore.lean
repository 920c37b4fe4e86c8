import Microcomputer.Proofs.Memory.Written
import Microcomputer.Proofs.MemoryMap.Mirror

/-! Memories that hold bytes, all of them or at some of their addresses only: flat memory
everywhere, a memory map in its RAM. A byte is read as it was written last, whatever accesses to
other addresses do: `byte?_writeEach` and `getElem?_readBytes`. -/

namespace Microcomputer

namespace Memory

/-- A memory with bytes at some of its addresses. Reading them gives them and changes none of
them, and writing changes the one that is written. At the other addresses anything may happen
that leaves these bytes alone. -/
class ByteStore (M : Type) [Memory M] where
  byte? : M → Address → Option Byte
  readByte_fst : ∀ {m : M} {a : Word} {b : Byte},
    byte? m (.ofWord a) = some b → (readByte m a).1 = b
  byte?_readByte : ∀ (m : M) (a : Word), byte? (readByte m a).2 = byte? m
  byte?_writeByte : ∀ (m : M) (a : Word) (b : Byte) (i : Address),
    byte? (writeByte m a b) i =
      if Address.ofWord a = i then (byte? m i).map fun _ => b else byte? m i

namespace ByteStore

variable {M : Type} [Memory M] [ByteStore M]

theorem byte?_readBytes (n : Nat) (m : M) (a : Word) :
    byte? (readBytes n m a).2 = byte? m := by
  induction n generalizing m a with
  | zero => rfl
  | succ n ih => exact (ih _ _).trans (byte?_readByte m a)

/-- A byte is read wherever there is one, whatever the reads before it do elsewhere. -/
theorem getElem?_readBytes {n k : Nat} (hk : k < n) {m : M} {a : Word} {b : Byte}
    (h : byte? m (.ofWord (a + BitVec.ofNat 32 k)) = some b) :
    (readBytes n m a).1[k]? = some b := by
  induction n generalizing m a k with
  | zero => exact absurd hk (Nat.not_lt_zero k)
  | succ n ih =>
    cases k with
    | zero =>
      rw [nth_zero] at h
      exact congrArg some (readByte_fst h)
    | succ k =>
      rw [nth_succ] at h
      exact ih (Nat.lt_of_succ_lt_succ hk) ((congrFun (byte?_readByte m a) _).trans h)

theorem byte?_writeEach (m : M) (ws : List (Word × Byte)) (i : Address) :
    byte? (writeEach m ws) i = (byte? m i).map fun b => (lastAt? i (placed ws)).getD b := by
  induction ws generalizing m with
  | nil => exact (congrFun Option.map_id_fun' (byte? m i)).symm
  | cons w ws ih =>
    change byte? (writeEach (writeByte m w.1 w.2) ws) i = _
    rw [ih, byte?_writeByte, placed_cons, lastAt?]
    by_cases hw : Address.ofWord w.1 = i
    · rw [if_pos hw, if_pos hw, Option.map_map]
      refine Option.map_congr fun b _ => ?_
      cases lastAt? i (placed ws) <;> rfl
    · rw [if_neg hw, if_neg hw, Option.or_none]

end ByteStore

/-! ### Flat memory and RAM -/

instance : ByteStore FlatMemory where
  byte? m i := some (m.byte i)
  readByte_fst h := Option.some.inj h
  byte?_readByte _ _ := rfl
  byte?_writeByte m a b i := by
    refine (congrArg some (m.byte_write (.ofWord a) i b)).trans ?_
    exact apply_ite some _ _ _

end Memory

namespace MemoryMap

variable (m : MemoryMap) (w : Word)

theorem ram_readByte : (m.readByte w).2.ram = m.ram := by
  simp only [readByte]
  split
  · rfl
  · split
    · rfl
    · split <;> rfl

theorem ram_writeByte (b : Byte) :
    (m.writeByte w b).ram =
      if (Address.ofWord w).toNat < m.ram.size then m.ram.write (Address.ofWord w).toNat b
      else m.ram := by
  by_cases h : (Address.ofWord w).toNat < m.ram.size
  · rw [writeByte_of_lt h, if_pos h]
  · simp only [writeByte, Ram.contains, decide_eq_true_eq]
    rw [if_neg h, if_neg h]
    split
    · rfl
    · split <;> rfl

/-- The byte of RAM at an address. -/
def ramByte? (i : Address) : Option Byte :=
  if i.toNat < m.ram.size then some (m.ram.read i.toNat) else none

instance : Memory.ByteStore MemoryMap where
  byte? := ramByte?
  readByte_fst {m w b} h := by
    obtain ⟨hlt, hb⟩ := Option.ite_none_right_eq_some.mp h
    exact (congrArg Prod.fst (readByte_of_lt hlt)).trans (Option.some.inj hb)
  byte?_readByte m w := by
    funext i
    simp only [ramByte?]
    rw [show (Memory.readByte m w).2.ram = m.ram from m.ram_readByte w]
  byte?_writeByte m w b i := by
    simp only [ramByte?]
    rw [show (Memory.writeByte m w b).ram = _ from m.ram_writeByte w b]
    by_cases hi : Address.ofWord w = i
    · subst hi
      by_cases h : (Address.ofWord w).toNat < m.ram.size
      · simp [h, Ram.size_write, Ram.read_write]
      · simp [h]
    · have hne : ¬(Address.ofWord w).toNat = i.toNat := fun h => hi (BitVec.eq_of_toNat_eq h)
      rw [if_neg hi]
      by_cases h : (Address.ofWord w).toNat < m.ram.size
      · simp [h, hne, Ram.size_write, Ram.read_write]
      · rw [if_neg h]

end MemoryMap

end Microcomputer
