import Microcomputer.MemoryMap.Basic
import Microcomputer.Proofs.Memory.Flat
import Microcomputer.Proofs.Memory.Recorded

/-! Flat memory in place of a memory map. Where a map has RAM or the ROM window it stores
bytes as flat memory does, however the rest of it looks. So accesses that stay within these
addresses find the same in both: `simulation_mirrors`. -/

namespace Microcomputer.MemoryMap

open Memory (Access SimulationWithin)

variable {m m₀ : MemoryMap} {f : FlatMemory} {w : Word}

/-- RAM or the ROM window has the address. -/
def Stores (m : MemoryMap) (a : Address) : Prop :=
  a.toNat < m.ram.size ∨ Rom.windowContains a.toNat

instance (a : Address) : Decidable (m.Stores a) := inferInstanceAs (Decidable (_ ∨ _))

/-- The access reads RAM or the ROM window, or it writes RAM. -/
def Within (m : MemoryMap) : Access → Prop
  | .read w => m.Stores (Address.ofWord w)
  | .write w _ => (Address.ofWord w).toNat < m.ram.size

instance : DecidablePred m.Within
  | .read w => inferInstanceAs (Decidable (m.Stores (Address.ofWord w)))
  | .write w _ => inferInstanceAs (Decidable ((Address.ofWord w).toNat < m.ram.size))

/-- Both read the same wherever the map has RAM or the ROM window. -/
def Agrees (m : MemoryMap) (f : FlatMemory) : Prop :=
  ∀ a, m.Stores a → (m.readByte (a.setWidth 32)).1 = f.byte a

/-- The map agrees with flat memory, and differs from another at most in bytes of RAM. -/
structure Mirrors (m₀ : MemoryMap) (f : FlatMemory) (m : MemoryMap) : Prop where
  agrees : m.Agrees f
  size_eq : m.ram.size = m₀.ram.size
  eq : m = { m₀ with ram := m.ram }

/-! ### RAM and the ROM window -/

theorem readByte_of_lt (h : (Address.ofWord w).toNat < m.ram.size) :
    m.readByte w = (m.ram.read (Address.ofWord w).toNat, m) := by
  simp only [readByte, Ram.contains, decide_eq_true_eq]
  rw [if_pos h]

theorem readByte_of_windowContains (hram : ¬(Address.ofWord w).toNat < m.ram.size)
    (h : Rom.windowContains (Address.ofWord w).toNat) :
    m.readByte w = (m.rom.read (BitVec.ofNat 32 (Address.ofWord w).toNat), m) := by
  simp only [readByte, Ram.contains, decide_eq_true_eq]
  rw [if_neg hram, if_pos h]

theorem writeByte_of_lt (h : (Address.ofWord w).toNat < m.ram.size) (b : Byte) :
    m.writeByte w b = { m with ram := m.ram.write (Address.ofWord w).toNat b } := by
  simp only [writeByte, Ram.contains, decide_eq_true_eq]
  rw [if_pos h]

theorem Stores.readByte_snd (h : m.Stores (Address.ofWord w)) : (m.readByte w).2 = m := by
  by_cases hram : (Address.ofWord w).toNat < m.ram.size
  · rw [readByte_of_lt hram]
  · rw [readByte_of_windowContains hram (h.resolve_left hram)]

theorem ofWord_setWidth (a : Address) : Address.ofWord (a.setWidth 32) = a := by
  simp [Address.ofWord]

/-- Only the low 24 bits of an address count. -/
theorem readByte_setWidth (m : MemoryMap) (w : Word) :
    m.readByte ((Address.ofWord w).setWidth 32) = m.readByte w := by
  simp only [readByte, ofWord_setWidth]

/-! ### Accesses to both -/

theorem agrees_iff : m.Agrees f ↔
    (∀ a : Address, a.toNat < m.ram.size → m.ram.read a.toNat = f.byte a) ∧
      ∀ a : Address, ¬a.toNat < m.ram.size → Rom.windowContains a.toNat →
        m.rom.read (BitVec.ofNat 32 a.toNat) = f.byte a := by
  have hram (a : Address) (ha : a.toNat < m.ram.size) :
      (m.readByte (a.setWidth 32)).1 = m.ram.read a.toNat := by
    rw [readByte_of_lt (by rwa [ofWord_setWidth]), ofWord_setWidth]
  have hrom (a : Address) (ha : ¬a.toNat < m.ram.size) (hw : Rom.windowContains a.toNat) :
      (m.readByte (a.setWidth 32)).1 = m.rom.read (BitVec.ofNat 32 a.toNat) := by
    rw [readByte_of_windowContains (by rwa [ofWord_setWidth]) (by rwa [ofWord_setWidth]),
      ofWord_setWidth]
  constructor
  · intro h
    exact ⟨fun a ha => (hram a ha).symm.trans (h a (.inl ha)),
      fun a ha hw => (hrom a ha hw).symm.trans (h a (.inr hw))⟩
  · rintro ⟨h, h'⟩ a hstores
    by_cases ha : a.toNat < m.ram.size
    · exact (hram a ha).trans (h a ha)
    · have hw := hstores.resolve_left ha
      exact (hrom a ha hw).trans (h' a ha hw)

theorem Agrees.readByte_eq (h : m.Agrees f) (hw : m.Stores (Address.ofWord w)) :
    (m.readByte w).1 = f.byte (Address.ofWord w) := by
  rw [← m.readByte_setWidth, h _ hw]

theorem Agrees.writeByte (h : m.Agrees f) (hw : (Address.ofWord w).toNat < m.ram.size)
    (b : Byte) : (m.writeByte w b).Agrees (f.write (Address.ofWord w) b) := by
  obtain ⟨hram, hrom⟩ := agrees_iff.mp h
  rw [writeByte_of_lt hw, agrees_iff]
  simp only [Ram.size_write, FlatMemory.byte_write, Ram.read_write, BitVec.toNat_inj]
  refine ⟨fun a ha => ?_, fun a ha hwindow => ?_⟩
  · rw [hram a ha]
    simp only [hw, and_true]
  · have hne : Address.ofWord w ≠ a := fun heq => ha (heq ▸ hw)
    rw [if_neg hne]
    exact hrom a ha hwindow

theorem Mirrors.refl (h : m.Agrees f) : m.Mirrors f m := ⟨h, rfl, rfl⟩

theorem Mirrors.stores (h : m₀.Mirrors f m) {a : Address} (ha : m₀.Stores a) : m.Stores a := by
  rwa [Stores, h.size_eq]

theorem simulation_mirrors (m₀ : MemoryMap) : SimulationWithin m₀.Within m₀.Mirrors where
  answer_eq h w hw := (h.agrees.readByte_eq (h.stores hw)).symm
  read h w hw := by
    have hsame := (h.stores hw).readByte_snd
    exact hsame.symm ▸ h
  write {f m} h w b hw := by
    have hlt : (Address.ofWord w).toNat < m.ram.size := by rwa [h.size_eq]
    have hwrite := writeByte_of_lt hlt b
    refine ⟨h.agrees.writeByte hlt b, ?_, ?_⟩
    · change (m.writeByte w b).ram.size = _
      rw [hwrite, Ram.size_write, h.size_eq]
    · change m.writeByte w b = { m₀ with ram := (m.writeByte w b).ram }
      rw [hwrite, h.eq]

/-! ### New maps -/

theorem Ram.read_zero (size a : Nat) : (Ram.zero size).read a = 0 := by
  simp only [Ram.read, Ram.zero, Array.getElem?_replicate]
  split <;> rfl

/-- A map as it is built agrees with flat memory that holds its ROM image. -/
theorem agrees_new (ramSize : Nat) (rom : Rom) (h : rom.image.size ≤ Rom.windowSize) :
    (new ramSize rom).Agrees
      (Memory.writeBytes FlatMemory.zero (BitVec.ofNat 32 Rom.base) rom.image.toList) := by
  have hlength : rom.image.toList.length ≤ 0x10000 := h
  have hbyte (a : Address) := FlatMemory.byte_writeBytes FlatMemory.zero
    (BitVec.ofNat 32 Rom.base) rom.image.toList (Nat.le_trans hlength (by decide)) a
  have hsize : (new ramSize rom).ram.size ≤ 0x100000 := (new ramSize rom).ram.size_le
  have hbase : Address.ofWord (BitVec.ofNat 32 Rom.base) = 0x100000 := rfl
  rw [agrees_iff]
  refine ⟨fun a ha => ?_, fun a ha hwindow => ?_⟩
  · have hnone : rom.image.toList[(a - 0x100000).toNat]? = none := by
      refine List.getElem?_eq_none ?_
      bv_omega
    rw [hbyte, hbase, hnone, Option.getD_none, FlatMemory.byte_zero]
    exact Ram.read_zero ramSize a.toNat
  · have hstart : 0x100000 ≤ a.toNat := by
      simp only [Rom.windowContains, Bool.and_eq_true, decide_eq_true_eq] at hwindow
      exact hwindow.1
    have hoffset : (BitVec.ofNat 32 a.toNat - BitVec.ofNat 32 Rom.base).toNat =
        (a - 0x100000).toNat := by
      rw [show Rom.base = 0x100000 from rfl]
      bv_omega
    rw [hbyte, hbase, FlatMemory.byte_zero, Array.getElem?_toList, ← hoffset]
    rfl

end Microcomputer.MemoryMap
