import Microcomputer.Memory.Storage

/-! RAM after many bytes are written at once. -/

namespace Microcomputer.Ram

@[simp] theorem size_load (r : Ram) (a : Nat) (bs : Bytes) : (r.load a bs).size = r.size := by
  induction bs generalizing r a with
  | nil => rfl
  | cons b bs ih => rw [load, ih, size_write]

theorem ext_read {r s : Ram} (hsize : r.size = s.size) (h : ∀ a, r.read a = s.read a) : r = s := by
  obtain ⟨x, hx⟩ := r
  obtain ⟨y, hy⟩ := s
  have hxy : x = y := by
    refine Array.ext hsize fun i hi hi' => ?_
    have := h i
    simpa [read, hi, hi'] using this
  subst hxy
  rfl

theorem read_load (r : Ram) (a i : Nat) (bs : Bytes) :
    (r.load a bs).read i =
      if a ≤ i ∧ i < a + bs.length ∧ i < r.size then bs[i - a]?.getD 0 else r.read i := by
  induction bs generalizing r a with
  | nil =>
    rw [load, if_neg]
    simp only [List.length_nil]
    omega
  | cons b bs ih =>
    rw [load, ih, size_write, read_write, List.length_cons]
    by_cases hi : a + 1 ≤ i ∧ i < a + 1 + bs.length ∧ i < r.size
    · rw [if_pos hi, if_pos (by omega), show i - a = i - (a + 1) + 1 by omega,
        List.getElem?_cons_succ]
    · rw [if_neg hi]
      by_cases ha : a = i ∧ a < r.size
      · rw [if_pos ha, if_pos (by omega), ha.1, Nat.sub_self]
        rfl
      · rw [if_neg ha, if_neg (by omega)]

/-- RAM takes the bytes of RAM of its size over. -/
theorem load_bytes {r s : Ram} (h : r.size = s.size) : r.load 0 s.bytes.toList = s := by
  refine ext_read (by rw [size_load, h]) fun i => ?_
  rw [read_load]
  by_cases hi : i < s.size
  · rw [if_pos ⟨Nat.zero_le i, by simpa [size] using hi, by omega⟩]
    simp [read]
  · rw [if_neg (by omega)]
    have hr : ¬i < r.size := by omega
    simp only [size] at hi hr
    simp [read, hi, hr]

/-- As many bytes as RAM has fill it. -/
theorem bytes_load {r : Ram} {bs : Bytes} (h : bs.length = r.size) :
    (r.load 0 bs).bytes.toList = bs := by
  have hle : bs.toArray.size ≤ 0x100000 := by
    rw [List.size_toArray, h]
    exact r.size_le
  have hload : r.load 0 bs = ⟨bs.toArray, hle⟩ := load_bytes (s := ⟨bs.toArray, hle⟩) h.symm
  rw [hload]

end Microcomputer.Ram
