import Microcomputer.Proofs.Machine.Reachable
import Microcomputer.Proofs.MemoryMap.Arrangement

/-! Building a machine. The built-in peripherals ascend above the ROM window, so each finds
its place free: a machine can be built from every configuration that passes its check. Its
memory map, like any other, stays arranged whatever is asked of it: `arranged_run`. -/

namespace Microcomputer.Machine

/-- What ascends above the ROM window and above all regions can be mapped, one after the
other. -/
theorem exists_foldlM_mapBuiltIn (ps : List (Nat × Nat × Peripheral)) {m : MemoryMap}
    (hps : ps.Pairwise fun p q => p.1 + p.2.1 ≤ q.1)
    (hin : ∀ p ∈ ps, 0 < p.2.1 ∧ Rom.base + Rom.windowSize ≤ p.1 ∧
      p.1 + p.2.1 ≤ Address.last + 1)
    (hm : ∀ p ∈ ps, ∀ r ∈ m.regions, r.span.stop < p.1) :
    ∃ m', ps.foldlM mapBuiltIn m = .ok m' ∧ m'.nextId = m.nextId + ps.length := by
  induction ps generalizing m with
  | nil => exact ⟨m, rfl, rfl⟩
  | cons p ps ih =>
    obtain ⟨hp, hps⟩ := List.pairwise_cons.mp hps
    obtain ⟨hpos, hbase, hlast⟩ := hin p List.mem_cons_self
    obtain ⟨i, hi, hstart, hstop⟩ := MemoryMap.exists_ofLength hpos hlast
    have hfree : m.Free i := by
      have hsize : m.ram.size ≤ Rom.base := m.ram.size_le
      refine ⟨by omega, .inr (by omega), fun r hr => .inl ?_⟩
      rw [hstart]
      exact hm p List.mem_cons_self r hr
    have hone : mapBuiltIn m p = .ok (m.withRegion i (.peripheral p.2.2)) := by
      rw [mapBuiltIn, hi]
      change (m.register i p.2.2 >>= _) = _
      rw [MemoryMap.register_of_free p.2.2 hfree]
      rfl
    have hnext : ∀ q ∈ ps, ∀ r ∈ (m.withRegion i (.peripheral p.2.2)).regions,
        r.span.stop < q.1 := by
      intro q hq r hr
      rcases List.mem_cons.mp ((MemoryMap.insertRegion_perm _ _).mem_iff.mp hr) with rfl | hr
      · have := hp q hq
        change i.stop < q.1
        omega
      · exact hm q (.tail _ hq) r hr
    obtain ⟨m', hm', hid⟩ := ih hps (fun q hq => hin q (.tail _ hq)) hnext
    refine ⟨m', ?_, ?_⟩
    · rw [List.foldlM_cons, hone]
      exact hm'
    · rw [hid, List.length_cons, Nat.add_comm ps.length, ← Nat.add_assoc]
      rfl

/-- A machine can be built from every configuration that passes its check. -/
theorem exists_build {c : Configuration} (hc : c.check = .ok ()) (entropy : DoubleWord) :
    ∃ m, build c entropy = .ok m ∧ m.map.nextId = 4 := by
  obtain ⟨map, hmap, hid⟩ := exists_foldlM_mapBuiltIn
    (builtIn c.epoch (c.seed.getD entropy)) (m := .new c.ram ⟨c.rom⟩)
    (by simp [builtIn, timerBase, toneBase, clockBase, randomBase])
    (by simp [builtIn, timerBase, toneBase, clockBase, randomBase, Rom.base, Rom.windowSize,
      Address.last])
    (fun _ _ _ hr => nomatch hr)
  refine ⟨⟨.new map, c⟩, ?_, hid⟩
  simp only [build, hc, hmap]
  rfl

/-- A memory map, new or of a newly built machine, is arranged after any operations, whether
they succeed or not, and has given out no more names than there were attempts to map
something; a new machine has given out four. There is a new machine for every configuration
that passes its check. -/
theorem arranged_run (ops : List MemoryMap.Op) :
    (∀ ramSize rom, (MemoryMap.run ops (.new ramSize rom)).Arranged ∧
      (MemoryMap.run ops (.new ramSize rom)).nextId ≤ ops.countP MemoryMap.Op.maps) ∧
    (∀ c entropy, c.check = .ok () → ∃ m, build c entropy = .ok m ∧
      (MemoryMap.run ops m.map).Arranged ∧
      (MemoryMap.run ops m.map).nextId ≤ 4 + ops.countP MemoryMap.Op.maps) := by
  constructor
  · intro ramSize rom
    have hm := MemoryMap.valid_new ramSize rom
    exact ⟨(hm.run ops).arranged, Nat.zero_add (ops.countP _) ▸ hm.nextId_run_le ops⟩
  · intro c entropy hc
    obtain ⟨m, hbuild, hid⟩ := exists_build hc entropy
    have hm := (reachable_of_build hbuild).valid
    exact ⟨m, hbuild, (hm.run ops).arranged, hid ▸ hm.nextId_run_le ops⟩

/-- A peripheral in the way of slot 2, devices in slots 2 and 3, and a peripheral in the way
of slot 3: the first device and the second peripheral find their places taken, until the
first peripheral goes. -/
def crossing : List MemoryMap.Op :=
  [.register ⟨0x110208, 0x110220, by decide, by decide⟩ .ramp, .attach 2 (.inert ⟨1, 2, 3, 4⟩),
    .attach 3 (.inert ⟨1, 2, 3, 4⟩), .register ⟨0x110313, 0x110314, by decide, by decide⟩ .ramp,
    .unregister 4, .attach 2 (.inert ⟨1, 2, 3, 4⟩), .detach 3, .reset]

/-- The largest RAM and a full ROM window, and no RAM at all. -/
theorem arranged_run_crossing :
    let c : Configuration := ⟨0x100000, .replicate 0x10000 1, 1, none, 0⟩
    (MemoryMap.run crossing (.new 0 ⟨#[]⟩)).Arranged ∧
      c.check = .ok () ∧ ∃ m, build c 7 = .ok m ∧ (MemoryMap.run crossing m.map).Arranged ∧
        (MemoryMap.run crossing m.map).nextId ≤ 9 := by
  intro c
  have hc : c.check = .ok () := by simp [c, Configuration.check, Ram.maxSize, Rom.windowSize]
  obtain ⟨hnew, hbuilt⟩ := arranged_run crossing
  exact ⟨(hnew 0 ⟨#[]⟩).1, hc, hbuilt c 7 hc⟩

end Microcomputer.Machine
