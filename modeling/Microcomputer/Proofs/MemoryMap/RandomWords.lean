import Microcomputer.Proofs.MemoryMap.Arrangement
import Microcomputer.Proofs.MemoryMap.Resolution
import Microcomputer.Proofs.Peripheral.RandomStream

/-! Words loaded from a random source. Of the four bytes of a word only the first draws, so one load
after the other gives one word of the stream after the other, whatever came before:
`walks_one_stream`. -/

namespace Microcomputer

open LittleEndian

namespace Memory

variable {M : Type} [Memory M]

/-- So many words read from one address. -/
def readWords : Nat → M → Word → List Word × M
  | 0, m, _ => ([], m)
  | n + 1, m, a =>
    let (x, m) := readWord m a
    let (xs, m) := readWords n m a
    (x :: xs, m)

theorem readBytes_succ (n : Nat) (m : M) (a : Word) :
    readBytes (n + 1) m a = ((readByte m a).1 :: (readBytes n (readByte m a).2 (a + 1)).1,
      (readBytes n (readByte m a).2 (a + 1)).2) := rfl

theorem readWord_eq (m : M) (a : Word) :
    readWord m a = (toWord 32 (readBytes 4 m a).1, (readBytes 4 m a).2) := rfl

theorem readWords_succ (n : Nat) (m : M) (a : Word) :
    readWords (n + 1) m a = ((readWord m a).1 :: (readWords n (readWord m a).2 a).1,
      (readWords n (readWord m a).2 a).2) := rfl

end Memory

/-! ### The registers in a map -/

namespace MemoryMap

/-- The four registers of a random source are mapped from an address on. -/
structure Mapped (m : MemoryMap) (a : Word) (r : RandomSource) : Prop where
  reachable : m.Reachable
  region : ∃ g ∈ m.regions, g.content = .peripheral (.random r) ∧
    g.span.start = a.toNat % 0x1000000 ∧ g.span.start + 3 ≤ g.span.stop

variable {m : MemoryMap} {a : Word} {r : RandomSource}

theorem mapped_of_register (hm : m.Reachable) {i : Interval} {id : RegionId} {m' : MemoryMap}
    (h : m.register i (.random r) = .ok (id, m')) (hstart : i.start = a.toNat % 0x1000000)
    (hstop : i.start + 3 ≤ i.stop) : m'.Mapped a r where
  reachable := by
    have hop := hm.op (.register i (.random r))
    rwa [Op.run, h] at hop
  region := by
    obtain ⟨-, -, rfl⟩ := register_eq_ok h
    exact ⟨_, (insertRegion_perm _ _).mem_iff.mpr List.mem_cons_self, rfl, hstart, hstop⟩

/-- A register reads as it does alone. -/
theorem Mapped.readByte (h : m.Mapped a r) {k : Nat} (hk : k < 4) :
    (Memory.readByte m (a + BitVec.ofNat 32 k)).1 = (r.read k).1 ∧
      (Memory.readByte m (a + BitVec.ofNat 32 k)).2.Mapped a (r.read k).2 := by
  obtain ⟨hreachable, g, hg, hcontent, hstart, hstop⟩ := h
  have hlast : g.span.stop ≤ 0xFFFFFF := g.span.stop_le_last
  have hplace : (a + BitVec.ofNat 32 k).toNat % 0x1000000 = g.span.start + k := by
    rw [BitVec.toNat_add, BitVec.toNat_ofNat]
    omega
  have hcontains : g.span.contains (g.span.start + k) :=
    Interval.contains_iff.mpr ⟨by omega, by omega⟩
  obtain ⟨-, hram, hrom⟩ := Valid.outside_of_contains hreachable.valid hg hcontains
  have hleads : m.Leads ((a + BitVec.ofNat 32 k).toNat % 0x1000000) (.region g) := by
    rw [hplace]
    exact .region g (by simpa [Ram.contains] using hram) hrom hg (by omega) (by omega)
  have hnext : (m.readByte (a + BitVec.ofNat 32 k)).2.Reachable := hreachable.op (.read _)
  have hread := Valid.readByte_eq hreachable.valid hleads
  rw [Target.read, hplace, Nat.add_sub_cancel_left, hcontent] at hread
  change (m.readByte _).1 = _ ∧ (m.readByte _).2.Mapped a _
  rw [hread] at hnext ⊢
  exact ⟨rfl, hnext, _, List.mem_map.mpr ⟨g, hg, if_pos rfl⟩, rfl, hstart, hstop⟩

/-- The registers past the first give the bytes of the word drawn last, and draw none. -/
theorem Mapped.readBytes (h : m.Mapped a r) {j n : Nat} (hj : j ≠ 0) (hn : j + n ≤ 4) :
    (Memory.readBytes n m (a + BitVec.ofNat 32 j)).1 = (List.range' j n).map (byteAt r.value) ∧
      (Memory.readBytes n m (a + BitVec.ofNat 32 j)).2.Mapped a r := by
  induction n generalizing m j with
  | zero => exact ⟨rfl, h⟩
  | succ n ih =>
    obtain ⟨hbyte, hnext⟩ := h.readByte (k := j) (by omega)
    rw [r.read_of_ne hj] at hbyte hnext
    have haddress : a + BitVec.ofNat 32 j + 1 = a + BitVec.ofNat 32 (j + 1) := by
      rw [BitVec.ofNat_add, ← BitVec.add_assoc]
      rfl
    obtain ⟨hbytes, hlast⟩ := ih hnext (Nat.succ_ne_zero j) (by omega)
    rw [Memory.readBytes_succ, haddress, hbyte, hbytes]
    exact ⟨rfl, hlast⟩

/-- A load draws one word, and gives it whole. -/
theorem Mapped.readWord (h : m.Mapped a r) :
    (Memory.readWord m a).1 = r.stream.word ∧ (Memory.readWord m a).2.Mapped a r.draw := by
  obtain ⟨hbyte, hnext⟩ := h.readByte (k := 0) (by decide)
  rw [r.read_zero, Memory.nth_zero] at hbyte hnext
  obtain ⟨hbytes, hlast⟩ := hnext.readBytes (j := 1) (n := 3) (by decide) (by decide)
  have hone : a + BitVec.ofNat 32 1 = a + 1 := rfl
  rw [hone] at hbytes hlast
  rw [Memory.readWord_eq, Memory.readBytes_succ 3, hbyte, hbytes]
  -- left to unification, the pairs would be compared by running the accesses of the map
  dsimp only
  exact ⟨toWord_map_byteAt r.draw.value rfl, hlast⟩

theorem Mapped.readWords (h : m.Mapped a r) {key : ChaCha.Key} {k : Nat}
    (hr : r.stream = ⟨key, BitVec.ofNat 68 k⟩) (n : Nat) :
    (Memory.readWords n m a).1 = (List.range' k n).map (ChaCha.streamWord key) := by
  induction n generalizing m r k with
  | zero => rfl
  | succ n ih =>
    obtain ⟨hword, hnext⟩ := h.readWord
    rw [hr, ChaCha.word_eq_streamWord] at hword
    rw [Memory.readWords_succ, hword, ih hnext (RandomSource.draw_stream hr)]
    rfl

end MemoryMap

/-! ### One stream -/

namespace RandomSource

/-- What a source with a history gives next, and what becomes of it. -/
structure Walks (h : History) (r : RandomSource) : Prop where
  /-- The source stands in the stream of its seed, as many words from the start as were drawn. -/
  stream : r.stream = ⟨ChaCha.keyOfSeed h.streamSeed, BitVec.ofNat 68 h.draws⟩
  read_first : r.read 0 = (byteAt (h.streamWord h.draws) 0,
    { r with
      stream := ⟨r.stream.key, r.stream.position + 1⟩
      value := h.streamWord h.draws })
  read_rest : ∀ offset ≠ 0, r.read offset = (byteAt h.drawn offset, r)
  /-- Bytes of a seed wait until the last one comes. -/
  write_rest : ∀ offset ≠ 3, ∀ b,
    r.write offset b = { r with buffer := setByteAt r.buffer offset b }
  write_last : ∀ b,
    let seed := toWord 32 [h.byte 0, h.byte 1, h.byte 2, b]
    r.write 3 b = ⟨r.seed, .ofSeed (seed.setWidth 64), 0, seed⟩
  reset : r.reset = ⟨h.seed, .ofSeed h.seed, 0, 0⟩
  /-- Any other source takes the state over whole. -/
  restore : ∀ other,
    (Peripheral.random other).restore (Peripheral.random r).save = .ok (.random r)
  /-- Loads from where the registers are mapped give the words of the stream in order. -/
  words : ∀ m a, MemoryMap.Mapped m a r → ∀ n,
    (Memory.readWords n m a).1 = (List.range' h.draws n).map h.streamWord

theorem Follows.walks {h : History} {r : RandomSource} (hr : Follows h r) : Walks h r where
  stream := hr.stream
  read_first := by
    rw [read_zero, ← hr.word_eq]
    rfl
  read_rest offset ho := by rw [read_of_ne r ho, hr.value]
  write_rest offset ho b := write_of_ne r b ho
  write_last b := by
    have hword : (h.after (.write 3 b)).word = toWord 32 [h.byte 0, h.byte 1, h.byte 2, b] := by
      rw [History.word, History.byte_after_write]
      rfl
    have hbuffer : setByteAt r.buffer 3 b = _ := History.eq_word fun i hi => hr.byte_set 3 b hi
    rw [hword] at hbuffer
    rw [write_three, hbuffer]
  reset := by
    rw [← hr.seed]
    rfl
  restore other := Peripheral.restore_save rfl
  words m a hm n := hm.readWords hr.stream n

/-- A random source walks one stream without gaps or repeats, whatever is read, written, reset,
saved and loaded into other sources before. Reading the first register draws the next word of the
stream that was started last, and nothing else draws one. Only writing the last register starts
another stream, that of the bytes written last, and a reset starts the one that the source was made
for. A state that is loaded brings all this along. -/
theorem walks_one_stream (seeds : Nat → DoubleWord) (ops : List Ensemble.Op) (i : Nat) :
    let t := (Ensemble.run ops (.ofSeeds seeds)).sources i
    Walks t.history t.source := by
  have hsound := (Ensemble.sound_ofSeeds seeds).run ops
  exact (hsound.sources i).walks

/-- A source draws a word and is given two bytes of a seed. Then it is saved, and its state is
loaded into another source, which draws the next word and is given the last byte. -/
def exchange : List Ensemble.Op :=
  [.act 0 (.read 0), .act 0 (.write 0 0x2A), .act 0 (.write 2 0x01), .save 0, .act 0 (.write 3 0),
    .load 1 0, .act 1 (.read 0), .act 1 (.write 3 0x80), .act 1 (.read 0), .act 1 (.read 2),
    .act 1 (.write 1 0xFF)]

/-- The other source has drawn one word of the stream of all three bytes, but a reset would give it
the seed of the first. -/
theorem walks_one_stream_exchanged :
    let t := (Ensemble.run exchange (.ofSeeds fun i => BitVec.ofNat 64 (7 + i))).sources 1
    t.history.streamSeed = 0x8001002A ∧ t.history.draws = 1 ∧ t.source.reset = ofSeed 7 ∧
      Walks t.history t.source ∧ ∃ m : MemoryMap, m.Mapped 0x11E040 t.source ∧
        (Memory.readWords 2 m 0x11E040).1 = [0xFC612AC0, 0x8B8A41BD] := by
  intro t
  have hwalks : Walks t.history t.source := walks_one_stream _ exchange 1
  have hseed : t.history.streamSeed = 0x8001002A := by decide +kernel
  have hdraws : t.history.draws = 1 := by decide +kernel
  have hstream : t.history.streamWord = ChaCha.streamWord (ChaCha.keyOfSeed 0x8001002A) := by
    funext n
    rw [History.streamWord, hseed]
  let i : Interval := ⟨0x11E040, 0x11E043, by decide, by decide⟩
  have hfree : (MemoryMap.new 0 ⟨#[]⟩).Free i := by
    refine ⟨Nat.zero_le _, .inr (by decide), fun r hr => ?_⟩
    exact absurd hr List.not_mem_nil
  have hmapped := MemoryMap.mapped_of_register (a := 0x11E040) (.new 0 ⟨#[]⟩)
    (MemoryMap.register_of_free (.random t.source) hfree) rfl (by decide)
  refine ⟨hseed, hdraws, hwalks.reset.trans ?_, hwalks, _, hmapped, ?_⟩
  · decide +kernel
  · rw [hwalks.words _ _ hmapped 2, hdraws, hstream]
    decide +kernel

end RandomSource

end Microcomputer
