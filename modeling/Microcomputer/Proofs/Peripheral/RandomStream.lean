import Mathlib.Data.List.DropRight
import Mathlib.Logic.Function.Basic
import Microcomputer.Proofs.Codec.Peripherals
import Microcomputer.Proofs.Memory.Written

/-! The random source against its history. What was done to a source since it was made tells its
whole state: the seed of its stream, how many words of it were drawn, and the bytes that wait for a
new seed. A saved state carries the history of its source along: `Ensemble.Sound.run`. -/

namespace Microcomputer

open LittleEndian

/-! ### Words of a stream -/

/-- The word number `n` of the stream of a key: sixteen words are one block. -/
def ChaCha.streamWord (key : Key) (n : Nat) : Word :=
  (block key (BitVec.ofNat 64 (n / 16))).get (BitVec.ofNat 4 n).toFin

/-- Places count modulo the length of the stream, after which its blocks come again. -/
theorem ChaCha.word_eq_streamWord (key : Key) (n : Nat) :
    Stream.word ⟨key, BitVec.ofNat 68 n⟩ = streamWord key n := by
  have hblock : (BitVec.ofNat 68 n).extractLsb' 4 64 = BitVec.ofNat 64 (n / 16) := by
    apply BitVec.eq_of_toNat_eq
    simp only [BitVec.extractLsb'_toNat, BitVec.toNat_ofNat, Nat.shiftRight_eq_div_pow]
    omega
  have hplace : (BitVec.ofNat 68 n).extractLsb' 0 4 = BitVec.ofNat 4 n := by
    apply BitVec.eq_of_toNat_eq
    simp only [BitVec.extractLsb'_toNat, BitVec.toNat_ofNat, Nat.shiftRight_zero]
    omega
  rw [Stream.word, hblock, hplace, streamWord]

/-- A word is made of its bytes. -/
theorem LittleEndian.toWord_map_byteAt {w : Nat} (x : BitVec w) (hw : 8 * (w / 8) = w) :
    toWord w ((List.range (w / 8)).map (byteAt x)) = x := by
  have hbytes : (List.range (w / 8)).map (byteAt x) = ofWord x := by
    refine List.ext_getElem (by rw [length_ofWord, List.length_map, List.length_range]) ?_
    intro k _ hk
    rw [List.getElem_map, List.getElem_range, byteAt, List.getElem?_eq_getElem hk,
      Option.getD_some]
  rw [hbytes, toWord_ofWord x hw]

namespace RandomSource

/-! ### Histories -/

/-- What can be done to a source while it stays where it is. -/
inductive Event where
  | read (offset : Nat)
  | write (offset : Nat) (b : Byte)
  | reset
deriving DecidableEq

namespace Event

def run : Event → RandomSource → RandomSource
  | read offset, r => (r.read offset).2
  | write offset b, r => r.write offset b
  | reset, r => r.reset

/-- The stream starts anew. -/
def restarts : Event → Bool
  | read _ => false
  | write offset _ => offset = 3
  | reset => true

/-- The byte that is written, with its offset. -/
def written? : Event → Option (Nat × Byte)
  | write offset b => some (offset, b)
  | read _ | reset => none

end Event

/-- The seed with which a source was made, and what was done to it since, in order. -/
structure History where
  seed : DoubleWord
  events : List Event

namespace History

def after (h : History) (e : Event) : History := { h with events := h.events ++ [e] }

/-- The words drawn since the stream was started. -/
def draws (h : History) : Nat := (h.events.rtakeWhile fun e => !e.restarts).count (.read 0)

/-- The byte last written at an offset since the source was made or reset, zero if none was. -/
def byte (h : History) (offset : Nat) : Byte :=
  (lastAt? offset ((h.events.rtakeWhile (· ≠ .reset)).filterMap Event.written?)).getD 0

/-- The word whose bytes were last written. -/
def word (h : History) : Word := toWord 32 ((List.range 4).map h.byte)

/-- The history up to the event that started the stream. -/
def started (h : History) : History :=
  { h with events := h.events.rdropWhile fun e => !e.restarts }

/-- The seed of the stream. Where writing started it, this is the word written by then. -/
def streamSeed (h : History) : DoubleWord :=
  match h.started.events.getLast? with
  | some (.write _ _) => h.started.word.setWidth 64
  | _ => h.seed

/-- The word number `n` of the stream. -/
def streamWord (h : History) (n : Nat) : Word :=
  ChaCha.streamWord (ChaCha.keyOfSeed h.streamSeed) n

/-- The word drawn last, zero if none was drawn since the stream was started. -/
def drawn (h : History) : Word :=
  match h.draws with
  | 0 => 0
  | n + 1 => h.streamWord n

variable {h : History} {e : Event} {offset : Nat} {b : Byte}

theorem draws_after (he : e.restarts = false) :
    (h.after e).draws = h.draws + if e = .read 0 then 1 else 0 := by
  rw [draws, after, List.rtakeWhile_concat_pos _ _ _ (by simp [he]), List.count_append,
    List.count_singleton, draws]
  simp only [beq_iff_eq]

/-- What does not start the stream anew leaves its seed as it was. -/
theorem streamSeed_after (he : e.restarts = false) : (h.after e).streamSeed = h.streamSeed := by
  have hstarted : (h.after e).started = h.started := by
    rw [started, after, List.rdropWhile_concat_pos _ _ _ (by simp [he]), started]
  simp only [streamSeed, hstarted]
  rfl

theorem drawn_after (he : e.restarts = false) (hread : e ≠ .read 0) :
    (h.after e).drawn = h.drawn := by
  have hdraws : (h.after e).draws = h.draws := by rw [draws_after he, if_neg hread, Nat.add_zero]
  simp only [drawn, hdraws, streamWord, streamSeed_after he]

theorem drawn_after_draw : (h.after (.read 0)).drawn = h.streamWord h.draws := by
  have hdraws : (h.after (.read 0)).draws = h.draws + 1 := draws_after rfl
  simp only [drawn, hdraws, streamWord, streamSeed_after (e := .read 0) rfl]

theorem draws_after_restart (he : e.restarts = true) : (h.after e).draws = 0 := by
  rw [draws, after, List.rtakeWhile_concat_neg _ _ _ (by simp [he]), List.count_nil]

theorem drawn_after_restart (he : e.restarts = true) : (h.after e).drawn = 0 := by
  simp only [drawn, draws_after_restart he]

theorem started_after_restart (he : e.restarts = true) : (h.after e).started = h.after e := by
  rw [started, after, List.rdropWhile_concat_neg _ _ _ (by simp [he])]

theorem streamSeed_after_reset : (h.after .reset).streamSeed = h.seed := by
  rw [streamSeed, started_after_restart rfl, after, List.getLast?_concat]

theorem streamSeed_after_write :
    (h.after (.write 3 b)).streamSeed = (h.after (.write 3 b)).word.setWidth 64 := by
  rw [streamSeed, started_after_restart rfl]
  simp only [after, List.getLast?_concat]

theorem byte_after_reset : (h.after .reset).byte offset = 0 := by
  rw [byte, after, List.rtakeWhile_concat_neg _ _ _ (by simp)]
  rfl

theorem byte_after_read (o : Nat) : (h.after (.read o)).byte = h.byte := by
  funext k
  rw [byte, after, List.rtakeWhile_concat_pos _ _ _ (by simp), List.filterMap_append]
  change (lastAt? k (_ ++ [])).getD 0 = _
  rw [List.append_nil, byte]

theorem byte_after_write : (h.after (.write offset b)).byte = Function.update h.byte offset b := by
  funext k
  rw [byte, after, List.rtakeWhile_concat_pos _ _ _ (by simp), List.filterMap_append,
    lastAt?_append, Function.update_apply]
  change ((lastAt? k [(offset, b)]).or _).getD 0 = _
  rw [lastAt?_singleton]
  by_cases hk : offset = k
  · rw [if_pos hk, if_pos hk.symm, Option.some_or, Option.getD_some]
  · rw [if_neg hk, if_neg (Ne.symm hk), Option.none_or, byte]

/-- A word is known by its bytes. -/
theorem eq_word {x : Word} (hx : ∀ i < 4, byteAt x i = h.byte i) : x = h.word := by
  have hbytes : (List.range 4).map (byteAt x) = (List.range 4).map h.byte :=
    List.map_congr_left fun i hi => hx i (List.mem_range.mp hi)
  rw [word, ← hbytes]
  exact (toWord_map_byteAt x rfl).symm

end History

/-! ### One source -/

/-- The source is in the state that its history tells. -/
structure Follows (h : History) (r : RandomSource) : Prop where
  seed : r.seed = h.seed
  stream : r.stream = ⟨ChaCha.keyOfSeed h.streamSeed, BitVec.ofNat 68 h.draws⟩
  value : r.value = h.drawn
  byte : ∀ i < 4, byteAt r.buffer i = h.byte i

variable {h : History} {r : RandomSource} {offset : Nat} {b : Byte}

theorem read_zero (r : RandomSource) : r.read 0 = (byteAt r.draw.value 0, r.draw) := rfl

theorem read_of_ne (r : RandomSource) (ho : offset ≠ 0) :
    r.read offset = (byteAt r.value offset, r) := by
  simp only [read, if_neg ho]

theorem draw_stream {key : ChaCha.Key} {n : Nat} (hr : r.stream = ⟨key, BitVec.ofNat 68 n⟩) :
    r.draw.stream = ⟨key, BitVec.ofNat 68 (n + 1)⟩ := by
  rw [BitVec.ofNat_add]
  change (⟨r.stream.key, r.stream.position + 1⟩ : ChaCha.Stream) = _
  rw [hr]
  rfl

theorem write_of_ne (r : RandomSource) (b : Byte) (ho : offset ≠ 3) :
    r.write offset b = { r with buffer := setByteAt r.buffer offset b } := by
  simp only [write, if_neg ho]

theorem write_three (r : RandomSource) (b : Byte) :
    r.write 3 b =
      let seed := setByteAt r.buffer 3 b
      ⟨r.seed, .ofSeed (seed.setWidth 64), 0, seed⟩ := rfl

theorem Follows.word_eq (hr : Follows h r) : r.stream.word = h.streamWord h.draws := by
  rw [hr.stream, ChaCha.word_eq_streamWord, History.streamWord]

theorem follows_ofSeed (seed : DoubleWord) : Follows ⟨seed, []⟩ (ofSeed seed) where
  seed := rfl
  stream := rfl
  value := rfl
  byte i hi := by
    have hzero : ∀ i < 4, byteAt (0 : Word) i = 0 := by decide
    exact hzero i hi

theorem Follows.read (hr : Follows h r) (offset : Nat) :
    Follows (h.after (.read offset)) (r.read offset).2 := by
  have hbyte (i : Nat) : h.byte i = (h.after (.read offset)).byte i := by
    rw [History.byte_after_read]
  have hseed : (h.after (.read offset)).streamSeed = h.streamSeed := History.streamSeed_after rfl
  by_cases ho : offset = 0
  · subst ho
    refine ⟨hr.seed, ?_, ?_, fun i hi => (hr.byte i hi).trans (hbyte i)⟩
    · rw [hseed, History.draws_after rfl, if_pos rfl]
      exact draw_stream hr.stream
    · rw [History.drawn_after_draw, ← hr.word_eq]
      rfl
  · have hne : Event.read offset ≠ .read 0 := fun h => ho (Event.read.inj h)
    rw [read_of_ne r ho]
    refine ⟨hr.seed, ?_, ?_, fun i hi => (hr.byte i hi).trans (hbyte i)⟩
    · rw [hseed, History.draws_after rfl, if_neg hne, Nat.add_zero, hr.stream]
    · rw [History.drawn_after rfl hne, hr.value]

/-- The bytes written go where the history has them. -/
theorem Follows.byte_set (hr : Follows h r) (offset : Nat) (b : Byte) {i : Nat} (hi : i < 4) :
    byteAt (setByteAt r.buffer offset b) i = (h.after (.write offset b)).byte i := by
  rw [byteAt_setByteAt _ rfl, History.byte_after_write, Function.update_apply, hr.byte i hi]
  exact if_congr ⟨fun ho => ho.1.symm, fun ho => ⟨ho.symm, ho ▸ hi⟩⟩ rfl rfl

theorem Follows.write (hr : Follows h r) (offset : Nat) (b : Byte) :
    Follows (h.after (.write offset b)) (r.write offset b) := by
  by_cases ho : offset = 3
  · subst ho
    -- the byte is stored before the stream starts, so it is part of the seed
    have hword := History.eq_word fun i hi => hr.byte_set 3 b hi
    refine ⟨hr.seed, ?_, ?_, fun i hi => hr.byte_set 3 b hi⟩
    · rw [History.streamSeed_after_write, History.draws_after_restart rfl, ← hword]
      rfl
    · rw [History.drawn_after_restart rfl]
      rfl
  · have hquiet : (Event.write offset b).restarts = false := decide_eq_false ho
    rw [write_of_ne r b ho]
    refine ⟨hr.seed, ?_, ?_, fun i hi => hr.byte_set offset b hi⟩
    · rw [History.streamSeed_after hquiet, History.draws_after hquiet, if_neg nofun, Nat.add_zero,
        hr.stream]
    · rw [History.drawn_after hquiet nofun, hr.value]

theorem Follows.reset (hr : Follows h r) : Follows (h.after .reset) r.reset where
  seed := hr.seed
  stream := by
    rw [History.streamSeed_after_reset, History.draws_after_restart rfl, ← hr.seed]
    rfl
  value := by
    rw [History.drawn_after_restart rfl]
    rfl
  byte i hi := by
    rw [History.byte_after_reset]
    exact (follows_ofSeed r.seed).byte i hi

/-- What is done to a source is told by its history. -/
theorem Follows.after (hr : Follows h r) (e : Event) : Follows (h.after e) (e.run r) := by
  cases e with
  | read offset => exact hr.read offset
  | write offset b => exact hr.write offset b
  | reset => exact hr.reset

/-! ### Sources side by side -/

/-- A source together with what was done to it. -/
structure Tracked where
  source : RandomSource
  history : History

/-- A source takes a saved state over with its history, or refuses the state and stays as it is. -/
def Tracked.load (t : Tracked) (s : Bytes × History) : Tracked :=
  match ofBytes s.1 with
  | .ok r => ⟨r, s.2⟩
  | .error _ => t

/-- Sources and what was saved of them, in the order of saving, each state with the history that its
source had then. -/
structure Ensemble where
  sources : Nat → Tracked
  saved : List (Bytes × History)

namespace Ensemble

/-- Sources made from seeds. -/
def ofSeeds (seeds : Nat → DoubleWord) : Ensemble :=
  ⟨fun i => ⟨ofSeed (seeds i), ⟨seeds i, []⟩⟩, []⟩

inductive Op where
  | act (i : Nat) (e : Event)
  | save (i : Nat)
  /-- Load the state that was saved as number `n` into source `i`. -/
  | load (i n : Nat)

def Op.run : Op → Ensemble → Ensemble
  | act i e, s =>
    let t := s.sources i
    { s with sources := Function.update s.sources i ⟨e.run t.source, t.history.after e⟩ }
  | save i, s =>
    let t := s.sources i
    { s with saved := s.saved ++ [(t.source.toBytes, t.history)] }
  | load i n, s =>
    match s.saved[n]? with
    | some x => { s with sources := Function.update s.sources i ((s.sources i).load x) }
    | none => s

def run (ops : List Op) (s : Ensemble) : Ensemble := ops.foldl (fun s op => op.run s) s

/-- All sources and all saved states are as their histories tell. -/
structure Sound (s : Ensemble) : Prop where
  sources : ∀ i, Follows (s.sources i).history (s.sources i).source
  saved : ∀ x ∈ s.saved, ∃ r, x.1 = r.toBytes ∧ Follows x.2 r

variable {s : Ensemble}

theorem sound_ofSeeds (seeds : Nat → DoubleWord) : (ofSeeds seeds).Sound where
  sources i := follows_ofSeed (seeds i)
  saved := nofun

theorem Sound.update (hs : s.Sound) (i : Nat) {t : Tracked} (ht : Follows t.history t.source) :
    Sound { s with sources := Function.update s.sources i t } where
  sources j := by
    by_cases hj : j = i
    · subst hj
      simpa using ht
    · simpa [hj] using hs.sources j
  saved := hs.saved

theorem Sound.op (hs : s.Sound) (op : Op) : (op.run s).Sound := by
  cases op with
  | act i e => exact hs.update i ((hs.sources i).after e)
  | save i =>
    refine ⟨hs.sources, fun x hx => ?_⟩
    rcases List.mem_append.mp hx with hx | hx
    · exact hs.saved x hx
    · rw [List.mem_singleton.mp hx]
      exact ⟨_, rfl, hs.sources i⟩
  | load i n =>
    cases hn : s.saved[n]? with
    | none => simpa only [Op.run, hn] using hs
    | some x =>
      obtain ⟨r, hbytes, hr⟩ := hs.saved x (List.mem_of_getElem? hn)
      have hload : (s.sources i).load x = ⟨r, x.2⟩ := by
        simp only [Tracked.load, hbytes, ofBytes_toBytes]
      simp only [Op.run, hn, hload]
      exact hs.update i hr

theorem Sound.run (hs : s.Sound) (ops : List Op) : (Ensemble.run ops s).Sound := by
  induction ops generalizing s with
  | nil => exact hs
  | cons op ops ih => exact ih (hs.op op)

end Ensemble

end RandomSource

end Microcomputer
