import Microcomputer.Proofs.Codec.Reader
import Microcomputer.Proofs.Codec.Record
import Microcomputer.Snapshot

/-! The snapshot format is decoded exactly. Apart from the five state bits that a record
ignores, a byte string decodes to a snapshot if and only if it begins with the bytes of
that snapshot; a proper beginning of those bytes is refused as truncated. Lengths and
counts have four bytes, so this speaks of snapshots whose parts are shorter than `2 ^ 32`. -/

namespace Microcomputer

namespace ControlBlock

theorem ofBytes_toBytes (b : ControlBlock) : ofBytes b.toBytes = b := by
  obtain ⟨c, rs⟩ := b
  simp [ofBytes, toBytes]

theorem toBytes_ofBytes (bs : Bytes) (h : bs.length = 6) : (ofBytes bs).toBytes = bs := by
  rcases bs with _ | ⟨c, bs⟩
  · contradiction
  · have hl : bs.length = 5 := by simpa using h
    simp only [ofBytes, toBytes, List.getElem?_cons_zero, Option.getD_some, Vector.toList_ofFn,
      List.getElem?_cons_succ, List.cons.injEq, true_and]
    apply List.ext_getElem
    · simp [hl]
    · intro i h₁ h₂
      rw [List.getElem_ofFn, List.getElem?_eq_getElem h₂, Option.getD_some]

end ControlBlock

namespace Snapshot

open LittleEndian Reader

/-- Every length and count of the snapshot can be written in four bytes. -/
structure Fits (s : Snapshot) : Prop where
  ram : s.ram.length < 2 ^ 32
  peripherals : s.peripherals.length < 2 ^ 32
  blobs : ∀ bs ∈ s.peripherals, bs.length < 2 ^ 32
  cards : s.cards.length < 2 ^ 32
  devices : ∀ c ∈ s.cards, c.device.length < 2 ^ 32

instance (s : Snapshot) : Decidable s.Fits :=
  decidable_of_iff (s.ram.length < 2 ^ 32 ∧ s.peripherals.length < 2 ^ 32 ∧
      (∀ bs ∈ s.peripherals, bs.length < 2 ^ 32) ∧ s.cards.length < 2 ^ 32 ∧
      ∀ c ∈ s.cards, c.device.length < 2 ^ 32)
    ⟨fun ⟨a, b, c, d, e⟩ => ⟨a, b, c, d, e⟩, fun ⟨a, b, c, d, e⟩ => ⟨a, b, c, d, e⟩⟩

/-! ### The parts of a snapshot -/

/-- The number of bytes or members, read as the word that it is written as. -/
theorem toNat_of_lt {n : Nat} (h : n < 2 ^ 32) : (BitVec.ofNat 32 n).toNat = n := by
  rw [BitVec.toNat_ofNat, Nat.mod_eq_of_lt h]

theorem exact_blob : Exact Reader.blob blob (·.length < 2 ^ 32) := by
  refine ((exact_word rfl).bind blob (fun n _ => exact_take n.toNat) ?_).congr fun bs => ?_
  · intro n bs _ hn
    rw [blob, hn]
    rfl
  · constructor
    · rintro ⟨n, -, hn⟩
      exact hn ▸ n.isLt
    · intro h
      exact ⟨BitVec.ofNat 32 bs.length, trivial, (toNat_of_lt h).symm⟩

/-- Values of one kind after their number. -/
theorem exact_counted {α : Type} {r : Reader α} {write : α → Bytes} {P : α → Prop}
    (hr : Exact r write P) :
    Exact (do many r (← word 32).toNat) (fun xs => count xs.length ++ xs.flatMap write)
      fun xs => xs.length < 2 ^ 32 ∧ ∀ x ∈ xs, P x := by
  refine ((exact_word rfl).bind _ (fun n _ => exact_many hr n.toNat) ?_).congr fun xs => ?_
  · rintro n xs - ⟨hn, -⟩
    rw [hn]
    rfl
  · constructor
    · rintro ⟨n, -, hn, hxs⟩
      exact ⟨hn ▸ n.isLt, hxs⟩
    · rintro ⟨h, hxs⟩
      exact ⟨BitVec.ofNat 32 xs.length, trivial, (toNat_of_lt h).symm, hxs⟩

theorem exact_readCard : Exact readCard cardBytes (·.device.length < 2 ^ 32) := by
  refine ((exact_word rfl).bind cardBytes (fun slot _ => (exact_take 6).bind
    (fun c => c.block.toBytes ++ blob c.device) (fun block _ => exact_blob.bind (blob ·.device)
      (fun device _ => exact_pure (⟨slot, .ofBytes block, device⟩ : CardState) (fun _ => []) rfl)
      ?_) ?_) ?_).congr fun c => ?_
  · rintro device c - rfl
    simp
  · rintro block c hb ⟨device, -, rfl⟩
    rw [ControlBlock.toBytes_ofBytes block hb]
    rfl
  · rintro slot c - ⟨block, -, device, -, rfl⟩
    rw [ofWord_byte]
    rfl
  · constructor
    · rintro ⟨slot, -, block, -, device, hd, rfl⟩
      exact hd
    · intro hd
      exact ⟨c.slot, trivial, c.block.toBytes, by simp [ControlBlock.toBytes], c.device, hd,
        by rw [ControlBlock.ofBytes_toBytes]⟩

/-! ### The whole snapshot -/

/-- What follows the record of the processor. -/
def bodyBytes (s : Snapshot) : Bytes :=
  blob s.ram ++ ((count s.peripherals.length ++ s.peripherals.flatMap blob) ++
    (count s.cards.length ++ s.cards.flatMap cardBytes))

theorem toBytes_eq (s : Snapshot) : s.toBytes = s.processor.toBytes ++ s.bodyBytes := by
  simp only [toBytes, bodyBytes, List.append_assoc]

theorem exact_readBody (p : Processor.State) :
    Exact (readBody p) bodyBytes fun s => s.processor = p ∧ s.Fits := by
  have he : readBody p = Reader.blob >>= fun ram => (do many Reader.blob (← word 32).toNat) >>=
      fun peripherals => (do many readCard (← word 32).toNat) >>=
      fun cards => pure ⟨p, ram, peripherals, cards⟩ := by
    simp only [readBody, bind_assoc]
  rw [he]
  refine (exact_blob.bind bodyBytes (fun ram _ => (exact_counted exact_blob).bind
    (fun s => (count s.peripherals.length ++ s.peripherals.flatMap blob) ++
      (count s.cards.length ++ s.cards.flatMap cardBytes))
    (fun peripherals _ => (exact_counted exact_readCard).bind
      (fun s => count s.cards.length ++ s.cards.flatMap cardBytes)
      (fun cards _ => exact_pure (⟨p, ram, peripherals, cards⟩ : Snapshot) (fun _ => []) rfl)
      ?_) ?_) ?_).congr fun s => ?_
  · rintro cards s - rfl
    simp
  · rintro peripherals s - ⟨cards, -, rfl⟩
    rfl
  · rintro ram s - ⟨peripherals, -, cards, -, rfl⟩
    rfl
  · constructor
    · rintro ⟨ram, hram, peripherals, ⟨hp, hbs⟩, cards, ⟨hc, hds⟩, rfl⟩
      exact ⟨rfl, hram, hp, hbs, hc, hds⟩
    · rintro ⟨rfl, h⟩
      exact ⟨s.ram, h.ram, s.peripherals, ⟨h.peripherals, h.blobs⟩, s.cards, ⟨h.cards, h.devices⟩,
        rfl⟩

open Processor.State (recordSize clearUnused)

theorem ofBytes_of_lt {bs : Bytes} (h : bs.length < recordSize) :
    ofBytes bs = .error (.truncated bs.length) := by
  simp only [ofBytes, if_pos h]
  rfl

/-- A byte string that is long enough for a record is a record and the body after it. -/
theorem ofBytes_of_le {bs : Bytes} (h : recordSize ≤ bs.length) :
    ∃ p, Processor.State.ofBytes (bs.take recordSize) = .ok p ∧
      ofBytes bs = (readBody p ⟨bs.drop recordSize, recordSize⟩).map Prod.fst := by
  obtain ⟨p, hp⟩ := Processor.State.exists_ofBytes (List.length_take_of_le h)
  refine ⟨p, hp, ?_⟩
  simp only [ofBytes, Nat.not_lt.2 h, if_false, hp]
  change (readBody p ⟨bs.drop recordSize, recordSize⟩ >>= fun r => Except.ok r.1) = _
  cases readBody p ⟨bs.drop recordSize, recordSize⟩ <;> rfl

/-- A byte string decodes to a snapshot exactly if it begins with the bytes of that snapshot. -/
theorem ofBytes_eq_ok_iff {bs : Bytes} {s : Snapshot} :
    ofBytes bs = .ok s ↔
      s.Fits ∧ recordSize ≤ bs.length ∧ ∃ rest, clearUnused bs = s.toBytes ++ rest := by
  rcases Nat.lt_or_ge bs.length recordSize with h | h
  · rw [ofBytes_of_lt h]
    exact iff_of_false (by simp) fun hs => Nat.not_lt.2 hs.2.1 h
  · obtain ⟨p, hp, hs⟩ := ofBytes_of_le h
    obtain ⟨hlength, hrec⟩ := Processor.State.ofBytes_eq_ok_iff.mp hp
    rw [hs, Processor.State.clearUnused_eq_append, hrec]
    constructor
    · intro hok
      cases hb : readBody p ⟨bs.drop recordSize, recordSize⟩ with
      | error e => rw [hb] at hok; contradiction
      | ok r =>
        obtain ⟨t, c⟩ := r
        rw [hb] at hok
        obtain rfl := Except.ok.inj hok
        obtain ⟨⟨rfl, hfits⟩, hrest, -⟩ := (exact_readBody p).eq_ok_iff.1 hb
        refine ⟨hfits, h, c.rest, ?_⟩
        rw [toBytes_eq, List.append_assoc, ← hrest]
    · rintro ⟨hfits, -, rest, hrest⟩
      rw [toBytes_eq, List.append_assoc] at hrest
      obtain ⟨hproc, hbody⟩ := List.append_inj hrest
        (by rw [Processor.State.length_toBytes, Processor.State.length_toBytes])
      have hread : Processor.State.ofBytes (bs.take recordSize) = .ok s.processor :=
        Processor.State.ofBytes_eq_ok_iff.mpr ⟨hlength, hrec.trans hproc⟩
      have hpe : s.processor = p := Except.ok.inj (hread.symm.trans hp)
      have hb : readBody p ⟨bs.drop recordSize, recordSize⟩ =
          .ok (s, ⟨rest, recordSize + s.bodyBytes.length⟩) :=
        (exact_readBody p).eq_ok_iff.2 ⟨⟨hpe, hfits⟩, hbody, rfl⟩
      rw [hb]
      rfl

/-- Decoding fails only with a truncation inside the byte string. -/
theorem truncated_of_ofBytes {bs : Bytes} {e : RestoreError} (h : ofBytes bs = .error e) :
    ∃ o, e = .truncated o ∧ o ≤ bs.length := by
  rcases Nat.lt_or_ge bs.length recordSize with hl | hl
  · rw [ofBytes_of_lt hl] at h
    exact ⟨bs.length, (Except.error.inj h).symm, Nat.le_refl _⟩
  · obtain ⟨p, -, hs⟩ := ofBytes_of_le hl
    rw [hs] at h
    cases hb : readBody p ⟨bs.drop recordSize, recordSize⟩ with
    | ok r => rw [hb] at h; contradiction
    | error e' =>
      rw [hb] at h
      obtain rfl := Except.error.inj h
      obtain ⟨o, rfl, -, ho⟩ := (exact_readBody p).truncated hb
      refine ⟨o, rfl, ?_⟩
      simp only [List.length_drop] at ho
      omega

theorem clearUnused_toBytes_append (s : Snapshot) (rest : Bytes) :
    clearUnused (s.toBytes ++ rest) = s.toBytes ++ rest := by
  rw [toBytes_eq, List.append_assoc, Processor.State.clearUnused_eq_append,
    ← s.processor.length_toBytes, List.take_left, List.drop_left,
    Processor.State.clearUnused_toBytes]

theorem recordSize_le (s : Snapshot) : recordSize ≤ s.toBytes.length := by
  rw [toBytes_eq, List.length_append, Processor.State.length_toBytes]
  exact Nat.le_add_right _ _

theorem ofBytes_toBytes_append (s : Snapshot) (hs : s.Fits) (rest : Bytes) :
    ofBytes (s.toBytes ++ rest) = .ok s := by
  have hl := s.recordSize_le
  refine ofBytes_eq_ok_iff.2 ⟨hs, ?_, rest, clearUnused_toBytes_append s rest⟩
  rw [List.length_append]
  omega

theorem ofBytes_toBytes (s : Snapshot) (hs : s.Fits) : ofBytes s.toBytes = .ok s := by
  simpa using s.ofBytes_toBytes_append hs []

/-- No byte string begins with the bytes of two snapshots. -/
theorem eq_of_toBytes_append {s t : Snapshot} (hs : s.Fits) (ht : t.Fits) {r r' : Bytes}
    (h : s.toBytes ++ r = t.toBytes ++ r') : s = t := by
  have hd := congrArg ofBytes h
  rw [s.ofBytes_toBytes_append hs, t.ofBytes_toBytes_append ht] at hd
  exact Except.ok.inj hd

/-- A beginning of the bytes of a snapshot that decodes at all is the whole of them. -/
theorem ofBytes_take_ne_ok (s t : Snapshot) (hs : s.Fits) (n : Nat) (hn : n < s.toBytes.length) :
    ofBytes (s.toBytes.take n) ≠ .ok t := by
  intro hok
  obtain ⟨ht, hle, rest, hrest⟩ := ofBytes_eq_ok_iff.1 hok
  rw [List.length_take_of_le (Nat.le_of_lt hn)] at hle
  have hsplit : s.toBytes = t.toBytes ++ (rest ++ s.toBytes.drop n) := by
    rw [← List.append_assoc, ← hrest, clearUnused, ← List.take_modify, ← clearUnused]
    have hclear := clearUnused_toBytes_append s []
    rw [List.append_nil] at hclear
    rw [hclear, List.take_append_drop]
  obtain rfl : s = t := eq_of_toBytes_append hs ht (r := []) (by rw [List.append_nil]; exact hsplit)
  have hlen := congrArg List.length hsplit
  rw [List.length_append, List.length_append, List.length_drop] at hlen
  omega

/-- The format is decoded exactly: a byte string decodes to a snapshot if and only if, the
unused state bits aside, it begins with the bytes of that snapshot. So what was written is
read back, no byte string stands for two snapshots, and a proper beginning of what was
written is refused at a place inside it. -/
theorem ofBytes_exact (s : Snapshot) (hs : s.Fits) :
    (∀ bs, ofBytes bs = .ok s ↔
      recordSize ≤ bs.length ∧ ∃ rest, clearUnused bs = s.toBytes ++ rest) ∧
    ofBytes s.toBytes = .ok s ∧
    (∀ t r r', t.Fits → s.toBytes ++ r = t.toBytes ++ r' → s = t) ∧
    ∀ n < s.toBytes.length, ∃ o ≤ n, ofBytes (s.toBytes.take n) = .error (.truncated o) := by
  refine ⟨fun bs => ?_, s.ofBytes_toBytes hs, fun t r r' ht h => eq_of_toBytes_append hs ht h, ?_⟩
  · rw [ofBytes_eq_ok_iff]
    exact and_iff_right hs
  · intro n hn
    cases h : ofBytes (s.toBytes.take n) with
    | ok t => exact absurd h (s.ofBytes_take_ne_ok t hs n hn)
    | error e =>
      obtain ⟨o, rfl, ho⟩ := truncated_of_ofBytes h
      rw [List.length_take_of_le (Nat.le_of_lt hn)] at ho
      exact ⟨o, ho, rfl⟩

/-- A half-written card and a latched interrupt, cut short in the state of the device. -/
theorem ofBytes_exact_card :
    let s : Snapshot := ⟨{ Processor.State.initial with message := 0xBEEF, pending := true },
      [1, 2, 3, 4], [[9, 9, 9]], [⟨5, ⟨1, #v[0, 2, 0, 0, 3]⟩, [7, 7, 7]⟩]⟩
    s.Fits ∧ ofBytes s.toBytes = .ok s ∧
      ∃ o ≤ 182, ofBytes (s.toBytes.take 182) = .error (.truncated o) := by
  intro s
  have hs : s.Fits := by decide
  have hl : 182 < s.toBytes.length := by
    rw [toBytes_eq, List.length_append, Processor.State.length_toBytes]
    decide
  obtain ⟨-, hok, -, hcut⟩ := ofBytes_exact s hs
  exact ⟨hs, hok, hcut 182 hl⟩

end Snapshot

end Microcomputer
