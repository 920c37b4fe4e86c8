import Microcomputer.Proofs.Codec.WordAt
import Microcomputer.Snapshot.Cursor

/-! Readers against written forms. An exact reader succeeds precisely where the written
form of a value stands in front, moves past it, and otherwise reports a truncation
inside the bytes that were left. Exactness passes through sequences and repetitions, so
a format of nested parts is decoded exactly as soon as its parts are. -/

namespace Microcomputer.Reader

open LittleEndian

variable {α β : Type}

/-- The reader `r` takes the written forms of the values with property `P`. -/
structure Exact (r : Reader α) (write : α → Bytes) (P : α → Prop) : Prop where
  eq_ok_iff : ∀ {c : Cursor} {x : α} {c' : Cursor}, r c = .ok (x, c') ↔
    P x ∧ c.rest = write x ++ c'.rest ∧ c'.offset = c.offset + (write x).length
  truncated : ∀ {c : Cursor} {e : RestoreError}, r c = .error e →
    ∃ o, e = .truncated o ∧ c.offset ≤ o ∧ o ≤ c.offset + c.rest.length

theorem exact_take (n : Nat) : Exact (take n) id (·.length = n) where
  eq_ok_iff {c bs c'} := by
    unfold take
    split
    · rename_i h
      simp only [Except.ok.injEq, Prod.mk.injEq, id_eq]
      constructor
      · rintro ⟨rfl, rfl⟩
        simp [h]
      · rintro ⟨rfl, hr, ho⟩
        rw [hr, List.take_left, List.drop_left, ← ho]
        exact ⟨rfl, rfl⟩
    · rename_i h
      simp only [reduceCtorEq, id_eq, false_iff]
      rintro ⟨rfl, hr, -⟩
      simp [hr] at h
  truncated {c e} h := by
    unfold take at h
    split at h
    · contradiction
    · exact ⟨c.offset, (Except.error.inj h).symm, Nat.le_refl _, Nat.le_add_right _ _⟩

theorem exact_pure (x : α) (write : α → Bytes) (h : write x = []) :
    Exact (pure x) write (· = x) where
  eq_ok_iff {c y c'} := by
    change Except.ok (x, c) = .ok (y, c') ↔ _
    simp only [Except.ok.injEq, Prod.mk.injEq]
    constructor
    · rintro ⟨rfl, rfl⟩
      simp [h]
    · rintro ⟨rfl, hr, ho⟩
      rw [h] at hr ho
      exact ⟨rfl, (Cursor.mk.injEq ..).mpr ⟨hr, ho.symm⟩⟩
  truncated h := nomatch h

/-- Two exact readers one after the other. The value read last, `y`, is written as the
value read first followed by what the second reader takes. -/
theorem Exact.bind {r : Reader α} {f : α → Reader β} {write : α → Bytes} {after : α → β → Bytes}
    {P : α → Prop} {Q : α → β → Prop} (whole : β → Bytes) (hr : Exact r write P)
    (hf : ∀ x, P x → Exact (f x) (after x) (Q x))
    (hw : ∀ x y, P x → Q x y → whole y = write x ++ after x y) :
    Exact (r >>= f) whole fun y => ∃ x, P x ∧ Q x y where
  eq_ok_iff {c y c''} := by
    change (r c >>= fun p => f p.1 p.2) = .ok (y, c'') ↔ _
    constructor
    · intro h
      cases hc : r c with
      | error e => rw [hc] at h; contradiction
      | ok p =>
        obtain ⟨x, c'⟩ := p
        rw [hc] at h
        obtain ⟨hx, hrest, hoff⟩ := hr.eq_ok_iff.1 hc
        obtain ⟨hy, hrest', hoff'⟩ := (hf x hx).eq_ok_iff.1 h
        refine ⟨⟨x, hx, hy⟩, ?_, ?_⟩
        · rw [hrest, hrest', hw x y hx hy, List.append_assoc]
        · rw [hoff', hoff, hw x y hx hy, List.length_append, Nat.add_assoc]
    · rintro ⟨⟨x, hx, hy⟩, hrest, hoff⟩
      rw [hw x y hx hy, List.append_assoc] at hrest
      rw [hw x y hx hy, List.length_append, ← Nat.add_assoc] at hoff
      let c' : Cursor := ⟨after x y ++ c''.rest, c.offset + (write x).length⟩
      have hc : r c = .ok (x, c') := hr.eq_ok_iff.2 ⟨hx, hrest, rfl⟩
      rw [hc]
      exact (hf x hx).eq_ok_iff.2 ⟨hy, rfl, hoff⟩
  truncated {c e} h := by
    change (r c >>= fun p => f p.1 p.2) = .error e at h
    cases hc : r c with
    | error e' =>
      rw [hc] at h
      obtain rfl := Except.error.inj h
      exact hr.truncated hc
    | ok p =>
      obtain ⟨x, c'⟩ := p
      rw [hc] at h
      obtain ⟨hx, hrest, hoff⟩ := hr.eq_ok_iff.1 hc
      obtain ⟨o, rfl, hlo, hhi⟩ := (hf x hx).truncated h
      have hlen := congrArg List.length hrest
      rw [List.length_append] at hlen
      exact ⟨o, rfl, by dsimp only at hlo; omega, by dsimp only at hhi; omega⟩

/-- The written form and the property of an exact reader may be put in other words. -/
theorem Exact.congr {r : Reader α} {write : α → Bytes} {P Q : α → Prop} (hr : Exact r write P)
    (h : ∀ x, P x ↔ Q x) : Exact r write Q := by
  rwa [← show P = Q from funext fun x => propext (h x)]

theorem exact_word {w : Nat} (hw : 8 * (w / 8) = w) : Exact (word w) ofWord fun _ => True := by
  refine ((exact_take (w / 8)).bind ofWord
    (fun bs _ => exact_pure (toWord w bs) (fun _ => []) rfl) ?_).congr ?_
  · rintro bs x hbs rfl
    rw [ofWord_toWord bs (by rw [hbs, hw]), id, List.append_nil]
  · intro x
    exact iff_of_true ⟨ofWord x, length_ofWord x, (toWord_ofWord x hw).symm⟩ trivial

/-- So many values of one kind, written one after the other. -/
theorem exact_many {r : Reader α} {write : α → Bytes} {P : α → Prop} (hr : Exact r write P)
    (n : Nat) : Exact (many r n) (·.flatMap write) fun xs => xs.length = n ∧ ∀ x ∈ xs, P x := by
  induction n with
  | zero =>
    refine (exact_pure [] (·.flatMap write) rfl).congr fun xs => ?_
    simp only [List.length_eq_zero_iff]
    constructor
    · rintro rfl
      simp
    · exact And.left
  | succ n ih =>
    refine (hr.bind _ (fun x _ => ih.bind (·.tail.flatMap write)
      (fun xs _ => exact_pure (x :: xs) (fun _ => []) rfl) ?_) ?_).congr fun xs => ?_
    · rintro ys _ - rfl
      simp
    · rintro x _ - ⟨ys, -, rfl⟩
      rfl
    · constructor
      · rintro ⟨x, hx, ys, ⟨hn, hys⟩, rfl⟩
        exact ⟨by simp [hn], by simpa [hx] using hys⟩
      · rintro ⟨hn, hxs⟩
        cases xs with
        | nil => contradiction
        | cons x ys =>
          exact ⟨x, hxs x (by simp), ys, ⟨by simpa using hn, fun y hy => hxs y (by simp [hy])⟩, rfl⟩

end Microcomputer.Reader
