import Mathlib.Data.List.Basic
import Microcomputer.Proofs.MemoryMap.Layout

/-! All the interrupts that a memory map asks for at one time, by priority. A timer can ask
for two at once. A poll shows the first of all, and acknowledging its source takes that one
away and no other; so polls that are each acknowledged go through all of them once:
`Valid.polls_eq`. -/

namespace Microcomputer

namespace IntervalTimer

/-- All interrupts that a timer asks for, that of the first channel before the other. -/
def asserted (t : IntervalTimer) : List Half :=
  (if t.first.pending then [1] else []) ++ if t.second.pending then [2] else []

theorem interrupt_eq_head? (t : IntervalTimer) : t.interrupt = t.asserted.head? := by
  unfold interrupt asserted
  cases t.first.pending <;> cases t.second.pending <;> rfl

theorem asserted_acknowledge (t : IntervalTimer) : t.acknowledge.asserted = t.asserted.tail := by
  unfold acknowledge asserted
  cases hfirst : t.first.pending <;> cases hsecond : t.second.pending <;>
    simp [hfirst, hsecond]

theorem pairwise_asserted (t : IntervalTimer) : t.asserted.Pairwise (· < ·) := by
  unfold asserted
  cases t.first.pending <;> cases t.second.pending <;> decide

end IntervalTimer

theorem Scratchpad.interrupt_acknowledge (s : Scratchpad) : s.acknowledge.interrupt = none := by
  have hread : s.acknowledge.read 0 = 0 := by
    cases h : s.bytes <;> simp [acknowledge, write, read, h]
  rw [interrupt, if_pos hread]

theorem tail_toList {α : Type} (o : Option α) : o.toList.tail = [] := by
  cases o <;> rfl

theorem pairwise_toList {α : Type} (o : Option α) (R : α → α → Prop) : o.toList.Pairwise R := by
  cases o <;> simp

namespace Peripheral

/-- All interrupts that a peripheral asks for, the most urgent first. -/
def asserted : Peripheral → List Half
  | timer t => t.asserted
  | scratchpad s => s.interrupt.toList
  | tone _ | clock _ | random _ | ramp => []

theorem interrupt_eq_head? (p : Peripheral) : p.interrupt = p.asserted.head? := by
  cases p with
  | timer t => exact t.interrupt_eq_head?
  | scratchpad s => exact Option.head?_toList.symm
  | _ => rfl

theorem asserted_acknowledge (p : Peripheral) : p.acknowledge.asserted = p.asserted.tail := by
  cases p with
  | timer t => exact t.asserted_acknowledge
  | scratchpad s =>
    simp only [acknowledge, asserted, s.interrupt_acknowledge, tail_toList, Option.toList_none]
  | _ => rfl

theorem pairwise_asserted (p : Peripheral) : p.asserted.Pairwise (· < ·) := by
  cases p with
  | timer t => exact t.pairwise_asserted
  | scratchpad s => exact pairwise_toList _ _
  | _ => exact List.Pairwise.nil

end Peripheral

namespace Device

/-- All interrupts that a device asks for: there is at most one. -/
def asserted (d : Device) : List Half := d.interrupt.toList

theorem asserted_acknowledge (d : Device) : d.acknowledge.asserted = d.asserted.tail := by
  rw [asserted, asserted, tail_toList]
  cases d <;> rfl

end Device

/-- The priority of sources: peripherals before slots, peripherals by age and slots by number. -/
def InterruptSource.Precedes : InterruptSource → InterruptSource → Prop
  | .peripheral i, .peripheral j => i < j
  | .peripheral _, .slot _ => True
  | .slot _, .peripheral _ => False
  | .slot i, .slot j => i < j

theorem InterruptSource.Precedes.asymm {s t : InterruptSource} (h : s.Precedes t) :
    ¬t.Precedes s := by
  cases s with
  | peripheral i =>
    cases t with
    | peripheral j => exact Nat.lt_asymm h
    | slot n => exact id
  | slot i =>
    cases t with
    | peripheral id => exact h.elim
    | slot j => exact Nat.lt_asymm h

theorem InterruptSource.Precedes.ne {s t : InterruptSource} (h : s.Precedes t) : s ≠ t := by
  rintro rfl
  exact h.asymm h

/-- The priority of requests: of one source the lower message comes first. -/
def InterruptRequest.Precedes (r q : InterruptRequest) : Prop :=
  r.source.Precedes q.source ∨ r.source = q.source ∧ r.message < q.message

namespace MemoryMap

/-- All interrupts that a source asks for, the most urgent first. -/
def assertedBy (m : MemoryMap) : InterruptSource → List Half
  | .peripheral id => ((m.peripheral? id).map Peripheral.asserted).getD []
  | .slot n => ((m.card? n).map fun c => c.device.asserted).getD []

/-- All interrupts that are asked for, in the order of priority. -/
def asserted (m : MemoryMap) : List InterruptRequest :=
  m.sources.flatMap fun s => (m.assertedBy s).map (⟨s, ·⟩)

/-- The map after the interrupt that a poll shows, if any, is acknowledged. -/
def answered (m : MemoryMap) : MemoryMap :=
  match m.request? with
  | some r => m.acknowledge r.source
  | none => m

/-- What so many polls show that are each acknowledged. -/
def polls : Nat → MemoryMap → List (Option InterruptRequest)
  | 0, _ => []
  | n + 1, m => m.request? :: polls n m.answered

variable {m : MemoryMap}

/-! ### A poll shows the first -/

theorem requested_eq_head? (m : MemoryMap) (s : InterruptSource) :
    m.requested s = (m.assertedBy s).head? := by
  cases s with
  | peripheral id =>
    simp only [requested, assertedBy]
    cases m.peripheral? id with
    | none => rfl
    | some p => exact p.interrupt_eq_head?
  | slot n =>
    simp only [requested, assertedBy]
    cases m.card? n with
    | none => rfl
    | some c => exact Option.head?_toList.symm

theorem request?_eq_head? (m : MemoryMap) : m.request? = m.asserted.head? := by
  rw [request?, asserted, List.head?_flatMap]
  congr 1
  funext s
  rw [requested_eq_head?, List.head?_map]

/-! ### Acknowledging -/

theorem Valid.sources_acknowledge (hm : m.Valid) (s : InterruptSource) :
    (m.acknowledge s).sources = m.sources := by
  have horder : (m.acknowledge s).order = m.order := congrArg Layout.order (hm.layout_acknowledge s)
  rw [sources, sources, horder]

theorem ram_acknowledge (m : MemoryMap) (s : InterruptSource) : (m.acknowledge s).ram = m.ram := by
  cases s with
  | peripheral id =>
    simp only [acknowledge]
    split <;> rfl
  | slot n =>
    simp only [acknowledge, setCard]
    split
    · split <;> rfl
    · rfl

/-- Acknowledging reaches no peripheral but the source. -/
theorem Valid.peripheral?_acknowledge (hm : m.Valid) (s : InterruptSource) (id : RegionId) :
    (m.acknowledge s).peripheral? id =
      if s = .peripheral id then (m.peripheral? id).map Peripheral.acknowledge
      else m.peripheral? id := by
  cases s with
  | peripheral i =>
    simp only [acknowledge, InterruptSource.peripheral.injEq]
    split
    · next p hp =>
      rw [hm.peripheral?_setPeripheral hp p.kind_acknowledge]
      by_cases h : i = id
      · rw [if_pos h.symm, if_pos h, ← h, hp, Option.map_some]
      · rw [if_neg (Ne.symm h), if_neg h]
    · next hp =>
      split
      · next h => rw [← h, hp, Option.map_none]
      · rfl
  | slot n =>
    simp only [acknowledge, reduceCtorEq, if_false]
    split
    · next c hc => exact hm.peripheral?_setCard hc c.device.kind_acknowledge id
    · rfl

/-- Acknowledging reaches no card but the source. -/
theorem card?_acknowledge (m : MemoryMap) (s : InterruptSource) (slot : Nat) :
    (m.acknowledge s).card? slot =
      if s = .slot slot then (m.card? slot).map Card.acknowledge else m.card? slot := by
  cases s with
  | peripheral id =>
    simp only [acknowledge, reduceCtorEq, if_false]
    split
    · exact card?_setPeripheral m id _ slot
    · rfl
  | slot n =>
    simp only [acknowledge, InterruptSource.slot.injEq]
    split
    · next c hc =>
      rw [card?_setCard hc]
      by_cases h : n = slot
      · rw [if_pos h.symm, if_pos h, ← h, hc, Option.map_some]
      · rw [if_neg (Ne.symm h), if_neg h]
    · next hc =>
      split
      · next h => rw [← h, hc, Option.map_none]
      · rfl

theorem Valid.assertedBy_acknowledge (hm : m.Valid) (s t : InterruptSource) :
    (m.acknowledge s).assertedBy t =
      if s = t then (m.assertedBy t).tail else m.assertedBy t := by
  cases t with
  | peripheral id =>
    simp only [assertedBy, hm.peripheral?_acknowledge]
    split
    · cases m.peripheral? id with
      | none => rfl
      | some p => exact p.asserted_acknowledge
    · rfl
  | slot n =>
    simp only [assertedBy, card?_acknowledge]
    split
    · cases m.card? n with
      | none => rfl
      | some c => exact c.device.asserted_acknowledge
    · rfl

/-! ### Priority -/

theorem Valid.pairwise_sources (hm : m.Valid) : m.sources.Pairwise InterruptSource.Precedes := by
  refine List.pairwise_append.mpr
    ⟨List.pairwise_map.mpr hm.ordered, List.pairwise_map.mpr List.pairwise_lt_range, ?_⟩
  intro s hs t ht
  obtain ⟨id, -, rfl⟩ := List.mem_map.mp hs
  obtain ⟨n, -, rfl⟩ := List.mem_map.mp ht
  trivial

/-- A source that asks for an interrupt is one of those that are asked in turn. -/
theorem Valid.mem_sources (hm : m.Valid) {s : InterruptSource} (h : m.assertedBy s ≠ []) :
    s ∈ m.sources := by
  rw [sources, List.mem_append, List.mem_map, List.mem_map]
  cases s with
  | peripheral id =>
    refine .inl ⟨id, hm.mem_order_iff.mpr ?_, rfl⟩
    by_contra hnone
    simp [assertedBy, Option.not_isSome_iff_eq_none.mp hnone] at h
  | slot n =>
    refine .inr ⟨n, List.mem_range.mpr ?_, rfl⟩
    by_contra hn
    simp [assertedBy, card?, hn] at h

theorem Valid.mem_asserted (hm : m.Valid) {r : InterruptRequest} :
    r ∈ m.asserted ↔ r.message ∈ m.assertedBy r.source := by
  obtain ⟨s, x⟩ := r
  simp only [asserted, List.mem_flatMap, List.mem_map, InterruptRequest.mk.injEq]
  constructor
  · rintro ⟨_, -, _, hx, rfl, rfl⟩
    exact hx
  · intro hx
    exact ⟨s, hm.mem_sources (List.ne_nil_of_mem hx), x, hx, rfl, rfl⟩

theorem pairwise_assertedBy (m : MemoryMap) (s : InterruptSource) :
    (m.assertedBy s).Pairwise (· < ·) := by
  cases s with
  | peripheral id =>
    simp only [assertedBy]
    cases m.peripheral? id with
    | none => exact List.Pairwise.nil
    | some p => exact p.pairwise_asserted
  | slot n =>
    simp only [assertedBy]
    cases m.card? n with
    | none => exact List.Pairwise.nil
    | some c => exact pairwise_toList _ _

theorem Valid.pairwise_asserted (hm : m.Valid) :
    m.asserted.Pairwise InterruptRequest.Precedes := by
  refine List.pairwise_flatMap.mpr ⟨fun s _ => ?_, hm.pairwise_sources.imp fun hst r hr q hq => ?_⟩
  · exact List.pairwise_map.mpr ((m.pairwise_assertedBy s).imp fun h => .inr ⟨rfl, h⟩)
  · obtain ⟨x, -, rfl⟩ := List.mem_map.mp hr
    obtain ⟨y, -, rfl⟩ := List.mem_map.mp hq
    exact .inl hst

/-- What a poll shows is asked for, and nothing before it is. -/
theorem Valid.of_request? (hm : m.Valid) {r : InterruptRequest} (h : m.request? = some r) :
    m.requested r.source = some r.message ∧
      ∀ s, s.Precedes r.source → m.requested s = none := by
  obtain ⟨s, -, hs⟩ := List.exists_of_findSome?_eq_some h
  obtain ⟨x, hx, rfl⟩ := Option.map_eq_some_iff.mp hs
  refine ⟨hx, fun t ht => ?_⟩
  rw [request?_eq_head?] at h
  obtain ⟨rs, hrs⟩ := List.head?_eq_some_iff.mp h
  have hpairwise := hm.pairwise_asserted
  rw [hrs, List.pairwise_cons] at hpairwise
  rw [requested_eq_head?, List.head?_eq_none_iff, List.eq_nil_iff_forall_not_mem]
  intro y hy
  have hmem : ⟨t, y⟩ ∈ m.asserted := hm.mem_asserted.mpr hy
  rw [hrs] at hmem
  rcases List.mem_cons.mp hmem with heq | hmem
  · exact ht.ne (InterruptRequest.mk.inj heq).1
  · rcases hpairwise.1 _ hmem with hst | ⟨heq, -⟩
    · exact ht.asymm hst
    · exact ht.ne heq.symm

/-- Where a poll shows nothing, nothing is asked for. -/
theorem Valid.of_request?_eq_none (hm : m.Valid) (h : m.request? = none) (s : InterruptSource) :
    m.requested s = none := by
  rw [request?_eq_head?, List.head?_eq_none_iff] at h
  rw [requested_eq_head?, List.head?_eq_none_iff, List.eq_nil_iff_forall_not_mem]
  intro x hx
  have hmem : ⟨s, x⟩ ∈ m.asserted := hm.mem_asserted.mpr hx
  rw [h] at hmem
  cases hmem

/-! ### Answering -/

/-- In a list without repetition, a change that takes the first away from the first part that
has one takes the first away from the whole. -/
theorem flatMap_eq_tail {α β : Type} {f g : α → List β} {before after : List α} {a : α}
    (hnodup : (before ++ a :: after).Nodup) (hbefore : ∀ b ∈ before, f b = []) (ha : f a ≠ [])
    (hself : g a = (f a).tail) (hother : ∀ b, a ≠ b → g b = f b) :
    (before ++ a :: after).flatMap g = ((before ++ a :: after).flatMap f).tail := by
  obtain ⟨-, hcons, hdisjoint⟩ := List.nodup_append.mp hnodup
  have hleft : before.flatMap g = before.flatMap f := by
    refine List.flatMap_congr fun b hb => hother b fun h => ?_
    exact hdisjoint b hb a List.mem_cons_self h.symm
  have hright : after.flatMap g = after.flatMap f := by
    refine List.flatMap_congr fun b hb => hother b fun h => ?_
    exact (List.nodup_cons.mp hcons).1 (h ▸ hb)
  have hnil : before.flatMap f = [] := List.flatMap_eq_nil_iff.mpr hbefore
  rw [List.flatMap_append, List.flatMap_append, List.flatMap_cons, List.flatMap_cons, hleft,
    hright, hnil, hself, List.nil_append, List.nil_append, List.tail_append_of_ne_nil ha]

/-- Answering a poll takes the interrupt that it shows away, and no other. -/
theorem Valid.asserted_answered (hm : m.Valid) : m.answered.asserted = m.asserted.tail := by
  unfold answered
  split
  · next r hr =>
    obtain ⟨before, s, after, hsources, hs, hbefore⟩ := List.findSome?_eq_some_iff.mp hr
    obtain ⟨x, hx, rfl⟩ := Option.map_eq_some_iff.mp hs
    rw [requested_eq_head?] at hx
    rw [asserted, asserted, hm.sources_acknowledge, hsources]
    have hnodup : m.sources.Nodup := hm.pairwise_sources.imp fun h => h.ne
    refine flatMap_eq_tail (hsources ▸ hnodup) (fun t ht => ?_) ?_ ?_ fun t hst => ?_
    · have hnone := Option.map_eq_none_iff.mp (hbefore t ht)
      rw [requested_eq_head?, List.head?_eq_none_iff] at hnone
      rw [hnone, List.map_nil]
    · simp [List.ne_nil_of_mem (List.mem_of_head? hx)]
    · rw [hm.assertedBy_acknowledge, if_pos rfl, List.map_tail]
    · rw [hm.assertedBy_acknowledge, if_neg hst]
  · next hr =>
    rw [request?_eq_head?, List.head?_eq_none_iff] at hr
    rw [hr, List.tail_nil]

theorem Valid.answered (hm : m.Valid) : m.answered.Valid := by
  unfold MemoryMap.answered
  split
  · exact hm.of_layout_eq (hm.layout_acknowledge _)
  · exact hm

theorem Valid.polls_of_asserted_eq_nil (hm : m.Valid) (h : m.asserted = []) (n : Nat) :
    polls n m = List.replicate n none := by
  induction n generalizing m with
  | zero => rfl
  | succ n ih =>
    have hnext : m.answered.asserted = [] := by rw [hm.asserted_answered, h, List.tail_nil]
    rw [polls, request?_eq_head?, h, ih hm.answered hnext, List.replicate_succ, List.head?_nil]

/-- Polls that are each acknowledged show all interrupts by priority, and then none. -/
theorem Valid.polls_eq (hm : m.Valid) (n : Nat) :
    polls (m.asserted.length + n) m = m.asserted.map some ++ List.replicate n none := by
  generalize hrs : m.asserted = rs
  induction rs generalizing m with
  | nil => rw [List.length_nil, Nat.zero_add, hm.polls_of_asserted_eq_nil hrs]; rfl
  | cons r rs ih =>
    have hnext : m.answered.asserted = rs := by rw [hm.asserted_answered, hrs, List.tail_cons]
    rw [List.length_cons, Nat.add_right_comm, polls, request?_eq_head?, hrs,
      ih hm.answered hnext]
    rfl

end MemoryMap

end Microcomputer
