import Mathlib.Algebra.GroupWithZero.Nat
import Microcomputer.Proofs.MemoryMap.Reachable

/-! What happens to the regions of a memory map while they stay. Every operation on a map reaches
a region as a list of events, and what becomes of the region is what these make of it. Names are
not given twice, so a region stays if its name does. The portions of time among the events are
the same for all that stay, those that the map was given, except that none reaches the device of
a card that is not synchronous: `lives_run`. -/

namespace Microcomputer

theorem Device.synchronous_eq_of_kind_eq {d e : Device} (h : d.kind = e.kind) :
    d.synchronous = e.synchronous := by
  cases d with
  | exerciser x =>
    cases e with
    | exerciser y => exact (Kind.exerciser.inj h).2.1
    | inert j => cases h
  | inert i =>
    cases e with
    | exerciser y => cases h
    | inert j => rfl

/-! ### The count of a trace -/

namespace Device

/-- The cycles that a device has on record. -/
def ticks (d : Device) : Word := d.trace.ticks

theorem ticks_reset (d : Device) : d.reset.ticks = d.ticks := by cases d <;> rfl

theorem ticks_setRegister (d : Device) (i : Fin 5) (x : Half) :
    (d.setRegister i x).ticks = d.ticks := by
  cases d <;> rfl

theorem ticks_acknowledge (d : Device) : d.acknowledge.ticks = d.ticks := by cases d <;> rfl

theorem ticks_command (d : Device) (c : Half) : (d.command c).ticks = d.ticks := by
  cases d with
  | exerciser e =>
    simp only [command, Exerciser.command]
    split
    · rfl
    · split
      · rfl
      · split <;> rfl
  | inert i => rfl

theorem ticks_tick {d : Device} (h : d.synchronous) (n : Nat) :
    (d.tick n).ticks = d.ticks + BitVec.ofNat 32 n := by
  cases d with
  | exerciser e =>
    simp only [tick, Exerciser.tick]
    split <;> rfl
  | inert i => cases h

end Device

theorem Card.ticks_write (c : Card) (offset : Nat) (b : Byte) :
    (c.write offset b).device.ticks = c.device.ticks := by
  simp only [write, ControlBlock.write]
  split
  · rfl
  · split
    · exact c.device.ticks_command _
    · split
      · split
        · rfl
        · exact c.device.ticks_setRegister _ _
      · rfl

/-! ### Lives -/

theorem filterMap_cons_eq_append {α β : Type} (f : α → Option β) (x : α) (xs : List α) :
    (x :: xs).filterMap f = (f x).toList ++ xs.filterMap f := by
  cases h : f x <;> simp [h]

/-- Cycles that pass at once, and the seconds that they take. -/
abbrev Portion := Nat × Binary64

namespace Region

/-- What can happen to a region that stays. -/
inductive Event where
  | read (offset : Nat)
  | write (offset : Nat) (b : Byte)
  | tick (portion : Portion)
  | acknowledge
  | reset
deriving DecidableEq

namespace Event

/-- The content of a region after an event. A tick reaches a device whether or not it is
synchronous. -/
def run : Event → Content → Content
  | read offset, c => (c.read offset).2
  | write offset b, c => c.write offset b
  | tick q, .peripheral p => .peripheral (p.tick q.1 q.2)
  | tick q, .card k => .card { k with device := k.device.tick q.1 }
  | acknowledge, .peripheral p => .peripheral p.acknowledge
  | acknowledge, .card k => .card k.acknowledge
  | reset, c => c.reset

def portion? : Event → Option Portion
  | tick q => some q
  | _ => none

theorem kind_run (e : Event) (c : Content) : (e.run c).kind = c.kind := by
  cases e with
  | read offset => exact c.kind_read offset
  | write offset b => exact c.kind_write offset b
  | tick q => cases c <;> simp [run, Content.kind]
  | acknowledge => cases c <;> simp [run, Content.kind, Card.acknowledge]
  | reset => exact c.kind_reset

end Event

/-- The content of a region after events one after the other. -/
def Content.live (events : List Event) (c : Content) : Content :=
  events.foldl (fun c e => e.run c) c

theorem Content.live_append (events events' : List Event) (c : Content) :
    c.live (events ++ events') = (c.live events).live events' := List.foldl_append

theorem Content.kind_live (events : List Event) (c : Content) : (c.live events).kind = c.kind := by
  induction events generalizing c with
  | nil => rfl
  | cons e events ih => exact (ih (e.run c)).trans (e.kind_run c)

/-- Time passes for what a region leads to. -/
def Content.Timed : Content → Prop
  | .peripheral _ => True
  | .card k => k.device.synchronous

instance : DecidablePred Content.Timed
  | .peripheral _ => isTrue trivial
  | .card k => inferInstanceAs (Decidable (k.device.synchronous = true))

theorem Content.timed_iff_of_kind_eq {c d : Content} (h : c.kind = d.kind) :
    c.Timed ↔ d.Timed := by
  rcases cases_of_kind_eq h with ⟨p, q, rfl, rfl⟩ | ⟨j, k, rfl, rfl⟩
  · exact Iff.rfl
  · rw [Timed, Timed, Device.synchronous_eq_of_kind_eq (Kind.card.inj h)]

/-- The portions of time that reach a region, of those that pass for the map. -/
def Content.received (c : Content) (portions : List Portion) : List Portion :=
  if c.Timed then portions else []

theorem Content.received_nil (c : Content) : c.received [] = [] := ite_self []

theorem Content.received_append (c : Content) (portions portions' : List Portion) :
    c.received (portions ++ portions') = c.received portions ++ c.received portions' := by
  unfold received
  split <;> rfl

theorem Content.received_live (events : List Event) (c : Content) (portions : List Portion) :
    (c.live events).received portions = c.received portions := by
  simp only [received, timed_iff_of_kind_eq (c.kind_live events)]

/-- A region ticks if time passes for it. -/
theorem Content.tick_eq_live (c : Content) (q : Portion) :
    c.tick q.1 q.2 = c.live (if c.Timed then [.tick q] else []) := by
  cases c with
  | peripheral p => rfl
  | card k =>
    by_cases hs : k.device.synchronous
    · have htimed : (Content.card k).Timed := hs
      rw [if_pos htimed, tick, Card.tick, if_pos hs]
      rfl
    · have htimed : ¬(Content.card k).Timed := hs
      rw [if_neg htimed, tick, Card.tick, if_neg hs]
      rfl

/-- The record of a device counts the ticks that reach it, if it is one that keeps count. -/
theorem Event.ticks_run (e : Event) (k : Card) (h : k.device.synchronous ∨ e.portion? = none) :
    ∃ k', e.run (.card k) = .card k' ∧
      k'.device.ticks = k.device.ticks + BitVec.ofNat 32 (e.portion?.toList.map Prod.fst).sum := by
  cases e with
  | read offset => exact ⟨k, rfl, (BitVec.add_zero _).symm⟩
  | write offset b =>
    exact ⟨_, rfl, (k.ticks_write offset b).trans (BitVec.add_zero _).symm⟩
  | tick q =>
    have hs : k.device.synchronous := h.resolve_right nofun
    exact ⟨_, rfl, k.device.ticks_tick hs q.1⟩
  | acknowledge => exact ⟨_, rfl, k.device.ticks_acknowledge.trans (BitVec.add_zero _).symm⟩
  | reset => exact ⟨_, rfl, k.device.ticks_reset.trans (BitVec.add_zero _).symm⟩

theorem Content.ticks_live {events : List Event} {k : Card}
    (hs : k.device.synchronous ∨ events.filterMap Event.portion? = []) :
    ∃ k', (card k).live events = .card k' ∧ k'.device.ticks = k.device.ticks +
      BitVec.ofNat 32 ((events.filterMap Event.portion?).map Prod.fst).sum := by
  induction events generalizing k with
  | nil => exact ⟨k, rfl, (BitVec.add_zero _).symm⟩
  | cons e events ih =>
    have hcons := filterMap_cons_eq_append Event.portion? e events
    rw [hcons, List.append_eq_nil_iff, Option.toList_eq_nil_iff] at hs
    obtain ⟨k₁, hk₁, hfirst⟩ := e.ticks_run k (hs.imp_right And.left)
    have hsync : k₁.device.synchronous = k.device.synchronous := by
      refine Device.synchronous_eq_of_kind_eq (Kind.card.inj ?_)
      have hkind := e.kind_run (.card k)
      rwa [hk₁] at hkind
    obtain ⟨k₂, hk₂, hrest⟩ := ih (k := k₁) (by rw [hsync]; exact hs.imp_right And.right)
    refine ⟨k₂, ?_, ?_⟩
    · rw [live, List.foldl_cons, hk₁]
      exact hk₂
    · rw [hrest, hfirst, hcons, List.map_append, List.sum_append, BitVec.ofNat_add,
        BitVec.add_assoc]

end Region

/-! ### Maps -/

/-- Interrupts of this source come from the region. -/
def InterruptSource.IsRegion : InterruptSource → Region → Prop
  | .peripheral id, r => r.id = id ∧ r.content.peripheral?.isSome
  | .slot n, r =>
    n < MemoryMap.slotCount ∧ r.span.start = MemoryMap.slotBase n ∧ r.content.card?.isSome

instance : ∀ (source : InterruptSource) (r : Region), Decidable (source.IsRegion r)
  | .peripheral _, _ => inferInstanceAs (Decidable (_ ∧ _))
  | .slot _, _ => inferInstanceAs (Decidable (_ ∧ _ ∧ _))

namespace MemoryMap

/-! ### What reaches a region -/

/-- The region that an access to an address reaches. -/
def accessed? (m : MemoryMap) (w : Word) : Option Region :=
  let a := (Address.ofWord w).toNat
  if m.ram.contains a || Rom.windowContains a then none else m.regionAt? a

namespace Op

/-- Operations that bring no state from elsewhere. -/
def quiet : Op → Bool
  | call .. | restore .. => false
  | _ => true

/-- An access as it reaches a region. -/
def reachedAt (m : MemoryMap) (w : Word) (e : Nat → Region.Event) (r : Region) :
    List Region.Event :=
  if (m.accessed? w).map Region.id = some r.id then [e ((Address.ofWord w).toNat - r.span.start)]
  else []

/-- An operation as it reaches a region that stays. Time does not reach every region. -/
def reached (m : MemoryMap) (r : Region) : Op → List Region.Event
  | read w => reachedAt m w .read r
  | write w b => reachedAt m w (.write · b) r
  | tick n elapsed => if r.content.Timed then [.tick (n, elapsed)] else []
  | acknowledge source => if source.IsRegion r then [.acknowledge] else []
  | reset => [.reset]
  | _ => []

/-- The portion of time that passes in an operation. -/
def portion? : Op → Option Portion
  | tick n elapsed => some (n, elapsed)
  | _ => none

/-- The portions of time among what reaches a region are those that pass for it. -/
theorem portions_reached (op : Op) (m : MemoryMap) (r : Region) :
    (op.reached m r).filterMap Region.Event.portion? = r.content.received op.portion?.toList := by
  cases op with
  | tick n elapsed =>
    simp only [reached, Region.Content.received]
    split <;> rfl
  | read w | write w b =>
    simp only [reached, reachedAt]
    split <;> exact r.content.received_nil.symm
  | acknowledge source =>
    simp only [reached]
    split <;> exact r.content.received_nil.symm
  | _ => exact r.content.received_nil.symm

end Op

/-- What reaches the region of a name while operations follow one another. -/
def events (id : RegionId) : List Op → MemoryMap → List Region.Event
  | [], _ => []
  | op :: ops, m => (m.named? id).elim [] (fun r => op.reached m r) ++ events id ops (op.run m)

/-! ### One operation -/

variable {m n : MemoryMap}

/-- The region that interrupts of a source come from leads to what is found by its name, or in its
slot. -/
theorem Valid.peripheral?_of_isRegion (hm : m.Valid) {id : RegionId} {r : Region}
    (hr : r ∈ m.regions) (h : InterruptSource.IsRegion (.peripheral id) r) :
    m.peripheral? id = r.content.peripheral? := by
  rw [hm.peripheral?_eq, hm.named?_eq_some_iff.mpr ⟨hr, h.1⟩]
  rfl

theorem Valid.card?_of_isRegion (hm : m.Valid) {slot : Nat} {r : Region} (hr : r ∈ m.regions)
    (h : InterruptSource.IsRegion (.slot slot) r) : m.card? slot = r.content.card? := by
  rw [card?_eq, if_pos h.1, hm.startingAt?_eq_some_iff.mpr ⟨hr, h.2.1⟩]
  rfl

/-- Names are not given twice, and every region of a name that was given before is still where
it was, and what the events that reached it make of it. -/
structure Passed (events : Region → List Region.Event) (m n : MemoryMap) : Prop where
  nextId_le : m.nextId ≤ n.nextId
  lives : ∀ s ∈ n.regions, s.id < m.nextId → ∃ r ∈ m.regions, r.id = s.id ∧ r.span = s.span ∧
    s.content = r.content.live (events r)

namespace Passed

variable {events : Region → List Region.Event}

theorem of_regions_subset (hnext : m.nextId ≤ n.nextId)
    (h : ∀ s ∈ n.regions, s.id < m.nextId → s ∈ m.regions) : Passed (fun _ => []) m n where
  nextId_le := hnext
  lives s hs hid := ⟨s, h s hs hid, rfl, rfl, rfl⟩

theorem mapContents {f : Region → Region.Content}
    (h : ∀ r ∈ m.regions, f r = r.content.live (events r)) : Passed events m (m.mapContents f) where
  nextId_le := Nat.le_refl _
  lives s hs _ := by
    obtain ⟨r, hr, rfl⟩ := List.mem_map.mp hs
    exact ⟨r, hr, rfl, rfl, h r hr⟩

/-- Nothing reaches a region of a map that stays as it is. -/
theorem refl (h : ∀ r ∈ m.regions, events r = []) : Passed events m m where
  nextId_le := Nat.le_refl _
  lives s hs _ := ⟨s, hs, rfl, rfl, by rw [h s hs]; rfl⟩

/-- An access changes at most the region that it reaches. -/
theorem reachedAt (hm : m.Valid) {w : Word} {e : Nat → Region.Event} (hnext : m.nextId ≤ n.nextId)
    (h : n.regions = ((m.accessed? w).elim m fun r =>
      m.setContent r.id ((e ((Address.ofWord w).toNat - r.span.start)).run r.content)).regions) :
    Passed (Op.reachedAt m w e) m n where
  nextId_le := hnext
  lives s hs _ := by
    rw [h] at hs
    cases hq : m.accessed? w with
    | none =>
      rw [hq] at hs
      refine ⟨s, hs, rfl, rfl, ?_⟩
      rw [Op.reachedAt, hq]
      rfl
    | some q =>
      rw [hq] at hs
      have hmem : q ∈ m.regions := (mem_of_regionAt? (Option.ite_none_left_eq_some.mp hq).2).1
      obtain ⟨r, hr, rfl⟩ := List.mem_map.mp hs
      refine ⟨r, hr, rfl, rfl, ?_⟩
      rw [Op.reachedAt, hq, Option.map_some]
      by_cases hid : r.id = q.id
      · obtain rfl := hm.eq_of_id_eq hr hmem hid
        rw [if_pos rfl]
        exact if_pos rfl
      · rw [if_neg fun hsome => hid (Option.some.inj hsome).symm]
        exact if_neg hid

theorem readByte (hm : m.Valid) (w : Word) :
    Passed (Op.reachedAt m w .read) m (m.readByte w).2 := by
  refine reachedAt hm (Nat.le_of_eq ?_) ?_
  · exact (congrArg Layout.nextId (hm.layout_readByte w)).symm
  · simp only [MemoryMap.readByte, accessed?]
    by_cases hram : m.ram.contains (Address.ofWord w).toNat
    · simp [hram]
    · by_cases hrom : Rom.windowContains (Address.ofWord w).toNat
      · simp [hram, hrom]
      · cases hq : m.regionAt? (Address.ofWord w).toNat <;> simp [hram, hrom, Region.Event.run]

theorem writeByte (hm : m.Valid) (w : Word) (b : Byte) :
    Passed (Op.reachedAt m w (.write · b)) m (m.writeByte w b) := by
  refine reachedAt hm (Nat.le_of_eq ?_) ?_
  · exact (congrArg Layout.nextId (hm.layout_writeByte w b)).symm
  · simp only [MemoryMap.writeByte, accessed?]
    by_cases hram : m.ram.contains (Address.ofWord w).toNat
    · simp [hram]
    · by_cases hrom : Rom.windowContains (Address.ofWord w).toNat
      · simp [hram, hrom]
      · cases hq : m.regionAt? (Address.ofWord w).toNat <;> simp [hram, hrom, Region.Event.run]

theorem acknowledge (hm : m.Valid) (source : InterruptSource) :
    Passed (fun r => if source.IsRegion r then [.acknowledge] else []) m
      (m.acknowledge source) := by
  cases source with
  | peripheral id =>
    simp only [MemoryMap.acknowledge]
    split
    · next p hp =>
      refine mapContents fun r hr => ?_
      by_cases h : InterruptSource.IsRegion (.peripheral id) r
      · have hfound := (hm.peripheral?_of_isRegion hr h).symm.trans hp
        refine (if_pos h).trans ?_
        rw [if_pos h]
        cases hc : r.content with
        | peripheral q =>
          rw [hc] at hfound
          rw [← Option.some.inj hfound]
          rfl
        | card k =>
          rw [hc] at hfound
          cases hfound
      · rw [if_neg h]
        exact if_neg h
    · next hnone =>
      refine refl fun r hr => if_neg fun h => ?_
      have hfound := h.2
      rw [← hm.peripheral?_of_isRegion hr h, hnone] at hfound
      cases hfound
  | slot slot =>
    simp only [MemoryMap.acknowledge]
    split
    · next c hfull =>
      have hslot : slot < slotCount := (hm.card?_eq_some_iff.mp hfull).1
      rw [setCard, if_pos hslot]
      refine mapContents fun r hr => ?_
      by_cases h : InterruptSource.IsRegion (.slot slot) r
      · have hfound := (hm.card?_of_isRegion hr h).symm.trans hfull
        refine (if_pos h.2).trans ?_
        rw [if_pos h]
        cases hc : r.content with
        | card k =>
          rw [hc] at hfound
          rw [← Option.some.inj hfound]
          rfl
        | peripheral q =>
          rw [hc] at hfound
          cases hfound
      · rw [if_neg h]
        exact if_neg fun hs => h ⟨hslot, hs⟩
    · next hnone =>
      refine refl fun r hr => if_neg fun h => ?_
      have hfound := h.2.2
      rw [← hm.card?_of_isRegion hr h, hnone] at hfound
      cases hfound

theorem withRegion (m : MemoryMap) (i : Interval) (c : Region.Content) :
    Passed (fun _ => []) m (m.withRegion i c) := by
  refine of_regions_subset (Nat.le_succ _) fun s hs hid => ?_
  rcases List.mem_cons.mp ((insertRegion_perm _ _).mem_iff.mp hs) with rfl | hs
  · exact absurd hid (Nat.lt_irrefl _)
  · exact hs

/-- What becomes of a region in an operation is what reaches it. -/
theorem op (hm : m.Valid) {op : Op} (h : op.quiet) :
    Passed (fun r => op.reached m r) m (op.run m) := by
  have hself : Passed (fun _ => []) m m := refl fun _ _ => rfl
  cases op with
  | read w => exact readByte hm w
  | write w b => exact writeByte hm w b
  | load a bs => exact of_regions_subset (Nat.le_refl _) fun _ hs _ => hs
  | register i p =>
    change Passed (fun _ => []) m _
    cases hr : m.register i p with
    | error e => simpa [Op.run, hr, Except.map, Except.toOption] using hself
    | ok q =>
      obtain ⟨-, -, hn⟩ := register_eq_ok hr
      simpa [Op.run, hr, Except.map, Except.toOption, hn] using withRegion m i _
  | unregister id =>
    change Passed (fun _ => []) m _
    cases hr : m.unregister id with
    | none => simpa [Op.run, hr] using hself
    | some q =>
      obtain ⟨p, -, hp⟩ := Option.bind_eq_some_iff.mp hr
      obtain rfl := Option.some.inj hp
      simp only [Op.run, hr, Option.map_some, Option.getD_some]
      exact of_regions_subset (Nat.le_refl _) fun s hs _ => (List.mem_filter.mp hs).1
  | attach slot d =>
    change Passed (fun _ => []) m _
    cases hr : m.attach slot d with
    | error e => simpa [Op.run, hr, Except.toOption] using hself
    | ok n =>
      obtain ⟨-, -, i, -, -, -, rfl⟩ := attach_eq_ok hr
      simpa [Op.run, hr, Except.toOption] using withRegion m i _
  | detach slot =>
    change Passed (fun _ => []) m _
    cases hr : m.detach slot with
    | none => simpa [Op.run, hr] using hself
    | some q =>
      obtain ⟨c, -, hc⟩ := Option.bind_eq_some_iff.mp hr
      obtain rfl := Option.some.inj hc
      simp only [Op.run, hr, Option.map_some, Option.getD_some]
      exact of_regions_subset (Nat.le_refl _) fun s hs _ => (List.mem_filter.mp hs).1
  | tick k elapsed => exact mapContents fun r _ => r.content.tick_eq_live (k, elapsed)
  | reset => exact mapContents fun _ _ => rfl
  | acknowledge source => exact acknowledge hm source
  | call slot c | restore ps cs => cases h

end Passed

/-! ### Any operations -/

/-- A region of a name that was given before has been there from then on. -/
theorem exists_of_mem_run (hm : m.Valid) {ops : List Op} (hops : ∀ op ∈ ops, op.quiet)
    {s : Region} (hs : s ∈ (run ops m).regions) (hid : s.id < m.nextId) :
    ∃ r ∈ m.regions, r.id = s.id := by
  induction ops generalizing m with
  | nil => exact ⟨s, hs, rfl⟩
  | cons op ops ih =>
    have hpassed := Passed.op hm (hops op List.mem_cons_self)
    have hlt : s.id < (op.run m).nextId := Nat.lt_of_lt_of_le hid hpassed.nextId_le
    obtain ⟨q, hq, hqs⟩ := ih (hm.op op) (fun o ho => hops o (.tail op ho)) hs hlt
    obtain ⟨r, hr, hrq, -⟩ := hpassed.lives q hq (hqs ▸ hid)
    exact ⟨r, hr, hrq.trans hqs⟩

/-- A region that stays is where it was, and what reached it makes all that has become of it. The
portions of time among this are those that passed for the map, if time passes for the region. -/
theorem lives_run (hm : m.Valid) {ops : List Op} (hops : ∀ op ∈ ops, op.quiet)
    {r s : Region} (hr : r ∈ m.regions) (hs : s ∈ (run ops m).regions) (hid : s.id = r.id) :
    s.span = r.span ∧ s.content = r.content.live (events r.id ops m) ∧
      (events r.id ops m).filterMap Region.Event.portion? =
        r.content.received (ops.filterMap Op.portion?) := by
  induction ops generalizing m r with
  | nil =>
    obtain rfl := hm.eq_of_id_eq hs hr hid
    exact ⟨rfl, rfl, s.content.received_nil.symm⟩
  | cons op ops ih =>
    have hrest : ∀ o ∈ ops, o.quiet := fun o ho => hops o (.tail op ho)
    have hpassed := Passed.op hm (hops op List.mem_cons_self)
    have hlt : s.id < m.nextId := hid ▸ hm.id_lt r.place (List.mem_map_of_mem hr)
    obtain ⟨q, hq, hqs⟩ := exists_of_mem_run (hm.op op) hrest hs
      (Nat.lt_of_lt_of_le hlt hpassed.nextId_le)
    obtain ⟨r', hr', hrq, hspan, hcontent⟩ := hpassed.lives q hq (hqs ▸ hlt)
    obtain rfl := hm.eq_of_id_eq hr' hr (hrq.trans (hqs.trans hid))
    obtain ⟨hlast, hlives, hportions⟩ := ih (hm.op op) hrest hq hs hqs.symm
    have hnamed : m.named? r'.id = some r' := hm.named?_eq_some_iff.mpr ⟨hr', rfl⟩
    rw [events, hnamed, Option.elim_some, hrq]
    refine ⟨hlast.trans hspan.symm, ?_, ?_⟩
    · rw [Region.Content.live_append, ← hcontent, hlives]
    · rw [List.filterMap_append, hportions, hcontent, Region.Content.received_live,
        op.portions_reached, ← Region.Content.received_append, filterMap_cons_eq_append]

end MemoryMap

end Microcomputer
