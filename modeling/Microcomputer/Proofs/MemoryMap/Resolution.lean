import Mathlib.Logic.ExistsUnique
import Microcomputer.Proofs.Memory.Written
import Microcomputer.Proofs.MemoryMap.Interrupts
import Microcomputer.Proofs.MemoryMap.Reachable

/-! The memory map as a map of priorities. Every address leads to RAM, to the ROM window, to
one region or to nothing, and an access acts on what its address leads to and on nothing
else; accesses of several bytes resolve every byte by itself. So a byte of RAM reads as it was
last written, whatever else was done meanwhile: `Valid.read_run`. -/

namespace Microcomputer.MemoryMap

open Memory (length_readBytes)

/-- What an address can lead to. -/
inductive Target where
  | ram
  | rom
  | region (r : Region)
  | nothing

/-- The map in which one region leads to something else. -/
def replace (m : MemoryMap) (r : Region) (c : Region.Content) : MemoryMap :=
  { m with regions := m.regions.map fun s => if s = r then { s with content := c } else s }

/-- RAM comes before the ROM window, and both before regions, of which all are asked. -/
inductive Leads (m : MemoryMap) (a : Nat) : Target → Prop where
  | ram : a < m.ram.size → Leads m a .ram
  | rom : m.ram.size ≤ a → Rom.base ≤ a → a < Rom.base + Rom.windowSize → Leads m a .rom
  | region (r : Region) : m.ram.size ≤ a → ¬Rom.windowContains a → r ∈ m.regions →
    r.span.start ≤ a → a ≤ r.span.stop → Leads m a (.region r)
  | nothing : m.ram.size ≤ a → ¬Rom.windowContains a →
    (∀ r ∈ m.regions, ¬r.span.contains a) → Leads m a .nothing

namespace Target

/-- The byte at an address, where the image of the ROM may end before its window does. -/
def read (m : MemoryMap) (a : Nat) : Target → Byte × MemoryMap
  | ram => (m.ram.read a, m)
  | rom => (m.rom.image[a - Rom.base]?.getD 0, m)
  | region r => ((r.content.read (a - r.span.start)).1,
    m.replace r (r.content.read (a - r.span.start)).2)
  | nothing => (0, m)

def write (m : MemoryMap) (a : Nat) (b : Byte) : Target → MemoryMap
  | ram => { m with ram := m.ram.write a b }
  | rom => m
  | region r => m.replace r (r.content.write (a - r.span.start) b)
  | nothing => m

end Target

variable {m n : MemoryMap}

/-! ### One byte -/

/-- The last region that starts at or below an address is the only one that can contain it. -/
theorem Valid.regionAt?_eq_some_iff (hm : m.Valid) {a : Nat} {r : Region} :
    m.regionAt? a = some r ↔ r ∈ m.regions ∧ r.span.contains a := by
  refine ⟨mem_of_regionAt?, fun ⟨hr, ha⟩ => ?_⟩
  have hbounds := Interval.contains_iff.mp ha
  cases hl : m.below? a with
  | none =>
    have := hm.lt_start_of_below?_eq_none hl hr
    omega
  | some l =>
    obtain ⟨-, hstart, hall⟩ := hm.of_below?_eq_some hl
    rcases hall r hr with rfl | hstop | hstart'
    · rw [regionAt?, hl, Option.filter_some, if_pos ha]
    · omega
    · omega

theorem regionAt?_eq_none {a : Nat} (h : ∀ r ∈ m.regions, ¬r.span.contains a) :
    m.regionAt? a = none := by
  refine Option.eq_none_iff_forall_ne_some.mpr fun r hr => ?_
  obtain ⟨hmem, ha⟩ := mem_of_regionAt? hr
  exact h r hmem ha

theorem Valid.eq_of_contains (hm : m.Valid) {a : Nat} {r s : Region} (hr : r ∈ m.regions)
    (hs : s ∈ m.regions) (hra : r.span.contains a) (hsa : s.span.contains a) : r = s := by
  have h := hm.regionAt?_eq_some_iff.mpr ⟨hr, hra⟩
  rw [hm.regionAt?_eq_some_iff.mpr ⟨hs, hsa⟩] at h
  exact (Option.some.inj h).symm

theorem windowContains_iff {a : Nat} :
    Rom.windowContains a ↔ Rom.base ≤ a ∧ a < Rom.base + Rom.windowSize := by
  simp [Rom.windowContains]

theorem exists_leads (m : MemoryMap) (a : Nat) : ∃ t, m.Leads a t := by
  by_cases hram : a < m.ram.size
  · exact ⟨.ram, .ram hram⟩
  by_cases hrom : Rom.windowContains a
  · obtain ⟨hbase, hend⟩ := windowContains_iff.mp hrom
    exact ⟨.rom, .rom (Nat.le_of_not_lt hram) hbase hend⟩
  by_cases hregion : ∃ r ∈ m.regions, r.span.contains a
  · obtain ⟨r, hr, ha⟩ := hregion
    obtain ⟨hstart, hstop⟩ := Interval.contains_iff.mp ha
    exact ⟨.region r, .region r (Nat.le_of_not_lt hram) hrom hr hstart hstop⟩
  · exact ⟨.nothing, .nothing (Nat.le_of_not_lt hram) hrom fun r hr ha => hregion ⟨r, hr, ha⟩⟩

theorem Valid.leads_unique (hm : m.Valid) {a : Nat} {t u : Target} (ht : m.Leads a t)
    (hu : m.Leads a u) : t = u := by
  cases ht with
  | ram hram =>
    cases hu with
    | ram => rfl
    | _ => omega
  | rom hram hbase hend =>
    have hrom := windowContains_iff.mpr ⟨hbase, hend⟩
    cases hu with
    | ram => omega
    | rom => rfl
    | _ => contradiction
  | region r hram hrom hr hstart hstop =>
    have hra := Interval.contains_iff.mpr ⟨hstart, hstop⟩
    cases hu with
    | ram => omega
    | rom _ hbase hend => exact absurd (windowContains_iff.mpr ⟨hbase, hend⟩) hrom
    | region s _ _ hs hstart hstop =>
      have hsa := Interval.contains_iff.mpr ⟨hstart, hstop⟩
      rw [hm.eq_of_contains hr hs hra hsa]
    | nothing _ _ hnone => exact absurd hra (hnone r hr)
  | nothing hram hrom hnone =>
    cases hu with
    | ram => omega
    | rom _ hbase hend => exact absurd (windowContains_iff.mpr ⟨hbase, hend⟩) hrom
    | region s _ _ hs hstart hstop =>
      exact absurd (Interval.contains_iff.mpr ⟨hstart, hstop⟩) (hnone s hs)
    | nothing => rfl

theorem Valid.setContent_eq_replace (hm : m.Valid) {r : Region} (hr : r ∈ m.regions)
    (c : Region.Content) : m.setContent r.id c = m.replace r c := by
  simp only [setContent, mapContents, replace, MemoryMap.mk.injEq, true_and, and_true]
  refine List.map_congr_left fun s hs => ?_
  by_cases h : s = r
  · rw [if_pos h, if_pos (congrArg Region.id h)]
  · rw [if_neg h, if_neg fun hid => h (hm.eq_of_id_eq hs hr hid)]

theorem toNat_ofWord (w : Word) : (Address.ofWord w).toNat = w.toNat % 0x1000000 :=
  BitVec.toNat_setWidth 24 w

theorem read_rom (r : Rom) {a : Nat} (h : Rom.base ≤ a) (ha : a < 0x1000000) :
    r.read (BitVec.ofNat 32 a) = r.image[a - Rom.base]?.getD 0 := by
  have hbase : Rom.base = 0x100000 := rfl
  have hoffset : (BitVec.ofNat 32 a - BitVec.ofNat 32 Rom.base).toNat = a - Rom.base := by
    simp only [BitVec.toNat_sub, BitVec.toNat_ofNat]
    omega
  rw [Rom.read, hoffset]

section Access

variable {w : Word} {t : Target}

theorem Valid.readByte_eq (hm : m.Valid) (h : m.Leads (w.toNat % 0x1000000) t) :
    m.readByte w = t.read m (w.toNat % 0x1000000) := by
  have ha : w.toNat % 0x1000000 < 0x1000000 := Nat.mod_lt _ (by decide)
  simp only [readByte, toNat_ofWord, Ram.contains, decide_eq_true_eq]
  cases h with
  | ram hram => rw [if_pos hram, Target.read]
  | rom hram hbase hend =>
    rw [if_neg (Nat.not_lt.mpr hram), if_pos (windowContains_iff.mpr ⟨hbase, hend⟩),
      read_rom m.rom hbase ha, Target.read]
  | region r hram hrom hr hstart hstop =>
    rw [if_neg (Nat.not_lt.mpr hram), if_neg hrom,
      hm.regionAt?_eq_some_iff.mpr ⟨hr, Interval.contains_iff.mpr ⟨hstart, hstop⟩⟩]
    simp only [Target.read, hm.setContent_eq_replace hr]
  | nothing hram hrom hnone =>
    rw [if_neg (Nat.not_lt.mpr hram), if_neg hrom, regionAt?_eq_none hnone, Target.read]

theorem Valid.writeByte_eq (hm : m.Valid) (b : Byte) (h : m.Leads (w.toNat % 0x1000000) t) :
    m.writeByte w b = t.write m (w.toNat % 0x1000000) b := by
  simp only [writeByte, toNat_ofWord, Ram.contains, decide_eq_true_eq]
  cases h with
  | ram hram => rw [if_pos hram, Target.write]
  | rom hram hbase hend =>
    rw [if_neg (Nat.not_lt.mpr hram), if_pos (windowContains_iff.mpr ⟨hbase, hend⟩),
      Target.write]
  | region r hram hrom hr hstart hstop =>
    rw [if_neg (Nat.not_lt.mpr hram), if_neg hrom,
      hm.regionAt?_eq_some_iff.mpr ⟨hr, Interval.contains_iff.mpr ⟨hstart, hstop⟩⟩]
    simp only [Target.write, hm.setContent_eq_replace hr]
  | nothing hram hrom hnone =>
    rw [if_neg (Nat.not_lt.mpr hram), if_neg hrom, regionAt?_eq_none hnone, Target.write]

end Access

/-! ### What an access leaves alone -/

/-- The second map differs from the first at most in the byte of RAM at an address and in the
state of what the region with that address leads to. -/
structure SameBut (a : Nat) (m n : MemoryMap) : Prop where
  layout_eq : n.layout = m.layout
  ram : ∀ i ≠ a, n.ram.read i = m.ram.read i
  regions : ∀ r ∈ m.regions, ¬r.span.contains a → r ∈ n.regions

theorem SameBut.refl (a : Nat) (m : MemoryMap) : SameBut a m m :=
  ⟨rfl, fun _ _ => rfl, fun _ hr _ => hr⟩

theorem Valid.sameBut_replace (hm : m.Valid) {a : Nat} {r : Region} (hr : r ∈ m.regions)
    (ha : r.span.contains a) {c : Region.Content} (hc : c.kind = r.content.kind) :
    SameBut a m (m.replace r c) where
  layout_eq := by
    rw [← hm.setContent_eq_replace hr]
    exact hm.layout_setContent hr hc
  ram _ _ := rfl
  regions s hs hsa := by
    refine List.mem_map.mpr ⟨s, hs, if_neg ?_⟩
    rintro rfl
    exact hsa ha

theorem Valid.sameBut_readByte (hm : m.Valid) (w : Word) :
    SameBut (w.toNat % 0x1000000) m (m.readByte w).2 ∧ (m.readByte w).2.ram = m.ram := by
  obtain ⟨t, ht⟩ := m.exists_leads (w.toNat % 0x1000000)
  rw [hm.readByte_eq ht]
  cases ht with
  | region r _ _ hr hstart hstop =>
    exact ⟨hm.sameBut_replace hr (Interval.contains_iff.mpr ⟨hstart, hstop⟩)
      (r.content.kind_read _), rfl⟩
  | _ => exact ⟨.refl _ m, rfl⟩

theorem Valid.sameBut_writeByte (hm : m.Valid) (w : Word) (b : Byte) :
    SameBut (w.toNat % 0x1000000) m (m.writeByte w b) := by
  obtain ⟨t, ht⟩ := m.exists_leads (w.toNat % 0x1000000)
  rw [hm.writeByte_eq b ht]
  cases ht with
  | ram =>
    refine ⟨?_, fun i hi => ?_, fun _ hr _ => hr⟩
    · simp only [Target.write, layout, Ram.size_write]
    · rw [Target.write, Ram.read_write, if_neg fun h => hi h.1.symm]
  | region r _ _ hr hstart hstop =>
    exact hm.sameBut_replace hr (Interval.contains_iff.mpr ⟨hstart, hstop⟩)
      (r.content.kind_write _ _)
  | _ => exact .refl _ m

/-! ### Bytes of RAM -/

/-- The operation writes into RAM from outside. -/
def Op.loads : Op → Bool
  | load _ _ => true
  | _ => false

/-- The byte that an operation writes to an address. -/
def Op.written? (a : Nat) : Op → Option Byte
  | write w b => if w.toNat % 0x1000000 = a then some b else none
  | _ => none

/-- The byte that the last of some operations with a write to an address writes there. -/
def lastWritten? (a : Nat) : List Op → Option Byte
  | [] => none
  | op :: ops => (lastWritten? a ops).or (op.written? a)

theorem ram_register (m : MemoryMap) (i : Interval) (p : Peripheral) :
    (((m.register i p).map Prod.snd).toOption.getD m).ram = m.ram := by
  cases h : m.register i p with
  | error e => rfl
  | ok r =>
    obtain ⟨-, -, hr⟩ := register_eq_ok h
    change r.2.ram = m.ram
    rw [hr]
    rfl

theorem ram_attach (m : MemoryMap) (slot : Nat) (d : Device) :
    ((m.attach slot d).toOption.getD m).ram = m.ram := by
  cases h : m.attach slot d with
  | error e => rfl
  | ok m' =>
    obtain ⟨-, -, i, -, -, -, rfl⟩ := attach_eq_ok h
    rfl

theorem ram_unregister (m : MemoryMap) (id : RegionId) :
    (((m.unregister id).map Prod.snd).getD m).ram = m.ram := by
  simp only [unregister]
  cases m.peripheral? id <;> rfl

theorem ram_detach (m : MemoryMap) (slot : Nat) :
    (((m.detach slot).map Prod.snd).getD m).ram = m.ram := by
  simp only [detach]
  cases m.card? slot <;> rfl

theorem ram_call (m : MemoryMap) (slot : Nat) (c : Device.Call) : (m.call slot c).ram = m.ram := by
  simp only [call, setCard]
  split
  · split <;> rfl
  · rfl

/-- All operations but writes and loads leave RAM alone. -/
theorem Valid.ram_op (hm : m.Valid) {op : Op} (hload : ¬op.loads)
    (hwrite : ∀ w b, op ≠ .write w b) : (op.run m).ram = m.ram := by
  cases op with
  | read w => exact (hm.sameBut_readByte w).2
  | write w b => exact absurd rfl (hwrite w b)
  | load a bs => exact absurd rfl hload
  | register i p => exact m.ram_register i p
  | unregister id => exact m.ram_unregister id
  | attach slot d => exact m.ram_attach slot d
  | detach slot => exact m.ram_detach slot
  | call slot c => exact m.ram_call slot c
  | tick n elapsed => rfl
  | reset => rfl
  | acknowledge source => exact m.ram_acknowledge source
  | restore peripherals cards => exact (keeps_restore hm peripherals cards).ram_eq

theorem Valid.ramSize_op (hm : m.Valid) (op : Op) : (op.run m).ram.size = m.ram.size := by
  by_cases hwrite : ∃ w b, op = .write w b
  · obtain ⟨w, b, rfl⟩ := hwrite
    exact congrArg Layout.ramSize (hm.layout_writeByte w b)
  by_cases hload : op.loads
  · cases op with
    | load a bs => exact m.ram.size_load a bs
    | _ => cases hload
  · rw [hm.ram_op hload fun w b h => hwrite ⟨w, b, h⟩]

theorem Valid.ramSize_run (hm : m.Valid) (ops : List Op) :
    (MemoryMap.run ops m).ram.size = m.ram.size := by
  induction ops generalizing m with
  | nil => rfl
  | cons op ops ih => exact (ih (hm.op op)).trans (hm.ramSize_op op)

theorem Valid.read_op (hm : m.Valid) {a : Nat} (ha : a < m.ram.size) {op : Op}
    (hload : ¬op.loads) : (op.run m).ram.read a = (op.written? a).getD (m.ram.read a) := by
  by_cases hwrite : ∃ w b, op = .write w b
  · obtain ⟨w, b, rfl⟩ := hwrite
    rw [Op.run, Op.written?]
    by_cases hw : w.toNat % 0x1000000 = a
    · rw [hm.writeByte_eq b (.ram (hw ▸ ha)), Target.write, Ram.read_write, if_pos ⟨hw, hw ▸ ha⟩,
        if_pos hw, Option.getD_some]
    · rw [(hm.sameBut_writeByte w b).ram a (Ne.symm hw), if_neg hw, Option.getD_none]
  · have hnone : op.written? a = none := by
      cases op with
      | write w b => exact absurd ⟨w, b, rfl⟩ hwrite
      | _ => rfl
    rw [hm.ram_op hload fun w b h => hwrite ⟨w, b, h⟩, hnone, Option.getD_none]

theorem Valid.read_run (hm : m.Valid) {a : Nat} (ha : a < m.ram.size) {ops : List Op}
    (hload : ∀ op ∈ ops, ¬op.loads) :
    (MemoryMap.run ops m).ram.read a = (lastWritten? a ops).getD (m.ram.read a) := by
  induction ops generalizing m with
  | nil => rfl
  | cons op ops ih =>
    have hsize : a < (op.run m).ram.size := by rwa [hm.ramSize_op]
    obtain ⟨hop, hops⟩ := List.forall_mem_cons.mp hload
    change (MemoryMap.run ops (op.run m)).ram.read a = _
    rw [ih (hm.op op) hsize hops, hm.read_op ha hop, lastWritten?, Option.or_eq_orElse]
    cases lastWritten? a ops <;> rfl

/-! ### Several bytes -/

/-- Reading bytes one by one, where each address leads where it does when its turn comes. -/
inductive Reads : MemoryMap → Word → Bytes → MemoryMap → Prop
  | nil {m : MemoryMap} {w : Word} : Reads m w [] m
  | cons {m n : MemoryMap} {w : Word} {t : Target} {bs : Bytes} :
    m.Leads (w.toNat % 0x1000000) t →
    Reads (t.read m (w.toNat % 0x1000000)).2 (w + 1) bs n →
    Reads m w ((t.read m (w.toNat % 0x1000000)).1 :: bs) n

/-- Writing bytes one by one. -/
inductive Writes : MemoryMap → Word → Bytes → MemoryMap → Prop
  | nil {m : MemoryMap} {w : Word} : Writes m w [] m
  | cons {m n : MemoryMap} {w : Word} {t : Target} {b : Byte} {bs : Bytes} :
    m.Leads (w.toNat % 0x1000000) t →
    Writes (t.write m (w.toNat % 0x1000000) b) (w + 1) bs n → Writes m w (b :: bs) n

theorem Valid.reads_readBytes (hm : m.Valid) (k : Nat) (w : Word) :
    Reads m w (Memory.readBytes k m w).1 (Memory.readBytes k m w).2 := by
  induction k generalizing m w with
  | zero => exact .nil
  | succ k ih =>
    obtain ⟨t, ht⟩ := m.exists_leads (w.toNat % 0x1000000)
    have hbyte : Memory.readByte m w = t.read m (w.toNat % 0x1000000) := hm.readByte_eq ht
    have hnext := ih (hm.of_layout_eq (hm.layout_readByte w)) (w + 1)
    rw [hm.readByte_eq ht] at hnext
    rw [Memory.readBytes, hbyte]
    exact .cons ht hnext

theorem Valid.writes_writeBytes (hm : m.Valid) (w : Word) (bs : Bytes) :
    Writes m w bs (Memory.writeBytes m w bs) := by
  induction bs generalizing m w with
  | nil => exact .nil
  | cons b bs ih =>
    obtain ⟨t, ht⟩ := m.exists_leads (w.toNat % 0x1000000)
    have hbyte : Memory.writeByte m w b = t.write m (w.toNat % 0x1000000) b :=
      hm.writeByte_eq b ht
    have hnext := ih (hm.of_layout_eq (hm.layout_writeByte w b)) (w + 1)
    rw [hm.writeByte_eq b ht] at hnext
    rw [Memory.writeBytes, hbyte]
    exact .cons ht hnext

/-! ### The map of priorities -/

/-- How a map resolves addresses. -/
structure Prioritized (m : MemoryMap) : Prop where
  leads : ∀ a, ∃! t, m.Leads a t
  /-- The search among the regions finds the one with an address wherever there is one. -/
  regionAt? : ∀ a r, m.regionAt? a = some r ↔ r ∈ m.regions ∧ r.span.contains a
  offset_lt : ∀ a r, m.Leads a (.region r) →
    a - r.span.start < r.span.stop + 1 - r.span.start
  readByte : ∀ w t, m.Leads (w.toNat % 0x1000000) t →
    m.readByte w = t.read m (w.toNat % 0x1000000)
  writeByte : ∀ w b t, m.Leads (w.toNat % 0x1000000) t →
    m.writeByte w b = t.write m (w.toNat % 0x1000000) b
  sameBut_readByte : ∀ w,
    SameBut (w.toNat % 0x1000000) m (m.readByte w).2 ∧ (m.readByte w).2.ram = m.ram
  sameBut_writeByte : ∀ w b, SameBut (w.toNat % 0x1000000) m (m.writeByte w b)
  /-- RAM reads as it was last written, whatever is done meanwhile. -/
  last_written : ∀ ops w, (∀ op ∈ ops, ¬op.loads) → w.toNat % 0x1000000 < m.ram.size →
    ((run ops m).readByte w).1 =
      (lastWritten? (w.toNat % 0x1000000) ops).getD (m.readByte w).1
  readHalf : ∀ w, ∃ bs n, bs.length = 2 ∧ Reads m w bs n ∧
    Memory.readHalf m w = (LittleEndian.toWord 16 bs, n)
  readWord : ∀ w, ∃ bs n, bs.length = 4 ∧ Reads m w bs n ∧
    Memory.readWord m w = (LittleEndian.toWord 32 bs, n)
  writeHalf : ∀ w x, Writes m w (LittleEndian.ofWord x) (Memory.writeHalf m w x)
  writeWord : ∀ w x, Writes m w (LittleEndian.ofWord x) (Memory.writeWord m w x)

theorem Reachable.prioritized (h : m.Reachable) : m.Prioritized where
  leads a := by
    obtain ⟨t, ht⟩ := m.exists_leads a
    exact ⟨t, ht, fun u hu => h.valid.leads_unique hu ht⟩
  regionAt? a r := h.valid.regionAt?_eq_some_iff
  offset_lt a r hr := by
    cases hr with
    | region _ _ _ _ hstart hstop => omega
  readByte w t ht := h.valid.readByte_eq ht
  writeByte w b t ht := h.valid.writeByte_eq b ht
  sameBut_readByte w := h.valid.sameBut_readByte w
  sameBut_writeByte w b := h.valid.sameBut_writeByte w b
  last_written ops w hload hw := by
    have hsize : w.toNat % 0x1000000 < (MemoryMap.run ops m).ram.size := by
      rwa [h.valid.ramSize_run]
    rw [(h.valid.run ops).readByte_eq (.ram hsize), h.valid.readByte_eq (.ram hw)]
    exact h.valid.read_run hw hload
  readHalf w := ⟨_, _, length_readBytes 2 m w, h.valid.reads_readBytes 2 w,
    by rw [Memory.readHalf]⟩
  readWord w := ⟨_, _, length_readBytes 4 m w, h.valid.reads_readBytes 4 w,
    by rw [Memory.readWord]⟩
  writeHalf w x := h.valid.writes_writeBytes w _
  writeWord w x := h.valid.writes_writeBytes w _

/-- Two bytes of RAM, two of a scratchpad before the ROM window, and two at the very end. -/
def straddled : MemoryMap :=
  run [
    .register ⟨0x0FFFFE, 0x0FFFFF, by decide, by decide⟩ (.scratchpad (.zero 2 none)),
    .register ⟨0xFFFFFE, 0xFFFFFF, by decide, by decide⟩ .ramp,
    .write 1 0x22, .write 0x12000000 0x11, .write 0x0FFFFF 0x33, .write 0x100000 0x44]
    (new 2 ⟨#[0xAA]⟩)

theorem reachable_straddled : straddled.Reachable := (Reachable.new 2 ⟨#[0xAA]⟩).run _

/-- The last word wraps around to RAM, and another runs from a region into the ROM window. -/
theorem prioritized_straddled :
    straddled.Reachable ∧ straddled.Prioritized ∧
      (Memory.readWord straddled 0xFFFFFFFE).1 = 0x22110100 ∧
      (Memory.readWord straddled 0x0FFFFE).1 = 0x00AA3300 :=
  ⟨reachable_straddled, reachable_straddled.prioritized, by decide +kernel, by decide +kernel⟩

end Microcomputer.MemoryMap
