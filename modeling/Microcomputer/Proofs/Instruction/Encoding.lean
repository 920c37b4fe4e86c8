import Mathlib.Algebra.Order.Group.Unbundled.Int
import Microcomputer.Instruction.Encoding
import Microcomputer.Processor.RegisterFile
import Microcomputer.Proofs.Codec.WordAt

/-! Instructions read back from their words. The fields of a format lie side by side in the
first word, and a literal stands there just if it lies strictly inside the signed range of
its field; the least number of that range announces a word of its own. So every instruction
tells its own length, and a program is read back from its bytes: `listing?_image`. -/

namespace Microcomputer

/-! ### Literals -/

namespace Argument

theorem fits_iff {n : Nat} {v : Word} :
    fits n v ↔ -(2 ^ (n - 1) : Int) < v.toInt ∧ v.toInt < 2 ^ (n - 1) := by
  simp [fits, Nat.shiftLeft_eq, and_comm]

variable {n : Nat} {v : Word}

theorem toInt_setWidth_of_fits (hpos : 0 < n) (hn : n ≤ 32) (h : fits n v) :
    (v.setWidth n).toInt = v.toInt := by
  obtain ⟨hlow, hhigh⟩ := fits_iff.mp h
  have htwo : (2 ^ n : Int) = 2 * 2 ^ (n - 1) := by
    rw [← pow_succ', Nat.sub_add_cancel hpos]
  have hdvd : 2 ^ n ∣ 2 ^ 32 := Nat.pow_dvd_pow 2 hn
  rw [BitVec.toInt_setWidth, ← Int.bmod_bmod_of_dvd hdvd, ← BitVec.toInt_eq_toNat_bmod]
  apply Int.bmod_eq_of_le <;> push_cast <;> omega

theorem signExtend_setWidth_of_fits (hpos : 0 < n) (hn : n ≤ 32) (h : fits n v) :
    (v.setWidth n).signExtend 32 = v := by
  apply BitVec.eq_of_toInt_eq
  rw [BitVec.toInt_signExtend_of_le hn, toInt_setWidth_of_fits hpos hn h]

theorem setWidth_ne_twoPow_of_fits (hpos : 0 < n) (hn : n ≤ 32) (h : fits n v) :
    v.setWidth n ≠ BitVec.twoPow n (n - 1) := by
  intro heq
  have htoInt := toInt_setWidth_of_fits hpos hn h
  have hlow := (fits_iff.mp h).1
  rw [heq, BitVec.toInt_twoPow, if_neg (by omega), if_pos (by omega)] at htoInt
  push_cast at htoInt
  omega

/-- The operand that an argument stands for. -/
def operand : Argument → Operand
  | register i => .register (.ofIndex i)
  | literal v | extended v => .literal v

end Argument

namespace Instruction

/-! ### What is written and what is read -/

/-- The opcode of an instruction as it is written. -/
def code : Instruction → Byte
  | three c _ _ _ | two c _ _ | one c _ | zero c => c

/-- The format whose form an instruction has. -/
def form : Instruction → Format
  | three .. => .three
  | two .. => .two
  | one .. => .one
  | zero _ => .zero

/-- The form of an instruction is the format of its opcode. -/
def Formed (i : Instruction) : Prop := Format.ofOpcode i.code = i.form

instance (i : Instruction) : Decidable i.Formed := inferInstanceAs (Decidable (_ = _))

/-- An instruction as it is read: its registers by number, its last operand by value. -/
structure Reading where
  opcode : Byte
  format : Format
  destination : Reg
  source : Reg
  operand : Option Operand
deriving DecidableEq

/-- The reading of an instruction as it is written. -/
def reading : Instruction → Reading
  | three c d s a => ⟨c, .three, .ofIndex d, .ofIndex s, some a.operand⟩
  | two c d a => ⟨c, .two, .ofIndex d, 0, some a.operand⟩
  | one c a => ⟨c, .one, 0, 0, some a.operand⟩
  | zero c => ⟨c, .zero, 0, 0, none⟩

/-- The reading of a first word, where the word after it is `next`. -/
def Reading.ofWords (w next : Word) : Reading :=
  ⟨Instruction.opcode w, Instruction.format w, Instruction.destination w, Instruction.source w,
    if isExtended w then some (.literal next) else operand? w⟩

/-- The readings of a program image from its start, each past the length of the one before.
There is none if the image ends inside an instruction. -/
def listing? (bs : Bytes) : Option (List Reading) :=
  if bs = [] then some []
  else
    let w := LittleEndian.wordAt 32 bs 0
    if bs.length < length w then none
    else (listing? (bs.drop (length w))).map (.ofWords w (LittleEndian.wordAt 32 bs 4) :: ·)
termination_by bs.length
decreasing_by
  have := List.length_pos_iff.mpr ‹bs ≠ []›
  rw [List.length_drop]
  unfold length
  split <;> omega

/-- The first word alone tells the operand `x`, and no word follows. -/
def Inline (w : Word) (x : Operand) (rest : List Word) : Prop :=
  isExtended w = false ∧ operand? w = some x ∧ rest = []

/-- The literal of the first word is the escape, and the word `v` follows. -/
def Escaped (w v : Word) (rest : List Word) : Prop :=
  isExtended w ∧ operand? w = none ∧ rest = [v]

end Instruction

/-- How an argument stands in the words of a format with `n` literal bits. -/
def Argument.Stands (n : Nat) (w : Word) (rest : List Word) : Argument → Prop
  | register i => Instruction.Inline w (.register (.ofIndex i)) rest
  | literal v =>
    if -(2 ^ (n - 1) : Int) < v.toInt ∧ v.toInt < 2 ^ (n - 1) then
      Instruction.Inline w (.literal v) rest
    else Instruction.Escaped w v rest
  | extended v => Instruction.Escaped w v rest

namespace Instruction

/-- How the last operand of an instruction stands in its words. -/
def Stands (w : Word) (rest : List Word) : Instruction → Prop
  | three _ _ _ a => a.Stands 13 w rest
  | two _ _ a => a.Stands 18 w rest
  | one _ a => a.Stands 23 w rest
  | zero _ => isExtended w = false ∧ operand? w = none ∧ rest = []

/-! ### Fields of a first word -/

/-- A word that begins with an opcode and a literal bit and ends with a field. -/
structure Laid (w : Word) (c : Byte) (bit : BitVec 1) {n : Nat} (field : BitVec n) : Prop where
  head_eq : w.extractLsb' 23 9 = c ++ bit
  setWidth_eq : w.setWidth n = field

theorem setWidth_append_right {m n : Nat} (x : BitVec m) (y : BitVec n) :
    (x ++ y).setWidth n = y := by
  rw [BitVec.setWidth_eq_extractLsb' (Nat.le_add_left n m), BitVec.extractLsb'_append_eq_right]

section Layouts

variable (c : Byte) (bit : BitVec 1) (d s : BitVec 5)

theorem laid_three (f : BitVec 13) : Laid (c ++ bit ++ d ++ s ++ f) c bit f where
  head_eq := by
    repeat rw [BitVec.extractLsb'_append_eq_of_le (by decide)]
    exact BitVec.extractLsb'_eq_self
  setWidth_eq := setWidth_append_right _ f

theorem laid_two (f : BitVec 18) : Laid (c ++ bit ++ d ++ f) c bit f where
  head_eq := by
    repeat rw [BitVec.extractLsb'_append_eq_of_le (by decide)]
    exact BitVec.extractLsb'_eq_self
  setWidth_eq := setWidth_append_right _ f

theorem laid_one (f : BitVec 23) : Laid (c ++ bit ++ f) c bit f where
  head_eq := BitVec.extractLsb'_append_eq_left
  setWidth_eq := setWidth_append_right _ f

theorem extractLsb'_three (f : BitVec 13) :
    (c ++ bit ++ d ++ s ++ f).extractLsb' 18 5 = d ∧
      (c ++ bit ++ d ++ s ++ f).extractLsb' 13 5 = s := by
  constructor
  · repeat rw [BitVec.extractLsb'_append_eq_of_le (by decide)]
    exact BitVec.extractLsb'_append_eq_right
  · rw [BitVec.extractLsb'_append_eq_of_le (by decide)]
    exact BitVec.extractLsb'_append_eq_right

theorem extractLsb'_two (f : BitVec 18) : (c ++ bit ++ d ++ f).extractLsb' 18 5 = d := by
  rw [BitVec.extractLsb'_append_eq_of_le (by decide)]
  exact BitVec.extractLsb'_append_eq_right

end Layouts

namespace Laid

variable {w : Word} {c : Byte} {bit : BitVec 1} {n : Nat} {field : BitVec n}

theorem opcode_eq (h : Laid w c bit field) : opcode w = c := by
  have hsub : (w.extractLsb' 23 9).extractLsb' 1 8 = w.extractLsb' 24 8 := by
    ext i hi
    simp [show 1 + i < 9 by omega, ← Nat.add_assoc]
  rw [opcode, ← hsub, h.head_eq]
  exact BitVec.extractLsb'_append_eq_left

theorem format_eq (h : Laid w c bit field) : format w = .ofOpcode c := by
  rw [format, h.opcode_eq]

theorem hasLiteral_eq (h : Laid w c bit field) (hn : (Format.ofOpcode c).literalWidth = some n) :
    hasLiteral w = bit.getLsbD 0 := by
  have hbit : (w.extractLsb' 23 9).getLsbD 0 = w.getLsbD 23 := by
    rw [BitVec.getLsbD_extractLsb']
    rfl
  rw [hasLiteral, h.format_eq, hn, ← hbit, h.head_eq, BitVec.getLsbD_append]
  rfl

theorem isExtended_iff (h : Laid w c bit field)
    (hn : (Format.ofOpcode c).literalWidth = some n) (hpos : 0 < n) (hle : n ≤ 32) :
    isExtended w ↔ bit.getLsbD 0 ∧ field = BitVec.twoPow n (n - 1) := by
  have hescape : field.setWidth 32 = BitVec.twoPow 32 (n - 1) ↔
      field = BitVec.twoPow n (n - 1) := by
    have hlt : 2 ^ (n - 1) < 2 ^ n := Nat.pow_lt_pow_right (by decide) (by omega)
    have hlt32 : 2 ^ n ≤ 2 ^ 32 := Nat.pow_le_pow_right (by decide) hle
    have := field.isLt
    simp only [← BitVec.toNat_inj, BitVec.toNat_setWidth, BitVec.toNat_twoPow]
    rw [Nat.mod_eq_of_lt (by omega), Nat.mod_eq_of_lt (by omega), Nat.mod_eq_of_lt hlt]
  simp [isExtended, h.hasLiteral_eq hn, h.format_eq, hn, Format.escape, literalField,
    h.setWidth_eq, hescape]

theorem operand?_eq (h : Laid w c bit field) (hn : (Format.ofOpcode c).literalWidth = some n)
    (hw : isExtended w = false) :
    operand? w = some (if bit.getLsbD 0 then .literal (field.signExtend 32)
      else .register (w.extractLsb' 0 5)) := by
  simp only [operand?, hw, Bool.false_eq_true, if_false, h.format_eq, hn, Option.map_some,
    h.hasLiteral_eq hn, Word.signExtendFrom, h.setWidth_eq]

/-- An argument stands in its format as its fields say. -/
theorem stands {a : Argument} (h : Laid w c (a.fields n).1 (a.fields n).2.1)
    (hn : (Format.ofOpcode c).literalWidth = some n) (hlow : 5 ≤ n) (hle : n ≤ 32) :
    a.Stands n w (a.fields n).2.2.toList := by
  have hpos : 0 < n := by omega
  have hext := h.isExtended_iff hn hpos hle
  have hescaped (v : Word) (hv : a.fields n = (1, BitVec.twoPow n (n - 1), some v)) :
      Escaped w v (a.fields n).2.2.toList := by
    rw [hv] at hext ⊢
    have hw : isExtended w := hext.mpr (by simp)
    exact ⟨hw, by simp [operand?, hw], rfl⟩
  cases a with
  | register i =>
    have hw : isExtended w = false := by simp [← Bool.not_eq_true, hext, Argument.fields]
    have hnumber : w.extractLsb' 0 5 = Reg.ofIndex i := by
      have hfield : w.extractLsb' 0 5 = (w.setWidth n).setWidth 5 := by
        ext j hj
        simp [show j < n by omega]
      rw [hfield, h.setWidth_eq]
      exact BitVec.setWidth_setWidth_of_le _ hlow
    refine ⟨hw, ?_, rfl⟩
    rw [h.operand?_eq hn hw, hnumber]
    simp [Argument.fields]
  | literal v =>
    rw [Argument.Stands]
    split
    · next hv =>
      have hfits : Argument.fits n v := Argument.fits_iff.mpr hv
      have hf : (Argument.literal v).fields n = (1, v.setWidth n, none) := by
        simp [Argument.fields, hfits]
      have hw : isExtended w = false := by
        simp [← Bool.not_eq_true, hext, hf, Argument.setWidth_ne_twoPow_of_fits hpos hle hfits]
      refine ⟨hw, ?_, by rw [hf]; rfl⟩
      rw [h.operand?_eq hn hw, hf]
      simp [Argument.signExtend_setWidth_of_fits hpos hle hfits]
    · next hv =>
      have hfits : Argument.fits n v = false := by
        rw [← Bool.not_eq_true, Argument.fits_iff]
        exact hv
      exact hescaped v (by simp [Argument.fields, hfits])
  | extended v => exact hescaped v rfl

end Laid

/-! ### One instruction -/

/-- What is read of an operand is what stands in the words. -/
theorem operand_of_stands {a : Argument} {n : Nat} {w : Word} {rest : List Word}
    (h : a.Stands n w rest) :
    (if isExtended w then some (.literal (rest.headD 0)) else operand? w) = some a.operand := by
  have hinline {x : Operand} (hx : Inline w x rest) :
      (if isExtended w then some (.literal (rest.headD 0)) else operand? w) = some x := by
    rw [if_neg (by simp [hx.1]), hx.2.1]
  have hescaped {v : Word} (hv : Escaped w v rest) :
      (if isExtended w then some (.literal (rest.headD 0)) else operand? w) =
        some (.literal v) := by
    rw [if_pos hv.1, hv.2.2]
    rfl
  cases a with
  | register i => exact hinline h
  | literal v =>
    rw [Argument.Stands] at h
    split at h
    · exact hinline h
    · exact hescaped h
  | extended v => exact hescaped h

/-- An instruction is read back from its first word and the word after it. -/
theorem exists_words {i : Instruction} (h : i.Formed) :
    ∃ w rest, i.words = w :: rest ∧ i.Stands w rest ∧
      Reading.ofWords w (rest.headD 0) = i.reading := by
  cases i with
  | three c d s a =>
    have hform : Format.ofOpcode c = .three := h
    have hlaid := laid_three c (a.fields 13).1 (.ofNat 5 d) (.ofNat 5 s) (a.fields 13).2.1
    obtain ⟨hd, hs⟩ :=
      extractLsb'_three c (a.fields 13).1 (.ofNat 5 d) (.ofNat 5 s) (a.fields 13).2.1
    have hstands := hlaid.stands (by rw [hform]; rfl) (by decide) (by decide)
    refine ⟨c ++ (a.fields 13).1 ++ BitVec.ofNat 5 d ++ BitVec.ofNat 5 s ++ (a.fields 13).2.1,
      (a.fields 13).2.2.toList, rfl, hstands, ?_⟩
    rw [Reading.ofWords, operand_of_stands hstands, hlaid.opcode_eq, destination, source,
      hlaid.format_eq, hform]
    simp only [hd, hs]
    rfl
  | two c d a =>
    have hform : Format.ofOpcode c = .two := h
    have hlaid := laid_two c (a.fields 18).1 (.ofNat 5 d) (a.fields 18).2.1
    have hstands := hlaid.stands (by rw [hform]; rfl) (by decide) (by decide)
    refine ⟨c ++ (a.fields 18).1 ++ BitVec.ofNat 5 d ++ (a.fields 18).2.1,
      (a.fields 18).2.2.toList, rfl, hstands, ?_⟩
    rw [Reading.ofWords, operand_of_stands hstands, hlaid.opcode_eq, destination, source,
      hlaid.format_eq, hform]
    simp only [extractLsb'_two]
    rfl
  | one c a =>
    have hform : Format.ofOpcode c = .one := h
    have hlaid := laid_one c (a.fields 23).1 (a.fields 23).2.1
    have hstands := hlaid.stands (by rw [hform]; rfl) (by decide) (by decide)
    refine ⟨c ++ (a.fields 23).1 ++ (a.fields 23).2.1, (a.fields 23).2.2.toList, rfl,
      hstands, ?_⟩
    rw [Reading.ofWords, operand_of_stands hstands, hlaid.opcode_eq, destination, source,
      hlaid.format_eq, hform]
    rfl
  | zero c =>
    have hform : Format.ofOpcode c = .zero := h
    have hopcode : opcode (c ++ (0 : BitVec 24)) = c := BitVec.extractLsb'_append_eq_left
    have hformat : format (c ++ (0 : BitVec 24)) = .zero := by rw [format, hopcode, hform]
    have hw : isExtended (c ++ (0 : BitVec 24)) = false := by
      rw [isExtended, hasLiteral, hformat]
      rfl
    have hoperand : operand? (c ++ (0 : BitVec 24)) = none := by
      rw [operand?, hw, hformat]
      rfl
    refine ⟨_, _, rfl, ⟨hw, hoperand, rfl⟩, ?_⟩
    rw [Reading.ofWords, hopcode, destination, source, hformat, hw, hoperand]
    rfl

/-- The word after a first word counts only if the first word asks for it. -/
theorem Reading.ofWords_congr {w : Word} (h : isExtended w = false) (u v : Word) :
    Reading.ofWords w u = Reading.ofWords w v := by
  simp [Reading.ofWords, h]

/-- The first word tells how many words follow it. -/
theorem Stands.rest_eq {i : Instruction} {w : Word} {rest : List Word} (h : i.Stands w rest) :
    (isExtended w = false ∧ rest = []) ∨ (isExtended w ∧ ∃ v, rest = [v]) := by
  have hargument {a : Argument} {n : Nat} (ha : a.Stands n w rest) :
      (isExtended w = false ∧ rest = []) ∨ (isExtended w ∧ ∃ v, rest = [v]) := by
    cases a with
    | register i => exact .inl ⟨ha.1, ha.2.2⟩
    | literal v =>
      rw [Argument.Stands] at ha
      split at ha
      · exact .inl ⟨ha.1, ha.2.2⟩
      · exact .inr ⟨ha.1, v, ha.2.2⟩
    | extended v => exact .inr ⟨ha.1, v, ha.2.2⟩
  cases i with
  | three c d s a => exact hargument h
  | two c d a => exact hargument h
  | one c a => exact hargument h
  | zero c => exact .inl ⟨h.1, h.2.2⟩

/-! ### Programs -/

theorem length_image (ws : List Word) : (image ws).length = 4 * ws.length :=
  LittleEndian.length_flatMap_ofWord ws

theorem image_append (us vs : List Word) : image (us ++ vs) = image us ++ image vs :=
  List.flatMap_append

/-- An instruction takes as many bytes as its first word says. -/
theorem Stands.length_eq {i : Instruction} {w : Word} {rest : List Word} (h : i.Stands w rest) :
    length w = (image (w :: rest)).length := by
  rw [length_image, length]
  obtain ⟨hw, rfl⟩ | ⟨hw, v, rfl⟩ := h.rest_eq
  · simp [hw]
  · simp [hw]

/-- The first instruction of an image is read first, and what follows it as it would be alone. -/
theorem listing?_image_append {i : Instruction} (h : i.Formed) (bs : Bytes) :
    listing? (image i.words ++ bs) = (listing? bs).map (i.reading :: ·) := by
  obtain ⟨w, rest, hwords, hstands, hread⟩ := exists_words h
  have hlength := hstands.length_eq
  rw [hwords]
  have hpos : 0 < (image (w :: rest)).length := by simp [length_image]
  have hfirst : LittleEndian.wordAt 32 (image (w :: rest) ++ bs) 0 = w := by
    rw [image, List.flatMap_cons, List.append_assoc]
    exact LittleEndian.wordAt_ofWord_append w _ rfl
  have hnext : Reading.ofWords w (LittleEndian.wordAt 32 (image (w :: rest) ++ bs) 4) =
      i.reading := by
    rw [← hread]
    obtain ⟨hw, -⟩ | ⟨-, v, rfl⟩ := hstands.rest_eq
    · exact Reading.ofWords_congr hw _ _
    · congr 1
      exact LittleEndian.wordAt_flatMap [w, v] bs rfl 1 (by simp)
  have hne : image (w :: rest) ++ bs ≠ [] :=
    List.append_ne_nil_of_left_ne_nil (List.ne_nil_of_length_pos hpos) bs
  have hfar : ¬(image (w :: rest) ++ bs).length < length w := by
    rw [List.length_append]
    omega
  rw [listing?, if_neg hne]
  simp only [hfirst, if_neg hfar, hnext]
  rw [hlength, List.drop_left]

/-- What the words of an instruction say about it. -/
structure Encodes (i : Instruction) (w : Word) (rest : List Word) : Prop where
  words_eq : i.words = w :: rest
  /-- The opcode, the format, the registers by number and the operand by value. -/
  reading_eq : Reading.ofWords w (rest.headD 0) = i.reading
  /-- The operand stands in the first word, or in the word after it. -/
  stands : i.Stands w rest
  length_eq : length w = (image i.words).length

/-- Programs are read back as they were written. Every instruction in the form of its opcode
tells its operand and its length by its first word, and walking an image by these lengths
finds the instructions in order, registers modulo 32 and literals by value. -/
theorem listing?_image (is : List Instruction) (h : ∀ i ∈ is, i.Formed) :
    (∀ i ∈ is, ∃ w rest, Encodes i w rest) ∧
      listing? (image (is.flatMap words)) = some (is.map reading) := by
  constructor
  · intro i hi
    obtain ⟨w, rest, hwords, hstands, hread⟩ := exists_words (h i hi)
    exact ⟨w, rest, hwords, hread, hstands, by rw [hwords, hstands.length_eq]⟩
  · induction is with
    | nil => simp [image, listing?]
    | cons i is ih =>
      have hhead := h i List.mem_cons_self
      rw [List.flatMap_cons, image_append, listing?_image_append hhead,
        ih fun j hj => h j (List.mem_cons_of_mem i hj)]
      rfl

/-- All four forms, register numbers past the last register, the escape of the shortest field
and its neighbour, a small number in a word of its own, and opcodes with the top bit set. -/
theorem listing?_image_mixed :
    listing? (image
      ([three 0x44 37 2 (.literal (BitVec.ofInt 32 (-4096))),
        three 0xC4 1 63 (.literal (BitVec.ofInt 32 (-4095))),
        two 0x20 3 (.extended 7), zero 0x82, one 0x14 (.register 40)].flatMap words)) =
      some
        [⟨0x44, .three, 5, 2, some (.literal 0xFFFFF000)⟩,
          ⟨0xC4, .three, 1, 31, some (.literal 0xFFFFF001)⟩,
          ⟨0x20, .two, 3, 0, some (.literal 7)⟩,
          ⟨0x82, .zero, 0, 0, none⟩,
          ⟨0x14, .one, 0, 0, some (.register 8)⟩] :=
  (listing?_image _ (by decide)).2

end Instruction

end Microcomputer
