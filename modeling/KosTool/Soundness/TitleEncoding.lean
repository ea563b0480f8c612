import KosTool.Math.Unicode
import KosTool.Model.Binary.Xbe
import KosTool.Soundness.CheckedSums

/-! # The title of an XBE is its UTF-16

The tool takes exactly the titles that are UTF-8 and whose UTF-16 has at most 40 units, and what it stores is read as
the code points of the title.
-/

namespace KosTool.Elf2xbe

open ByteWord Fallible Unicode
open Elf2irx (orDie_eq_ok)
open Elf2prx (le16 length_le16)

variable {c n : ℕ} {text rest : List Byte}

section CodePoint

theorem toNat_ofNat_of_lt {value : ℕ} (small : value < 256) : (BitVec.ofNat 8 value).toNat = value := by
  rw [BitVec.toNat_ofNat, Nat.mod_eq_of_lt small]

theorem ofNat_of_toNat {value : ℕ} (byte : Byte) (same : value = byte.toNat) : BitVec.ofNat 8 value = byte := by
  rw [same, BitVec.ofNat_toNat, BitVec.setWidth_eq]

/-- A code point is taken from its bytes. -/
theorem nextUtf8Codepoint_utf8 (scalar : Scalar c) (rest : List Byte) :
    nextUtf8Codepoint (utf8 c ++ rest) = .ok (c, (utf8 c).length) := by
  have bound := scalar.lt
  unfold Scalar at scalar
  unfold utf8
  by_cases one : c < 0x80
  · simp only [if_pos one, nextUtf8Codepoint, List.cons_append, List.nil_append, List.getD_cons_zero,
      toNat_ofNat_of_lt (show c < 256 by omega), List.length_singleton]
  by_cases two : c < 0x800
  · have first := toNat_ofNat_of_lt (show 0xC0 + c / 0x40 < 256 by omega)
    have second := toNat_ofNat_of_lt (show 0x80 + c % 0x40 < 256 by omega)
    have continues : (0x80 + c % 0x40) / 0x40 = 2 := by omega
    have value : (0xC0 + c / 0x40) % 0x20 * 2 ^ 6 + (0x80 + c % 0x40) % 0x40 = c := by omega
    simp only [if_neg one, if_pos two, nextUtf8Codepoint, List.cons_append, List.nil_append, List.getD_cons_zero,
      List.getD_cons_succ, first, second]
    rw [if_neg (by omega), if_pos (by omega), continues, value]
    rfl
  by_cases three : c < 0x10000
  · have first := toNat_ofNat_of_lt (show 0xE0 + c / 0x1000 < 256 by omega)
    have second := toNat_ofNat_of_lt (show 0x80 + c / 0x40 % 0x40 < 256 by omega)
    have third := toNat_ofNat_of_lt (show 0x80 + c % 0x40 < 256 by omega)
    have value : (0xE0 + c / 0x1000) % 0x10 * 2 ^ 12 + (0x80 + c / 0x40 % 0x40) % 0x40 * 2 ^ 6 + (0x80 + c % 0x40) % 0x40 = c := by
      omega
    have passes : ((0x80 + c / 0x40 % 0x40) / 0x40 == 2 && (0x80 + c % 0x40) / 0x40 == 2 &&
        !(0xE0 + c / 0x1000 == 0xE0 && decide (0x80 + c / 0x40 % 0x40 < 0xA0)) &&
        !(0xE0 + c / 0x1000 == 0xED && decide (0xA0 ≤ 0x80 + c / 0x40 % 0x40))) = true := by
      simp only [Bool.and_eq_true, Bool.not_eq_true', Bool.and_eq_false_iff, beq_iff_eq, beq_eq_false_iff_ne,
        decide_eq_false_iff_not]
      omega
    simp only [if_neg one, if_neg two, if_pos three, nextUtf8Codepoint, List.cons_append, List.nil_append,
      List.getD_cons_zero, List.getD_cons_succ, first, second, third]
    rw [if_neg (by omega), if_neg (by omega), if_pos (by omega), passes, value]
    rfl
  · have first := toNat_ofNat_of_lt (show 0xF0 + c / 0x40000 < 256 by omega)
    have second := toNat_ofNat_of_lt (show 0x80 + c / 0x1000 % 0x40 < 256 by omega)
    have third := toNat_ofNat_of_lt (show 0x80 + c / 0x40 % 0x40 < 256 by omega)
    have fourth := toNat_ofNat_of_lt (show 0x80 + c % 0x40 < 256 by omega)
    have value : (0xF0 + c / 0x40000) % 8 * 2 ^ 18 + (0x80 + c / 0x1000 % 0x40) % 0x40 * 2 ^ 12 +
        (0x80 + c / 0x40 % 0x40) % 0x40 * 2 ^ 6 + (0x80 + c % 0x40) % 0x40 = c := by
      omega
    have passes : ((0x80 + c / 0x1000 % 0x40) / 0x40 == 2 && (0x80 + c / 0x40 % 0x40) / 0x40 == 2 &&
        (0x80 + c % 0x40) / 0x40 == 2 && !(0xF0 + c / 0x40000 == 0xF0 && decide (0x80 + c / 0x1000 % 0x40 < 0x90)) &&
        !(0xF0 + c / 0x40000 == 0xF4 && decide (0x8F < 0x80 + c / 0x1000 % 0x40))) = true := by
      simp only [Bool.and_eq_true, Bool.not_eq_true', Bool.and_eq_false_iff, beq_iff_eq, beq_eq_false_iff_ne,
        decide_eq_false_iff_not]
      omega
    simp only [if_neg one, if_neg two, if_neg three, nextUtf8Codepoint, List.cons_append, List.nil_append,
      List.getD_cons_zero, List.getD_cons_succ, first, second, third, fourth]
    rw [if_neg (by omega), if_neg (by omega), if_neg (by omega), if_pos (by omega), passes, value]
    rfl

/-- A byte that goes on a code point is in the text. -/
theorem cons_of_continues {text : List Byte} (more : (text.getD 0 0).toNat / 0x40 = 2) : ∃ byte rest, text = byte :: rest ∧
    byte.toNat / 0x40 = 2 := by
  cases text with
  | nil => exact absurd more (by decide)
  | cons byte rest => exact ⟨byte, rest, rfl, more⟩

/-- What is taken is a code point and its bytes. -/
theorem nextUtf8Codepoint_eq_ok (a : Byte) (taken : nextUtf8Codepoint (a :: text) = .ok (c, n)) :
    Scalar c ∧ n = (utf8 c).length ∧ a :: text = utf8 c ++ (a :: text).drop n := by
  have first := a.isLt
  unfold nextUtf8Codepoint at taken
  simp only [List.getD_cons_zero, List.getD_cons_succ] at taken
  split_ifs at taken with one two three four
  · cases taken
    have whole : utf8 a.toNat = [a] := by
      rw [utf8, if_pos one, ofNat_of_toNat a rfl]
    rw [whole]
    exact ⟨.inl (by omega), rfl, rfl⟩
  · obtain ⟨⟨⟩, passes, taken⟩ := bind_eq_ok.mp taken
    cases pure_eq_ok.mp taken
    obtain ⟨b, text, rfl, second⟩ := cons_of_continues (eq_of_beq (orDie_eq_ok passes))
    have second_lt := b.isLt
    have whole : utf8 (a.toNat % 0x20 * 2 ^ 6 + b.toNat % 0x40) = [a, b] := by
      rw [utf8, if_neg (by omega), if_pos (by omega), ofNat_of_toNat a (by omega), ofNat_of_toNat b (by omega)]
    simp only [List.getD_cons_zero]
    rw [whole]
    exact ⟨.inl (by omega), rfl, rfl⟩
  · obtain ⟨⟨⟩, passes, taken⟩ := bind_eq_ok.mp taken
    cases pure_eq_ok.mp taken
    have through := orDie_eq_ok passes
    simp only [Bool.and_eq_true, Bool.not_eq_true', Bool.and_eq_false_iff, beq_iff_eq, beq_eq_false_iff_ne,
      decide_eq_false_iff_not] at through
    obtain ⟨⟨⟨second, third⟩, low⟩, surrogate⟩ := through
    obtain ⟨b, text, rfl, second⟩ := cons_of_continues second
    rw [List.getD_cons_succ] at third
    obtain ⟨d, text, rfl, third⟩ := cons_of_continues third
    simp only [List.getD_cons_zero, List.getD_cons_succ] at low surrogate ⊢
    have second_lt := b.isLt
    have third_lt := d.isLt
    have whole : utf8 (a.toNat % 0x10 * 2 ^ 12 + b.toNat % 0x40 * 2 ^ 6 + d.toNat % 0x40) = [a, b, d] := by
      rw [utf8, if_neg (by omega), if_neg (by omega), if_pos (by omega), ofNat_of_toNat a (by omega),
        ofNat_of_toNat b (by omega), ofNat_of_toNat d (by omega)]
    rw [whole]
    refine ⟨?_, rfl, rfl⟩
    unfold Scalar
    omega
  · obtain ⟨⟨⟩, passes, taken⟩ := bind_eq_ok.mp taken
    cases pure_eq_ok.mp taken
    have through := orDie_eq_ok passes
    simp only [Bool.and_eq_true, Bool.not_eq_true', Bool.and_eq_false_iff, beq_iff_eq, beq_eq_false_iff_ne,
      decide_eq_false_iff_not] at through
    obtain ⟨⟨⟨⟨second, third⟩, fourth⟩, low⟩, high⟩ := through
    obtain ⟨b, text, rfl, second⟩ := cons_of_continues second
    rw [List.getD_cons_succ] at third fourth
    obtain ⟨d, text, rfl, third⟩ := cons_of_continues third
    rw [List.getD_cons_succ] at fourth
    obtain ⟨e, text, rfl, fourth⟩ := cons_of_continues fourth
    simp only [List.getD_cons_zero, List.getD_cons_succ] at low high ⊢
    have second_lt := b.isLt
    have third_lt := d.isLt
    have fourth_lt := e.isLt
    have whole : utf8 (a.toNat % 8 * 2 ^ 18 + b.toNat % 0x40 * 2 ^ 12 + d.toNat % 0x40 * 2 ^ 6 + e.toNat % 0x40) =
        [a, b, d, e] := by
      rw [utf8, if_neg (by omega), if_neg (by omega), if_neg (by omega), ofNat_of_toNat a (by omega),
        ofNat_of_toNat b (by omega), ofNat_of_toNat d (by omega), ofNat_of_toNat e (by omega)]
    rw [whole]
    refine ⟨?_, rfl, rfl⟩
    unfold Scalar
    omega

end CodePoint

section Units

variable {codepoints : List ℕ} {title out field : List Byte} {units steps : ℕ}

/-- The units of a title as they are stored. -/
def storedTitle (codepoints : List ℕ) : List Byte := (codepoints.flatMap utf16).flatMap le16

theorem storedTitle_cons : storedTitle (c :: codepoints) = (utf16 c).flatMap le16 ++ storedTitle codepoints := by
  rw [storedTitle, List.flatMap_cons, List.flatMap_append, storedTitle]

theorem length_storedTitle : (storedTitle codepoints).length = (codepoints.flatMap utf16).length * 2 := by
  rw [storedTitle, List.length_flatMap]
  induction codepoints.flatMap utf16 with
  | nil => rfl
  | cons unit units ih =>
    rw [List.map_cons, List.sum_cons, ih, length_le16, List.length_cons]
    omega

/-- One step takes a code point and stores its units. -/
theorem titleUnits_utf8 (scalar : Scalar c) (room : units + (utf16 c).length ≤ 40) (rest : List Byte) :
    titleUnits (steps + 1) (utf8 c ++ rest) units =
      (titleUnits steps rest (units + (utf16 c).length)).map ((utf16 c).flatMap le16 ++ ·) := by
  have behind : (utf8 c ++ rest).drop (utf8 c).length = rest := List.drop_left
  obtain ⟨byte, text, split⟩ := List.exists_cons_of_length_pos
    (Nat.lt_of_lt_of_le (length_utf8_pos c) (List.length_append ▸ Nat.le_add_right (utf8 c).length rest.length))
  rw [split, titleUnits, ← split, nextUtf8Codepoint_utf8 scalar rest]
  · dsimp only [bind, Except.bind]
    rw [behind]
    by_cases small : c < 0x10000
    · rw [utf16, if_pos small, List.length_singleton] at room
      rw [utf16, if_pos small, if_pos (by omega), decide_eq_true (by omega : units < 40), List.length_singleton,
        List.flatMap_singleton]
      cases titleUnits steps rest (units + 1) <;> rfl
    · rw [utf16, if_neg small] at room
      change units + 2 ≤ 40 at room
      rw [utf16, if_neg small, if_neg (by omega), decide_eq_true (by omega : units ≤ 38)]
      change _ = (titleUnits steps rest (units + 2)).map _
      cases titleUnits steps rest (units + 2) <;> rfl
  · exact nofun

/-- A step that goes through has taken a code point for which there was room. -/
theorem titleUnits_cons (byte : Byte) (through : titleUnits (steps + 1) (byte :: text) units = .ok out) :
    ∃ c rest, Scalar c ∧ byte :: text = utf8 c ++ rest ∧ units + (utf16 c).length ≤ 40 := by
  obtain ⟨⟨c, taken⟩, next, through⟩ := bind_eq_ok.mp through
  obtain ⟨scalar, -, split⟩ := nextUtf8Codepoint_eq_ok byte next
  refine ⟨c, _, scalar, split, ?_⟩
  dsimp only at through
  unfold utf16
  split_ifs at through ⊢ with small large large
  · obtain ⟨⟨⟩, one, -⟩ := bind_eq_ok.mp through
    have free : units < 40 := of_decide_eq_true (orDie_eq_ok one)
    exact free
  · omega
  · omega
  · obtain ⟨⟨⟩, two, -⟩ := bind_eq_ok.mp through
    have free : units ≤ 38 := of_decide_eq_true (orDie_eq_ok two)
    exact Nat.add_le_add_right free 2

/-- A title goes through exactly if it is the UTF-8 of code points that have room, and they are stored. -/
theorem titleUnits_eq_ok (enough : text.length ≤ steps) (inside : units ≤ 40) :
    titleUnits steps text units = .ok out ↔
      ∃ codepoints, IsUtf8 text codepoints ∧ units + (codepoints.flatMap utf16).length ≤ 40 ∧ out = storedTitle codepoints := by
  have none_left : (codepoints : List ℕ) → IsUtf8 [] codepoints → codepoints = [] := by
    rintro codepoints ⟨-, encoded⟩
    cases codepoints with
    | nil => rfl
    | cons c codepoints =>
      have empty := (List.append_eq_nil_iff.mp (encoded.trans List.flatMap_cons).symm).1
      exact absurd (List.length_eq_zero_iff.mpr empty) (Nat.ne_of_gt (length_utf8_pos c))
  induction steps generalizing text units out with
  | zero =>
    cases List.length_eq_zero_iff.mp (Nat.le_zero.mp enough)
    constructor
    · rintro through
      cases through
      exact ⟨[], .nil, inside, rfl⟩
    · rintro ⟨codepoints, whole, -, rfl⟩
      rw [none_left codepoints whole]
      rfl
  | succ steps ih =>
    cases text with
    | nil =>
      constructor
      · rintro through
        cases through
        exact ⟨[], .nil, inside, rfl⟩
      · rintro ⟨codepoints, whole, -, rfl⟩
        rw [none_left codepoints whole]
        rfl
    | cons byte text =>
      have shorter (c : ℕ) (rest : List Byte) (split : byte :: text = utf8 c ++ rest) : rest.length ≤ steps := by
        have total := congrArg List.length split
        rw [List.length_append] at total
        have positive := length_utf8_pos c
        omega
      constructor
      · intro through
        obtain ⟨c, rest, scalar, split, room⟩ := titleUnits_cons byte through
        rw [split, titleUnits_utf8 scalar room] at through
        obtain ⟨others, tail, rfl⟩ := map_eq_ok.mp through
        obtain ⟨codepoints, whole, fits, rfl⟩ := (ih (shorter c rest split) room).mp tail
        refine ⟨c :: codepoints, split ▸ whole.cons scalar, ?_, storedTitle_cons.symm⟩
        rw [List.flatMap_cons, List.length_append]
        omega
      · rintro ⟨codepoints, whole, fits, rfl⟩
        cases codepoints with
        | nil => nomatch whole.encoded
        | cons c codepoints =>
          have split := whole.encoded.trans List.flatMap_cons
          rw [split] at whole
          rw [List.flatMap_cons, List.length_append] at fits
          have scalar := whole.scalar c List.mem_cons_self
          have room : units + (utf16 c).length ≤ 40 := by omega
          have tail := (ih (shorter c _ split) room).mpr ⟨codepoints, whole.tail, by omega, rfl⟩
          rw [split, titleUnits_utf8 scalar room, tail, storedTitle_cons]
          rfl

/-- The text of a title: what is before its terminator. -/
def titleText (title : List Byte) : List Byte := title.takeWhile (· != 0)

/-- The unit at a place of the field. -/
def unitAt (field : List Byte) (i : ℕ) : ℕ := (field.getD (2 * i) 0).toNat + 256 * (field.getD (2 * i + 1) 0).toNat

/-- The units of the field up to its terminator, or all forty of them. -/
def fieldUnits (field : List Byte) : List ℕ := ((List.range 40).map (unitAt field)).takeWhile (· != 0)

/-- A unit that is stored is read. -/
theorem unitAt_stored {units : List ℕ} (small : ∀ unit ∈ units, unit < 2 ^ 16) (pad i : ℕ) :
    unitAt (units.flatMap le16 ++ List.replicate pad 0) i = units.getD i 0 := by
  induction units generalizing i with
  | nil =>
    have zero (j : ℕ) : (List.replicate pad (0 : Byte)).getD j 0 = 0 := by
      rw [List.getD_eq_getElem?_getD, List.getElem?_replicate]
      split_ifs <;> rfl
    rw [List.flatMap_nil, List.nil_append, unitAt, zero, zero]
    rfl
  | cons unit units ih =>
    have unit_lt := small unit List.mem_cons_self
    cases i with
    | zero =>
      change (BitVec.ofNat 8 unit).toNat + 256 * (BitVec.ofNat 8 (unit / 256)).toNat = unit
      rw [BitVec.toNat_ofNat, BitVec.toNat_ofNat]
      omega
    | succ i => exact ih (fun other member => small other (List.mem_cons_of_mem unit member)) i

/-- The units up to the terminator are those that were stored. -/
theorem fieldUnits_stored {units : List ℕ} (small : ∀ unit ∈ units, unit < 2 ^ 16) (some : ∀ unit ∈ units, unit ≠ 0)
    (room : units.length ≤ 40) (pad : ℕ) : fieldUnits (units.flatMap le16 ++ List.replicate pad 0) = units := by
  have read : (List.range 40).map (unitAt (units.flatMap le16 ++ List.replicate pad 0)) =
      units ++ List.replicate (40 - units.length) 0 := by
    apply List.ext_getElem
    · rw [List.length_map, List.length_range, List.length_append, List.length_replicate]
      omega
    · intro i inside inside'
      rw [List.getElem_map, List.getElem_range, unitAt_stored small]
      by_cases stored : i < units.length
      · rw [List.getElem_append_left stored, List.getD_eq_getElem _ _ stored]
      · rw [List.getElem_append_right (by omega), List.getElem_replicate, List.getD_eq_default _ _ (by omega)]
  have passes : ∀ unit ∈ units, (unit != 0) = true := fun unit member => bne_iff_ne.mpr (some unit member)
  rw [fieldUnits, read, List.takeWhile_append_of_pos passes]
  cases 40 - units.length with
  | zero => exact List.append_nil units
  | succ more => exact List.append_nil units

/-- No code point of a title is the terminator. -/
theorem ne_zero_of_titleText (whole : IsUtf8 (titleText title) codepoints) : ∀ c ∈ codepoints, c ≠ 0 := by
  rintro c member rfl
  have stands : (0 : Byte) ∈ titleText title := by
    rw [whole.encoded]
    exact List.mem_flatMap.mpr ⟨0, member, List.mem_cons_self⟩
  exact absurd (List.mem_takeWhile_imp stands) (by decide)

theorem writeTitleUtf16le_eq_ok : writeTitleUtf16le title = .ok field ↔
    ∃ codepoints, IsUtf8 (titleText title) codepoints ∧ (codepoints.flatMap utf16).length ≤ 40 ∧
      field = storedTitle codepoints ++ List.replicate (80 - (storedTitle codepoints).length) 0 := by
  constructor
  · intro through
    obtain ⟨units, written, through⟩ := bind_eq_ok.mp through
    obtain ⟨codepoints, whole, room, rfl⟩ := (titleUnits_eq_ok le_rfl (Nat.zero_le 40)).mp written
    rw [Nat.zero_add] at room
    exact ⟨codepoints, whole, room, (pure_eq_ok.mp through).symm⟩
  · rintro ⟨codepoints, whole, room, rfl⟩
    have written := (titleUnits_eq_ok le_rfl (Nat.zero_le 40)).mpr ⟨codepoints, whole, by rwa [Nat.zero_add], rfl⟩
    exact bind_eq_ok.mpr ⟨_, written, rfl⟩

/-- The tool takes exactly the titles that are well-formed UTF-8 with at most forty units, and stores their UTF-16. -/
theorem title_encodes_iff (title : List Byte) :
    ((∃ field, writeTitleUtf16le title = .ok field) ↔
      ∃ codepoints, IsUtf8 (titleText title) codepoints ∧ (codepoints.flatMap utf16).length ≤ 40) ∧
      ∀ field, writeTitleUtf16le title = .ok field →
        ∃ codepoints, IsUtf8 (titleText title) codepoints ∧ decode16 (fieldUnits field) = some codepoints := by
  refine ⟨⟨?_, ?_⟩, ?_⟩
  · rintro ⟨field, through⟩
    obtain ⟨codepoints, whole, room, -⟩ := writeTitleUtf16le_eq_ok.mp through
    exact ⟨codepoints, whole, room⟩
  · rintro ⟨codepoints, whole, room⟩
    exact ⟨_, writeTitleUtf16le_eq_ok.mpr ⟨codepoints, whole, room, rfl⟩⟩
  · intro field through
    obtain ⟨codepoints, whole, room, rfl⟩ := writeTitleUtf16le_eq_ok.mp through
    have small : ∀ unit ∈ codepoints.flatMap utf16, unit < 2 ^ 16 := by
      intro unit member
      obtain ⟨c, among, of_c⟩ := List.mem_flatMap.mp member
      exact utf16_lt (whole.scalar c among) unit of_c
    have some : ∀ unit ∈ codepoints.flatMap utf16, unit ≠ 0 := by
      intro unit member
      obtain ⟨c, among, of_c⟩ := List.mem_flatMap.mp member
      exact utf16_ne_zero (ne_zero_of_titleText whole c among) unit of_c
    refine ⟨codepoints, whole, ?_⟩
    rw [storedTitle, fieldUnits_stored small some room, decode16_utf16 whole.scalar]

end Units

end KosTool.Elf2xbe
