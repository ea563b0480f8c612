import KosTool.Math.ByteWord

/-! # Unicode encoding forms

The two encoding forms of a code point, by the code point's size, and what a reader of the 16-bit form makes of a
sequence of units.
-/

namespace Unicode

/-- The code points that have an encoding: those up to U+10FFFF but the surrogates. -/
def Scalar (c : ℕ) : Prop := c < 0xD800 ∨ 0xE000 ≤ c ∧ c < 0x110000

/-- UTF-8: the shortest form that has room. -/
def utf8 (c : ℕ) : List Byte :=
  if c < 0x80 then [BitVec.ofNat 8 c]
  else if c < 0x800 then [BitVec.ofNat 8 (0xC0 + c / 0x40), BitVec.ofNat 8 (0x80 + c % 0x40)]
  else if c < 0x10000 then
    [BitVec.ofNat 8 (0xE0 + c / 0x1000), BitVec.ofNat 8 (0x80 + c / 0x40 % 0x40), BitVec.ofNat 8 (0x80 + c % 0x40)]
  else
    [BitVec.ofNat 8 (0xF0 + c / 0x40000), BitVec.ofNat 8 (0x80 + c / 0x1000 % 0x40),
      BitVec.ofNat 8 (0x80 + c / 0x40 % 0x40), BitVec.ofNat 8 (0x80 + c % 0x40)]

/-- UTF-16: a unit, or a high and a low surrogate. -/
def utf16 (c : ℕ) : List ℕ :=
  if c < 0x10000 then [c] else [0xD800 + (c - 0x10000) / 2 ^ 10, 0xDC00 + (c - 0x10000) % 2 ^ 10]

/-- A text is well formed, with its code points. -/
structure IsUtf8 (text : List Byte) (codepoints : List ℕ) : Prop where
  scalar : ∀ c ∈ codepoints, Scalar c
  encoded : text = codepoints.flatMap utf8

/-- The code points of a sequence of units, if no surrogate stands alone. -/
def decode16 : List ℕ → Option (List ℕ)
  | [] => some []
  | [unit] => if unit < 0xD800 ∨ 0xE000 ≤ unit then some [unit] else none
  | unit :: low :: rest =>
    if unit < 0xD800 ∨ 0xE000 ≤ unit then (decode16 (low :: rest)).map (unit :: ·)
    else if unit < 0xDC00 ∧ 0xDC00 ≤ low ∧ low < 0xE000 then
      (decode16 rest).map ((0x10000 + (unit - 0xD800) * 2 ^ 10 + (low - 0xDC00)) :: ·)
    else none

variable {c : ℕ} {codepoints : List ℕ} {text rest : List Byte}

theorem Scalar.lt (scalar : Scalar c) : c < 0x110000 := by
  rcases scalar with low | high
  · omega
  · exact high.2

theorem IsUtf8.nil : IsUtf8 [] [] := ⟨nofun, rfl⟩

theorem IsUtf8.cons (scalar : Scalar c) (others : IsUtf8 rest codepoints) : IsUtf8 (utf8 c ++ rest) (c :: codepoints) where
  scalar other member := by
    rcases List.mem_cons.mp member with rfl | later
    · exact scalar
    · exact others.scalar other later
  encoded := by rw [List.flatMap_cons, others.encoded]

/-- What is behind the first code point of a text is well formed. -/
theorem IsUtf8.tail (whole : IsUtf8 (utf8 c ++ rest) (c :: codepoints)) : IsUtf8 rest codepoints where
  scalar other member := whole.scalar other (List.mem_cons_of_mem c member)
  encoded := List.append_cancel_left (whole.encoded.trans List.flatMap_cons)

theorem length_utf8_pos (c : ℕ) : 0 < (utf8 c).length := by
  unfold utf8
  split_ifs <;> exact Nat.succ_pos _

theorem length_utf16_pos (c : ℕ) : 0 < (utf16 c).length := by
  unfold utf16
  split_ifs <;> exact Nat.succ_pos _

/-- Every unit has sixteen bits. -/
theorem utf16_lt (scalar : Scalar c) : ∀ unit ∈ utf16 c, unit < 2 ^ 16 := by
  have bound := scalar.lt
  intro unit member
  unfold utf16 at member
  split_ifs at member with small
  · rw [List.mem_singleton] at member
    omega
  · simp only [List.mem_cons, List.not_mem_nil, or_false] at member
    omega

/-- No unit of a code point but the first one is zero. -/
theorem utf16_ne_zero (some : c ≠ 0) : ∀ unit ∈ utf16 c, unit ≠ 0 := by
  intro unit member
  unfold utf16 at member
  split_ifs at member with small
  · rw [List.mem_singleton] at member
    omega
  · simp only [List.mem_cons, List.not_mem_nil, or_false] at member
    omega

/-- The first code point is read off its units. -/
theorem decode16_utf16_append (scalar : Scalar c) (units : List ℕ) :
    decode16 (utf16 c ++ units) = (decode16 units).map (c :: ·) := by
  have bound := scalar.lt
  unfold utf16
  by_cases small : c < 0x10000
  · have unit : c < 0xD800 ∨ 0xE000 ≤ c := by
      unfold Scalar at scalar
      omega
    rw [if_pos small, List.singleton_append]
    cases units with
    | nil => exact if_pos unit
    | cons next units => rw [decode16, if_pos unit]
  · rw [if_neg small, List.cons_append, List.cons_append, List.nil_append, decode16, if_neg (by omega), if_pos (by omega)]
    have whole : 0x10000 + (0xD800 + (c - 0x10000) / 2 ^ 10 - 0xD800) * 2 ^ 10 + (0xDC00 + (c - 0x10000) % 2 ^ 10 - 0xDC00) = c := by
      omega
    rw [whole]

/-- The 16-bit form is read back. -/
theorem decode16_utf16 (scalar : ∀ c ∈ codepoints, Scalar c) : decode16 (codepoints.flatMap utf16) = some codepoints := by
  induction codepoints with
  | nil => rw [List.flatMap_nil, decode16]
  | cons c codepoints ih =>
    rw [List.flatMap_cons, decode16_utf16_append (scalar c List.mem_cons_self),
      ih fun other member => scalar other (List.mem_cons_of_mem c member)]
    rfl

end Unicode
