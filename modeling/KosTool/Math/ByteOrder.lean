import KosTool.Math.ByteWord

/-! # The two byte orders

What a load of a machine's own order reads is turned into the value of the big-endian bytes by `ntohl`,
whichever order the machine has.
-/

inductive ByteOrder where
  | little
  | big
deriving DecidableEq, Repr

namespace ByteOrder

open ByteWord

/-- The bytes of a word in reverse. -/
def bswap32 (word : Word) : Word :=
  ofBe32 (word.extractLsb' 0 8) (word.extractLsb' 8 8) (word.extractLsb' 16 8) (word.extractLsb' 24 8)

/-- `htonl`, and `ntohl`. -/
def htonl : ByteOrder → Word → Word
  | .little, word => bswap32 word
  | .big, word => word

/-- The word a load reads at an offset. -/
def load32 (order : ByteOrder) (buffer : Buffer) (offset : ℕ) : Word :=
  order.htonl (readBe32 buffer offset)

/-- The half-word a load reads at an offset. -/
def load16 (order : ByteOrder) (buffer : Buffer) (offset : ℕ) : BitVec 16 :=
  match order with
  | .little => buffer (offset + 1) ++ buffer offset
  | .big => buffer offset ++ buffer (offset + 1)

/-- The two bytes a store writes. -/
def bytes16 (order : ByteOrder) (half : BitVec 16) : List Byte :=
  match order with
  | .little => [half.extractLsb' 0 8, half.extractLsb' 8 8]
  | .big => [half.extractLsb' 8 8, half.extractLsb' 0 8]

/-- The value of a half-word by its bytes. -/
theorem toNat_load16 (order : ByteOrder) (buffer : Buffer) (offset : ℕ) : (order.load16 buffer offset).toNat =
    match order with
    | .little => (buffer (offset + 1)).toNat * 256 + (buffer offset).toNat
    | .big => (buffer offset).toNat * 256 + (buffer (offset + 1)).toNat := by
  cases order with
  | little => rw [load16, BitVec.toNat_append, ← Nat.shiftLeft_add_eq_or_of_lt (buffer offset).isLt, Nat.shiftLeft_eq]
  | big =>
    rw [load16, BitVec.toNat_append, ← Nat.shiftLeft_add_eq_or_of_lt (buffer (offset + 1)).isLt, Nat.shiftLeft_eq]

/-- A half-word that has been stored is loaded again. -/
theorem load16_bytes16 (order : ByteOrder) (half : BitVec 16) {buffer : Buffer} {offset : ℕ}
    (stored : slice buffer offset 2 = order.bytes16 half) : order.load16 buffer offset = half := by
  have whole : half.extractLsb' 8 8 ++ half.extractLsb' 0 8 = half := by
    rw [BitVec.extractLsb'_append_extractLsb'_eq_extractLsb' (by decide)]
    exact BitVec.extractLsb'_eq_self
  rw [slice_succ, slice_succ] at stored
  cases order with
  | little =>
    simp only [bytes16, List.cons.injEq] at stored
    rw [load16, stored.1, stored.2.1]
    exact whole
  | big =>
    simp only [bytes16, List.cons.injEq] at stored
    rw [load16, stored.1, stored.2.1]
    exact whole

theorem bswap32_ofBe32 (b0 b1 b2 b3 : Byte) : bswap32 (ofBe32 b0 b1 b2 b3) = ofBe32 b3 b2 b1 b0 := by
  have bytes := be32_ofBe32 b0 b1 b2 b3
  simp only [be32, List.cons.injEq, and_true] at bytes
  obtain ⟨first, second, third, fourth⟩ := bytes
  rw [bswap32, first, second, third, fourth]

theorem bswap32_bswap32 (word : Word) : bswap32 (bswap32 word) = word :=
  (bswap32_ofBe32 _ _ _ _).trans (ofBe32_extract word)

@[simp] theorem htonl_htonl (order : ByteOrder) (word : Word) : order.htonl (order.htonl word) = word := by
  cases order with
  | little => exact bswap32_bswap32 word
  | big => rfl

@[simp] theorem ntohl_load32 (order : ByteOrder) (buffer : Buffer) (offset : ℕ) :
    order.htonl (order.load32 buffer offset) = readBe32 buffer offset := htonl_htonl order _

end ByteOrder

/-! # Big-endian numbers of any width -/

namespace BigEndian

open ByteWord

/-- The bytes of a number, most significant first. -/
def bytesBe : ℕ → ℕ → List Byte
  | 0, _ => []
  | count + 1, value => bytesBe count (value / 256) ++ [BitVec.ofNat 8 value]

/-- The number that bytes give. -/
def readBe (bytes : List Byte) : ℕ := bytes.foldl (fun value byte => value * 256 + byte.toNat) 0

@[simp] theorem length_bytesBe (count value : ℕ) : (bytesBe count value).length = count := by
  induction count generalizing value with
  | zero => rfl
  | succ count ih => rw [bytesBe, List.length_append, ih, List.length_singleton]

/-- A number is read back as far as its bytes reach. -/
theorem readBe_bytesBe (count value : ℕ) : readBe (bytesBe count value) = value % 256 ^ count := by
  induction count generalizing value with
  | zero => rw [Nat.pow_zero, Nat.mod_one, bytesBe, readBe, List.foldl_nil]
  | succ count ih =>
    have front := ih (value / 256)
    rw [readBe] at front
    have byte : (BitVec.ofNat 8 value).toNat = value % 256 := BitVec.toNat_ofNat _ _
    have power : 256 ^ (count + 1) = 256 * 256 ^ count := Nat.pow_succ'
    rw [readBe, bytesBe, List.foldl_append, front, List.foldl_cons, List.foldl_nil, byte, power, Nat.mod_mul]
    omega

/-- A number that fits is read back. -/
theorem readBe_of_lt {count value : ℕ} (fits : value < 256 ^ count) : readBe (bytesBe count value) = value := by
  rw [readBe_bytesBe, Nat.mod_eq_of_lt fits]

end BigEndian
