import KosTool.Math.ByteWord

/-! # LZ10 streams

A stream is the tag, the size of what it unpacks to, and groups of up to eight tokens behind a byte of flags, the highest
first: a literal byte, or a copy of what was unpacked at most 4096 bytes before. A copy may overlap what it makes.
-/

namespace Lz10

/-- What one flag stands for. -/
inductive Token where
  | literal (byte : Byte)
  | copy (length displacement : ℕ)
deriving DecidableEq, Repr

/-- Bytes are copied one by one from a distance behind the end. -/
def copyBack (displacement : ℕ) : ℕ → List Byte → List Byte
  | 0, out => out
  | count + 1, out => copyBack displacement count (out ++ [out.getD (out.length - displacement) 0])

namespace Token

/-- How many bytes it unpacks to. -/
def length : Token → ℕ
  | literal _ => 1
  | copy length _ => length

/-- Its flag. -/
def flag : Token → Bool
  | literal _ => false
  | copy _ _ => true

/-- What is unpacked once it is. -/
def unpack (out : List Byte) : Token → List Byte
  | literal byte => out ++ [byte]
  | copy length displacement => copyBack displacement length out

/-- Its bytes in a stream. -/
def bytes : Token → List Byte
  | literal byte => [byte]
  | copy length displacement =>
    [BitVec.ofNat 8 ((length - 3) * 16 + (displacement - 1) / 256), BitVec.ofNat 8 ((displacement - 1) % 256)]

/-- A copy has a length and a displacement that the format can hold, starts inside what was unpacked and ends inside what is
to be unpacked. -/
def Fits (size : ℕ) (out : List Byte) : Token → Prop
  | literal _ => out.length < size
  | copy length displacement =>
    (3 ≤ length ∧ length ≤ 18) ∧ (1 ≤ displacement ∧ displacement ≤ 4096) ∧ displacement ≤ out.length ∧
      out.length + length ≤ size

end Token

section Decoder

/-- A token of a stream by its flag. -/
def readToken : Bool → List Byte → Option (Token × List Byte)
  | false, byte :: rest => some (.literal byte, rest)
  | true, high :: low :: rest => some (.copy (high.toNat / 16 + 3) (high.toNat % 16 * 256 + low.toNat + 1), rest)
  | _, _ => none

/-- The tokens of the lowest flags of a group, up to the size. -/
def readBits (size : ℕ) (flags : Byte) : ℕ → ℕ → List Byte → Option (List Token × List Byte)
  | 0, _, stream => some ([], stream)
  | bits + 1, produced, stream =>
    if size ≤ produced then some ([], stream)
    else (readToken (flags.getLsbD bits) stream).bind fun head =>
      (readBits size flags bits (produced + head.1.length) head.2).map fun tail => (head.1 :: tail.1, tail.2)

/-- The tokens of the groups, up to the size. -/
def readGroups (size : ℕ) : ℕ → ℕ → List Byte → Option (List Token)
  | 0, produced, _ => if size ≤ produced then some [] else none
  | fuel + 1, produced, stream =>
    if size ≤ produced then some []
    else match stream with
      | [] => none
      | flags :: rest => (readBits size flags 8 produced rest).bind fun group =>
        (readGroups size fuel (produced + (group.1.map Token.length).sum) group.2).map (group.1 ++ ·)

/-- The tag, and the byte behind it that names the method. -/
def tag : List Byte := [0x4c, 0x5a, 0x37, 0x37, 0x10]

/-- The size and the tokens of a stream. Every group takes a byte of it at least. -/
def readStream (stream : List Byte) : Option (ℕ × List Token) :=
  match stream.drop 5 with
  | low :: middle :: high :: groups =>
    let size := low.toNat + middle.toNat * 256 + high.toNat * 65536
    if stream.take 5 = tag then (readGroups size groups.length 0 groups).map (size, ·) else none
  | _ => none

/-- What tokens unpack to. -/
def unpack (tokens : List Token) : List Byte := tokens.foldl Token.unpack []

/-- What a stream unpacks to. -/
def decode (stream : List Byte) : Option (List Byte) := (readStream stream).map fun contents => unpack contents.2

end Decoder

section Copies

variable {source : List Byte} {pos displacement : ℕ}

/-- A prefix is taken on by the next byte. -/
theorem take_snoc (inside : pos < source.length) : source.take pos ++ [source.getD pos 0] = source.take (pos + 1) := by
  rw [List.take_add_one, List.getElem?_eq_getElem inside, List.getD_eq_getElem?_getD, List.getElem?_eq_getElem inside]
  rfl

/-- A copy of bytes that are equal takes a prefix on to a longer one. -/
theorem copyBack_take {count : ℕ} (some : 1 ≤ displacement) (inside : displacement ≤ pos)
    (bound : pos + count ≤ source.length)
    (same : ∀ k < count, source.getD (pos - displacement + k) 0 = source.getD (pos + k) 0) :
    copyBack displacement count (source.take pos) = source.take (pos + count) := by
  induction count generalizing pos with
  | zero => rfl
  | succ count ih =>
    have whole : (source.take pos).length = pos := List.length_take_of_le (by omega)
    have byte : (source.take pos).getD ((source.take pos).length - displacement) 0 = source.getD pos 0 := by
      have first := same 0 (Nat.succ_pos count)
      rw [Nat.add_zero, Nat.add_zero] at first
      rw [whole, ← first, List.getD_eq_getElem?_getD, List.getD_eq_getElem?_getD, List.getElem?_take_of_lt (by omega)]
    have later : ∀ k < count, source.getD (pos + 1 - displacement + k) 0 = source.getD (pos + 1 + k) 0 := by
      intro k below
      have next := same (k + 1) (Nat.succ_lt_succ below)
      have left : pos + 1 - displacement + k = pos - displacement + (k + 1) := by omega
      have right : pos + 1 + k = pos + (k + 1) := by omega
      rw [left, right, next]
    rw [copyBack, byte, take_snoc (by omega), ih (by omega) (by omega) later, Nat.add_assoc, Nat.add_comm 1 count]

/-- A token that fits is read back. -/
theorem readToken_bytes {size : ℕ} {out : List Byte} {token : Token} (fits : token.Fits size out) (rest : List Byte) :
    readToken token.flag (token.bytes ++ rest) = some (token, rest) := by
  cases token with
  | literal byte => rfl
  | copy length displacement =>
    obtain ⟨⟨low, high⟩, ⟨some, far⟩, -, -⟩ := fits
    have first : (BitVec.ofNat 8 ((length - 3) * 16 + (displacement - 1) / 256)).toNat =
        (length - 3) * 16 + (displacement - 1) / 256 := Nat.mod_eq_of_lt (by omega)
    have second : (BitVec.ofNat 8 ((displacement - 1) % 256)).toNat = (displacement - 1) % 256 := Nat.mod_eq_of_lt (by omega)
    have lengths : ((length - 3) * 16 + (displacement - 1) / 256) / 16 + 3 = length := by omega
    have displacements :
        ((length - 3) * 16 + (displacement - 1) / 256) % 16 * 256 + (displacement - 1) % 256 + 1 = displacement := by omega
    rw [Token.flag, Token.bytes, List.cons_append, List.cons_append, List.nil_append, readToken, first, second, lengths,
      displacements]

end Copies

section Streams

variable {size : ℕ} {source : List Byte}

/-- The tokens take the bytes that were unpacked on to a prefix of the source, and all of them fit. -/
def Covers (source : List Byte) : ℕ → List Token → ℕ → Prop
  | pos, [], last => pos = last
  | pos, token :: tokens, last =>
    token.Fits source.length (source.take pos) ∧ token.unpack (source.take pos) = source.take (pos + token.length) ∧
      Covers source (pos + token.length) tokens last

theorem Covers.append {first second : List Token} {pos middle last : ℕ} (covers : Covers source pos first middle)
    (next : Covers source middle second last) : Covers source pos (first ++ second) last := by
  induction first generalizing pos with
  | nil =>
    cases covers
    exact next
  | cons token tokens ih => exact ⟨covers.1, covers.2.1, ih covers.2.2⟩

theorem Covers.sum_length {tokens : List Token} {pos last : ℕ} (covers : Covers source pos tokens last) :
    pos + (tokens.map Token.length).sum = last := by
  induction tokens generalizing pos with
  | nil => exact covers
  | cons token tokens ih => rw [List.map_cons, List.sum_cons, ← Nat.add_assoc, ih covers.2.2]

/-- The tokens unpack to the prefix. -/
theorem Covers.foldl_unpack {tokens : List Token} {pos last : ℕ} (covers : Covers source pos tokens last) :
    tokens.foldl Token.unpack (source.take pos) = source.take last := by
  induction tokens generalizing pos with
  | nil =>
    cases covers
    rfl
  | cons token tokens ih => rw [List.foldl_cons, covers.2.1, ih covers.2.2]

/-- Every token fits behind what those before it unpack to. -/
theorem Covers.fits {before after : List Token} {token : Token} {pos last : ℕ}
    (covers : Covers source pos (before ++ token :: after) last) :
    token.Fits source.length (before.foldl Token.unpack (source.take pos)) := by
  induction before generalizing pos with
  | nil => exact covers.1
  | cons head before ih =>
    rw [List.foldl_cons, covers.2.1]
    exact ih covers.2.2

/-- Once everything is unpacked nothing more is read. -/
theorem readGroups_done (fuel : ℕ) {produced : ℕ} (done : size ≤ produced) (stream : List Byte) :
    readGroups size fuel produced stream = some [] := by
  cases fuel with
  | zero => exact if_pos done
  | succ fuel => exact if_pos done

end Streams

end Lz10
