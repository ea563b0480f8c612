import KosTool.Model.Binary.Srec

/-! # What an S-record file loads

What a line says is read off its characters, and the loader reads the same, except for a termination line without a whole address. The
records of a file are those of its lines; the loader takes what it gets for a line, and adds in 32 bits.
-/

namespace KosTool.Binary.Srec

open ByteWord

/-- The byte that two characters of a line give, counted from behind its kind. -/
def pair (line : List Byte) (i : ℕ) : Option ℕ :=
  match (line)[2 + 2 * i]?.bind hexDigit, (line)[3 + 2 * i]?.bind hexDigit with
  | some hi, some lo => some (hi * 16 + lo)
  | _, _ => none

def value (line : List Byte) (i : ℕ) : ℕ := (pair line i).getD 0

def HasBytes (line : List Byte) (first n : ℕ) : Prop := (List.range' first n).all (fun i => (pair line i).isSome) = true

instance (line : List Byte) (first n : ℕ) : Decidable (HasBytes line first n) := inferInstanceAs (Decidable (_ = _))

/-- The digit behind the S. -/
def kind : List Byte → ℕ
  | first :: digit :: _ => if first = letterS then digit.toNat - 48 else 0
  | _ => 0

/-- An address with one more byte. -/
def behind (line : List Byte) (addr : Word) (i : ℕ) : Word := addr <<< 8 ||| BitVec.ofNat 32 (value line i)

def address (line : List Byte) (n : ℕ) : Word := (List.range' 1 n).foldl (behind line) 0

def IsData (line : List Byte) : Prop := 1 ≤ kind line ∧ kind line ≤ 3

def IsTermination (line : List Byte) : Prop := 7 ≤ kind line ∧ kind line ≤ 9

/-- The line has its byte count and its address. -/
def HasHead (line : List Byte) : Prop := HasBytes line 0 (kind line + 2)

/-- The byte count is large enough for the address and the checksum. -/
def Carries (line : List Byte) : Prop := kind line + 2 ≤ value line 0

/-- The line has all of its bytes, and the right checksum. -/
def Sums (line : List Byte) : Prop :=
  HasBytes line 0 (value line 0 + 1) ∧ ((List.range' 0 (value line 0 + 1)).map (value line)).sum % 256 = 255

instance (line : List Byte) : Decidable (IsData line) := inferInstanceAs (Decidable (_ ∧ _))
instance (line : List Byte) : Decidable (IsTermination line) := inferInstanceAs (Decidable (_ ∧ _))
instance (line : List Byte) : Decidable (HasHead line) := inferInstanceAs (Decidable (HasBytes _ _ _))
instance (line : List Byte) : Decidable (Carries line) := inferInstanceAs (Decidable (_ ≤ _))
instance (line : List Byte) : Decidable (Sums line) := inferInstanceAs (Decidable (_ ∧ _))

/-- The data of a line. -/
def payload (line : List Byte) : List Byte :=
  (List.range' (kind line + 2) (value line 0 - (kind line + 2))).map fun i => BitVec.ofNat 8 (value line i)

/-- The address and the data of a data record with a valid checksum. -/
def record (line : List Byte) : Option (Word × List Byte) :=
  if IsData line ∧ Sums line ∧ Carries line then some (address line (kind line + 1), payload line) else none

/-- The address of a termination record, where it has one. -/
def termination (line : List Byte) : Option (Option Word) :=
  if IsTermination line then
    some (if HasBytes line 1 (11 - kind line) then some (address line (11 - kind line)) else none)
  else none

section Line

variable {before : Buffer} {piece : List Byte}

theorem gets_of_lt {i : ℕ} (inside : i < piece.length) : gets before piece i = piece[i] := by
  rw [gets, storeAt, if_pos (Nat.zero_le _), Nat.sub_zero, List.getD_eq_getElem?_getD, List.getElem?_append_left inside,
    List.getElem?_eq_getElem inside, Option.getD_some]

theorem gets_length : gets before piece piece.length = 0 := by
  rw [gets, storeAt, if_pos (Nat.zero_le _), Nat.sub_zero, List.getD_eq_getElem?_getD, List.getElem?_concat_length]
  rfl

theorem hexDigit_zero : hexDigit 0 = none := by decide

theorem hexDigit_lt {c : Byte} {digit : ℕ} (read : hexDigit c = some digit) : digit < 16 := by
  rw [hexDigit] at read
  split_ifs at read <;> cases read <;> omega

/-- As far as the line goes, `hex_byte` reads its bytes; at its end there is none. -/
theorem hexByte_eq {i : ℕ} (reach : 2 + 2 * i ≤ piece.length) :
    hexByte (gets before piece) (2 + 2 * i) = match pair piece i with
      | some b => (b : ℤ)
      | none => -1 := by
  rw [hexByte, pair]
  obtain inside | ended := reach.lt_or_eq
  · rw [gets_of_lt inside, List.getElem?_eq_getElem inside, Option.bind_some]
    cases hexDigit piece[2 + 2 * i] with
    | none => rfl
    | some hi =>
      dsimp only
      have next : 2 + 2 * i + 1 = 3 + 2 * i := by omega
      rw [next]
      obtain inside | ended := (show 3 + 2 * i ≤ piece.length by omega).lt_or_eq
      · rw [gets_of_lt inside, List.getElem?_eq_getElem inside, Option.bind_some]
        cases hexDigit piece[3 + 2 * i] <;> rfl
      · rw [ended, gets_length, hexDigit_zero, List.getElem?_eq_none le_rfl]
        rfl
  · rw [ended, gets_length, hexDigit_zero, List.getElem?_eq_none le_rfl]
    rfl

theorem pair_reach {i : ℕ} (isSome : (pair piece i).isSome) : 2 + 2 * (i + 1) ≤ piece.length := by
  by_contra short
  have ended : piece[3 + 2 * i]? = none := List.getElem?_eq_none (by omega)
  rw [pair, ended, Option.bind_none] at isSome
  split at isSome
  · rename_i absent
    nomatch absent
  · nomatch isSome

theorem value_lt (line : List Byte) (i : ℕ) : value line i < 256 := by
  rw [value, pair]
  split
  · rename_i hi lo high low
    obtain ⟨c, -, high⟩ := Option.bind_eq_some_iff.mp high
    obtain ⟨d, -, low⟩ := Option.bind_eq_some_iff.mp low
    have hi_lt := hexDigit_lt high
    have lo_lt := hexDigit_lt low
    rw [Option.getD_some]
    omega
  · exact Nat.zero_lt_succ _

/-- A byte that is there is read. -/
theorem hexByte_of_isSome {i : ℕ} (reach : 2 + 2 * i ≤ piece.length) (isSome : (pair piece i).isSome) :
    hexByte (gets before piece) (2 + 2 * i) = (value piece i : ℤ) := by
  obtain ⟨b, read⟩ := Option.isSome_iff_exists.mp isSome
  rw [hexByte_eq reach, value, read, Option.getD_some]

theorem hexByte_of_none {i : ℕ} (reach : 2 + 2 * i ≤ piece.length) (missing : ¬(pair piece i).isSome) :
    hexByte (gets before piece) (2 + 2 * i) = -1 := by
  rw [hexByte_eq reach, Option.not_isSome_iff_eq_none.mp missing]

theorem hasBytes_zero (line : List Byte) (first : ℕ) : HasBytes line first 0 := rfl

theorem hasBytes_succ (line : List Byte) (first n : ℕ) :
    HasBytes line first (n + 1) ↔ (pair line first).isSome ∧ HasBytes line (first + 1) n := by
  rw [HasBytes, HasBytes, List.range'_succ, List.all_cons, Bool.and_eq_true]

/-- The loop of the first pass reads the address, or fails. -/
theorem wholeAddress_eq (n i : ℕ) (addr : Word) (reach : 2 + 2 * (1 + i) ≤ piece.length) :
    wholeAddress (gets before piece) n i addr =
      if HasBytes piece (1 + i) n then
        some ((List.range' (1 + i) n).foldl (behind piece) addr)
      else none := by
  induction n generalizing i addr with
  | zero => rw [if_pos (hasBytes_zero _ _), wholeAddress, List.range'_zero, List.foldl_nil]
  | succ n ih =>
    have place : 4 + i * 2 = 2 + 2 * (1 + i) := by omega
    rw [wholeAddress, place]
    by_cases isSome : (pair piece (1 + i)).isSome
    · rw [hexByte_of_isSome reach isSome, if_neg (by omega), ih (i + 1) _ (pair_reach isSome), List.range'_succ, List.foldl_cons]
      have same : HasBytes piece (1 + i) (n + 1) ↔ HasBytes piece (1 + (i + 1)) n := by
        rw [hasBytes_succ, and_iff_right isSome, Nat.add_assoc]
      simp only [same]
      rfl
    · rw [hexByte_of_none reach isSome, if_pos (by decide), if_neg (fun has => isSome ((hasBytes_succ _ _ _).mp has).1)]

/-- Where the address is there, the other loops read it too. -/
theorem anyAddress_eq (n i : ℕ) (addr : Word) (reach : 2 + 2 * (1 + i) ≤ piece.length) (has : HasBytes piece (1 + i) n) :
    anyAddress (gets before piece) n i addr = (List.range' (1 + i) n).foldl (behind piece) addr := by
  induction n generalizing i addr with
  | zero => rw [anyAddress, List.range'_zero, List.foldl_nil]
  | succ n ih =>
    have place : 4 + i * 2 = 2 + 2 * (1 + i) := by omega
    obtain ⟨isSome, more⟩ := (hasBytes_succ _ _ _).mp has
    rw [anyAddress, place, hexByte_of_isSome reach isSome, ih (i + 1) _ (pair_reach isSome) more, List.range'_succ,
      List.foldl_cons]
    rfl

theorem entryAddress_eq (n i : ℕ) (addr : Word) (reach : 2 + 2 * (1 + i) ≤ piece.length) (has : HasBytes piece (1 + i) n) :
    entryAddress (gets before piece) n i addr = (List.range' (1 + i) n).foldl (behind piece) addr := by
  induction n generalizing i addr with
  | zero => rw [entryAddress, List.range'_zero, List.foldl_nil]
  | succ n ih =>
    have place : 4 + i * 2 = 2 + 2 * (1 + i) := by omega
    obtain ⟨isSome, more⟩ := (hasBytes_succ _ _ _).mp has
    rw [entryAddress, place, hexByte_of_isSome reach isSome, if_neg (by omega), ih (i + 1) _ (pair_reach isSome) more,
      List.range'_succ, List.foldl_cons]
    rfl

/-- The loop over a whole record adds it up, or fails. -/
theorem sumBytes_eq (n i : ℕ) (sum : Byte) (reach : 2 + 2 * i ≤ piece.length) :
    sumBytes (gets before piece) n i sum =
      if HasBytes piece i n then some (sum + BitVec.ofNat 8 ((List.range' i n).map (value piece)).sum) else none := by
  induction n generalizing i sum with
  | zero => rw [if_pos (hasBytes_zero _ _), sumBytes, List.range'_zero, List.map_nil, List.sum_nil, BitVec.add_zero]
  | succ n ih =>
    have place : 2 + i * 2 = 2 + 2 * i := by omega
    rw [sumBytes, place]
    by_cases isSome : (pair piece i).isSome
    · rw [hexByte_of_isSome reach isSome, if_neg (by omega), ih (i + 1) _ (pair_reach isSome), List.range'_succ, List.map_cons,
        List.sum_cons, BitVec.ofNat_add, ← BitVec.add_assoc]
      simp only [hasBytes_succ, isSome, true_and, BitVec.ofInt_natCast]
    · rw [hexByte_of_none reach isSome, if_pos (by decide), if_neg (fun has => isSome ((hasBytes_succ _ _ _).mp has).1)]

/-- The stores of bytes in a row. -/
def storesOf (place : Word) : ℕ → List Byte → List (Word × Byte)
  | _, [] => []
  | i, b :: rest => (place + BitVec.ofNat 32 i, b) :: storesOf place (i + 1) rest

theorem storeBytes_eq (place : Word) (first n i : ℕ) (reach : 2 + 2 * (first + i) ≤ piece.length)
    (has : HasBytes piece (first + i) n) : storeBytes (gets before piece) place (2 + 2 * first) n i =
      (storesOf place i ((List.range' (first + i) n).map fun i => BitVec.ofNat 8 (value piece i)), true) := by
  induction n generalizing i with
  | zero => rw [storeBytes, List.range'_zero, List.map_nil, storesOf]
  | succ n ih =>
    have at_ : 2 + 2 * first + i * 2 = 2 + 2 * (first + i) := by omega
    obtain ⟨isSome, more⟩ := (hasBytes_succ _ _ _).mp has
    rw [storeBytes, at_, hexByte_of_isSome reach isSome]
    dsimp only
    rw [if_neg (by omega), ih (i + 1) (pair_reach isSome) more, List.range'_succ, List.map_cons, storesOf, BitVec.ofInt_natCast]
    rfl

theorem hasBytes_add (line : List Byte) (first n m : ℕ) :
    HasBytes line first (n + m) ↔ HasBytes line first n ∧ HasBytes line (first + n) m := by
  rw [HasBytes, HasBytes, HasBytes, ← List.range'_append_1, List.all_append, Bool.and_eq_true]

/-- Behind bytes that are there the line goes on. -/
theorem hasBytes_reach {first n : ℕ} (reach : 2 + 2 * first ≤ piece.length) (has : HasBytes piece first n) :
    2 + 2 * (first + n) ≤ piece.length := by
  induction n generalizing first with
  | zero => exact reach
  | succ n ih =>
    obtain ⟨isSome, more⟩ := (hasBytes_succ _ _ _).mp has
    have next := ih (pair_reach isSome) more
    omega

/-- The kind that the loader reads off a line. -/
theorem recordType_eq (kinds : 1 ≤ kind piece) :
    gets before piece 0 = letterS ∧ recordType (gets before piece) = kind piece ∧ 2 ≤ piece.length := by
  match piece, kinds with
  | first :: digit :: rest, kinds =>
    rw [kind] at kinds ⊢
    split_ifs at kinds ⊢ with letter
    · refine ⟨(gets_of_lt (by exact Nat.zero_lt_succ _)).trans letter, ?_, by exact Nat.le_add_left _ _⟩
      rw [recordType, gets_of_lt (by exact Nat.succ_lt_succ (Nat.zero_lt_succ _)), List.getElem_cons_succ, List.getElem_cons_zero]
      omega
    · exact absurd kinds (by decide)

theorem kind_eq (starts : gets before piece 0 = letterS) (kinds : 1 ≤ recordType (gets before piece)) :
    1 ≤ kind piece := by
  match piece, starts, kinds with
  | [], starts, _ =>
    have ended : gets before [] 0 = 0 := @gets_length before []
    exact absurd (ended.symm.trans starts) (by decide)
  | [first], _, kinds =>
    have ended : gets before [first] 1 = 0 := @gets_length before [first]
    rw [recordType, ended] at kinds
    exact absurd kinds (by decide)
  | first :: digit :: rest, starts, kinds =>
    rw [gets_of_lt (by exact Nat.zero_lt_succ _), List.getElem_cons_zero] at starts
    rw [recordType, gets_of_lt (by exact Nat.succ_lt_succ (Nat.zero_lt_succ _)), List.getElem_cons_succ, List.getElem_cons_zero]
      at kinds
    rw [kind, if_pos starts]
    omega

theorem hasHead_iff (line : List Byte) : HasHead line ↔ (pair line 0).isSome ∧ HasBytes line 1 (kind line + 1) :=
  hasBytes_succ line 0 (kind line + 1)

/-- The first pass looks at data records only, and takes those with a head. -/
theorem rangeOfLine_eq (range : Range) : rangeOfLine range (gets before piece) =
    if IsData piece then
      if HasHead piece then some (range.widen (address piece (kind piece + 1)) (value piece 0 - (kind piece + 1) - 1)) else none
    else some range := by
  rw [rangeOfLine]
  by_cases data : IsData piece
  · obtain ⟨starts, type, long⟩ := @recordType_eq before _ data.1
    have high := data.2
    have low := data.1
    rw [if_pos data, if_neg (not_not.mpr starts), type, if_neg (by omega)]
    have count : 2 + 2 * 0 ≤ piece.length := long
    by_cases isSome : (pair piece 0).isSome
    · have read := @hexByte_of_isSome before _ _ count isSome
      rw [Nat.mul_zero, Nat.add_zero] at read
      have bytes : ((kind piece : ℤ) + 1).toNat = kind piece + 1 := by omega
      have behind_count : 2 + 2 * (1 + 0) ≤ piece.length := pair_reach isSome
      rw [read, if_neg (by omega), bytes, wholeAddress_eq (kind piece + 1) 0 0 behind_count]
      simp only [hasHead_iff, isSome, true_and, Nat.add_zero]
      split_ifs
      · rfl
      · rfl
    · have read := @hexByte_of_none before _ _ count isSome
      rw [Nat.mul_zero, Nat.add_zero] at read
      rw [read, if_pos (by decide), if_neg fun head => isSome ((hasHead_iff _).mp head).1]
  · rw [if_neg data]
    split_ifs with other outside read
    · rfl
    · rfl
    all_goals
      have starts := not_not.mp other
      obtain ⟨low, high⟩ := not_or.mp outside
      have kinds := kind_eq starts (not_lt.mp low)
      obtain ⟨-, type, -⟩ := @recordType_eq before _ kinds
      exact absurd ⟨kinds, by omega⟩ data

/-- The second pass stores the data of a record whose checksum is right, and fails at another. -/
theorem dataRecord_eq (low : Word) (data : IsData piece) (head : HasHead piece) : dataRecord low (gets before piece) =
    if Sums piece then (storesOf (address piece (kind piece + 1) - low) 0 (payload piece), true) else ([], false) := by
  obtain ⟨starts, type, long⟩ := @recordType_eq before _ data.1
  obtain ⟨isSome, field⟩ := (hasHead_iff _).mp head
  have count : 2 + 2 * 0 ≤ piece.length := long
  have read := @hexByte_of_isSome before _ _ count isSome
  rw [Nat.mul_zero, Nat.add_zero] at read
  have bytes : ((kind piece : ℤ) + 1).toNat = kind piece + 1 := by omega
  rw [dataRecord]
  dsimp only
  have behind_count : 2 + 2 * (1 + 0) ≤ piece.length := pair_reach isSome
  rw [read, type, bytes, Int.toNat_natCast, sumBytes_eq _ _ _ count, anyAddress_eq _ _ _ behind_count field]
  have last : Sums piece ↔ HasBytes piece 0 (value piece 0) ∧ (pair piece (value piece 0)).isSome ∧
      (((List.range' 0 (value piece 0)).map (value piece)).sum + value piece (value piece 0)) % 256 = 255 := by
    rw [Sums, hasBytes_add, List.range'_concat, List.map_append, List.sum_append, and_assoc]
    simp only [hasBytes_succ, hasBytes_zero, and_true, Nat.zero_add, Nat.one_mul, List.map_cons, List.map_nil, List.sum_cons,
      List.sum_nil, Nat.add_zero]
  by_cases front : HasBytes piece 0 (value piece 0)
  · rw [if_pos front]
    dsimp only
    have reach := hasBytes_reach count front
    rw [Nat.zero_add] at reach
    have at_ : (2 + (value piece 0 : ℤ) * 2).toNat = 2 + 2 * value piece 0 := by omega
    rw [at_]
    by_cases checksum : (pair piece (value piece 0)).isSome
    · rw [hexByte_of_isSome reach checksum, if_neg (by omega), BitVec.ofInt_natCast, zero_add, ← BitVec.ofNat_add]
      by_cases right : (((List.range' 0 (value piece 0)).map (value piece)).sum + value piece (value piece 0)) % 256 = 255
      · have sums := last.mpr ⟨front, checksum, right⟩
        rw [if_pos sums, if_neg (not_not.mpr (BitVec.eq_of_toNat_eq (by rw [BitVec.toNat_ofNat]; exact right)))]
        have place : (4 + ((kind piece : ℤ) + 1) * 2).toNat = 2 + 2 * (kind piece + 2) := by omega
        have length : ((value piece 0 : ℤ) - (kind piece + 1) - 1).toNat = value piece 0 - (kind piece + 2) := by omega
        have fields := hasBytes_reach count head
        rw [Nat.zero_add] at fields
        rw [place, length]
        refine storeBytes_eq _ _ _ 0 fields ?_
        obtain short | carries := Nat.le_total (value piece 0) (kind piece + 2)
        · rw [Nat.sub_eq_zero_of_le short]
          exact hasBytes_zero _ _
        · have whole := front
          rw [← Nat.add_sub_cancel' carries, hasBytes_add, Nat.zero_add] at whole
          exact whole.2
      · rw [if_neg fun sums => right (last.mp sums).2.2, if_pos fun same => right ?_]
        have sums := congrArg BitVec.toNat same
        rw [BitVec.toNat_ofNat] at sums
        exact sums
    · rw [hexByte_of_none reach checksum, if_pos (by decide), if_neg fun sums => checksum (last.mp sums).2.1]
  · rw [if_neg front, if_neg fun sums => front (last.mp sums).1]

end Line

end KosTool.Binary.Srec
