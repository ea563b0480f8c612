import KosTool.Soundness.SrecLines
import Mathlib.Data.List.TakeWhile

/-! # What an S-record file loads

The records of a file are those of its lines. The loader takes the pieces that `fgets` gets for lines, takes the end of a record in 32
bits, and takes for an entry what a termination line has of it. So its image is the one of the records where no record that it stores
reaches the end of the address space, and where what is cut off long lines says nothing.
-/

namespace KosTool.Binary.Srec

open ByteWord

/-! ### The first pass -/

section Pass1

/-- The range with what a line adds to it. -/
def rangeWith (range : Range) (piece : List Byte) : Range :=
  if IsData piece then range.widen (address piece (kind piece + 1)) (value piece 0 - (kind piece + 1) - 1) else range

/-- A data record that the range has, whatever its checksum. -/
def Spans (piece : List Byte) : Prop := IsData piece ∧ Carries piece

def start (piece : List Byte) : Word := address piece (kind piece + 1)

/-- The end of a record as the loader adds it up. -/
def wrappedEnd (piece : List Byte) : Word := start piece + BitVec.ofNat 32 (payload piece).length

theorem length_payload (piece : List Byte) : (payload piece).length = value piece 0 - (kind piece + 2) := by
  rw [payload, List.length_map, List.length_range']

theorem addressRange_of_heads (line : Buffer) (range : Range) (pieces : List (List Byte))
    (heads : ∀ piece ∈ pieces, IsData piece → HasHead piece) :
    addressRange line range pieces = some (pieces.foldl rangeWith range, pieces.foldl gets line) := by
  induction pieces generalizing line range with
  | nil => rfl
  | cons piece rest ih =>
    obtain ⟨head, others⟩ := List.forall_mem_cons.mp heads
    rw [addressRange, rangeOfLine_eq, List.foldl_cons, List.foldl_cons, rangeWith]
    by_cases data : IsData piece
    · rw [if_pos data, if_pos (head data), if_pos data]
      exact ih _ _ others
    · rw [if_neg data, if_neg data]
      exact ih _ _ others

theorem addressRange_of_headless (line : Buffer) (range : Range) {pieces : List (List Byte)} {piece : List Byte}
    (member : piece ∈ pieces) (data : IsData piece) (headless : ¬HasHead piece) : addressRange line range pieces = none := by
  induction pieces generalizing line range with
  | nil => nomatch member
  | cons first rest ih =>
    rw [addressRange]
    obtain rfl | later := List.mem_cons.mp member
    · rw [rangeOfLine_eq, if_pos data, if_neg headless]
    · cases rangeOfLine range (gets line first) with
      | none => rfl
      | some range => exact ih _ _ later

theorem rangeWith_of_spans (range : Range) {piece : List Byte} (spans : Spans piece) :
    rangeWith range piece = ⟨if start piece < range.addrMin then start piece else range.addrMin,
      if range.addrMax < wrappedEnd piece then wrappedEnd piece else range.addrMax⟩ := by
  have carries : kind piece + 2 ≤ value piece 0 := spans.2
  have length : (value piece 0 : ℤ) - (kind piece + 1) - 1 = ((payload piece).length : ℕ) := by
    rw [length_payload]
    omega
  rw [rangeWith, if_pos spans.1, length, Range.widen, if_neg (by omega), BitVec.ofInt_natCast]
  rfl

theorem rangeWith_of_not_spans (range : Range) {piece : List Byte} (spans : ¬Spans piece) : rangeWith range piece = range := by
  rw [rangeWith]
  by_cases data : IsData piece
  · have short : ¬kind piece + 2 ≤ value piece 0 := fun carries => spans ⟨data, carries⟩
    rw [if_pos data, Range.widen, if_pos (by omega)]
  · rw [if_neg data]

theorem rangeWith_addrMin (range : Range) (piece : List Byte) :
    ((rangeWith range piece).addrMin = range.addrMin ∨ (Spans piece ∧ (rangeWith range piece).addrMin = start piece)) ∧
      (rangeWith range piece).addrMin.toNat ≤ range.addrMin.toNat ∧
      (Spans piece → (rangeWith range piece).addrMin.toNat ≤ (start piece).toNat) := by
  by_cases spans : Spans piece
  · rw [rangeWith_of_spans range spans]
    dsimp only
    split_ifs with lower
    · have below := BitVec.lt_def.mp lower
      exact ⟨.inr ⟨spans, rfl⟩, by omega, fun _ => le_rfl⟩
    · have above := mt BitVec.lt_def.mpr lower
      exact ⟨.inl rfl, le_rfl, fun _ => by omega⟩
  · rw [rangeWith_of_not_spans range spans]
    exact ⟨.inl rfl, le_rfl, fun spans' => absurd spans' spans⟩

theorem rangeWith_addrMax (range : Range) (piece : List Byte) :
    ((rangeWith range piece).addrMax = range.addrMax ∨ (Spans piece ∧ (rangeWith range piece).addrMax = wrappedEnd piece)) ∧
      range.addrMax.toNat ≤ (rangeWith range piece).addrMax.toNat ∧
      (Spans piece → (wrappedEnd piece).toNat ≤ (rangeWith range piece).addrMax.toNat) := by
  by_cases spans : Spans piece
  · rw [rangeWith_of_spans range spans]
    dsimp only
    split_ifs with higher
    · have above := BitVec.lt_def.mp higher
      exact ⟨.inr ⟨spans, rfl⟩, by omega, fun _ => le_rfl⟩
    · have below := mt BitVec.lt_def.mpr higher
      exact ⟨.inl rfl, le_rfl, fun _ => by omega⟩
  · rw [rangeWith_of_not_spans range spans]
    exact ⟨.inl rfl, le_rfl, fun spans' => absurd spans' spans⟩

/-- The range begins at a record that it is widened by, or where it did, and not behind any of them. -/
theorem addrMin_foldl (range : Range) (pieces : List (List Byte)) :
    ((pieces.foldl rangeWith range).addrMin = range.addrMin ∨
        ∃ piece ∈ pieces, Spans piece ∧ (pieces.foldl rangeWith range).addrMin = start piece) ∧
      (pieces.foldl rangeWith range).addrMin.toNat ≤ range.addrMin.toNat ∧
      ∀ piece ∈ pieces, Spans piece → (pieces.foldl rangeWith range).addrMin.toNat ≤ (start piece).toNat := by
  induction pieces generalizing range with
  | nil => exact ⟨.inl rfl, le_rfl, fun piece member => nomatch member⟩
  | cons piece rest ih =>
    rw [List.foldl_cons, List.forall_mem_cons]
    obtain ⟨source, low, lowest⟩ := ih (rangeWith range piece)
    obtain ⟨here, down, reaches⟩ := rangeWith_addrMin range piece
    refine ⟨?_, low.trans down, fun spans => low.trans (reaches spans), lowest⟩
    obtain same | ⟨later, member, spans, same⟩ := source
    · obtain kept | ⟨spans, moved⟩ := here
      · exact .inl (same.trans kept)
      · exact .inr ⟨piece, List.mem_cons_self, spans, same.trans moved⟩
    · exact .inr ⟨later, List.mem_cons_of_mem _ member, spans, same⟩

/-- The range ends at the end of a record as it is added up, or where it did, and not before any of them. -/
theorem addrMax_foldl (range : Range) (pieces : List (List Byte)) :
    ((pieces.foldl rangeWith range).addrMax = range.addrMax ∨
        ∃ piece ∈ pieces, Spans piece ∧ (pieces.foldl rangeWith range).addrMax = wrappedEnd piece) ∧
      range.addrMax.toNat ≤ (pieces.foldl rangeWith range).addrMax.toNat ∧
      ∀ piece ∈ pieces, Spans piece → (wrappedEnd piece).toNat ≤ (pieces.foldl rangeWith range).addrMax.toNat := by
  induction pieces generalizing range with
  | nil => exact ⟨.inl rfl, le_rfl, fun piece member => nomatch member⟩
  | cons piece rest ih =>
    rw [List.foldl_cons, List.forall_mem_cons]
    obtain ⟨source, high, highest⟩ := ih (rangeWith range piece)
    obtain ⟨here, up, reaches⟩ := rangeWith_addrMax range piece
    refine ⟨?_, up.trans high, fun spans => (reaches spans).trans high, highest⟩
    obtain same | ⟨later, member, spans, same⟩ := source
    · obtain kept | ⟨spans, moved⟩ := here
      · exact .inl (same.trans kept)
      · exact .inr ⟨piece, List.mem_cons_self, spans, same.trans moved⟩
    · exact .inr ⟨later, List.mem_cons_of_mem _ member, spans, same⟩

/-- The range of a file. -/
def rangeOf (pieces : List (List Byte)) : Range := pieces.foldl rangeWith ⟨0xFFFFFFFF, 0⟩

/-- Some record begins where another, as it is added up, has not ended. -/
def Ranged (pieces : List (List Byte)) : Prop :=
  ∃ low ∈ pieces, ∃ high ∈ pieces, Spans low ∧ Spans high ∧ start low ≤ wrappedEnd high

theorem rangeOf_ranged (pieces : List (List Byte)) :
    ¬(rangeOf pieces).addrMax < (rangeOf pieces).addrMin ↔ Ranged pieces := by
  obtain ⟨low, -, lowest⟩ := addrMin_foldl ⟨0xFFFFFFFF, 0⟩ pieces
  obtain ⟨high, -, highest⟩ := addrMax_foldl ⟨0xFFFFFFFF, 0⟩ pieces
  rw [← rangeOf] at low lowest high highest
  rw [BitVec.lt_def]
  constructor
  · intro ordered
    have top : (0xFFFFFFFF : Word).toNat = 2 ^ 32 - 1 := rfl
    have bottom : (0 : Word).toNat = 0 := rfl
    -- without a record the range is upside down
    obtain ⟨piece, member, spans⟩ : ∃ piece ∈ pieces, Spans piece := by
      obtain first | ⟨piece, member, spans, -⟩ := low
      · obtain last | ⟨piece, member, spans, -⟩ := high
        · rw [first, last] at ordered
          exact absurd (by decide) ordered
        · exact ⟨piece, member, spans⟩
      · exact ⟨piece, member, spans⟩
    obtain ⟨first, firstMember, firstSpans, firstLow⟩ :
        ∃ first ∈ pieces, Spans first ∧ (start first).toNat ≤ (rangeOf pieces).addrMin.toNat := by
      obtain same | ⟨first, member', spans', same⟩ := low
      · refine ⟨piece, member, spans, ?_⟩
        have below := (start piece).isLt
        rw [same]
        dsimp only
        omega
      · exact ⟨first, member', spans', by rw [same]⟩
    obtain ⟨last, lastMember, lastSpans, lastHigh⟩ :
        ∃ last ∈ pieces, Spans last ∧ (rangeOf pieces).addrMax.toNat ≤ (wrappedEnd last).toNat := by
      obtain same | ⟨last, member', spans', same⟩ := high
      · refine ⟨piece, member, spans, ?_⟩
        rw [same]
        exact Nat.zero_le _
      · exact ⟨last, member', spans', by rw [same]⟩
    exact ⟨first, firstMember, last, lastMember, firstSpans, lastSpans, BitVec.le_def.mpr (by omega)⟩
  · rintro ⟨first, firstMember, last, lastMember, firstSpans, lastSpans, ordered⟩ upside
    have before := BitVec.le_def.mp ordered
    have above := lowest first firstMember firstSpans
    have below := highest last lastMember lastSpans
    omega

end Pass1

/-! ### The second pass -/

section Pass2

/-- The loader goes on behind a piece: it is no data record, or one with a valid checksum. -/
def Passes (piece : List Byte) : Prop := IsData piece → Sums piece

instance (piece : List Byte) : Decidable (Passes piece) := inferInstanceAs (Decidable (_ → _))

/-- The pieces that the second pass gets through. -/
def reached (pieces : List (List Byte)) : List (List Byte) := pieces.takeWhile fun piece => Passes piece

/-- The stores of a record. -/
def recordStores (low : Word) (made : Word × List Byte) : List (Word × Byte) := storesOf (made.1 - low) 0 made.2

/-- What is read at the last piece that is taken for a termination line. -/
def lastRead : Buffer → Option Word → List (List Byte) → Option Word
  | _, entry, [] => entry
  | line, entry, piece :: rest =>
    lastRead (gets line piece)
      (if IsTermination piece then some (entryAddress (gets line piece) (11 - kind piece) 0 0) else entry) rest

/-- A piece in the second pass. -/
theorem fill_cons (low : Word) (line : Buffer) (entry : Option Word) (piece : List Byte) (rest : List (List Byte))
    (head : IsData piece → HasHead piece) : fill low line entry (piece :: rest) =
      if Passes piece then
        let others := fill low (gets line piece)
          (if IsTermination piece then some (entryAddress (gets line piece) (11 - kind piece) 0 0) else entry) rest
        ((record piece).toList.flatMap (recordStores low) ++ others.1, others.2)
      else ([], none) := by
  rw [fill]
  dsimp only
  by_cases data : IsData piece
  · obtain ⟨starts, type, -⟩ := @recordType_eq line _ data.1
    have low_ := data.1
    have high := data.2
    have other : ¬IsTermination piece := fun ends => by
      have seven := ends.1
      omega
    rw [if_neg (not_not.mpr starts), if_pos (by omega), dataRecord_eq low data (head data), if_neg other]
    by_cases sums : Sums piece
    · have passes : Passes piece := fun _ => sums
      rw [if_pos sums, if_pos passes, if_pos rfl, record]
      by_cases carries : Carries piece
      · rw [if_pos ⟨data, sums, carries⟩, Option.toList_some, List.flatMap_singleton]
        rfl
      · have short : value piece 0 ≤ kind piece + 2 := le_of_lt (not_le.mp carries)
        have empty : payload piece = [] := List.eq_nil_of_length_eq_zero (by rw [length_payload]; omega)
        rw [if_neg (fun all => carries all.2.2), empty]
        rfl
    · have stops : ¬Passes piece := fun passes => sums (passes data)
      rw [if_neg sums, if_neg stops]
      rfl
  · have passes : Passes piece := fun data' => absurd data' data
    have none_made : record piece = none := by
      rw [record, if_neg fun all => data all.1]
    rw [if_pos passes, none_made]
    by_cases ends : IsTermination piece
    · obtain ⟨starts, type, -⟩ := @recordType_eq line piece (by have seven := ends.1; omega)
      have low_ := ends.1
      have high := ends.2
      have digits : (11 - (kind piece : ℤ)).toNat = 11 - kind piece := by omega
      rw [if_neg (not_not.mpr starts), if_neg (by omega), if_pos (by omega), if_pos ends, type, digits]
      rfl
    · rw [if_neg ends]
      by_cases other : gets line piece 0 ≠ letterS
      · rw [if_pos other]
        rfl
      · have starts := not_not.mp other
        have kindOf : 1 ≤ recordType (gets line piece) → recordType (gets line piece) = kind piece := fun positive =>
          (recordType_eq (kind_eq starts positive)).2.1
        have notData : ¬(1 ≤ recordType (gets line piece) ∧ recordType (gets line piece) ≤ 3) := fun isData => by
          have type := kindOf isData.1
          exact data ⟨by omega, by omega⟩
        have notEnd : ¬(7 ≤ recordType (gets line piece) ∧ recordType (gets line piece) ≤ 9) := fun isEnd => by
          have type := kindOf (by omega)
          exact ends ⟨by omega, by omega⟩
        rw [if_neg other, if_neg notData, if_neg notEnd]
        rfl

/-- The second pass stores the records up to the first with a wrong checksum, and comes to its end if there is none. -/
theorem fill_eq (low : Word) (line : Buffer) (entry : Option Word) (pieces : List (List Byte))
    (heads : ∀ piece ∈ pieces, IsData piece → HasHead piece) : fill low line entry pieces =
      (((reached pieces).filterMap record).flatMap (recordStores low),
        if pieces.all (fun piece => Passes piece) then some (lastRead line entry pieces) else none) := by
  induction pieces generalizing line entry with
  | nil => rfl
  | cons piece rest ih =>
    obtain ⟨head, others⟩ := List.forall_mem_cons.mp heads
    rw [fill_cons low line entry piece rest head, reached, List.all_cons]
    by_cases passes : Passes piece
    · have goes : (piece :: rest).takeWhile (fun piece => Passes piece) = piece :: reached rest :=
        List.takeWhile_cons_of_pos (decide_eq_true passes)
      rw [if_pos passes, goes, decide_eq_true passes, Bool.true_and, lastRead]
      dsimp only
      rw [ih _ _ others]
      cases made : record piece with
      | none => rw [List.filterMap_cons_none made]; rfl
      | some record_ => rw [List.filterMap_cons_some made, Option.toList_some, List.flatMap_singleton, List.flatMap_cons]
    · rw [if_neg passes, List.takeWhile_cons_of_neg (by rw [decide_eq_false passes]; decide), decide_eq_false passes]
      rfl

end Pass2

/-! ### The image -/

section Image

/-- The byte that some records say for an address; a later record is right. -/
def byteAt : List (Word × List Byte) → ℕ → Option Byte
  | [], _ => none
  | made :: rest, a => (byteAt rest a).or (if made.1.toNat ≤ a then made.2[a - made.1.toNat]? else none)

theorem byteAt_none {records : List (Word × List Byte)} {a : ℕ}
    (outside : ∀ made ∈ records, made.1.toNat ≤ a → made.1.toNat + made.2.length ≤ a) : byteAt records a = none := by
  induction records with
  | nil => rfl
  | cons made rest ih =>
    obtain ⟨here, others⟩ := List.forall_mem_cons.mp outside
    rw [byteAt, ih others, Option.none_or]
    split_ifs with above
    · have past := here above
      exact List.getElem?_eq_none (by omega)
    · rfl

/-- The address is the lowest of the records. -/
def IsLowest (records : List (Word × List Byte)) (low : Word) : Prop :=
  (∃ made ∈ records, made.1 = low) ∧ ∀ made ∈ records, low.toNat ≤ made.1.toNat

theorem storesOf_mem {place : Word} {i : ℕ} {bytes : List Byte} {store : Word × Byte} (member : store ∈ storesOf place i bytes) :
    ∃ j < bytes.length, store.1 = place + BitVec.ofNat 32 (i + j) := by
  induction bytes generalizing i with
  | nil => nomatch member
  | cons b rest ih =>
    rw [storesOf] at member
    obtain rfl | later := List.mem_cons.mp member
    · exact ⟨0, Nat.zero_lt_succ _, rfl⟩
    · obtain ⟨j, below, same⟩ := ih later
      exact ⟨j + 1, Nat.succ_lt_succ below, by rw [same]; congr 2; omega⟩

theorem mem_storesOf (place : Word) (i : ℕ) {bytes : List Byte} {j : ℕ} (below : j < bytes.length) :
    ∃ store ∈ storesOf place i bytes, store.1 = place + BitVec.ofNat 32 (i + j) := by
  induction bytes generalizing i j with
  | nil => nomatch below
  | cons b rest ih =>
    rw [storesOf]
    cases j with
    | zero => exact ⟨_, List.mem_cons_self, rfl⟩
    | succ j =>
      obtain ⟨store, member, same⟩ := ih (i + 1) (Nat.lt_of_succ_lt_succ below)
      exact ⟨store, List.mem_cons_of_mem _ member, by rw [same]; congr 2; omega⟩

/-- One store into an image. -/
def put (image : Buffer) (store : Word × Byte) : Buffer := Function.update image store.1.toNat store.2

/-- The stores of bytes in a row put them there. -/
theorem foldl_storesOf (place : Word) (i : ℕ) (bytes : List Byte) (image : Buffer)
    (fits : place.toNat + i + bytes.length ≤ 2 ^ 32) (k : ℕ) : (storesOf place i bytes).foldl put image k =
      ((if place.toNat + i ≤ k then bytes[k - (place.toNat + i)]? else none).getD (image k)) := by
  induction bytes generalizing i image with
  | nil =>
    rw [storesOf, List.foldl_nil, List.getElem?_nil, ite_self, Option.getD_none]
  | cons b rest ih =>
    rw [List.length_cons] at fits
    have offset : (place + BitVec.ofNat 32 i).toNat = place.toNat + i := by
      rw [BitVec.toNat_add, BitVec.toNat_ofNat]
      omega
    rw [storesOf, List.foldl_cons, ih (i + 1) _ (by omega), put, offset]
    obtain below | rfl | above := Nat.lt_trichotomy k (place.toNat + i)
    · rw [if_neg (by omega), if_neg (by omega), Option.getD_none, Option.getD_none, Function.update_of_ne (by omega)]
    · rw [if_neg (by omega), if_pos le_rfl, Option.getD_none, Nat.sub_self, List.getElem?_cons_zero, Option.getD_some,
        Function.update_self]
    · have next : k - (place.toNat + i) = k - (place.toNat + (i + 1)) + 1 := by omega
      rw [if_pos (by omega), if_pos (by omega), next, List.getElem?_cons_succ, Function.update_of_ne (by omega)]

/-- Behind the stores of records that do not reach the end of the address space the image is theirs. -/
theorem foldl_records (low : Word) (records : List (Word × List Byte)) (image : Buffer)
    (above : ∀ made ∈ records, low.toNat ≤ made.1.toNat) (fits : ∀ made ∈ records, made.1.toNat + made.2.length < 2 ^ 32) (k : ℕ) :
    (records.flatMap (recordStores low)).foldl put image k = (byteAt records (low.toNat + k)).getD (image k) := by
  induction records generalizing image with
  | nil => rfl
  | cons made rest ih =>
    obtain ⟨here, others⟩ := List.forall_mem_cons.mp above
    obtain ⟨small, smaller⟩ := List.forall_mem_cons.mp fits
    have place : (made.1 - low).toNat = made.1.toNat - low.toNat := by
      rw [BitVec.toNat_sub]
      have bound := made.1.isLt
      omega
    rw [List.flatMap_cons, List.foldl_append, ih _ others smaller, recordStores,
      foldl_storesOf _ _ _ _ (by rw [place]; omega), place, byteAt]
    have same : (if made.1.toNat - low.toNat + 0 ≤ k then made.2[k - (made.1.toNat - low.toNat + 0)]? else none) =
        if made.1.toNat ≤ low.toNat + k then made.2[low.toNat + k - made.1.toNat]? else none := by
      by_cases inside : made.1.toNat ≤ low.toNat + k
      · have offset : k - (made.1.toNat - low.toNat + 0) = low.toNat + k - made.1.toNat := by omega
        rw [if_pos inside, if_pos (by omega), offset]
      · rw [if_neg inside, if_neg (by omega)]
    rw [same]
    cases byteAt rest (low.toNat + k) <;> rfl

end Image

/-! ### Lines and their pieces -/

section Fronts

theorem pair_take (line : List Byte) {i : ℕ} (small : i ≤ 255) : pair (line.take lineRoom) i = pair line i := by
  have room : lineRoom = 1023 := rfl
  rw [pair, pair, List.getElem?_take_of_lt (by omega), List.getElem?_take_of_lt (by omega)]

theorem value_take (line : List Byte) {i : ℕ} (small : i ≤ 255) : value (line.take lineRoom) i = value line i := by
  rw [value, value, pair_take line small]

theorem kind_take (line : List Byte) : kind (line.take lineRoom) = kind line := by
  match line with
  | [] => rfl
  | [_] => rfl
  | _ :: _ :: _ => rfl

theorem kind_le (line : List Byte) : kind line ≤ 207 := by
  match line with
  | [] => exact Nat.zero_le _
  | [_] => exact Nat.zero_le _
  | first :: digit :: rest =>
    have below := digit.isLt
    rw [kind]
    split_ifs
    · omega
    · exact Nat.zero_le _

theorem hasBytes_take (line : List Byte) {first n : ℕ} (small : first + n ≤ 256) :
    HasBytes (line.take lineRoom) first n ↔ HasBytes line first n := by
  induction n generalizing first with
  | zero => exact iff_of_true (hasBytes_zero _ _) (hasBytes_zero _ _)
  | succ n ih => rw [hasBytes_succ, hasBytes_succ, pair_take line (by omega), ih (by omega)]

theorem map_value_take {β : Type*} (line : List Byte) (f : ℕ → β) {first n : ℕ} (small : first + n ≤ 256) :
    (List.range' first n).map (fun i => f (value (line.take lineRoom) i)) = (List.range' first n).map fun i => f (value line i) := by
  refine List.map_congr_left fun i member => ?_
  have below := (List.mem_range'_1.mp member).2
  rw [value_take line (by omega)]

theorem foldl_behind_take (line : List Byte) (addr : Word) {first n : ℕ} (small : first + n ≤ 256) :
    (List.range' first n).foldl (behind (line.take lineRoom)) addr = (List.range' first n).foldl (behind line) addr := by
  induction n generalizing first addr with
  | zero => rfl
  | succ n ih =>
    rw [List.range'_succ, List.foldl_cons, List.foldl_cons, behind, value_take line (by omega), ih _ (by omega)]
    rfl

/-- A record is in the front of its line. -/
theorem record_take (line : List Byte) : record (line.take lineRoom) = record line := by
  have count := value_lt line 0
  have kinds := kind_le line
  have data : IsData (line.take lineRoom) ↔ IsData line := by rw [IsData, IsData, kind_take]
  have carries : Carries (line.take lineRoom) ↔ Carries line := by
    rw [Carries, Carries, kind_take, value_take line (Nat.zero_le _)]
  have sums : Sums (line.take lineRoom) ↔ Sums line := by
    rw [Sums, Sums, value_take line (Nat.zero_le _), hasBytes_take line (by omega)]
    have total := map_value_take line id (by omega : 0 + (value line 0 + 1) ≤ 256)
    simp only [id_eq] at total
    rw [total]
  have address_take : address (line.take lineRoom) (kind line + 1) = address line (kind line + 1) :=
    foldl_behind_take line 0 (by omega)
  rw [record, record, kind_take, address_take, payload, payload, kind_take, value_take line (Nat.zero_le _)]
  simp only [data, carries, sums]
  by_cases all : IsData line ∧ Sums line ∧ Carries line
  · have long : kind line + 2 ≤ value line 0 := all.2.2
    rw [if_pos all, if_pos all, map_value_take line (BitVec.ofNat 8) (by omega)]
  · rw [if_neg all, if_neg all]

end Fronts

/-! ### The load -/

section Whole

/-- The data records of some lines that have a valid checksum. -/
def records (lines : List (List Byte)) : List (Word × List Byte) := lines.filterMap record

/-- The section is the image of the records of some lines: it begins at the lowest address, has room for every record, and holds their
bytes and zeros; its entry is the address of the last termination record, if there is one. -/
structure Describes (lines : List (List Byte)) (made : Section) : Prop where
  lowest : IsLowest (records lines) made.loadAddr
  inside : ∀ line ∈ records lines, line.1.toNat + line.2.length ≤ made.loadAddr.toNat + made.size.toNat
  bytes : ∀ k < made.size.toNat, made.data k = (byteAt (records lines) (made.loadAddr.toNat + k)).getD 0
  entry : made.entry.map some = (lines.filterMap termination).getLast?

/-- A load stores within its memory, and fails or gives the image of the records of the file's lines. -/
def LoadsRecords (load : Load) (lines : List (List Byte)) : Prop :=
  (∀ store ∈ load.stores, store.1.toNat < load.totalSize.toNat) ∧ ∀ made, load.result = some made → Describes lines made

/-- Some pieces give the lowest address and the bytes of some lines. -/
def SameRecords (pieces lines : List (List Byte)) : Prop :=
  (∀ low, IsLowest (records pieces) low → IsLowest (records lines) low) ∧
    ∀ a, (byteAt (records pieces) a).getD 0 = (byteAt (records lines) a).getD 0

/-- Nothing is stored for the file: a data line has no whole address, no record begins before the end of another as it is added up, or
there is no memory. -/
def NoImage (allocates : Bool) (pieces : List (List Byte)) : Prop :=
  (∃ piece ∈ pieces, IsData piece ∧ ¬HasHead piece) ∨ ¬Ranged pieces ∨ allocates = false

variable {allocates : Bool} {stack : Buffer} {text : List Byte} {pieces : List (List Byte)}

theorem srecLoad_noImage (cut : LineReading.pieces newline lineRoom lineRoom text = pieces) (refused : NoImage allocates pieces) :
    srecLoad allocates stack text = ⟨0, [], none⟩ := by
  rw [srecLoad, cut]
  by_cases heads : ∀ piece ∈ pieces, IsData piece → HasHead piece
  · rw [addressRange_of_heads _ _ _ heads]
    dsimp only
    rw [← rangeOf]
    obtain ⟨piece, member, data, headless⟩ | unranged | without := refused
    · exact absurd (heads piece member data) headless
    · rw [if_pos (by_contra fun ordered => unranged ((rangeOf_ranged pieces).mp ordered))]
    · rw [without, if_pos Bool.false_ne_true, ite_self]
  · obtain ⟨piece, rest⟩ := not_forall.mp heads
    obtain ⟨member, rest⟩ := not_forall.mp rest
    obtain ⟨data, headless⟩ := not_forall.mp rest
    rw [addressRange_of_headless _ _ member data headless]

theorem srecLoad_image (cut : LineReading.pieces newline lineRoom lineRoom text = pieces) (taken : ¬NoImage allocates pieces) :
    srecLoad allocates stack text =
      ⟨(rangeOf pieces).addrMax - (rangeOf pieces).addrMin, (records (reached pieces)).flatMap (recordStores (rangeOf pieces).addrMin),
        if pieces.all (fun piece => Passes piece) then
          some ⟨(rangeOf pieces).addrMin, (rangeOf pieces).addrMax - (rangeOf pieces).addrMin,
            ((records (reached pieces)).flatMap (recordStores (rangeOf pieces).addrMin)).foldl put fun _ => 0,
            lastRead (pieces.foldl gets stack) none pieces⟩
        else none⟩ := by
  obtain ⟨headed, rest⟩ := not_or.mp taken
  obtain ⟨ranged, memory⟩ := not_or.mp rest
  have heads : ∀ piece ∈ pieces, IsData piece → HasHead piece := fun piece member data =>
    by_contra fun headless => headed ⟨piece, member, data, headless⟩
  rw [srecLoad, cut, addressRange_of_heads _ _ _ heads]
  dsimp only
  rw [← rangeOf, if_neg ((rangeOf_ranged pieces).mpr (not_not.mp ranged)),
    if_neg (not_not.mpr (Bool.eq_true_of_not_eq_false memory)), fill_eq _ _ _ _ heads]
  by_cases all : pieces.all (fun piece => Passes piece) = true
  · rw [if_pos all, if_pos all]
    rfl
  · rw [if_neg all, if_neg all]
    rfl

theorem record_eq_some {piece : List Byte} {made : Word × List Byte} (is : record piece = some made) :
    Spans piece ∧ made = (start piece, payload piece) := by
  rw [record] at is
  split_ifs at is with all
  exact ⟨⟨all.1, all.2.2⟩, (Option.some.inj is).symm⟩

theorem records_above {made : Word × List Byte} (member : made ∈ records pieces) :
    (rangeOf pieces).addrMin.toNat ≤ made.1.toNat := by
  obtain ⟨piece, among, is⟩ := List.mem_filterMap.mp member
  obtain ⟨spans, rfl⟩ := record_eq_some is
  exact (addrMin_foldl ⟨0xFFFFFFFF, 0⟩ pieces).2.2 piece among spans

theorem reached_subset : records (reached pieces) ⊆ records pieces := fun made member => by
  obtain ⟨piece, among, is⟩ := List.mem_filterMap.mp member
  exact List.mem_filterMap.mpr ⟨piece, List.takeWhile_subset _ among, is⟩

/-- A record ends within the memory, or reaches the end of the address space. -/
theorem records_below {made : Word × List Byte} (member : made ∈ records pieces) (fits : made.1.toNat + made.2.length < 2 ^ 32) :
    made.1.toNat + made.2.length ≤ (rangeOf pieces).addrMax.toNat := by
  obtain ⟨piece, among, is⟩ := List.mem_filterMap.mp member
  obtain ⟨spans, rfl⟩ := record_eq_some is
  have below := (addrMax_foldl ⟨0xFFFFFFFF, 0⟩ pieces).2.2 piece among spans
  have sum : (wrappedEnd piece).toNat = (start piece).toNat + (payload piece).length := by
    rw [wrappedEnd, BitVec.toNat_add, BitVec.toNat_ofNat]
    dsimp only at fits
    omega
  rw [sum] at below
  exact below

theorem totalSize_toNat (ranged : Ranged pieces) : ((rangeOf pieces).addrMax - (rangeOf pieces).addrMin).toNat =
    (rangeOf pieces).addrMax.toNat - (rangeOf pieces).addrMin.toNat ∧
    (rangeOf pieces).addrMin.toNat ≤ (rangeOf pieces).addrMax.toNat := by
  have ordered := mt BitVec.lt_def.mpr ((rangeOf_ranged pieces).mpr ranged)
  have high := (rangeOf pieces).addrMax.isLt
  rw [BitVec.toNat_sub]
  omega

/-- The stores of the second pass are within the memory exactly if no record that it gets to reaches the end of the address space. -/
theorem stores_inside_iff (ranged : Ranged pieces) :
    (∀ store ∈ (records (reached pieces)).flatMap (recordStores (rangeOf pieces).addrMin),
        store.1.toNat < ((rangeOf pieces).addrMax - (rangeOf pieces).addrMin).toNat) ↔
      ∀ made ∈ records (reached pieces), made.1.toNat + made.2.length < 2 ^ 32 := by
  obtain ⟨size, ordered⟩ := totalSize_toNat ranged
  rw [size]
  have high := (rangeOf pieces).addrMax.isLt
  constructor
  · intro inside made member
    by_contra reaches
    have above := records_above (reached_subset member)
    have bound := made.1.isLt
    -- the byte at the last address of all is behind the memory
    obtain ⟨store, among, place⟩ := mem_storesOf (made.1 - (rangeOf pieces).addrMin) 0
      (by omega : 2 ^ 32 - 1 - made.1.toNat < made.2.length)
    have below := inside store (List.mem_flatMap.mpr ⟨made, member, among⟩)
    rw [place, BitVec.toNat_add, BitVec.toNat_sub, BitVec.toNat_ofNat] at below
    omega
  · intro fits store among
    obtain ⟨made, member, among⟩ := List.mem_flatMap.mp among
    have above := records_above (reached_subset member)
    have small := fits made member
    have below := records_below (reached_subset member) small
    obtain ⟨j, inside, place⟩ := storesOf_mem among
    rw [place, BitVec.toNat_add, BitVec.toNat_sub, BitVec.toNat_ofNat]
    omega

theorem isLowest_addrMin (ranged : Ranged pieces) (all : ∀ piece ∈ pieces, Passes piece) :
    IsLowest (records pieces) (rangeOf pieces).addrMin := by
  refine ⟨?_, fun made member => records_above member⟩
  have isRecord : ∀ piece ∈ pieces, Spans piece → (start piece, payload piece) ∈ records pieces := fun piece member spans =>
    List.mem_filterMap.mpr ⟨piece, member, by rw [record, if_pos ⟨spans.1, all piece member spans.1, spans.2⟩]; rfl⟩
  obtain first | ⟨piece, member, spans, first⟩ := (addrMin_foldl ⟨0xFFFFFFFF, 0⟩ pieces).1
  · obtain ⟨piece, member, -, -, spans, -, -⟩ := ranged
    refine ⟨_, isRecord piece member spans, BitVec.eq_of_toNat_eq ?_⟩
    have above := (addrMin_foldl ⟨0xFFFFFFFF, 0⟩ pieces).2.2 piece member spans
    have below := (start piece).isLt
    have top : (0xFFFFFFFF : Word).toNat = 2 ^ 32 - 1 := rfl
    rw [first] at above
    rw [rangeOf, first]
    dsimp only at above ⊢
    omega
  · exact ⟨_, isRecord piece member spans, first.symm⟩

theorem isLowest_unique {list : List (Word × List Byte)} {low other : Word} (is : IsLowest list low) (also : IsLowest list other) :
    low = other := by
  obtain ⟨made, member, rfl⟩ := is.1
  obtain ⟨made', member', rfl⟩ := also.1
  exact BitVec.eq_of_toNat_eq (le_antisymm (is.2 made' member') (also.2 made member))

/-- A load that comes to its end gives the image of the file's records exactly if the pieces say what the lines say, and the last
entry that is read is that of the last termination line. -/
theorem describes_iff (cut : LineReading.pieces newline lineRoom lineRoom text = pieces) (ranged : Ranged pieces)
    (all : ∀ piece ∈ pieces, Passes piece) (fits : ∀ made ∈ records pieces, made.1.toNat + made.2.length < 2 ^ 32) :
    Describes (LineReading.lines newline text) ⟨(rangeOf pieces).addrMin, (rangeOf pieces).addrMax - (rangeOf pieces).addrMin,
        ((records pieces).flatMap (recordStores (rangeOf pieces).addrMin)).foldl put fun _ => 0,
        lastRead (pieces.foldl gets stack) none pieces⟩ ↔
      SameRecords pieces (LineReading.lines newline text) ∧ (lastRead (pieces.foldl gets stack) none pieces).map some =
        ((LineReading.lines newline text).filterMap termination).getLast? := by
  obtain ⟨size, ordered⟩ := totalSize_toNat ranged
  have image := foldl_records (rangeOf pieces).addrMin (records pieces) (fun _ => 0) (fun made member => records_above member) fits
  have lowest := isLowest_addrMin ranged all
  have among : (records (LineReading.lines newline text)).Sublist (records pieces) := by
    rw [← cut]
    exact LineReading.filterMap_sublist (by decide) text record_take
  have bounded : ∀ made ∈ records pieces, made.1.toNat + made.2.length ≤ (rangeOf pieces).addrMax.toNat := fun made member =>
    records_below member (fits made member)
  constructor
  · rintro ⟨low, inside, bytes, entry⟩
    dsimp only at low inside bytes entry
    refine ⟨⟨fun other is => ?_, fun a => ?_⟩, entry⟩
    · rw [← isLowest_unique lowest is]
      exact low
    · by_cases within : (rangeOf pieces).addrMin.toNat ≤ a ∧ a < (rangeOf pieces).addrMax.toNat
      · have here := bytes (a - (rangeOf pieces).addrMin.toNat) (by omega)
        rw [image, Nat.add_sub_cancel' within.1] at here
        exact here
      · have outside : ∀ made ∈ records pieces, made.1.toNat ≤ a → made.1.toNat + made.2.length ≤ a := fun made member reaches => by
          have first := records_above member
          have last := bounded made member
          omega
        rw [byteAt_none outside, byteAt_none fun made member => outside made (among.subset member)]
  · rintro ⟨⟨low, same⟩, entry⟩
    refine ⟨low _ lowest, fun made member => ?_, fun k below => ?_, entry⟩
    · have last := bounded made (among.subset member)
      dsimp only
      omega
    · dsimp only
      rw [image, same]

/-- What a load does with the pieces that it gets. -/
theorem loadsRecords_iff (cut : LineReading.pieces newline lineRoom lineRoom text = pieces) :
    LoadsRecords (srecLoad allocates stack text) (LineReading.lines newline text) ↔
      NoImage allocates pieces ∨
      ((∀ made ∈ records (reached pieces), made.1.toNat + made.2.length < 2 ^ 32) ∧
        ((∀ piece ∈ pieces, Passes piece) → SameRecords pieces (LineReading.lines newline text) ∧
          (lastRead (pieces.foldl gets stack) none pieces).map some =
            ((LineReading.lines newline text).filterMap termination).getLast?)) := by
  by_cases refused : NoImage allocates pieces
  · rw [srecLoad_noImage cut refused]
    exact iff_of_true ⟨fun store member => (nomatch member), fun made result => (nomatch result)⟩ (.inl refused)
  have ranged : Ranged pieces := not_not.mp (not_or.mp (not_or.mp refused).2).1
  rw [or_iff_right refused, srecLoad_image cut refused, LoadsRecords, stores_inside_iff ranged]
  refine and_congr_right fun fits => ?_
  by_cases all : ∀ piece ∈ pieces, Passes piece
  · have passed : pieces.all (fun piece => Passes piece) = true :=
      List.all_eq_true.mpr fun piece member => decide_eq_true (all piece member)
    have whole : reached pieces = pieces := List.takeWhile_eq_self_iff.mpr fun piece member => decide_eq_true (all piece member)
    rw [whole] at fits ⊢
    dsimp only
    rw [if_pos passed, forall_prop_of_true all, ← describes_iff cut ranged all fits]
    exact ⟨fun made => made _ rfl, fun describes made result => by cases result; exact describes⟩
  · have failed : ¬pieces.all (fun piece => Passes piece) = true := fun passed =>
      all fun piece member => of_decide_eq_true (List.all_eq_true.mp passed piece member)
    dsimp only
    rw [if_neg failed]
    exact iff_of_true (fun made result => (nomatch result)) fun all' => absurd all' all

/-- What is read at a last termination line with a whole address is its address. -/
theorem lastRead_eq (line : Buffer) (entry : Option Word) (lines : List (List Byte)) :
    match (lines.filterMap termination).getLast? with
    | none => lastRead line entry lines = entry
    | some none => (lastRead line entry lines).isSome
    | some (some addr) => lastRead line entry lines = some addr := by
  induction lines generalizing line entry with
  | nil => rfl
  | cons piece rest ih =>
    have later := ih (gets line piece)
      (if IsTermination piece then some (entryAddress (gets line piece) (11 - kind piece) 0 0) else entry)
    by_cases ends : IsTermination piece
    · have is : termination piece =
          some (if HasBytes piece 1 (11 - kind piece) then some (address piece (11 - kind piece)) else none) := by
        rw [termination, if_pos ends]
      rw [if_pos ends] at later
      rw [List.filterMap_cons_some is, List.getLast?_cons, lastRead, if_pos ends]
      cases last : (rest.filterMap termination).getLast? with
      | some found =>
        rw [last] at later
        cases found with
        | none => exact later
        | some addr => exact later
      | none =>
        rw [last] at later
        dsimp only at later
        rw [Option.getD_none, later]
        by_cases has : HasBytes piece 1 (11 - kind piece)
        · have some_ : (pair piece 1).isSome := by
            obtain ⟨k, digits⟩ : ∃ k, 11 - kind piece = k + 1 := ⟨10 - kind piece, by have high := ends.2; omega⟩
            rw [digits] at has
            exact ((hasBytes_succ _ _ _).mp has).1
          have reach := pair_reach some_
          rw [if_pos has, entryAddress_eq _ 0 0 (by omega) has]
          rfl
        · rw [if_neg has]
          rfl
    · have is : termination piece = none := by rw [termination, if_neg ends]
      rw [if_neg ends] at later
      rw [List.filterMap_cons_none is, lastRead, if_neg ends]
      exact later

/-- Of a file whose lines all fit, only the end of the address space and a termination line without a whole address are a matter. -/
theorem loadsRecords_of_short (short : ∀ line ∈ LineReading.lines newline text, line.length ≤ lineRoom) :
    LoadsRecords (srecLoad allocates stack text) (LineReading.lines newline text) ↔
      NoImage allocates (LineReading.lines newline text) ∨
      ((∀ made ∈ records (reached (LineReading.lines newline text)), made.1.toNat + made.2.length < 2 ^ 32) ∧
        ((∀ line ∈ LineReading.lines newline text, Passes line) →
          ((LineReading.lines newline text).filterMap termination).getLast? ≠ some none)) := by
  have cut : LineReading.pieces newline lineRoom lineRoom text = LineReading.lines newline text :=
    LineReading.pieces_eq_lines lineRoom text (fun line member => short line (List.mem_of_mem_head? member)) fun line member =>
      short line (List.mem_of_mem_tail member)
  rw [loadsRecords_iff cut]
  have same : SameRecords (LineReading.lines newline text) (LineReading.lines newline text) := ⟨fun low => id, fun a => rfl⟩
  have read := lastRead_eq ((LineReading.lines newline text).foldl gets stack) none (LineReading.lines newline text)
  have entry : (lastRead ((LineReading.lines newline text).foldl gets stack) none (LineReading.lines newline text)).map some =
      ((LineReading.lines newline text).filterMap termination).getLast? ↔
      ((LineReading.lines newline text).filterMap termination).getLast? ≠ some none := by
    cases last : ((LineReading.lines newline text).filterMap termination).getLast? with
    | none =>
      rw [last] at read
      rw [read]
      exact iff_of_true rfl fun absent => nomatch absent
    | some found =>
      rw [last] at read
      cases found with
      | none =>
        obtain ⟨addr, is⟩ := Option.isSome_iff_exists.mp read
        rw [is]
        exact iff_of_false (fun same => nomatch same) fun truncated => truncated rfl
      | some addr =>
        rw [read]
        exact iff_of_true rfl fun absent => nomatch absent
  rw [and_iff_right same, entry]

/-- A file is loaded as its records say exactly if nothing is stored for it, or no record that the second pass gets to reaches the end
of the address space and, where every checksum is right, the pieces say what the lines say and the last entry that is read is that of
the last termination line. -/
theorem srec_loads_iff (allocates : Bool) (stack : Buffer) (text : List Byte) :
    LoadsRecords (srecLoad allocates stack text) (LineReading.lines newline text) ↔
      NoImage allocates (LineReading.pieces newline lineRoom lineRoom text) ∨
      ((∀ made ∈ records (reached (LineReading.pieces newline lineRoom lineRoom text)), made.1.toNat + made.2.length < 2 ^ 32) ∧
        ((∀ piece ∈ LineReading.pieces newline lineRoom lineRoom text, Passes piece) →
          SameRecords (LineReading.pieces newline lineRoom lineRoom text) (LineReading.lines newline text) ∧
          (lastRead ((LineReading.pieces newline lineRoom lineRoom text).foldl gets stack) none
            (LineReading.pieces newline lineRoom lineRoom text)).map some =
            ((LineReading.lines newline text).filterMap termination).getLast?)) :=
  loadsRecords_iff rfl

/-- The characters of a record of one byte. -/
def oneByte (address checksum : List Byte) : List Byte :=
  [letterS, 51, 48, 54] ++ address ++ [48, 49] ++ checksum ++ [newline]

/-- A byte at the first address and one at the last: the memory has room for one. -/
theorem srec_stores_outside : ¬LoadsRecords
    (srecLoad true (fun _ => 0) (oneByte (List.replicate 8 48) [70, 56] ++ oneByte (List.replicate 8 70) [70, 67]))
    (LineReading.lines newline (oneByte (List.replicate 8 48) [70, 56] ++ oneByte (List.replicate 8 70) [70, 67])) := by
  intro loads
  have stores : (srecLoad true (fun _ => 0)
      (oneByte (List.replicate 8 48) [70, 56] ++ oneByte (List.replicate 8 70) [70, 67])).stores = [(0, 1), (0xFFFFFFFF, 1)] := by rfl
  have size : (srecLoad true (fun _ => 0)
      (oneByte (List.replicate 8 48) [70, 56] ++ oneByte (List.replicate 8 70) [70, 67])).totalSize = 1 := by rfl
  have inside := loads.1 (0xFFFFFFFF, 1) (by rw [stores]; exact List.mem_cons_of_mem _ List.mem_cons_self)
  rw [size] at inside
  exact absurd inside (by decide)

end Whole

end KosTool.Binary.Srec
