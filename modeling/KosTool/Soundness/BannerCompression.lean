import KosTool.Math.Lz10
import KosTool.Model.Wii.Banner
import Mathlib.Data.Set.Insert

/-! # Compressed banners unpack to what was compressed

The chains only hold positions before the one that is searched from, so that a match is a copy of what was unpacked. Every
pass of the loops writes what the decoder reads as tokens that take the bytes unpacked so far on to a longer prefix of the
source.
-/

namespace KosTool.Banner

open Lz10

variable {src : List Byte} {lz : Lz} {bound pos maxLen : ℕ}

section Chains

/-- An entry of the chains is no position, or one that was entered. -/
def Entry (known : Set ℕ) (entry : ℤ) : Prop := 0 ≤ entry → entry.toNat ∈ known

/-- The chains lead from entered positions to entered positions, all of them in front of a bound. -/
structure Linked (known : Set ℕ) (head : Word → ℤ) (prev : ℕ → ℤ) (bound : ℕ) : Prop where
  below : ∀ c ∈ known, c < bound
  head : ∀ hash, Entry known (head hash)
  prev : ∀ c ∈ known, Entry known (prev c)

/-- The chains are linked. -/
def Chained (lz : Lz) (bound : ℕ) : Prop := ∃ known, Linked known lz.head lz.prev bound

theorem Chained.mono {other : ℕ} (chained : Chained lz bound) (le : bound ≤ other) : Chained lz other := by
  obtain ⟨known, linked⟩ := chained
  exact ⟨known, fun c member => Nat.lt_of_lt_of_le (linked.below c member) le, linked.head, linked.prev⟩

theorem enter_chained {i : ℕ} (inside : i < bound) (chained : Chained lz bound) : Chained (enter src lz i) bound := by
  unfold enter
  split_ifs
  · obtain ⟨known, linked⟩ := chained
    have widen {entry : ℤ} (known' : Entry known entry) : Entry (insert i known) entry :=
      fun some => Set.mem_insert_of_mem i (known' some)
    refine ⟨insert i known, ?_, ?_, ?_⟩
    · intro c member
      rcases member with rfl | member
      · exact inside
      · exact linked.below c member
    · intro hash
      dsimp only
      by_cases here : hash = lzHash3 src i
      · rw [here, Function.update_self]
        exact fun _ => Set.mem_insert i known
      · rw [Function.update_of_ne here]
        exact widen (linked.head hash)
    · intro c member
      dsimp only
      by_cases here : c = i
      · rw [here, Function.update_self]
        exact widen (linked.head _)
      · rw [Function.update_of_ne here]
        exact widen (linked.prev c (member.resolve_left here))
  · exact chained

theorem enter_b (src : List Byte) (lz : Lz) (i : ℕ) : (enter src lz i).b = lz.b ∧ (enter src lz i).pos = lz.pos := by
  unfold enter
  split_ifs
  · exact ⟨rfl, rfl⟩
  · exact ⟨rfl, rfl⟩

/-- The loop over `k` enters positions and changes nothing else. -/
theorem enterAll_chained (src : List Byte) (count : ℕ) (chained : Chained lz lz.pos) :
    Chained (enterAll src lz count) (lz.pos + count) ∧ (enterAll src lz count).b = lz.b ∧
      (enterAll src lz count).pos = lz.pos := by
  induction count with
  | zero => exact ⟨chained, rfl, rfl⟩
  | succ count ih =>
    have last : enterAll src lz (count + 1) = enter src (enterAll src lz count) (lz.pos + count) := by
      rw [enterAll, List.range_succ, List.foldl_append]
      rfl
    have same := enter_b src (enterAll src lz count) (lz.pos + count)
    rw [last, same.1, same.2]
    exact ⟨enter_chained (by omega) (ih.1.mono (by omega)), ih.2⟩

end Chains

section Search

theorem matchLength_spec (src : List Byte) (cand pos left l : ℕ) :
    matchLength src cand pos left l ≤ l + left ∧
    ∀ k, l ≤ k → k < matchLength src cand pos left l → at' src (cand + k) = at' src (pos + k) := by
  induction left generalizing l with
  | zero => exact ⟨Nat.le_refl l, fun k from' before => absurd before (Nat.not_lt.mpr from')⟩
  | succ left ih =>
    rw [matchLength]
    split_ifs with same
    · obtain ⟨short, equal⟩ := ih (l + 1)
      refine ⟨by omega, fun k from' before => ?_⟩
      by_cases here : k = l
      · rw [here, same]
      · exact equal k (by omega) before
    · exact ⟨Nat.le_add_right l _, fun k from' before => absurd before (Nat.not_lt.mpr from')⟩

/-- What was found is no match, or a copy of what stands before the position. -/
structure Found (src : List Byte) (pos maxLen : ℕ) (best : Best) : Prop where
  short : best.len ≤ maxLen
  some : 0 < best.len → 1 ≤ best.disp
  near : 0 < best.len → best.disp ≤ 4096
  before : 0 < best.len → best.disp ≤ pos
  same : ∀ k < best.len, at' src (pos - best.disp + k) = at' src (pos + k)

theorem found_none (src : List Byte) (pos maxLen : ℕ) : Found src pos maxLen ⟨0, 0⟩ :=
  ⟨Nat.zero_le _, fun none => absurd none (Nat.lt_irrefl 0), fun _ => Nat.zero_le _, fun _ => Nat.zero_le _,
    fun _ none => absurd none (Nat.not_lt_zero _)⟩

/-- A candidate of the window is a match as far as the loop over `l` goes. -/
theorem found_candidate (src : List Byte) (maxLen : ℕ) {cand : ℕ} (before : cand < pos) (near : pos ≤ cand + 4096) :
    Found src pos maxLen ⟨matchLength src cand pos maxLen 0, pos - cand⟩ := by
  obtain ⟨short, same⟩ := matchLength_spec src cand pos maxLen 0
  refine ⟨by rwa [Nat.zero_add] at short, fun _ => ?_, fun _ => ?_, fun _ => Nat.sub_le _ _, fun k below => ?_⟩
  · exact Nat.sub_pos_of_lt before
  · exact Nat.sub_le_iff_le_add'.mpr near
  · have back : pos - (pos - cand) = cand := Nat.sub_sub_self (Nat.le_of_lt before)
    rw [back]
    exact same k (Nat.zero_le k) below

/-- The search goes from match to longer match, on linked chains. -/
theorem searchChain_found {known : Set ℕ} {head : Word → ℤ} {prev : ℕ → ℤ} (linked : Linked known head prev pos)
    {winStart : ℕ} (window : pos ≤ winStart + 4096) {depth : ℕ} {cand : ℤ} (entry : Entry known cand) {best : Best}
    (found : Found src pos maxLen best) : Found src pos maxLen (searchChain src prev pos maxLen winStart depth cand best) := by
  induction depth generalizing cand best with
  | zero => exact found
  | succ depth ih =>
    rw [searchChain]
    by_cases some : 0 ≤ cand ∧ winStart ≤ cand.toNat
    · rw [if_pos some]
      have member := entry some.1
      have longer := found_candidate src maxLen (linked.below _ member) (by omega)
      have onward := linked.prev _ member
      dsimp only
      split_ifs
      · exact longer
      · exact ih onward longer
      · exact ih onward found
      · exact ih onward found
    · rw [if_neg some]
      exact found

theorem bestMatch_found (src : List Byte) (chained : Chained lz lz.pos) :
    Found src lz.pos (min (src.length - lz.pos) 18) (bestMatch src lz) := by
  obtain ⟨known, linked⟩ := chained
  unfold bestMatch
  dsimp only
  split_ifs with room far
  · exact searchChain_found linked (by omega) (linked.head _) (found_none src _ _)
  · exact searchChain_found linked (by omega) (linked.head _) (found_none src _ _)
  · exact found_none src _ _

end Search

section Tokens

theorem bput_cap (b : Buf) (d : List Byte) (room : b.p.length + d.length ≤ b.cap) : (b.bput d).cap = b.cap :=
  if_neg (Nat.not_lt.mpr room)

theorem bu8_bu8_cap (b : Buf) (first second : Byte) (room : b.p.length + 2 ≤ b.cap) : ((b.bu8 first).bu8 second).cap = b.cap := by
  have length : (b.bu8 first).p.length = b.p.length + 1 := List.length_append
  have same : (b.bu8 first).cap = b.cap := bput_cap b [first] (Nat.le_of_succ_le room)
  rw [← same]
  exact bput_cap _ _ (by rw [same, length]; exact room)

/-- The two bytes of a copy. -/
theorem tok_bytes {length displacement : ℕ} (short : length ≤ 18) (low : 3 ≤ length) (some : 1 ≤ displacement)
    (near : displacement ≤ 4096) :
    let tok : BitVec 16 := (BitVec.ofNat 16 (length - 3) <<< 12) ||| BitVec.ofNat 16 (displacement - 1)
    [(tok >>> 8).setWidth 8, tok.setWidth 8] = (Token.copy length displacement).bytes := by
  have high : (BitVec.ofNat 16 (length - 3) <<< 12).toNat = (length - 3) <<< 12 := by
    rw [BitVec.toNat_shiftLeft, BitVec.toNat_ofNat, Nat.mod_eq_of_lt (by omega : length - 3 < 2 ^ 16), Nat.shiftLeft_eq]
    exact Nat.mod_eq_of_lt (by omega)
  have value : ((BitVec.ofNat 16 (length - 3) <<< 12) ||| BitVec.ofNat 16 (displacement - 1)).toNat =
      (length - 3) * 4096 + (displacement - 1) := by
    rw [BitVec.toNat_or, high, BitVec.toNat_ofNat, Nat.mod_eq_of_lt (by omega : displacement - 1 < 2 ^ 16),
      ← Nat.shiftLeft_add_eq_or_of_lt (by omega), Nat.shiftLeft_eq]
  dsimp only
  rw [Token.bytes]
  congr 1
  · apply BitVec.eq_of_toNat_eq
    rw [BitVec.toNat_setWidth, BitVec.toNat_ushiftRight, value, BitVec.toNat_ofNat, Nat.shiftRight_eq_div_pow]
    congr 1
    omega
  · congr 1
    apply BitVec.eq_of_toNat_eq
    rw [BitVec.toNat_setWidth, value, BitVec.toNat_ofNat]
    omega

/-- One pass of the loop over `bit` stores a token. -/
structure Stores (src : List Byte) (lz lz' : Lz) (token : Token) : Prop where
  fits : token.Fits src.length (src.take lz.pos)
  unpacks : token.unpack (src.take lz.pos) = src.take (lz.pos + token.length)
  bytes : lz'.b.p = lz.b.p ++ token.bytes
  cap : lz.b.p.length + token.bytes.length ≤ lz.b.cap → lz'.b.cap = lz.b.cap
  chained : Chained lz' lz'.pos
  pos : lz'.pos = lz.pos + token.length
  inside : lz'.pos ≤ src.length
  some : 1 ≤ token.length
  small : token.bytes.length ≤ token.length

theorem storeToken_stores (bit : ℕ) (flag : Byte) (chained : Chained lz lz.pos) (more : lz.pos < src.length) :
    ∃ token, Stores src lz (storeToken src bit flag lz).2 token ∧
      (storeToken src bit flag lz).1 = if token.flag then flag ||| (0x80#8 >>> bit) else flag := by
  have found := bestMatch_found src chained
  have prefix' : (src.take lz.pos).length = lz.pos := List.length_take_of_le (Nat.le_of_lt more)
  unfold storeToken
  dsimp only
  by_cases long : 3 ≤ (bestMatch src lz).len
  · rw [if_pos long]
    generalize bestMatch src lz = best at found long
    have some := found.some (by omega)
    have near := found.near (by omega)
    have before := found.before (by omega)
    have short : best.len ≤ min (src.length - lz.pos) 18 := found.short
    have bytes := tok_bytes (by omega : best.len ≤ 18) long some near
    dsimp only at bytes
    generalize (BitVec.ofNat 16 (best.len - 3) <<< 12) ||| BitVec.ofNat 16 (best.disp - 1) = tok at bytes
    have put : Chained { lz with b := (lz.b.bu8 ((tok >>> 8).setWidth 8)).bu8 (tok.setWidth 8) } lz.pos := chained
    obtain ⟨entered, buffer, same⟩ := enterAll_chained src best.len put
    refine ⟨.copy best.len best.disp, ⟨?_, ?_, ?_, ?_, ?_, ?_, ?_, ?_, ?_⟩, rfl⟩
    · refine ⟨⟨long, by omega⟩, ⟨some, near⟩, ?_, ?_⟩
      · rw [prefix']
        exact before
      · rw [prefix']
        omega
    · exact copyBack_take some before (by omega) found.same
    · dsimp only
      rw [buffer, ← bytes]
      exact List.append_assoc _ _ _
    · intro room
      dsimp only
      rw [buffer]
      exact bu8_bu8_cap _ _ _ room
    · dsimp only
      rw [same]
      exact entered
    · dsimp only
      rw [same]
      rfl
    · dsimp only
      rw [same]
      dsimp only
      omega
    · exact (by decide : 1 ≤ 3).trans long
    · exact (by decide : 2 ≤ 3).trans long
  · rw [if_neg long]
    have same := enter_b src lz lz.pos
    refine ⟨.literal (at' src lz.pos), ⟨?_, ?_, ?_, ?_, ?_, ?_, ?_, ?_, ?_⟩, rfl⟩
    · exact prefix'.trans_lt more
    · exact take_snoc more
    · dsimp only
      rw [same.1, same.2]
      rfl
    · intro room
      dsimp only
      rw [same.1]
      exact bput_cap _ _ room
    · dsimp only
      rw [same.2]
      exact enter_chained (Nat.lt_succ_self _) (chained.mono (Nat.le_succ _))
    · dsimp only
      rw [same.2]
      rfl
    · dsimp only
      rw [same.2]
      exact more
    · exact Nat.le_refl 1
    · exact Nat.le_refl 1

/-- The loop over `bit` writes tokens that the decoder reads back with the flags that it returns. -/
structure StoresTokens (src : List Byte) (left : ℕ) (flag flag' : Byte) (lz lz' : Lz) (tokens : List Token) : Prop where
  covers : Covers src lz.pos tokens lz'.pos
  bytes : lz'.b.p = lz.b.p ++ tokens.flatMap Token.bytes
  cap : lz'.b.cap = lz.b.cap
  chained : Chained lz' lz'.pos
  kept : ∀ j, left ≤ j → flag'.getLsbD j = flag.getLsbD j
  reads : ∀ rest, readBits src.length flag' left lz.pos (tokens.flatMap Token.bytes ++ rest) = some (tokens, rest)
  inside : lz'.pos ≤ src.length
  full : lz'.pos = src.length ∨ lz.pos + left ≤ lz'.pos
  small : (tokens.flatMap Token.bytes).length + lz.pos ≤ lz'.pos

/-- The bit that a pass sets. -/
theorem getLsbD_flagBit {left : ℕ} (bound : left ≤ 7) (j : ℕ) : (0x80#8 >>> (7 - left)).getLsbD j = decide (j = left) := by
  rw [BitVec.getLsbD_ushiftRight]
  have bits : ∀ i < 8, (0x80#8).getLsbD i = decide (i = 7) := by decide
  by_cases inside : 7 - left + j < 8
  · rw [bits _ inside]
    congr 1
    exact propext (by omega)
  · rw [BitVec.getLsbD_of_ge _ _ (by omega), decide_eq_false (by omega)]

theorem storeTokens_stores {left : ℕ} (bound : left ≤ 8) {flag : Byte} (chained : Chained lz lz.pos)
    (within : lz.pos ≤ src.length) (room : lz.b.p.length + (src.length - lz.pos) ≤ lz.b.cap)
    (clear : ∀ j < left, flag.getLsbD j = false) :
    ∃ tokens, StoresTokens src left flag (storeTokens src left flag lz).1 lz (storeTokens src left flag lz).2 tokens := by
  induction left generalizing flag lz with
  | zero =>
    exact ⟨[], rfl, (List.append_nil _).symm, rfl, chained, fun _ _ => rfl, fun _ => rfl, within, .inr (Nat.le_refl _),
      by rw [List.flatMap_nil, List.length_nil, Nat.zero_add]; exact Nat.le_refl _⟩
  | succ left ih =>
    rw [storeTokens]
    by_cases more : lz.pos < src.length
    · rw [if_pos more]
      obtain ⟨token, stores, flags⟩ := storeToken_stores (7 - left) flag chained more
      generalize storeToken src (7 - left) flag lz = stored at stores flags
      obtain ⟨flag₁, lz₁⟩ := stored
      dsimp only at stores flags ⊢
      have bytes := stores.bytes
      have pos := stores.pos
      have small := stores.small
      have inside := stores.inside
      have cap := stores.cap (by omega)
      have bits (j : ℕ) : flag₁.getLsbD j = (flag.getLsbD j || (token.flag && decide (j = left))) := by
        rw [flags]
        cases token.flag
        · rw [if_neg Bool.false_ne_true, Bool.false_and, Bool.or_false]
        · rw [if_pos rfl, Bool.true_and, BitVec.getLsbD_or]
          exact congrArg _ (getLsbD_flagBit (Nat.le_of_lt_succ bound) j)
      have length : lz₁.b.p.length = lz.b.p.length + token.bytes.length := by rw [bytes, List.length_append]
      have clear₁ : ∀ j < left, flag₁.getLsbD j = false := by
        intro j below
        rw [bits, clear j (Nat.lt_succ_of_lt below), decide_eq_false (Nat.ne_of_lt below), Bool.and_false, Bool.or_false]
      obtain ⟨tokens, rest⟩ := ih (by omega) stores.chained inside (by omega) clear₁
      generalize storeTokens src left flag₁ lz₁ = last at rest
      have own : last.1.getLsbD left = token.flag := by
        rw [rest.kept left (Nat.le_refl left), bits, clear left (Nat.lt_succ_self left), decide_eq_true rfl, Bool.and_true,
          Bool.false_or]
      refine ⟨token :: tokens, ⟨stores.fits, stores.unpacks, ?_⟩, ?_, rest.cap.trans cap, rest.chained, ?_, ?_, rest.inside,
        ?_, ?_⟩
      · rw [← pos]
        exact rest.covers
      · rw [rest.bytes, bytes, List.flatMap_cons, List.append_assoc]
      · intro j above
        rw [rest.kept j (Nat.le_of_succ_le above), bits, decide_eq_false (Nat.ne_of_gt above), Bool.and_false, Bool.or_false]
      · intro stream
        rw [readBits, if_neg (Nat.not_le.mpr more), own, List.flatMap_cons, List.append_assoc,
          readToken_bytes stores.fits, Option.bind_some]
        dsimp only
        rw [← pos, rest.reads stream]
        rfl
      · exact rest.full.imp_right fun full => by have some := stores.some; omega
      · have tail := rest.small
        rw [List.flatMap_cons, List.length_append]
        omega
    · rw [if_neg more]
      have ends : lz.pos = src.length := by omega
      refine ⟨[], rfl, (List.append_nil _).symm, rfl, chained, fun _ _ => rfl, fun _ => ?_, within, .inl ends, ?_⟩
      · rw [readBits, if_pos (Nat.le_of_eq ends.symm)]
        rfl
      · rw [List.flatMap_nil, List.length_nil, Nat.zero_add]

end Tokens

section Groups

/-- One pass of the loop over `pos` writes a group. -/
theorem storeGroup_stores (chained : Chained lz lz.pos) (more : lz.pos < src.length)
    (room : lz.b.p.length + 1 + (src.length - lz.pos) ≤ lz.b.cap) : ∃ flags tokens,
    Covers src lz.pos tokens (storeGroup src lz).pos ∧
    (storeGroup src lz).b.p = lz.b.p ++ flags :: tokens.flatMap Token.bytes ∧
    (storeGroup src lz).b.cap = lz.b.cap ∧ Chained (storeGroup src lz) (storeGroup src lz).pos ∧
    (∀ rest, readBits src.length flags 8 lz.pos (tokens.flatMap Token.bytes ++ rest) = some (tokens, rest)) ∧
    (storeGroup src lz).pos ≤ src.length ∧
    ((storeGroup src lz).pos = src.length ∨ lz.pos + 8 ≤ (storeGroup src lz).pos) ∧
    (tokens.flatMap Token.bytes).length + lz.pos ≤ (storeGroup src lz).pos := by
  have length : (lz.b.bu8 0).p.length = lz.b.p.length + 1 := List.length_append
  have cap : (lz.b.bu8 0).cap = lz.b.cap := bput_cap lz.b [0] (by rw [List.length_singleton]; omega)
  have opened : Chained { lz with b := lz.b.bu8 0 } lz.pos := chained
  have room' : (lz.b.bu8 0).p.length + (src.length - lz.pos) ≤ (lz.b.bu8 0).cap := by omega
  have clear : ∀ j < 8, (0 : Byte).getLsbD j = false := fun _ _ => BitVec.getLsbD_zero
  obtain ⟨tokens, stores⟩ := storeTokens_stores (Nat.le_refl 8) opened (Nat.le_of_lt more) room' clear
  rw [storeGroup]
  dsimp only
  generalize storeTokens src 8 0 { lz with b := lz.b.bu8 0 } = stored at stores
  refine ⟨stored.1, tokens, stores.covers, ?_, stores.cap.trans cap, stores.chained, stores.reads, stores.inside, stores.full,
    stores.small⟩
  rw [stores.bytes]
  change ((lz.b.p ++ [0]) ++ _).set lz.b.p.length stored.1 = _
  rw [List.append_assoc, List.set_append_right _ _ (Nat.le_refl _), Nat.sub_self]
  rfl

/-- The loop over `pos` writes the groups of tokens that cover the rest of the source. -/
theorem storeGroups_stores {fuel : ℕ} (groups : ℕ) (chained : Chained lz lz.pos) (enough : src.length ≤ lz.pos + fuel)
    (within : lz.pos ≤ src.length) (full : lz.pos = src.length ∨ 8 * groups ≤ lz.pos)
    (counted : 8 * groups ≤ lz.pos + 7) (short : lz.b.p.length ≤ 8 + lz.pos + groups) (cap : lz.b.cap = lz77Cap src.length) :
    ∃ tokens stream, Covers src lz.pos tokens src.length ∧ (storeGroups src fuel lz).b.p = lz.b.p ++ stream ∧
      (storeGroups src fuel lz).b.cap = lz77Cap src.length ∧ (storeGroups src fuel lz).b.p.length ≤ lz77Cap src.length ∧
      ∀ reading, stream.length ≤ reading → readGroups src.length reading lz.pos stream = some tokens := by
  induction fuel generalizing lz groups with
  | zero =>
    have ends : lz.pos = src.length := by omega
    refine ⟨[], [], ends, (List.append_nil _).symm, cap, ?_, fun reading _ => ?_⟩
    rotate_left
    · exact readGroups_done reading (Nat.le_of_eq ends.symm) _
    rw [storeGroups, lz77Cap]
    omega
  | succ fuel ih =>
    rw [storeGroups]
    by_cases more : lz.pos < src.length
    · rw [if_pos more]
      have counted' := full.resolve_left (Nat.ne_of_lt more)
      obtain ⟨flags, tokens, covers, bytes, kept, chained', reads, inside, full', small⟩ := storeGroup_stores chained more
        (by rw [cap, lz77Cap]; omega)
      generalize storeGroup src lz = next at *
      have length : next.b.p.length = lz.b.p.length + ((tokens.flatMap Token.bytes).length + 1) := by
        rw [bytes, List.length_append, List.length_cons]
      have counts := covers.sum_length
      obtain ⟨later, stream, rest, written, cap', bounded, readBack⟩ := ih (groups + 1) chained' (by omega) inside
        (by omega) (by omega) (by omega) (kept.trans cap)
      refine ⟨tokens ++ later, (flags :: tokens.flatMap Token.bytes) ++ stream, covers.append rest, ?_, cap', bounded, ?_⟩
      · rw [written, bytes, List.append_assoc]
      · intro reading enough'
        rw [List.length_append, List.length_cons] at enough'
        obtain ⟨reading, rfl⟩ : ∃ less, reading = less + 1 := ⟨reading - 1, by omega⟩
        rw [List.cons_append, readGroups, if_neg (Nat.not_le.mpr more), reads, Option.bind_some]
        dsimp only
        rw [counts, readBack reading (by omega)]
        rfl
    · rw [if_neg more]
      have ends : lz.pos = src.length := by omega
      refine ⟨[], [], ends, (List.append_nil _).symm, cap, ?_, fun reading _ => ?_⟩
      rotate_left
      · exact readGroups_done reading (Nat.le_of_eq ends.symm) _
      rw [lz77Cap]
      omega

/-- The size in the header. -/
theorem header_size {size : ℕ} (small : size < 2 ^ 24) :
    (BitVec.ofNat 64 size).setWidth 8 = BitVec.ofNat 8 size ∧
      ((BitVec.ofNat 64 size >>> 8).setWidth 8) = BitVec.ofNat 8 (size / 256) ∧
      ((BitVec.ofNat 64 size >>> 16).setWidth 8) = BitVec.ofNat 8 (size / 65536) := by
  have whole : (BitVec.ofNat 64 size).toNat = size := Nat.mod_eq_of_lt (by omega)
  refine ⟨?_, ?_, ?_⟩
  · apply BitVec.eq_of_toNat_eq
    rw [BitVec.toNat_setWidth, whole, BitVec.toNat_ofNat]
  · apply BitVec.eq_of_toNat_eq
    rw [BitVec.toNat_setWidth, BitVec.toNat_ushiftRight, whole, BitVec.toNat_ofNat, Nat.shiftRight_eq_div_pow]
  · apply BitVec.eq_of_toNat_eq
    rw [BitVec.toNat_setWidth, BitVec.toNat_ushiftRight, whole, BitVec.toNat_ofNat, Nat.shiftRight_eq_div_pow]

/-- The header that `lz77_store` begins with. -/
def header (size : ℕ) : List Byte :=
  [0x4c, 0x5a, 0x37, 0x37, 0x10, BitVec.ofNat 8 size, BitVec.ofNat 8 (size / 256), BitVec.ofNat 8 (size / 65536)]

/-- The decoder reads the size back. -/
theorem read_header {size : ℕ} (small : size < 2 ^ 24) (groups : List Byte) :
    readStream (header size ++ groups) = (readGroups size groups.length 0 groups).map (size, ·) := by
  have value : (BitVec.ofNat 8 size).toNat + (BitVec.ofNat 8 (size / 256)).toNat * 256 +
      (BitVec.ofNat 8 (size / 65536)).toNat * 65536 = size := by
    rw [BitVec.toNat_ofNat, BitVec.toNat_ofNat, BitVec.toNat_ofNat]
    omega
  change (let size' := (BitVec.ofNat 8 size).toNat + (BitVec.ofNat 8 (size / 256)).toNat * 256 +
    (BitVec.ofNat 8 (size / 65536)).toNat * 65536
    if tag = tag then (readGroups size' groups.length 0 groups).map (size', ·) else none) = _
  rw [value]
  exact if_pos rfl

/-- What `lz77_store` writes unpacks to its input; every copy fits; and the buffer is never allocated anew. -/
theorem lz77Store_decodes (uninitialised : ℕ → ℤ) (src : List Byte) (small : src.length < 2 ^ 24) :
    decode (lz77Store uninitialised src).p = some src ∧
    (∃ tokens, readStream (lz77Store uninitialised src).p = some (src.length, tokens) ∧ ∀ before after length displacement,
      tokens = before ++ Token.copy length displacement :: after → (1 ≤ displacement ∧ displacement ≤ 4096) ∧
        displacement ≤ (unpack before).length ∧ (3 ≤ length ∧ length ≤ 18) ∧
        (unpack before).length + length ≤ src.length) ∧
    (lz77Store uninitialised src).p.length ≤ lz77Cap src.length ∧ (lz77Store uninitialised src).cap = lz77Cap src.length := by
  obtain ⟨first, second, third⟩ := header_size small
  have opened (b : Buf) : Chained ⟨b, fun _ => -1, uninitialised, 0⟩ 0 :=
    ⟨∅, ⟨fun _ none => absurd none (Set.notMem_empty _), fun _ none => absurd none (by dsimp only; omega),
      fun _ none => absurd none (Set.notMem_empty _)⟩⟩
  have start : (lz77Store uninitialised src) =
      (storeGroups src src.length ⟨⟨header src.length, lz77Cap src.length⟩, fun _ => -1, uninitialised, 0⟩).b := by
    have fits (p d : List Byte) (room : p.length + d.length ≤ 8) :
        (Buf.mk p (lz77Cap src.length)).bput d = ⟨p ++ d, lz77Cap src.length⟩ :=
      congrArg (Buf.mk (p ++ d)) (bput_cap _ d (by dsimp only [lz77Cap]; omega))
    rw [lz77Store]
    dsimp only [Buf.bu8]
    rw [fits _ _ (by simp), fits _ _ (by simp), fits _ _ (by simp), fits _ _ (by simp), fits _ _ (by simp), first, second, third]
    rfl
  obtain ⟨tokens, stream, covers, bytes, cap, bounded, reads⟩ := storeGroups_stores 0 (opened ⟨header src.length,
    lz77Cap src.length⟩) (Nat.le_of_eq (Nat.zero_add _).symm) (Nat.zero_le _) (.inr (Nat.le_refl 0)) (Nat.zero_le _)
    (Nat.le_refl 8) rfl
  have read : readStream (lz77Store uninitialised src).p = some (src.length, tokens) := by
    rw [start, bytes, read_header small, reads _ (Nat.le_refl _)]
    rfl
  refine ⟨?_, ⟨tokens, read, ?_⟩, start ▸ bounded, start ▸ cap⟩
  · rw [decode, read, Option.map_some, unpack]
    exact congrArg some (covers.foldl_unpack.trans (List.take_length))
  · rintro before after length displacement rfl
    obtain ⟨lengths, displacements, inside, ends⟩ := covers.fits
    exact ⟨displacements, inside, lengths, ends⟩

/-- A run of one byte, which is copied onto itself. -/
theorem lz77Store_decodes_repeated :
    decode (lz77Store (fun _ => 0) (List.replicate 20 0x61)).p = some (List.replicate 20 0x61) :=
  (lz77Store_decodes (fun _ => 0) (List.replicate 20 0x61) (by decide)).1

end Groups

end KosTool.Banner
