import KosTool.Math.BlockChaining
import KosTool.Model.Wii.Aes
import Mathlib.Tactic.IntervalCases

/-! # What AES-128 has encrypted it decrypts

Each step on a state has its inverse: the tables, the rows, and the columns, whose products are sums of doublings. The rounds
and the chains of blocks are those of any cipher in rounds.
-/

namespace KosTool.Aes

open ByteWord BlockChaining

section Field

theorem rsbox_sbox (x : Byte) : rsbox (sbox x) = x := by
  revert x
  decide +kernel

theorem xtime_xor (x y : Byte) : xtime (x ^^^ y) = xtime x ^^^ xtime y := by
  have carry (u v : Byte) : ((u ^^^ v) >>> 7) * (0x1b : Byte) = ((u >>> 7) * 0x1b) ^^^ ((v >>> 7) * 0x1b) := by
    have bit (w : Byte) : w >>> 7 = 0 ∨ w >>> 7 = 1 := by
      revert w
      decide +kernel
    rw [BitVec.ushiftRight_xor_distrib]
    rcases bit u with zero | one
    · rcases bit v with zero' | one'
      · rw [zero, zero']
        decide
      · rw [zero, one']
        decide
    · rcases bit v with zero' | one'
      · rw [one, zero']
        decide
      · rw [one, one']
        decide
  rw [xtime, xtime, xtime, BitVec.shiftLeft_xor_distrib, carry]
  ac_rfl

/-- What a byte of a column adds to the rows after both steps: itself to its own row, and nothing to the others. -/
theorem products_cancel (x : Byte) :
    gmul (xtime x) 14 ^^^ (gmul (xtime x ^^^ x) 9 ^^^ (gmul x 13 ^^^ gmul x 11)) = x ∧
      gmul (xtime x) 9 ^^^ (gmul (xtime x ^^^ x) 13 ^^^ (gmul x 11 ^^^ gmul x 14)) = 0#8 ∧
      gmul (xtime x) 13 ^^^ (gmul (xtime x ^^^ x) 11 ^^^ (gmul x 14 ^^^ gmul x 9)) = 0#8 ∧
      gmul (xtime x) 11 ^^^ (gmul (xtime x ^^^ x) 14 ^^^ (gmul x 9 ^^^ gmul x 13)) = 0#8 := by
  revert x
  decide +kernel

/-- The products that the columns need are sums of doublings. -/
theorem gmul_sums (x : Byte) : gmul x 9 = xtime (xtime (xtime x)) ^^^ x ∧
    gmul x 11 = xtime (xtime (xtime x)) ^^^ xtime x ^^^ x ∧
    gmul x 13 = xtime (xtime (xtime x)) ^^^ xtime (xtime x) ^^^ x ∧
    gmul x 14 = xtime (xtime (xtime x)) ^^^ xtime (xtime x) ^^^ xtime x := by
  revert x
  decide +kernel

theorem gmul_xor (x y : Byte) : gmul (x ^^^ y) 9 = gmul x 9 ^^^ gmul y 9 ∧ gmul (x ^^^ y) 11 = gmul x 11 ^^^ gmul y 11 ∧
    gmul (x ^^^ y) 13 = gmul x 13 ^^^ gmul y 13 ∧ gmul (x ^^^ y) 14 = gmul x 14 ^^^ gmul y 14 := by
  obtain ⟨nine, eleven, thirteen, fourteen⟩ := gmul_sums (x ^^^ y)
  rw [nine, eleven, thirteen, fourteen, (gmul_sums x).1, (gmul_sums x).2.1, (gmul_sums x).2.2.1, (gmul_sums x).2.2.2,
    (gmul_sums y).1, (gmul_sums y).2.1, (gmul_sums y).2.2.1, (gmul_sums y).2.2.2, xtime_xor, xtime_xor, xtime_xor]
  refine ⟨?_, ?_, ?_, ?_⟩ <;> ac_rfl

end Field

section Steps

attribute [local irreducible] gmul xtime

theorem xor_regroup (p0 p1 p2 p3 q0 q1 q2 q3 r0 r1 r2 r3 s0 s1 s2 s3 : Byte) :
    (p0 ^^^ p1 ^^^ p2 ^^^ p3) ^^^ (q0 ^^^ q1 ^^^ q2 ^^^ q3) ^^^ (r0 ^^^ r1 ^^^ r2 ^^^ r3) ^^^ (s0 ^^^ s1 ^^^ s2 ^^^ s3) =
      (p0 ^^^ (s1 ^^^ (r2 ^^^ q3))) ^^^ (q0 ^^^ (p1 ^^^ (s2 ^^^ r3))) ^^^ (r0 ^^^ (q1 ^^^ (p2 ^^^ s3))) ^^^
        (s0 ^^^ (r1 ^^^ (q2 ^^^ p3))) := by
  ac_rfl

/-- A row of a column after the first step, in the order of the rows from it on. -/
def mixedRow (a b c d : Byte) : Byte := xtime a ^^^ (xtime b ^^^ b) ^^^ c ^^^ d

theorem exists_column (a : Column) : ∃ p q r s, a = #v[p, q, r, s] := by
  refine ⟨a[0], a[1], a[2], a[3], Vector.ext fun i inside => ?_⟩
  interval_cases i <;> rfl

theorem mixColumn_rows (p q r s : Byte) : mixColumn #v[p, q, r, s] =
    #v[mixedRow p q r s, mixedRow q r s p, mixedRow r s p q, mixedRow s p q r] := by
  have second : p ^^^ xtime q ^^^ (xtime r ^^^ r) ^^^ s = mixedRow q r s p := by
    rw [mixedRow]
    ac_rfl
  have third : p ^^^ q ^^^ xtime r ^^^ (xtime s ^^^ s) = mixedRow r s p q := by
    rw [mixedRow]
    ac_rfl
  have fourth : (xtime p ^^^ p) ^^^ q ^^^ r ^^^ xtime s = mixedRow s p q r := by
    rw [mixedRow]
    ac_rfl
  refine Vector.ext fun i inside => ?_
  interval_cases i
  · rfl
  · exact second
  · exact third
  · exact fourth

/-- One row of a column after both steps is what it was. -/
theorem row_back (a b c d : Byte) : gmul (mixedRow a b c d) 14 ^^^ gmul (mixedRow b c d a) 11 ^^^ gmul (mixedRow c d a b) 13 ^^^
    gmul (mixedRow d a b c) 9 = a := by
  have split (x y z w : Byte) : gmul (mixedRow x y z w) 9 = gmul (xtime x) 9 ^^^ gmul (xtime y ^^^ y) 9 ^^^ gmul z 9 ^^^ gmul w 9 ∧
      gmul (mixedRow x y z w) 11 = gmul (xtime x) 11 ^^^ gmul (xtime y ^^^ y) 11 ^^^ gmul z 11 ^^^ gmul w 11 ∧
      gmul (mixedRow x y z w) 13 = gmul (xtime x) 13 ^^^ gmul (xtime y ^^^ y) 13 ^^^ gmul z 13 ^^^ gmul w 13 ∧
      gmul (mixedRow x y z w) 14 = gmul (xtime x) 14 ^^^ gmul (xtime y ^^^ y) 14 ^^^ gmul z 14 ^^^ gmul w 14 := by
    obtain ⟨nine, eleven, thirteen, fourteen⟩ := gmul_xor (xtime x ^^^ (xtime y ^^^ y) ^^^ z) w
    obtain ⟨nine', eleven', thirteen', fourteen'⟩ := gmul_xor (xtime x ^^^ (xtime y ^^^ y)) z
    obtain ⟨nine'', eleven'', thirteen'', fourteen''⟩ := gmul_xor (xtime x) (xtime y ^^^ y)
    rw [mixedRow, nine, nine', nine'', eleven, eleven', eleven'', thirteen, thirteen', thirteen'', fourteen, fourteen', fourteen'']
    exact ⟨rfl, rfl, rfl, rfl⟩
  rw [(split a b c d).2.2.2, (split b c d a).2.1, (split c d a b).2.2.1, (split d a b c).1]
  refine (xor_regroup _ _ _ _ _ _ _ _ _ _ _ _ _ _ _ _).trans ?_
  refine (congrArg₂ (· ^^^ ·) (congrArg₂ (· ^^^ ·) (congrArg₂ (· ^^^ ·) (products_cancel a).1 (products_cancel b).2.2.2)
    (products_cancel c).2.2.1) (products_cancel d).2.1).trans ?_
  rw [BitVec.xor_zero, BitVec.xor_zero, BitVec.xor_zero]

theorem xor_turn (p q r s : Byte) : p ^^^ q ^^^ r ^^^ s = q ^^^ r ^^^ s ^^^ p := by
  ac_rfl

theorem invMixColumn_mixColumn (a : Column) : invMixColumn (mixColumn a) = a := by
  obtain ⟨p, q, r, s, rfl⟩ := exists_column a
  rw [mixColumn_rows]
  refine Vector.ext fun i inside => ?_
  interval_cases i
  · exact row_back p q r s
  · refine Eq.trans ?_ (row_back q r s p)
    exact xor_turn _ _ _ _
  · refine Eq.trans ?_ (row_back r s p q)
    exact (xor_turn _ _ _ _).trans (xor_turn _ _ _ _)
  · refine Eq.trans ?_ (row_back s p q r)
    exact (xor_turn _ _ _ _).trans ((xor_turn _ _ _ _).trans (xor_turn _ _ _ _))

theorem addRoundKey_addRoundKey (rk s : Block) : addRoundKey rk (addRoundKey rk s) = s := by
  apply Vector.ext
  intro i inside
  simp only [addRoundKey, Vector.getElem_zipWith, BitVec.xor_assoc, BitVec.xor_self, BitVec.xor_zero]

theorem masked_masked (blk prev : Block) : masked (masked blk prev) prev = blk := addRoundKey_addRoundKey prev blk

theorem invSubBytes_subBytes (s : Block) : invSubBytes (subBytes s) = s := by
  apply Vector.ext
  intro i inside
  rw [invSubBytes, subBytes, Vector.getElem_map, Vector.getElem_map, rsbox_sbox]

theorem getElem_rotate (s : Block) (i j k l : Fin 16) {m : ℕ} (inside : m < 16) : (rotate s i j k l)[m] =
    if l.val = m then s[i] else if k.val = m then s[l] else if j.val = m then s[k] else if i.val = m then s[j] else s[m] := by
  simp only [rotate, Vector.getElem_set]

theorem getElem_exchange (s : Block) (i j : Fin 16) {m : ℕ} (inside : m < 16) : (exchange s i j)[m] =
    if j.val = m then s[i] else if i.val = m then s[j] else s[m] := by
  simp only [exchange, Vector.getElem_set]

/-- Each place takes the byte five times as far on. -/
theorem getElem_shiftRows (s : Block) {i : ℕ} (inside : i < 16) : (shiftRows s)[i] = s[5 * i % 16] := by
  interval_cases i <;> simp [shiftRows, getElem_rotate, getElem_exchange]

theorem getElem_invShiftRows (s : Block) {i : ℕ} (inside : i < 16) : (invShiftRows s)[i] = s[13 * i % 16] := by
  interval_cases i <;> simp [invShiftRows, getElem_rotate, getElem_exchange]

theorem invShiftRows_shiftRows (s : Block) : invShiftRows (shiftRows s) = s := by
  apply Vector.ext
  intro i inside
  have back : 5 * (13 * i % 16) % 16 = i := by omega
  simp only [getElem_invShiftRows, getElem_shiftRows, back]

theorem column_onColumns (f : Column → Column) (s : Block) (c : Fin 4) : column (onColumns f s) c = f (column s c) := by
  apply Vector.ext
  intro r inside
  have col : (⟨(4 * c.val + r) / 4, by omega⟩ : Fin 4) = c := Fin.ext (by dsimp only; omega)
  have row : (4 * c.val + r) % 4 = r := by omega
  rw [column, Vector.getElem_ofFn]
  simp only [onColumns, Vector.getElem_ofFn, col, row]

theorem invMixColumns_mixColumns (s : Block) : invMixColumns (mixColumns s) = s := by
  apply Vector.ext
  intro i inside
  have place : 4 * (i / 4) + i % 4 = i := Nat.div_add_mod i 4
  rw [invMixColumns, mixColumns, onColumns, Vector.getElem_ofFn]
  simp only [column_onColumns, invMixColumn_mixColumn]
  simp only [column, Vector.getElem_ofFn, place]

end Steps

section Blocks

/-- A block is decrypted to what was encrypted, with any schedule. -/
theorem decrypt_encrypt_block (rk : List Byte) (s : Block) : aes128DecryptBlock rk (aes128EncryptBlock rk s) = s := by
  have stirred (block : Block) : invSubBytes (invShiftRows (shiftRows (subBytes block))) = block := by
    rw [invShiftRows_shiftRows, invSubBytes_subBytes]
  have forth : aes128EncryptBlock rk s = encipher (fun r => addRoundKey (roundKey rk r)) (fun block => shiftRows (subBytes block))
      mixColumns 0 innerRounds 10 s := by
    rw [aes128EncryptBlock, encipher, rounds]
  have back (t : Block) : aes128DecryptBlock rk t = decipher (fun r => addRoundKey (roundKey rk r))
      (fun block => invSubBytes (invShiftRows block)) invMixColumns 0 innerRounds.reverse 10 t := by
    rw [aes128DecryptBlock, decipher, unrounds]
  rw [forth, back]
  exact @decipher_encipher Block ℕ (fun r => addRoundKey (roundKey rk r)) (fun block => shiftRows (subBytes block))
    (fun block => invSubBytes (invShiftRows block)) mixColumns invMixColumns
    (fun r => addRoundKey_addRoundKey (roundKey rk r)) stirred invMixColumns_mixColumns 0 10 innerRounds s

/-- The blocks of a buffer. -/
def blocksOf : ℕ → List Byte → List Block
  | 0, _ => []
  | count + 1, buf => blockOf buf :: blocksOf count (buf.drop 16)

/-- The bytes of blocks. -/
def bytesOf (blocks : List Block) : List Byte := blocks.flatMap Vector.toList

theorem length_toList (block : Block) : block.toList.length = 16 := Vector.length_toList

theorem getElem_blockOf (buf : List Byte) {i : ℕ} (inside : i < 16) : (blockOf buf)[i] = buf.getD i 0 := by
  simp only [blockOf, Vector.getElem_ofFn]

theorem blockOf_append (block : Block) (rest : List Byte) : blockOf (block.toList ++ rest) = block := by
  apply Vector.ext
  intro i inside
  rw [getElem_blockOf, List.getD_eq_getElem _ _ (by rw [List.length_append, length_toList]; omega),
    List.getElem_append_left (by rw [length_toList]; exact inside), Vector.getElem_toList]

theorem toList_blockOf {buf : List Byte} (long : 16 ≤ buf.length) : (blockOf buf).toList ++ buf.drop 16 = buf := by
  have front : (blockOf buf).toList = buf.take 16 := by
    apply List.ext_getElem
    · rw [length_toList, List.length_take]
      omega
    · intro i inside _
      rw [length_toList] at inside
      rw [Vector.getElem_toList, getElem_blockOf _ inside, List.getD_eq_getElem _ _ (by omega), List.getElem_take]
  rw [front, List.take_append_drop]

theorem drop_block (block : Block) (rest : List Byte) : (block.toList ++ rest).drop 16 = rest := by
  have whole : (block.toList ++ rest).drop block.toList.length = rest := List.drop_left
  rwa [length_toList] at whole

theorem bytesOf_blocksOf {count : ℕ} {buf : List Byte} (long : 16 * count ≤ buf.length) :
    bytesOf (blocksOf count buf) ++ buf.drop (16 * count) = buf := by
  induction count generalizing buf with
  | zero => rfl
  | succ count ih =>
    have rest := ih (by rw [List.length_drop]; omega : 16 * count ≤ (buf.drop 16).length)
    rw [List.drop_drop] at rest
    have next : 16 * (count + 1) = 16 + 16 * count := by omega
    rw [blocksOf, bytesOf, List.flatMap_cons, List.append_assoc, next]
    rw [bytesOf] at rest
    rw [rest]
    exact toList_blockOf (by omega)

theorem blocksOf_bytesOf (blocks : List Block) (rest : List Byte) : blocksOf blocks.length (bytesOf blocks ++ rest) = blocks := by
  induction blocks with
  | nil => rfl
  | cons block others ih =>
    rw [List.length_cons, blocksOf, bytesOf, List.flatMap_cons, List.append_assoc, blockOf_append, drop_block]
    exact congrArg _ ih

theorem length_blocksOf (count : ℕ) (buf : List Byte) : (blocksOf count buf).length = count := by
  induction count generalizing buf with
  | zero => rfl
  | succ count ih => rw [blocksOf, List.length_cons, ih]

theorem length_bytesOf (blocks : List Block) : (bytesOf blocks).length = 16 * blocks.length := by
  induction blocks with
  | nil => rfl
  | cons block rest ih =>
    rw [bytesOf, List.flatMap_cons, List.length_append, length_toList, List.length_cons]
    rw [bytesOf] at ih
    omega

theorem cbcEncryptLoop_eq (rk : List Byte) (turns : ℕ) (prev : Block) (buf : List Byte) : cbcEncryptLoop rk turns prev buf =
    bytesOf (chain (aes128EncryptBlock rk) masked prev (blocksOf turns buf)) ++ buf.drop (16 * turns) := by
  induction turns generalizing prev buf with
  | zero => rfl
  | succ turns ih =>
    have next : 16 * (turns + 1) = 16 + 16 * turns := by omega
    rw [cbcEncryptLoop, ih, blocksOf, chain, bytesOf, bytesOf, List.flatMap_cons, List.drop_drop, next, List.append_assoc]

theorem cbcDecryptLoop_eq (rk : List Byte) (turns : ℕ) (prev : Block) (buf : List Byte) : cbcDecryptLoop rk turns prev buf =
    bytesOf (unchain (aes128DecryptBlock rk) masked prev (blocksOf turns buf)) ++ buf.drop (16 * turns) := by
  induction turns generalizing prev buf with
  | zero => rfl
  | succ turns ih =>
    have next : 16 * (turns + 1) = 16 + 16 * turns := by omega
    rw [cbcDecryptLoop, ih, blocksOf, unchain, bytesOf, bytesOf, List.flatMap_cons, List.drop_drop, next, List.append_assoc]

theorem length_encrypt (key iv : Block) (buf : List Byte) : (aes128CbcEncrypt key iv buf).length = buf.length := by
  rw [aes128CbcEncrypt, cbcEncryptLoop_eq, List.length_append, length_bytesOf, length_chain, length_blocksOf, List.length_drop]
  omega

theorem length_decrypt (key iv : Block) (buf : List Byte) : (aes128CbcDecrypt key iv buf).length = buf.length := by
  rw [aes128CbcDecrypt, cbcDecryptLoop_eq, List.length_append, length_bytesOf, length_unchain, length_blocksOf, List.length_drop]
  omega

/-- What has been encrypted is decrypted with the same key and the same first block. -/
theorem decrypt_encrypt (key iv : Block) (buf : List Byte) : aes128CbcDecrypt key iv (aes128CbcEncrypt key iv buf) = buf := by
  have count := length_chain (aes128EncryptBlock (aes128KeyExpand key)) masked iv (blocksOf (buf.length / 16) buf)
  rw [length_blocksOf] at count
  have whole : 16 * (buf.length / 16) ≤ buf.length := Nat.mul_div_le _ _
  have length := length_encrypt key iv buf
  rw [aes128CbcDecrypt, length, aes128CbcEncrypt, cbcEncryptLoop_eq, cbcDecryptLoop_eq]
  have blocks := blocksOf_bytesOf (chain (aes128EncryptBlock (aes128KeyExpand key)) masked iv (blocksOf (buf.length / 16) buf))
    (buf.drop (16 * (buf.length / 16)))
  rw [count] at blocks
  have behind : (bytesOf (chain (aes128EncryptBlock (aes128KeyExpand key)) masked iv (blocksOf (buf.length / 16) buf)) ++
      buf.drop (16 * (buf.length / 16))).drop (16 * (buf.length / 16)) = buf.drop (16 * (buf.length / 16)) := by
    rw [List.drop_append_of_le_length (by rw [length_bytesOf, count]),
      List.drop_eq_nil_of_le (by rw [length_bytesOf, count]), List.nil_append]
  rw [blocks, behind, unchain_chain (decrypt_encrypt_block _) masked_masked, bytesOf_blocksOf whole]

end Blocks

end KosTool.Aes
