import KosTool.Math.ByteWord
import Mathlib.Data.Fin.VecNotation

/-! # AES-128 of `wadcrypto`

`make-dist/tools/wadcrypto/aes.c`: the tables, the key schedule, the steps on a state, the blocks and the chains of blocks.
-/

namespace KosTool.Aes

open ByteWord

/-- A block, and a state: the columns one after the other. -/
abbrev Block := Vector Byte 16

/-- A column of a state. -/
abbrev Column := Vector Byte 4

section Tables

def sboxTable : List Byte := [
  0x63, 0x7c, 0x77, 0x7b, 0xf2, 0x6b, 0x6f, 0xc5, 0x30, 0x01, 0x67, 0x2b, 0xfe, 0xd7, 0xab, 0x76,
  0xca, 0x82, 0xc9, 0x7d, 0xfa, 0x59, 0x47, 0xf0, 0xad, 0xd4, 0xa2, 0xaf, 0x9c, 0xa4, 0x72, 0xc0,
  0xb7, 0xfd, 0x93, 0x26, 0x36, 0x3f, 0xf7, 0xcc, 0x34, 0xa5, 0xe5, 0xf1, 0x71, 0xd8, 0x31, 0x15,
  0x04, 0xc7, 0x23, 0xc3, 0x18, 0x96, 0x05, 0x9a, 0x07, 0x12, 0x80, 0xe2, 0xeb, 0x27, 0xb2, 0x75,
  0x09, 0x83, 0x2c, 0x1a, 0x1b, 0x6e, 0x5a, 0xa0, 0x52, 0x3b, 0xd6, 0xb3, 0x29, 0xe3, 0x2f, 0x84,
  0x53, 0xd1, 0x00, 0xed, 0x20, 0xfc, 0xb1, 0x5b, 0x6a, 0xcb, 0xbe, 0x39, 0x4a, 0x4c, 0x58, 0xcf,
  0xd0, 0xef, 0xaa, 0xfb, 0x43, 0x4d, 0x33, 0x85, 0x45, 0xf9, 0x02, 0x7f, 0x50, 0x3c, 0x9f, 0xa8,
  0x51, 0xa3, 0x40, 0x8f, 0x92, 0x9d, 0x38, 0xf5, 0xbc, 0xb6, 0xda, 0x21, 0x10, 0xff, 0xf3, 0xd2,
  0xcd, 0x0c, 0x13, 0xec, 0x5f, 0x97, 0x44, 0x17, 0xc4, 0xa7, 0x7e, 0x3d, 0x64, 0x5d, 0x19, 0x73,
  0x60, 0x81, 0x4f, 0xdc, 0x22, 0x2a, 0x90, 0x88, 0x46, 0xee, 0xb8, 0x14, 0xde, 0x5e, 0x0b, 0xdb,
  0xe0, 0x32, 0x3a, 0x0a, 0x49, 0x06, 0x24, 0x5c, 0xc2, 0xd3, 0xac, 0x62, 0x91, 0x95, 0xe4, 0x79,
  0xe7, 0xc8, 0x37, 0x6d, 0x8d, 0xd5, 0x4e, 0xa9, 0x6c, 0x56, 0xf4, 0xea, 0x65, 0x7a, 0xae, 0x08,
  0xba, 0x78, 0x25, 0x2e, 0x1c, 0xa6, 0xb4, 0xc6, 0xe8, 0xdd, 0x74, 0x1f, 0x4b, 0xbd, 0x8b, 0x8a,
  0x70, 0x3e, 0xb5, 0x66, 0x48, 0x03, 0xf6, 0x0e, 0x61, 0x35, 0x57, 0xb9, 0x86, 0xc1, 0x1d, 0x9e,
  0xe1, 0xf8, 0x98, 0x11, 0x69, 0xd9, 0x8e, 0x94, 0x9b, 0x1e, 0x87, 0xe9, 0xce, 0x55, 0x28, 0xdf,
  0x8c, 0xa1, 0x89, 0x0d, 0xbf, 0xe6, 0x42, 0x68, 0x41, 0x99, 0x2d, 0x0f, 0xb0, 0x54, 0xbb, 0x16]

def rsboxTable : List Byte := [
  0x52, 0x09, 0x6a, 0xd5, 0x30, 0x36, 0xa5, 0x38, 0xbf, 0x40, 0xa3, 0x9e, 0x81, 0xf3, 0xd7, 0xfb,
  0x7c, 0xe3, 0x39, 0x82, 0x9b, 0x2f, 0xff, 0x87, 0x34, 0x8e, 0x43, 0x44, 0xc4, 0xde, 0xe9, 0xcb,
  0x54, 0x7b, 0x94, 0x32, 0xa6, 0xc2, 0x23, 0x3d, 0xee, 0x4c, 0x95, 0x0b, 0x42, 0xfa, 0xc3, 0x4e,
  0x08, 0x2e, 0xa1, 0x66, 0x28, 0xd9, 0x24, 0xb2, 0x76, 0x5b, 0xa2, 0x49, 0x6d, 0x8b, 0xd1, 0x25,
  0x72, 0xf8, 0xf6, 0x64, 0x86, 0x68, 0x98, 0x16, 0xd4, 0xa4, 0x5c, 0xcc, 0x5d, 0x65, 0xb6, 0x92,
  0x6c, 0x70, 0x48, 0x50, 0xfd, 0xed, 0xb9, 0xda, 0x5e, 0x15, 0x46, 0x57, 0xa7, 0x8d, 0x9d, 0x84,
  0x90, 0xd8, 0xab, 0x00, 0x8c, 0xbc, 0xd3, 0x0a, 0xf7, 0xe4, 0x58, 0x05, 0xb8, 0xb3, 0x45, 0x06,
  0xd0, 0x2c, 0x1e, 0x8f, 0xca, 0x3f, 0x0f, 0x02, 0xc1, 0xaf, 0xbd, 0x03, 0x01, 0x13, 0x8a, 0x6b,
  0x3a, 0x91, 0x11, 0x41, 0x4f, 0x67, 0xdc, 0xea, 0x97, 0xf2, 0xcf, 0xce, 0xf0, 0xb4, 0xe6, 0x73,
  0x96, 0xac, 0x74, 0x22, 0xe7, 0xad, 0x35, 0x85, 0xe2, 0xf9, 0x37, 0xe8, 0x1c, 0x75, 0xdf, 0x6e,
  0x47, 0xf1, 0x1a, 0x71, 0x1d, 0x29, 0xc5, 0x89, 0x6f, 0xb7, 0x62, 0x0e, 0xaa, 0x18, 0xbe, 0x1b,
  0xfc, 0x56, 0x3e, 0x4b, 0xc6, 0xd2, 0x79, 0x20, 0x9a, 0xdb, 0xc0, 0xfe, 0x78, 0xcd, 0x5a, 0xf4,
  0x1f, 0xdd, 0xa8, 0x33, 0x88, 0x07, 0xc7, 0x31, 0xb1, 0x12, 0x10, 0x59, 0x27, 0x80, 0xec, 0x5f,
  0x60, 0x51, 0x7f, 0xa9, 0x19, 0xb5, 0x4a, 0x0d, 0x2d, 0xe5, 0x7a, 0x9f, 0x93, 0xc9, 0x9c, 0xef,
  0xa0, 0xe0, 0x3b, 0x4d, 0xae, 0x2a, 0xf5, 0xb0, 0xc8, 0xeb, 0xbb, 0x3c, 0x83, 0x53, 0x99, 0x61,
  0x17, 0x2b, 0x04, 0x7e, 0xba, 0x77, 0xd6, 0x26, 0xe1, 0x69, 0x14, 0x63, 0x55, 0x21, 0x0c, 0x7d]

/-- `sbox` -/
def sbox (x : Byte) : Byte := sboxTable.getD x.toNat 0

/-- `rsbox` -/
def rsbox (x : Byte) : Byte := rsboxTable.getD x.toNat 0

/-- `Rcon` -/
def rcon : List Byte := [0x00, 0x01, 0x02, 0x04, 0x08, 0x10, 0x20, 0x40, 0x80, 0x1b, 0x36]

end Tables

section Field

/-- `xtime` -/
def xtime (x : Byte) : Byte := (x <<< 1) ^^^ ((x >>> 7) * 0x1b)

/-- The turns of `gmul`. -/
def gmulLoop : ℕ → Byte → Byte → Byte → Byte
  | 0, _, _, p => p
  | turns + 1, a, b, p =>
    let p := if b &&& 1 ≠ 0 then p ^^^ a else p
    let hi := a &&& 0x80
    let a := a <<< 1
    let a := if hi ≠ 0 then a ^^^ 0x1b else a
    gmulLoop turns a (b >>> 1) p

/-- `gmul` -/
def gmul (a b : Byte) : Byte := gmulLoop 8 a b 0

end Field

section Schedule

/-- The four bytes of the schedule at an offset, behind those that there are. -/
def expandWord (rk : List Byte) (i : ℕ) : List Byte :=
  let byte (k : ℕ) : Byte := rk.getD k 0
  let t : Fin 4 → Byte := ![byte (i - 4), byte (i - 3), byte (i - 2), byte (i - 1)]
  let t : Fin 4 → Byte :=
    if i % 16 = 0 then ![sbox (t 1) ^^^ rcon.getD (i / 16) 0, sbox (t 2), sbox (t 3), sbox (t 0)] else t
  rk ++ [byte (i - 16) ^^^ t 0, byte (i - 15) ^^^ t 1, byte (i - 14) ^^^ t 2, byte (i - 13) ^^^ t 3]

/-- `aes128_key_expand` -/
def aes128KeyExpand (key : Block) : List Byte :=
  (List.range 40).foldl (fun rk turn => expandWord rk (16 + 4 * turn)) key.toList

/-- The key of a round: `rk + 16 * r`. -/
def roundKey (rk : List Byte) (r : ℕ) : Block := Vector.ofFn fun i => rk.getD (16 * r + i) 0

end Schedule

section Steps

/-- `add_round_key` -/
def addRoundKey (rk s : Block) : Block := s.zipWith (· ^^^ ·) rk

/-- `sub_bytes` -/
def subBytes (s : Block) : Block := s.map sbox

/-- `inv_sub_bytes` -/
def invSubBytes (s : Block) : Block := s.map rsbox

/-- Four places of a row, each of which takes the byte of the next. -/
def rotate (s : Block) (i j k l : Fin 16) : Block := (((s.set i s[j]).set j s[k]).set k s[l]).set l s[i]

/-- Two places of a row are exchanged. -/
def exchange (s : Block) (i j : Fin 16) : Block := (s.set i s[j]).set j s[i]

/-- `shift_rows` -/
def shiftRows (s : Block) : Block := rotate (exchange (exchange (rotate s 1 5 9 13) 2 10) 6 14) 15 11 7 3

/-- `inv_shift_rows` -/
def invShiftRows (s : Block) : Block := rotate (exchange (exchange (rotate s 13 9 5 1) 2 10) 6 14) 3 7 11 15

/-- The bytes of a column of a state. -/
def column (s : Block) (c : Fin 4) : Column := Vector.ofFn fun r => s[4 * c.val + r.val]

/-- Each column of a state is replaced. -/
def onColumns (f : Column → Column) (s : Block) : Block := Vector.ofFn fun i =>
  (f (column s ⟨i / 4, by omega⟩))[i.val % 4]

/-- The turn of `mix_columns` on a column. -/
def mixColumn (a : Column) : Column := #v[
  xtime a[0] ^^^ (xtime a[1] ^^^ a[1]) ^^^ a[2] ^^^ a[3],
  a[0] ^^^ xtime a[1] ^^^ (xtime a[2] ^^^ a[2]) ^^^ a[3],
  a[0] ^^^ a[1] ^^^ xtime a[2] ^^^ (xtime a[3] ^^^ a[3]),
  (xtime a[0] ^^^ a[0]) ^^^ a[1] ^^^ a[2] ^^^ xtime a[3]]

/-- `mix_columns` -/
def mixColumns : Block → Block := onColumns mixColumn

/-- The turn of `inv_mix_columns` on a column. -/
def invMixColumn (a : Column) : Column := #v[
  gmul a[0] 14 ^^^ gmul a[1] 11 ^^^ gmul a[2] 13 ^^^ gmul a[3] 9,
  gmul a[0] 9 ^^^ gmul a[1] 14 ^^^ gmul a[2] 11 ^^^ gmul a[3] 13,
  gmul a[0] 13 ^^^ gmul a[1] 9 ^^^ gmul a[2] 14 ^^^ gmul a[3] 11,
  gmul a[0] 11 ^^^ gmul a[1] 13 ^^^ gmul a[2] 9 ^^^ gmul a[3] 14]

/-- `inv_mix_columns` -/
def invMixColumns : Block → Block := onColumns invMixColumn

end Steps

section Blocks

/-- The rounds between the first and the last key. -/
def innerRounds : List ℕ := [1, 2, 3, 4, 5, 6, 7, 8, 9]

/-- `aes128_encrypt_block` -/
def aes128EncryptBlock (rk : List Byte) (s : Block) : Block :=
  let s := addRoundKey (roundKey rk 0) s
  let s := innerRounds.foldl (fun s r => addRoundKey (roundKey rk r) (mixColumns (shiftRows (subBytes s)))) s
  addRoundKey (roundKey rk 10) (shiftRows (subBytes s))

/-- `aes128_decrypt_block` -/
def aes128DecryptBlock (rk : List Byte) (s : Block) : Block :=
  let s := addRoundKey (roundKey rk 10) s
  let s := innerRounds.reverse.foldl (fun s r => invMixColumns (addRoundKey (roundKey rk r) (invSubBytes (invShiftRows s)))) s
  addRoundKey (roundKey rk 0) (invSubBytes (invShiftRows s))

/-- The first block of a buffer. -/
def blockOf (buf : List Byte) : Block := Vector.ofFn fun i => buf.getD i 0

/-- A block with the bytes of another one over it. -/
def masked (blk prev : Block) : Block := blk.zipWith (· ^^^ ·) prev

/-- The turns of `aes128_cbc_encrypt`. -/
def cbcEncryptLoop (rk : List Byte) : ℕ → Block → List Byte → List Byte
  | 0, _, buf => buf
  | turns + 1, prev, buf =>
    let blk := aes128EncryptBlock rk (masked (blockOf buf) prev)
    blk.toList ++ cbcEncryptLoop rk turns blk (buf.drop 16)

/-- The turns of `aes128_cbc_decrypt`. -/
def cbcDecryptLoop (rk : List Byte) : ℕ → Block → List Byte → List Byte
  | 0, _, buf => buf
  | turns + 1, prev, buf =>
    let cipher := blockOf buf
    (masked (aes128DecryptBlock rk cipher) prev).toList ++ cbcDecryptLoop rk turns cipher (buf.drop 16)

/-- `aes128_cbc_encrypt`, as long as there is a whole block. -/
def aes128CbcEncrypt (key iv : Block) (buf : List Byte) : List Byte :=
  cbcEncryptLoop (aes128KeyExpand key) (buf.length / 16) iv buf

/-- `aes128_cbc_decrypt` -/
def aes128CbcDecrypt (key iv : Block) (buf : List Byte) : List Byte :=
  cbcDecryptLoop (aes128KeyExpand key) (buf.length / 16) iv buf

end Blocks

end KosTool.Aes
