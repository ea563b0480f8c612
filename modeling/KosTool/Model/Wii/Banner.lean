import KosTool.Math.ByteWord

/-! # The compression of a banner

`make-dist/tools/mkwad/banner.c`: the growable buffer and `lz77_store`. What the array `prev` holds when it is allocated is
a parameter, and so is nothing else: every other variable is set before it is read.
-/

namespace KosTool.Banner

open ByteWord

/-- `buf_t`, of which `len` is the length of what was put in. -/
structure Buf where
  p : List Byte
  cap : ℕ

namespace Buf

/-- `bput`; it allocates anew what would not fit. -/
def bput (b : Buf) (d : List Byte) : Buf where
  p := b.p ++ d
  cap := if b.cap < b.p.length + d.length then (b.p.length + d.length) * 2 + 64 else b.cap

/-- `bu8` -/
def bu8 (b : Buf) (v : Byte) : Buf := b.bput [v]

end Buf

/-- `src[i]` -/
def at' (src : List Byte) (i : ℕ) : Byte := src.getD i 0

/-- `LZ_HSIZE - 1` -/
abbrev lzHashMask : Word := 0x7fff

/-- `lz_hash3(src + i)` -/
def lzHash3 (src : List Byte) (i : ℕ) : Word :=
  (((at' src i).setWidth 32 <<< 10) ^^^ ((at' src (i + 1)).setWidth 32 <<< 5) ^^^ (at' src (i + 2)).setWidth 32) &&& lzHashMask

/-- The variables of the loop over `pos`. -/
structure Lz where
  b : Buf
  head : Word → ℤ
  prev : ℕ → ℤ
  pos : ℕ

/-- The loop over `l`, with how far it may still go. -/
def matchLength (src : List Byte) (cand pos : ℕ) : ℕ → ℕ → ℕ
  | 0, l => l
  | left + 1, l => if at' src (cand + l) = at' src (pos + l) then matchLength src cand pos left (l + 1) else l

/-- `best_len` and `best_disp`. -/
structure Best where
  len : ℕ
  disp : ℕ

/-- The loop over `cand`, with `depth`. -/
def searchChain (src : List Byte) (prev : ℕ → ℤ) (pos maxLen winStart : ℕ) : ℕ → ℤ → Best → Best
  | 0, _, best => best
  | depth + 1, cand, best =>
    if 0 ≤ cand ∧ winStart ≤ cand.toNat then
      if at' src (cand.toNat + best.len) = at' src (pos + best.len) then
        let l := matchLength src cand.toNat pos maxLen 0
        if best.len < l then
          if l = maxLen then ⟨l, pos - cand.toNat⟩
          else searchChain src prev pos maxLen winStart depth (prev cand.toNat) ⟨l, pos - cand.toNat⟩
        else searchChain src prev pos maxLen winStart depth (prev cand.toNat) best
      else searchChain src prev pos maxLen winStart depth (prev cand.toNat) best
    else best

/-- The search at a position. -/
def bestMatch (src : List Byte) (lz : Lz) : Best :=
  let maxLen := min (src.length - lz.pos) 18
  if 3 ≤ maxLen then
    searchChain src lz.prev lz.pos maxLen (if 4096 < lz.pos then lz.pos - 4096 else 0) 64 (lz.head (lzHash3 src lz.pos)) ⟨0, 0⟩
  else ⟨0, 0⟩

/-- A position is entered at the head of its chain, if three bytes start there. -/
def enter (src : List Byte) (lz : Lz) (i : ℕ) : Lz :=
  if i + 2 < src.length then
    { lz with
      prev := Function.update lz.prev i (lz.head (lzHash3 src i))
      head := Function.update lz.head (lzHash3 src i) i }
  else lz

/-- The loop over `k`. -/
def enterAll (src : List Byte) (lz : Lz) (count : ℕ) : Lz :=
  (List.range count).foldl (fun entered k => enter src entered (lz.pos + k)) lz

/-- One pass of the loop over `bit`. -/
def storeToken (src : List Byte) (bit : ℕ) (flag : Byte) (lz : Lz) : Byte × Lz :=
  let best := bestMatch src lz
  if 3 ≤ best.len then
    let tok : BitVec 16 := (BitVec.ofNat 16 (best.len - 3) <<< 12) ||| BitVec.ofNat 16 (best.disp - 1)
    let entered := enterAll src { lz with b := (lz.b.bu8 ((tok >>> 8).setWidth 8)).bu8 (tok.setWidth 8) } best.len
    (flag ||| (0x80#8 >>> bit), { entered with pos := entered.pos + best.len })
  else
    let entered := enter src lz lz.pos
    (flag, { entered with b := entered.b.bu8 (at' src entered.pos), pos := entered.pos + 1 })

/-- The loop over `bit`, with the passes that are left of the eight. -/
def storeTokens (src : List Byte) : ℕ → Byte → Lz → Byte × Lz
  | 0, flag, lz => (flag, lz)
  | left + 1, flag, lz =>
    if lz.pos < src.length then
      let stored := storeToken src (7 - left) flag lz
      storeTokens src left stored.1 stored.2
    else (flag, lz)

/-- One pass of the loop over `pos`. -/
def storeGroup (src : List Byte) (lz : Lz) : Lz :=
  let stored := storeTokens src 8 0 { lz with b := lz.b.bu8 0 }
  { stored.2 with b := { stored.2.b with p := stored.2.b.p.set lz.b.p.length stored.1 } }

/-- The loop over `pos`; every pass takes a byte at least. -/
def storeGroups (src : List Byte) : ℕ → Lz → Lz
  | 0, lz => lz
  | fuel + 1, lz => if lz.pos < src.length then storeGroups src fuel (storeGroup src lz) else lz

/-- `cap` as it is allocated. -/
def lz77Cap (n : ℕ) : ℕ := 8 + n + n / 8 + 32

/-- `lz77_store`: the buffer that it returns, with what `malloc` left in `prev`. -/
def lz77Store (uninitialised : ℕ → ℤ) (src : List Byte) : Buf :=
  let n : BitVec 64 := BitVec.ofNat 64 src.length
  let b : Buf := (Buf.mk [] (lz77Cap src.length)).bput [0x4c, 0x5a, 0x37, 0x37]
  let b := (((b.bu8 0x10).bu8 (n.setWidth 8)).bu8 ((n >>> 8).setWidth 8)).bu8 ((n >>> 16).setWidth 8)
  (storeGroups src src.length ⟨b, fun _ => -1, uninitialised, 0⟩).b

end KosTool.Banner
