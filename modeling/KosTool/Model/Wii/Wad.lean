import KosTool.Math.ByteOrder
import KosTool.Math.Placement
import KosTool.Model.Wii.Aes

/-! # The WAD files of `mkwad`

`make-dist/tools/mkwad/wad.c`: the ticket, the TMD with its content records, the encrypted contents, and the file that they
are put into. `sha1` and the certificates are parameters, and so is the key of the title. A length is what `size_t` holds.
-/

namespace KosTool.Wad

open ByteWord BigEndian Placement
open Aes

/-- `ALIGN_UP`, to a power of two. -/
def alignUp (x a : ℕ) : ℕ := (x + (a - 1)) / a * a

/-- `TICKET_SIZE` -/
def ticketSize : ℕ := 0x2a4

/-- `TMD_HEADER` -/
def tmdHeader : ℕ := 0x1e4

/-- `CR_SIZE` -/
def crSize : ℕ := 0x24

def zeros (count : ℕ) : List Byte := List.replicate count 0

def ascii (text : String) : List Byte := text.toList.map fun c => BitVec.ofNat 8 c.toNat

/-- `KOS_TITLE_KEY` -/
def kosTitleKey : Block := blockOf (ascii "kosload-wii-chan")

/-- `put_be16` -/
def putBe16 (p v : ℕ) : Piece := ⟨p, bytesBe 2 v⟩

/-- `put_be32` -/
def putBe32 (p v : ℕ) : Piece := ⟨p, bytesBe 4 v⟩

/-- `put_be64` -/
def putBe64 (p v : ℕ) : Piece := ⟨p, bytesBe 8 v⟩

/-- `sha1` -/
abbrev Sha1 := List Byte → Vector Byte 20

section Fakesign

variable (sha1 : Sha1)

/-- The turns of the search in `fakesign`, which starts again once it has been through all numbers. -/
def fakesignLoop (blobLen scratchOff : ℕ) : ℕ → Word → Buffer → Option Buffer
  | 0, _, _ => none
  | turns + 1, n, blob =>
    let blob := storeAt blob scratchOff (be32 n)
    let digest := sha1 (slice blob 0x140 (blobLen - 0x140))
    if digest[0] = 0 then some blob else fakesignLoop blobLen scratchOff turns (n + 1) blob

/-- `fakesign`. The search that does not end has no result. -/
def fakesign (blob : Buffer) (blobLen scratchOff : ℕ) : Option Buffer :=
  fakesignLoop sha1 blobLen scratchOff (2 ^ 32) 0 (storeAt blob 4 (zeros 0x100))

/-- What `build_ticket` puts into the ticket. -/
def ticketPieces (titleId : ℕ) (encTitleKey : List Byte) : List Piece :=
  [putBe32 0x000 0x00010001, ⟨0x140, ascii "Root-CA00000001-XS00000003"⟩, ⟨0x1bf, encTitleKey⟩, putBe64 0x1d0 1,
    putBe64 0x1dc titleId, putBe16 0x1e4 0xffff, ⟨0x1f1, [0]⟩, ⟨0x222, List.replicate 32 0xff⟩]

/-- `build_ticket` -/
def buildTicket (titleId : ℕ) (encTitleKey : List Byte) : Option Buffer :=
  fakesign sha1 (place (ticketPieces titleId encTitleKey) fun _ => 0) ticketSize 0x1f4

/-- `content_rec_t` -/
structure ContentRec where
  cid : ℕ
  index : ℕ
  type : ℕ
  size : ℕ
  sha1 : List Byte
deriving DecidableEq

/-- What `build_tmd` puts in for a content. -/
def recordPieces (r : ℕ) (rec : ContentRec) : List Piece :=
  [putBe32 r rec.cid, putBe16 (r + 0x04) rec.index, putBe16 (r + 0x06) rec.type, putBe64 (r + 0x08) rec.size,
    ⟨r + 0x10, rec.sha1⟩]

/-- What the tool is told about a title. -/
structure Title where
  titleId : ℕ
  ios : ℕ
  region : ℕ
  titleVersion : ℕ
  bootIndex : ℕ

/-- What `build_tmd` puts into the TMD. -/
def tmdPieces (title : Title) (recs : List ContentRec) : List Piece :=
  [putBe32 0x000 0x00010001, ⟨0x140, ascii "Root-CA00000001-CP00000004"⟩, putBe64 0x184 (0x0000000100000000 ||| title.ios),
    putBe64 0x18c title.titleId, putBe32 0x194 0, ⟨0x198, ascii "HB"⟩, putBe16 0x19c title.region, putBe32 0x1d8 3,
    putBe16 0x1dc title.titleVersion, putBe16 0x1de recs.length, putBe16 0x1e0 title.bootIndex] ++
    recs.zipIdx.flatMap fun (rec, i) => recordPieces (tmdHeader + i * crSize) rec

/-- The length of the TMD. -/
def tmdLen (recs : List ContentRec) : ℕ := tmdHeader + recs.length * crSize

/-- `build_tmd` -/
def buildTmd (title : Title) (recs : List ContentRec) : Option Buffer :=
  fakesign sha1 (place (tmdPieces title recs) fun _ => 0) (tmdLen recs) 0x1c6

/-- `encrypt_content`, for a content with a number that its caller gives. -/
def encryptContent (titleKey : Block) (cid : ℕ) (plain : List Byte) (index : ℕ) : ContentRec × List Byte :=
  let encLen := alignUp plain.length 16
  let buf := plain ++ zeros (encLen - plain.length)
  let iv := blockOf (bytesBe 2 index)
  (⟨cid, index, 1, plain.length, (sha1 plain).toList⟩, aes128CbcEncrypt titleKey iv buf)

end Fakesign

section Assembly

/-- The size of the content data. -/
def dataSize (lengths : List ℕ) : ℕ := alignUp (lengths.foldl (fun sz encLen => alignUp sz 0x40 + encLen) 0) 0x40

/-- The contents from an offset on, each aligned. -/
def contentPieces : List (List Byte) → ℕ → List Piece
  | [], _ => []
  | enc :: rest, cur => ⟨alignUp cur 0x40, enc⟩ :: contentPieces rest (alignUp cur 0x40 + enc.length)

/-- The offsets of the parts. -/
structure Offsets where
  cert : ℕ
  tik : ℕ
  tmd : ℕ
  data : ℕ

/-- The offsets of parts with these sizes. -/
def offsets (header certSz tikSz tmdSz : ℕ) : Offsets :=
  let cert := alignUp header 0x40
  let tik := alignUp (cert + certSz) 0x40
  let tmd := alignUp (tik + tikSz) 0x40
  ⟨cert, tik, tmd, alignUp (tmd + tmdSz) 0x40⟩

/-- `write_wad` -/
def writeWad (certs tik tmd : List Byte) (enc : List (List Byte)) : List Byte :=
  let dataSz := dataSize (enc.map List.length)
  let off := offsets 0x20 certs.length ticketSize tmd.length
  let total := alignUp (off.data + dataSz) 0x40
  slice (place ([putBe32 0x00 0x20, ⟨0x04, ascii "Is"⟩, putBe16 0x06 0, putBe32 0x08 certs.length, putBe32 0x0c 0,
    putBe32 0x10 ticketSize, putBe32 0x14 tmd.length, putBe32 0x18 dataSz, putBe32 0x1c 0, ⟨off.cert, certs⟩, ⟨off.tik, tik⟩,
    ⟨off.tmd, tmd⟩] ++ contentPieces enc off.data) fun _ => 0) 0 total

/-- The title id: the high word of channels and four characters. -/
def titleIdOf (tid4 : Vector Byte 4) : ℕ := 0x00010001 * 2 ^ 32 + readBe tid4.toList

/-- `main`, with what it has read: the file, if both searches end. -/
def mkwad (sha1 : Sha1) (certs : Vector Byte 2560) (titleKey commonKey : Block) (title : Title) (banner dol : List Byte) :
    Option (List Byte) := do
  let (rec0, enc0) := encryptContent sha1 titleKey 0 banner 0
  let (rec1, enc1) := encryptContent sha1 titleKey 1 dol 1
  let encTk := aes128CbcEncrypt commonKey (blockOf (bytesBe 8 title.titleId)) titleKey.toList
  let tik ← buildTicket sha1 title.titleId encTk
  let tmd ← buildTmd sha1 title [rec0, rec1]
  return writeWad certs.toList (slice tik 0 ticketSize) (slice tmd 0 (tmdLen [rec0, rec1])) [enc0, enc1]

end Assembly

end KosTool.Wad
