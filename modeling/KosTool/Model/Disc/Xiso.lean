import KosTool.Math.Placement
import KosTool.Model.Disc.Iso9660
import Mathlib.Data.List.Sort

/-! # The XISO images of `mkxiso-lite`

`make-dist/tools/mkxiso-lite.c`: the scan of a directory tree, the search trees of its tables, the sectors that are given
out in the order of a queue, and what is written to the image.
-/

namespace KosTool.Xiso

open ByteWord WordPatch Placement
open Elf2irx (orDie)
open IsoLite (ascii le16 leNat)

/-- `SECTOR` -/
def sectorSize : ℕ := 2048

/-- `RESERVED_SEC` -/
def reservedSec : ℕ := 32

/-- `ALIGN_SECTORS` -/
def alignSectors : ℕ := 32

/-- `XDVDFS_MAGIC` -/
def xdvdfsMagic : List Byte := ascii "MICROSOFT*XBOX*MEDIA"

/-- `sec_count` -/
def secCount (bytes : ℕ) : ℕ := (bytes + sectorSize - 1) % 2 ^ 32 / sectorSize

/-- `align_up`, to a power of two. -/
def alignUp (v a : ℕ) : ℕ := (v + a - 1) % 2 ^ 32 / a * a

/-- A file or a directory. -/
inductive Node where
  | file (name data : List Byte)
  | dir (name : List Byte) (kids : List Node)

namespace Node

def name : Node → List Byte
  | file name _ => name
  | dir name _ => name

def isDir : Node → Bool
  | file _ _ => false
  | dir _ _ => true

end Node

section Names

/-- `up` -/
def up (c : Byte) : Byte := if 0x61#8 ≤ c ∧ c ≤ 0x7A#8 then c - 0x20 else c

/-- `xdvdfs_cmp`, on names without their terminators. -/
def xdvdfsCmp : List Byte → List Byte → ℤ
  | [], [] => 0
  | [], b :: _ => 0 - (b.toNat : ℤ)
  | a :: _, [] => (a.toNat : ℤ) - 0
  | a :: as, b :: bs =>
    let d := ((up a).toNat : ℤ) - (up b).toNat
    if d ≠ 0 then d else xdvdfsCmp as bs

/-- `skip_name` -/
def skipName (n : List Byte) : Bool :=
  n == ascii "." || n == ascii ".." || n == ascii ".DS_Store" || n == ascii "Thumbs.db" || n.take 2 == ascii "._"

/-- The name of a node: a text of at most 255 bytes, up to its terminator. -/
def nodeName (name : List Byte) : List Byte := (name.takeWhile (· != 0)).take 255

/-- The order that the children of a directory are sorted to. -/
def NodeLe (a b : Node) : Prop := xdvdfsCmp a.name b.name ≤ 0

instance (a b : Node) : Decidable (NodeLe a b) := inferInstanceAs (Decidable (_ ≤ _))

end Names

mutual

/-- `scan`, of what the directories of the host hold. -/
def scan : Node → Except String Node
  | .file name data => do
    orDie (data.length ≤ 0xFFFFFFFF) "file larger than 4 GiB"
    return .file (nodeName name) data
  | .dir name entries => do
    let kids ← scanAll entries
    return .dir (nodeName name) (kids.insertionSort NodeLe)

def scanAll : List Node → Except String (List Node)
  | [] => .ok []
  | entry :: rest =>
    if skipName entry.name then scanAll rest
    else do
      let kid ← scan entry
      let others ← scanAll rest
      return kid :: others

end

section Tables

/-- `entry_bytes` -/
def entryBytes (n : Node) : ℕ := (14 + n.name.length + 3) / 4 * 4

/-- The offset of an entry in its table, and those of the subtrees in words. -/
structure Slot where
  entOff : ℕ
  left : ℕ
  right : ℕ
deriving DecidableEq

/-- The entries that a subtree was given, the cursor behind it, and the offset of its root in words. -/
structure Laid where
  slots : List Slot
  cursor : ℕ
  root : ℕ

/-- `layout_tree`, on the entries of a range by their sizes. A range is split at the middle of what it has. -/
def layoutTree : ℕ → List ℕ → ℕ → Laid
  | _, [], cursor => ⟨[], cursor, 0⟩
  | 0, _, cursor => ⟨[], cursor, 0⟩
  | steps + 1, bytes, cursor =>
    let mid := (bytes.length - 1) / 2
    let left := layoutTree steps (bytes.take mid) ((cursor + bytes.getD mid 0) % 2 ^ 32)
    let right := layoutTree steps (bytes.drop (mid + 1)) left.cursor
    ⟨left.slots ++ [⟨cursor, left.root, right.root⟩] ++ right.slots, right.cursor, cursor / 4 % 2 ^ 16⟩

/-- The table of a directory. -/
def tableOf (kids : List Node) : Laid := layoutTree kids.length (kids.map entryBytes) 0

/-- The size of a node: that of its data, or of its table. -/
def Node.size : Node → ℕ
  | .file _ data => data.length
  | .dir _ kids => (tableOf kids).cursor

end Tables

/-- A child with its entry and its sector. A directory has its place in the queue. -/
structure PlacedKid where
  node : Node
  index : ℕ
  slot : Slot
  start : ℕ
  child : ℕ

/-- A directory with its sector, and its children in the order of their entries. -/
structure PlacedDir where
  start : ℕ
  nodes : List Node
  kids : List PlacedKid

section Sectors

/-- A child with its number and its entry. -/
structure Listed where
  node : Node
  index : ℕ
  slot : Slot

/-- The children of a directory in the order of their entries. -/
def preorder (nodes : List Node) : List Listed :=
  ((nodes.zip (tableOf nodes).slots).zipIdx.map fun ((node, slot), index) => ⟨node, index, slot⟩).insertionSort
    fun a b => a.slot.entOff ≤ b.slot.entOff

/-- The sectors that the children are given, and the ends of the sectors and of the queue. -/
def placeKids : List Listed → ℕ → ℕ → List PlacedKid × ℕ × ℕ
  | [], cursor, tail => ([], cursor, tail)
  | c :: rest, cursor, tail =>
    let start := if c.node.size = 0 then 0 else cursor
    let (others, last) := placeKids rest ((cursor + secCount c.node.size) % 2 ^ 32) (if c.node.isDir then tail + 1 else tail)
    (⟨c.node, c.index, c.slot, start, tail⟩ :: others, last)

/-- The directories among placed children, with their sectors, as they are put into the queue. -/
def pushed (kids : List PlacedKid) : List (ℕ × List Node) :=
  kids.filterMap fun kid =>
    match kid.node with
    | .file _ _ => none
    | .dir _ nodes => some (kid.start, nodes)

/-- The turns of `assign_sectors` on a queue: the directories that are taken out, and the first free sector. -/
def assign : ℕ → List (ℕ × List Node) → ℕ → ℕ → List PlacedDir × ℕ
  | _, [], cursor, _ => ([], cursor)
  | 0, _, cursor, _ => ([], cursor)
  | steps + 1, (start, nodes) :: queue, cursor, tail =>
    let (kids, cursor, tail) := placeKids (preorder nodes) cursor tail
    let (others, last) := assign steps (queue ++ pushed kids) cursor tail
    (⟨start, nodes, kids⟩ :: others, last)

mutual

/-- A sum over a node and all below it. -/
def treeSum (f : Node → ℕ) : Node → ℕ
  | .file name data => f (.file name data)
  | .dir name kids => f (.dir name kids) + forestSum f kids

def forestSum (f : Node → ℕ) : List Node → ℕ
  | [] => 0
  | node :: rest => treeSum f node + forestSum f rest

end

/-- The number of directories below. -/
def dirCount (nodes : List Node) : ℕ := forestSum (fun node => if node.isDir then 1 else 0) nodes

/-- `assign_sectors`. Each directory is taken out of the queue once. -/
def assignSectors (nodes : List Node) : List PlacedDir × ℕ :=
  assign (dirCount nodes + 1) [(reservedSec + 1, nodes)]
    ((reservedSec + 1 + secCount (tableOf nodes).cursor) % 2 ^ 32) 1

end Sectors

section Emission

/-- `ATTR_DIR` or `ATTR_ARCHIVE` -/
def Node.attr (node : Node) : Byte := if node.isDir then 0x10 else 0x20

/-- The bytes of an entry. -/
def entryOf (kid : PlacedKid) : List Byte :=
  le16 kid.slot.left ++ le16 kid.slot.right ++ leNat kid.start ++ leNat kid.node.size ++
    [kid.node.attr, BitVec.ofNat 8 kid.node.name.length] ++ kid.node.name

/-- The children in the order of their names again. -/
def PlacedDir.byName (dir : PlacedDir) : List PlacedKid := dir.kids.insertionSort fun a b => a.index ≤ b.index

/-- `emit_dir_table` -/
def emitDirTable (dir : PlacedDir) (img : Buffer) : Buffer :=
  let t := dir.start * sectorSize
  place (dir.byName.map fun kid => ⟨t + kid.slot.entOff, entryOf kid⟩)
    (storeAt img t (List.replicate (tableOf dir.nodes).cursor 0xFF))

/-- `emit_file` -/
def emitFile (start : ℕ) (data : List Byte) (img : Buffer) : Buffer := storeAt img (start * sectorSize) data

/-- `emit_all`, from a directory by its place in the queue. No path of directories is longer than all of them. -/
def emitAll (dirs : List PlacedDir) : ℕ → ℕ → Buffer → Buffer
  | 0, _, img => img
  | steps + 1, i, img =>
    match dirs[i]? with
    | none => img
    | some dir => dir.byName.foldl (fun img kid =>
        match kid.node with
        | .file _ data => emitFile kid.start data img
        | .dir _ _ => emitAll dirs steps kid.child img) (emitDirTable dir img)

/-- The volume descriptor. -/
def volume (start size : ℕ) : List Piece :=
  let vd := reservedSec * sectorSize
  [⟨vd, xdvdfsMagic⟩, ⟨vd + 0x14, leNat start⟩, ⟨vd + 0x18, leNat size⟩, ⟨vd + 0x7EC, xdvdfsMagic⟩]

/-- The output, with the directories that it was made of. -/
structure Image where
  bytes : Buffer
  sectors : ℕ
  dirs : List PlacedDir

/-- The image of the children of the source directory. -/
def imageOf (nodes : List Node) : Image :=
  let (dirs, last) := assignSectors nodes
  let blank := place (volume (reservedSec + 1) (tableOf nodes).cursor) fun _ => 0
  ⟨emitAll dirs dirs.length 0 blank, alignUp last alignSectors, dirs⟩

/-- The tool. -/
def mkxiso (source : Node) : Except String (List Node × Image) := do
  let root ← scan source
  match root with
  | .file _ _ => .error "source must be a directory"
  | .dir _ nodes => return (nodes, imageOf nodes)

end Emission

end KosTool.Xiso
