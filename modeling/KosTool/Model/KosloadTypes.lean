import KosTool.Math.ByteOrder

/-! # The structures a guest program sees

`include/kosload/types.h` with `target_order16` and `target_order32` of `host/src/console.c`: a structure as the
values of its fields, and as bytes in the order of the machine that wrote it. The host's own `struct stat` and
`struct dirent` have 64-bit fields here, whatever their width on a given host: only low bits are used.
-/

namespace ByteOrder

open ByteWord

/-- The four bytes a store writes. -/
def bytes32 (order : ByteOrder) (word : Word) : List Byte := be32 (order.htonl word)

@[simp] theorem length_bytes16 (order : ByteOrder) (half : BitVec 16) : (order.bytes16 half).length = 2 := by
  cases order <;> rfl

@[simp] theorem length_bytes32 (order : ByteOrder) (word : Word) : (order.bytes32 word).length = 4 := rfl

/-- A word that has been stored is loaded again. -/
theorem load32_bytes32 (order : ByteOrder) (word : Word) {buffer : Buffer} {offset : ℕ}
    (stored : slice buffer offset 4 = order.bytes32 word) : order.load32 buffer offset = word := by
  have read : be32 (readBe32 buffer offset) = be32 (order.htonl word) := by
    rw [be32_readBe32]
    exact stored
  have same : readBe32 buffer offset = order.htonl word := by
    simp only [be32, List.cons.injEq, and_true] at read
    rw [← ofBe32_extract (readBe32 buffer offset), read.1, read.2.1, read.2.2.1, read.2.2.2, ofBe32_extract]
  rw [load32, same, htonl_htonl]

/-- The halves of a word with its bytes reversed. -/
theorem setWidth_bswap32_setWidth (half : BitVec 16) : (bswap32 (half.setWidth 32)).setWidth 16 = 0#16 := by
  have upper : (half.setWidth 32).extractLsb' 16 8 = 0#8 ∧ (half.setWidth 32).extractLsb' 24 8 = 0#8 := by
    constructor
    · apply BitVec.eq_of_toNat_eq
      have small := half.isLt
      simp only [BitVec.extractLsb'_toNat, BitVec.toNat_setWidth, BitVec.toNat_ofNat, Nat.shiftRight_eq_div_pow]
      omega
    · apply BitVec.eq_of_toNat_eq
      have small := half.isLt
      simp only [BitVec.extractLsb'_toNat, BitVec.toNat_setWidth, BitVec.toNat_ofNat, Nat.shiftRight_eq_div_pow]
      omega
  rw [bswap32, upper.1, upper.2, ofBe32]
  apply BitVec.eq_of_toNat_eq
  simp only [BitVec.toNat_setWidth, BitVec.toNat_append, BitVec.toNat_ofNat]
  rw [Nat.shiftLeft_eq, Nat.shiftLeft_eq]
  simp only [Nat.zero_mod, Nat.or_zero]
  omega

end ByteOrder

namespace KosTool

open ByteWord

/-- The bytes stand at an offset of the buffer. -/
def Holds (buffer : Buffer) (offset : ℕ) (bytes : List Byte) : Prop := slice buffer offset bytes.length = bytes

theorem holds_append {buffer : Buffer} {offset : ℕ} {first second : List Byte} :
    Holds buffer offset (first ++ second) ↔ Holds buffer offset first ∧ Holds buffer (offset + first.length) second := by
  unfold Holds
  rw [List.length_append, slice_add]
  exact ⟨fun same => List.append_inj same (length_slice _ _ _), fun ⟨left, right⟩ => by rw [left, right]⟩

/-- A string of C: its bytes before the terminator. -/
structure CString where
  bytes : List Byte
  no_nul : (0 : Byte) ∉ bytes

/-- The string with its terminator. -/
def CString.terminated (string : CString) : List Byte := string.bytes ++ [0]

/-- A string in guest memory; its size with the terminator is an `unsigned int`. -/
structure GuestString extends CString where
  short : bytes.length + 1 < 2 ^ 32

/-- `strlen(s) + 1`. -/
def GuestString.size (string : GuestString) : Word := BitVec.ofNat 32 (string.bytes.length + 1)

/-- What `strlen` sees of an array of `char`. -/
def cString (array : List Byte) : List Byte := array.takeWhile (· ≠ 0)

theorem GuestString.toNat_size (string : GuestString) : string.size.toNat = string.bytes.length + 1 :=
  (BitVec.toNat_ofNat _ _).trans (Nat.mod_eq_of_lt string.short)

/-- `kosload_stat_t`. -/
@[ext] structure KosloadStat where
  stDev : BitVec 16
  stIno : BitVec 16
  stMode : Word
  stNlink : BitVec 16
  stUid : BitVec 16
  stGid : BitVec 16
  stRdev : BitVec 16
  stSize : Word
  stAtimeVal : Word
  stSpare1 : Word
  stMtimeVal : Word
  stSpare2 : Word
  stCtimeVal : Word
  stSpare3 : Word
  stBlksize : Word
  stBlocks : Word
  stSpare4 : Word × Word
deriving DecidableEq

/-- `kosload_dirent_t`. -/
@[ext] structure KosloadDirent where
  dIno : Word
  dOff : Word
  dReclen : BitVec 16
  dType : Byte
  dName : List Byte
deriving DecidableEq

def sizeofKosloadStat : ℕ := 60
def sizeofKosloadDirent : ℕ := 268
def sizeofDName : ℕ := 256

/-- `DIRENT_OFFSET`. -/
def direntOffset : ℕ := 1337

/-- `MAX_OPEN_DIRS`. -/
def maxOpenDirs : ℕ := 512

namespace KosloadStat

/-- The structure in the memory of a machine. -/
def bytes (order : ByteOrder) (ds : KosloadStat) : List Byte :=
  order.bytes16 ds.stDev ++ (order.bytes16 ds.stIno ++ (order.bytes32 ds.stMode ++ (order.bytes16 ds.stNlink ++
    (order.bytes16 ds.stUid ++ (order.bytes16 ds.stGid ++ (order.bytes16 ds.stRdev ++ (order.bytes32 ds.stSize ++
      (order.bytes32 ds.stAtimeVal ++ (order.bytes32 ds.stSpare1 ++ (order.bytes32 ds.stMtimeVal ++
        (order.bytes32 ds.stSpare2 ++ (order.bytes32 ds.stCtimeVal ++ (order.bytes32 ds.stSpare3 ++
          (order.bytes32 ds.stBlksize ++ (order.bytes32 ds.stBlocks ++
            (order.bytes32 ds.stSpare4.1 ++ order.bytes32 ds.stSpare4.2))))))))))))))))

/-- The structure as a machine reads it. -/
def read (order : ByteOrder) (buffer : Buffer) (offset : ℕ) : KosloadStat where
  stDev := order.load16 buffer offset
  stIno := order.load16 buffer (offset + 2)
  stMode := order.load32 buffer (offset + 4)
  stNlink := order.load16 buffer (offset + 8)
  stUid := order.load16 buffer (offset + 10)
  stGid := order.load16 buffer (offset + 12)
  stRdev := order.load16 buffer (offset + 14)
  stSize := order.load32 buffer (offset + 16)
  stAtimeVal := order.load32 buffer (offset + 20)
  stSpare1 := order.load32 buffer (offset + 24)
  stMtimeVal := order.load32 buffer (offset + 28)
  stSpare2 := order.load32 buffer (offset + 32)
  stCtimeVal := order.load32 buffer (offset + 36)
  stSpare3 := order.load32 buffer (offset + 40)
  stBlksize := order.load32 buffer (offset + 44)
  stBlocks := order.load32 buffer (offset + 48)
  stSpare4 := (order.load32 buffer (offset + 52), order.load32 buffer (offset + 56))

@[simp] theorem length_bytes (order : ByteOrder) (ds : KosloadStat) : (ds.bytes order).length = sizeofKosloadStat := by
  simp only [bytes, List.length_append, ByteOrder.length_bytes16, ByteOrder.length_bytes32, sizeofKosloadStat]

/-- A structure is read as it was written by a machine of the same byte order. -/
theorem read_bytes {order : ByteOrder} {ds : KosloadStat} {buffer : Buffer} {offset : ℕ}
    (held : Holds buffer offset (ds.bytes order)) : read order buffer offset = ds := by
  simp only [bytes, holds_append, ByteOrder.length_bytes16, ByteOrder.length_bytes32, Nat.add_assoc,
    Nat.reduceAdd] at held
  obtain ⟨dev, ino, mode, nlink, uid, gid, rdev, size, atime, spare1, mtime, spare2, ctime, spare3, blksize,
    blocks, spare4, spare5⟩ := held
  have half {half : BitVec 16} {place : ℕ} (stored : Holds buffer place (order.bytes16 half)) :
      order.load16 buffer place = half :=
    order.load16_bytes16 half (by rw [← order.length_bytes16 half]; exact stored)
  have word {word : Word} {place : ℕ} (stored : Holds buffer place (order.bytes32 word)) :
      order.load32 buffer place = word := order.load32_bytes32 word stored
  unfold read
  rw [half dev, half ino, word mode, half nlink, half uid, half gid, half rdev, word size, word atime, word spare1,
    word mtime, word spare2, word ctime, word spare3, word blksize, word blocks, word spare4, word spare5]

end KosloadStat

namespace KosloadDirent

/-- The structure in the memory of a machine, with the byte that pads it. -/
def bytes (order : ByteOrder) (dd : KosloadDirent) : List Byte :=
  order.bytes32 dd.dIno ++ (order.bytes32 dd.dOff ++ (order.bytes16 dd.dReclen ++ ([dd.dType] ++ (dd.dName ++ [0]))))

/-- The structure as a machine reads it. -/
def read (order : ByteOrder) (buffer : Buffer) (offset : ℕ) : KosloadDirent where
  dIno := order.load32 buffer offset
  dOff := order.load32 buffer (offset + 4)
  dReclen := order.load16 buffer (offset + 8)
  dType := buffer (offset + 10)
  dName := slice buffer (offset + 11) sizeofDName

theorem length_bytes (order : ByteOrder) {dd : KosloadDirent} (full : dd.dName.length = sizeofDName) :
    (dd.bytes order).length = sizeofKosloadDirent := by
  simp only [bytes, List.length_append, ByteOrder.length_bytes16, ByteOrder.length_bytes32, full, List.length_singleton,
    sizeofDName, sizeofKosloadDirent]

/-- A structure is read as it was written by a machine of the same byte order. -/
theorem read_bytes {order : ByteOrder} {dd : KosloadDirent} (full : dd.dName.length = sizeofDName) {buffer : Buffer}
    {offset : ℕ} (held : Holds buffer offset (dd.bytes order)) : read order buffer offset = dd := by
  simp only [bytes, holds_append, ByteOrder.length_bytes16, ByteOrder.length_bytes32, List.length_singleton,
    Nat.add_assoc, Nat.reduceAdd] at held
  obtain ⟨ino, off, reclen, type, name, -⟩ := held
  unfold read
  rw [order.load32_bytes32 _ ino, order.load32_bytes32 _ off,
    order.load16_bytes16 _ (by rw [← order.length_bytes16 dd.dReclen]; exact reclen), ← full]
  have typed : buffer (offset + 10) = dd.dType := List.head_eq_of_cons_eq type
  have named : slice buffer (offset + 11) dd.dName.length = dd.dName := name
  rw [typed, named]

end KosloadDirent

/-- The operating systems the host tool is built for. -/
inductive HostSystem where
  | linux
  | apple
  | windows
  | cygwin
deriving DecidableEq, Repr

/-- `struct stat` of the host. -/
structure HostStat where
  stDev : BitVec 64
  stIno : BitVec 64
  stMode : BitVec 64
  stNlink : BitVec 64
  stUid : BitVec 64
  stGid : BitVec 64
  stRdev : BitVec 64
  stSize : BitVec 64
  stBlksize : BitVec 64
  stBlocks : BitVec 64
  stAtime : BitVec 64
  stMtime : BitVec 64
  stCtime : BitVec 64

/-- `struct dirent` of the host. -/
structure HostDirent where
  dIno : BitVec 64
  dOff : BitVec 64
  dReclen : BitVec 16
  dType : Byte
  dName : CString

/-- `d_off`, which only Linux has. -/
def HostDirent.off (system : HostSystem) (de : HostDirent) : BitVec 64 :=
  if system = .linux then de.dOff else 0

/-- `d_reclen`, where the system has it. -/
def HostDirent.reclen (system : HostSystem) (de : HostDirent) : BitVec 16 :=
  if system = .windows ∨ system = .cygwin then 0 else de.dReclen

/-- `d_type`, where the system has it. -/
def HostDirent.type (system : HostSystem) (de : HostDirent) : Byte :=
  if system = .windows ∨ system = .cygwin then 0 else de.dType

/-- `st_blksize`, where the system has it. -/
def HostStat.blksize (system : HostSystem) (st : HostStat) : BitVec 64 :=
  if system = .windows then 0 else st.stBlksize

/-- `st_blocks`, where the system has it. -/
def HostStat.blocks (system : HostSystem) (st : HostStat) : BitVec 64 :=
  if system = .windows then 0 else st.stBlocks

/-- What a guest is meant to see of a `struct stat`: every field cut to its width, the spare words zero. -/
def HostStat.kosload (system : HostSystem) (st : HostStat) : KosloadStat where
  stDev := st.stDev.setWidth 16
  stIno := st.stIno.setWidth 16
  stMode := st.stMode.setWidth 32
  stNlink := st.stNlink.setWidth 16
  stUid := st.stUid.setWidth 16
  stGid := st.stGid.setWidth 16
  stRdev := st.stRdev.setWidth 16
  stSize := st.stSize.setWidth 32
  stAtimeVal := st.stAtime.setWidth 32
  stSpare1 := 0
  stMtimeVal := st.stMtime.setWidth 32
  stSpare2 := 0
  stCtimeVal := st.stCtime.setWidth 32
  stSpare3 := 0
  stBlksize := (st.blksize system).setWidth 32
  stBlocks := (st.blocks system).setWidth 32
  stSpare4 := (0, 0)

/-- What a guest is meant to see of a `struct dirent`, with the name as an array. -/
def HostDirent.kosload (system : HostSystem) (de : HostDirent) (dName : List Byte) : KosloadDirent where
  dIno := de.dIno.setWidth 32
  dOff := (de.off system).setWidth 32
  dReclen := de.reclen system
  dType := de.type system
  dName := dName

/-- `htons`. -/
def htons (host : ByteOrder) (x : BitVec 16) : BitVec 16 :=
  match host with
  | .little => x.extractLsb' 0 8 ++ x.extractLsb' 8 8
  | .big => x

/-- `target_order16` on a host of the given byte order. -/
def targetOrder16 (host : ByteOrder) (targetBigEndian : Bool) (x : BitVec 16) : BitVec 16 :=
  if targetBigEndian then htons host x
  else if host.htonl 1#32 = 1#32 then x <<< 8 ||| x >>> 8
  else x

/-- `target_order32` on a host of the given byte order. -/
def targetOrder32 (host : ByteOrder) (targetBigEndian : Bool) (x : Word) : Word :=
  if targetBigEndian then host.htonl x
  else if host.htonl 1#32 = 1#32 then
    x <<< 24 ||| (x <<< 8 &&& 0xff0000#32) ||| (x >>> 8 &&& 0xff00#32) ||| (x >>> 24 &&& 0xff#32)
  else x

/-- The byte order of a target. -/
def targetByteOrder (targetBigEndian : Bool) : ByteOrder := if targetBigEndian then .big else .little

end KosTool
