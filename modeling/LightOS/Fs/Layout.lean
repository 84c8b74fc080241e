import LightOS.Foundation.Memory
import LightOS.Foundation.Words
import Mathlib.Algebra.GroupWithZero.Nat
import Mathlib.Logic.Function.Basic

/-!
# Layout of a file system

The constants and on-disk structures of `fs.h` as views of byte memory.  A disk
is a memory for each block of each device, which is what the buffer cache shows
to its clients.  The device begins with a boot block, the super block, the
bitmaps of inodes and of zones and the table of inode descriptors; the data zones
follow.
-/

namespace LightOS

/-- `BLOCK_SIZE`. -/
abbrev blockSize : Nat := 1024

/-- `BLOCK_BITS`. -/
abbrev blockBits : Nat := blockSize * 8

/-- `BLOCK_INODES`: the structure `inode_desc_t` takes 32 bytes. -/
abbrev blockInodes : Nat := blockSize / 32

/-- `BLOCK_DENTRIES`: the structure `dentry_t` takes 16 bytes. -/
abbrev blockDentries : Nat := blockSize / 16

/-- `DIRECT_BLOCKS`. -/
abbrev directBlocks : Nat := 7

/-- `BLOCK_INDEXES`. -/
abbrev blockIndexes : Nat := blockSize / 2

/-- `TOTAL_BLOCKS`. -/
abbrev totalBlocks : Nat :=
  directBlocks + blockIndexes + blockIndexes * blockIndexes

/-- `FILE_MAX_SIZE`. -/
abbrev fileMaxSize : Nat := blockSize

/-- `NAME_LEN`. -/
abbrev nameLen : Nat := 14

/-- `IMAP_NR` and `ZMAP_NR`. -/
abbrev mapNr : Nat := 8

/-- `FS_SUPER_BLOCK_NR`. -/
abbrev superBlockNr : Nat := 1

/-- `FS_IMAP_BLOCK_NR`. -/
abbrev imapBlockNr : Nat := 2

/-- `MINIX_V1_MAGIC`. -/
abbrev minixMagic : Nat := 0x137F

/-- Content of the blocks of all devices, by device and block number.  A device of the source
has the blocks below `zones` of its super block; what is stored behind them is lost there, or
the driver stops. -/
abbrev Volumes := Nat → Nat → Memory

/-- Replace one block. -/
def Volumes.write
    (volumes : Volumes) (dev block : Nat) (memory : Memory) : Volumes :=
  Function.update volumes dev (Function.update (volumes dev) block memory)

@[simp] theorem Volumes.write_self
    (volumes : Volumes) (dev block : Nat) (memory : Memory) :
    volumes.write dev block memory dev block = memory := by
  simp [write]

theorem Volumes.write_other
    (volumes : Volumes) {dev block otherDev otherBlock : Nat} (memory : Memory)
    (different : ¬(otherDev = dev ∧ otherBlock = block)) :
    volumes.write dev block memory otherDev otherBlock =
      volumes otherDev otherBlock := by
  unfold write
  by_cases sameDev : otherDev = dev
  · subst sameDev
    have differs : otherBlock ≠ block := fun same => different ⟨rfl, same⟩
    simp [differs]
  · simp [sameDev]

/-- The structure `super_desc_t`. -/
structure SuperDesc where
  inodes : Nat
  zones : Nat
  imapBlocks : Nat
  zmapBlocks : Nat
  firstdatazone : Nat
  logZoneSize : Nat
  maxSize : Nat
  magic : Nat
  deriving DecidableEq, Repr

namespace SuperDesc

/-- The descriptor at the start of a block. -/
def read (memory : Memory) : SuperDesc where
  inodes := memory.half 0
  zones := memory.half 2
  imapBlocks := memory.half 4
  zmapBlocks := memory.half 6
  firstdatazone := memory.half 8
  logZoneSize := memory.half 10
  maxSize := memory.word 12
  magic := memory.half 16

/-- Assign all fields of the descriptor. -/
def store (memory : Memory) (desc : SuperDesc) : Memory :=
  let memory := memory.setHalf 0 desc.inodes
  let memory := memory.setHalf 2 desc.zones
  let memory := memory.setHalf 4 desc.imapBlocks
  let memory := memory.setHalf 6 desc.zmapBlocks
  let memory := memory.setHalf 8 desc.firstdatazone
  let memory := memory.setHalf 10 desc.logZoneSize
  let memory := memory.setWord 12 desc.maxSize
  memory.setHalf 16 desc.magic

end SuperDesc

/-- The entries of the array `zone` have numerals. -/
instance (priority := 2000) nine_neZero : NeZero 9 :=
  ⟨by decide⟩

/-- The structure `inode_desc_t`. -/
structure InodeDesc where
  mode : Nat
  uid : Nat
  size : Nat
  mtime : Nat
  gid : Nat
  nlinks : Nat
  zone : Fin 9 → Nat

namespace InodeDesc

/-- The descriptor at an address of a block. -/
def read (memory : Memory) (start : Nat) : InodeDesc where
  mode := memory.half start
  uid := memory.half (start + 2)
  size := memory.word (start + 4)
  mtime := memory.word (start + 8)
  gid := (memory (start + 12)).toNat
  nlinks := (memory (start + 13)).toNat
  zone := fun index => memory.half (start + 14 + 2 * index)

def setMode (value : Nat) (memory : Memory) (start : Nat) : Memory :=
  memory.setHalf start value

def setUid (value : Nat) (memory : Memory) (start : Nat) : Memory :=
  memory.setHalf (start + 2) value

def setSize (value : Nat) (memory : Memory) (start : Nat) : Memory :=
  memory.setWord (start + 4) value

def setMtime (value : Nat) (memory : Memory) (start : Nat) : Memory :=
  memory.setWord (start + 8) value

def setGid (value : Nat) (memory : Memory) (start : Nat) : Memory :=
  memory.setByte (start + 12) value

def setNlinks (value : Nat) (memory : Memory) (start : Nat) : Memory :=
  memory.setByte (start + 13) value

def setZone (index : Fin 9) (value : Nat) (memory : Memory) (start : Nat) :
    Memory :=
  memory.setHalf (start + 14 + 2 * index) value

end InodeDesc

/-- The structure `dentry_t`; the bytes of the name are read from `name` on. -/
structure Dentry where
  nr : Nat
  name : Nat → UInt8

namespace Dentry

/-- The entry at an address of a block. -/
def read (memory : Memory) (start : Nat) : Dentry where
  nr := memory.half start
  name := fun index => memory (start + 2 + index)

def setNr (value : Nat) (memory : Memory) (start : Nat) : Memory :=
  memory.setHalf start value

end Dentry

/-! ## File modes -/

/-- `IFMT`. -/
abbrev ifmt : Nat := 0o170000

/-- `IFREG`. -/
abbrev ifreg : Nat := 0o100000

/-- `IFBLK`. -/
abbrev ifblk : Nat := 0o060000

/-- `IFDIR`. -/
abbrev ifdir : Nat := 0o040000

/-- `IFCHR`. -/
abbrev ifchr : Nat := 0o020000

/-- `ISVTX`. -/
abbrev isvtx : Nat := 0o001000

/-- `ISFILE`. -/
def isFile (mode : Nat) : Bool :=
  mode &&& ifmt = ifreg

/-- `ISBLK`. -/
def isBlk (mode : Nat) : Bool :=
  mode &&& ifmt = ifblk

/-- `ISDIR`. -/
def isDir (mode : Nat) : Bool :=
  mode &&& ifmt = ifdir

/-- `ISCHR`. -/
def isChr (mode : Nat) : Bool :=
  mode &&& ifmt = ifchr

/-- `P_EXEC`. -/
abbrev pExec : Nat := 0o1

/-- `P_WRITE`. -/
abbrev pWrite : Nat := 0o2

/-- `O_RDONLY`. -/
abbrev oRdonly : Nat := 0o0

/-- `O_WRONLY`. -/
abbrev oWronly : Nat := 0o1

/-- `O_ACCMODE`. -/
abbrev oAccmode : Nat := 0o3

/-- `O_CREAT`. -/
abbrev oCreat : Nat := 0o100

/-- `O_TRUNC`. -/
abbrev oTrunc : Nat := 0o1000

/-- `O_APPEND`. -/
abbrev oAppend : Nat := 0o2000

/-- `ACC_MODE`, as the unsigned 16-bit argument of `permission`: the last
character of the table is negative. -/
def accMode (flag : Nat) : Nat :=
  match flag &&& oAccmode with
  | 0 => 0o4
  | 1 => 0o2
  | 2 => 0o6
  | _ => 0xFFFF

end LightOS
