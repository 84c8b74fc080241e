import LightOS.Fs.Layout
import LightOS.Kernel.Fault
import Mathlib.Data.List.Basic

/-!
# State of the file system

The tables of `inode.c` and `super.c` over the blocks of all devices.  Entries
of the tables are named by their index.  A pointer into a buffer is the number
of the block with a place in it; the buffers themselves, their reference counts
and dirty bits are those of the cache and do not appear here.  A reference that
a function takes with `get_super` and gives back with `put_super` before it
returns is not counted.
-/

namespace LightOS

/-- `INODE_NR`. -/
abbrev inodeNr : Nat := 64

/-- `SUPER_NR`. -/
abbrev superNr : Nat := 16

/-- The structure `inode_t`. -/
structure Inode where
  dev : Nat
  nr : Nat
  count : Nat
  mount : Nat
  pipe : Bool
  /-- The block that `cache` buffers. -/
  block : Nat
  /-- Index in that block of the descriptor that `desc` points to. -/
  slot : Nat
  deriving DecidableEq, Repr

/-- The structure `super_block_t`.  A bitmap buffer is named by its block. -/
structure SuperBlock where
  dev : Nat
  count : Nat
  imaps : Nat → Option Nat
  zmaps : Nat → Option Nat
  inodeList : List Nat
  iroot : Option Nat
  imount : Option Nat

/-- The state of the file systems. -/
structure Fs where
  disk : Volumes
  /-- `inode_table`. -/
  inodeTable : Nat → Inode
  /-- `super_table`. -/
  superTable : Nat → SuperBlock
  /-- The time that `sys_time` returns. -/
  time : Nat

/-- What the file system reads of the current task. -/
structure Creds where
  uid : Nat
  gid : Nat
  umask : Nat
  iroot : Nat
  ipwd : Nat
  deriving DecidableEq, Repr

namespace Fs

/-- Content of a block. -/
def block (fs : Fs) (dev number : Nat) : Memory :=
  fs.disk dev number

/-- Replace the content of a block. -/
def writeBlock (fs : Fs) (dev number : Nat) (memory : Memory) : Fs :=
  { fs with disk := fs.disk.write dev number memory }

/-- Change an entry of `inode_table`. -/
def setInode (fs : Fs) (ino : Nat) (inode : Inode) : Fs :=
  { fs with inodeTable := Function.update fs.inodeTable ino inode }

/-- Change an entry of `super_table`. -/
def setSuper (fs : Fs) (sb : Nat) (super : SuperBlock) : Fs :=
  { fs with superTable := Function.update fs.superTable sb super }

/-- Address in its block of the descriptor of an inode. -/
def descStart (fs : Fs) (ino : Nat) : Nat :=
  32 * (fs.inodeTable ino).slot

/-- The descriptor of an inode. -/
def desc (fs : Fs) (ino : Nat) : InodeDesc :=
  InodeDesc.read
    (fs.block (fs.inodeTable ino).dev (fs.inodeTable ino).block)
    (fs.descStart ino)

/-- Change the descriptor of an inode. -/
def modifyDesc (fs : Fs) (ino : Nat) (change : Memory → Nat → Memory) : Fs :=
  let inode := fs.inodeTable ino
  fs.writeBlock inode.dev inode.block
    (change (fs.block inode.dev inode.block) (fs.descStart ino))

/-- The super block that `get_super` finds. -/
def getSuper (fs : Fs) (dev : Nat) : Option Nat :=
  (List.range superNr).find? fun sb => (fs.superTable sb).dev = dev

/-- The descriptor of the super block of a device. -/
def superDesc (fs : Fs) (dev : Nat) : SuperDesc :=
  SuperDesc.read (fs.block dev superBlockNr)

/-! ## Simplification rules for the tables -/

section Tables

variable (fs : Fs) (dev number ino sb : Nat)

@[simp] theorem writeBlock_block_self (memory : Memory) :
    (fs.writeBlock dev number memory).block dev number = memory := by
  simp [block, writeBlock]

theorem writeBlock_block_other {otherDev other : Nat} (memory : Memory)
    (different : ¬(otherDev = dev ∧ other = number)) :
    (fs.writeBlock dev number memory).block otherDev other =
      fs.block otherDev other :=
  Volumes.write_other _ _ different

@[simp] theorem setSuper_block (super : SuperBlock) :
    (fs.setSuper sb super).block = fs.block := rfl

@[simp] theorem writeBlock_inodeTable (memory : Memory) :
    (fs.writeBlock dev number memory).inodeTable = fs.inodeTable := rfl

@[simp] theorem setInode_inodeTable (inode : Inode) :
    (fs.setInode ino inode).inodeTable =
      Function.update fs.inodeTable ino inode := rfl

@[simp] theorem setInode_superTable (inode : Inode) :
    (fs.setInode ino inode).superTable = fs.superTable := rfl

@[simp] theorem setSuper_inodeTable (super : SuperBlock) :
    (fs.setSuper sb super).inodeTable = fs.inodeTable := rfl

@[simp] theorem setSuper_superTable (super : SuperBlock) :
    (fs.setSuper sb super).superTable =
      Function.update fs.superTable sb super := rfl

@[simp] theorem modifyDesc_inodeTable (change : Memory → Nat → Memory) :
    (fs.modifyDesc ino change).inodeTable = fs.inodeTable := rfl

@[simp] theorem modifyDesc_time (change : Memory → Nat → Memory) :
    (fs.modifyDesc ino change).time = fs.time := rfl

end Tables

/-- A super block found for a device carries the device. -/
theorem dev_of_getSuper {fs : Fs} {dev sb : Nat}
    (found : fs.getSuper dev = some sb) :
    (fs.superTable sb).dev = dev ∧ sb < superNr := by
  unfold getSuper at found
  have carries := List.find?_some found
  have inTable := List.mem_of_find?_eq_some found
  exact ⟨by simpa using carries, List.mem_range.mp inTable⟩

/-- `get_super` looks at the devices of the entries only. -/
theorem getSuper_congr {before after : Fs}
    (same : ∀ sb, (after.superTable sb).dev = (before.superTable sb).dev) :
    after.getSuper = before.getSuper := by
  funext dev
  unfold getSuper
  simp only [same]

/-! ## A small file system -/

/-- Memory that begins with given bytes. -/
def bytes (content : List UInt8) : Memory :=
  ⟨fun address => content.getD address 0⟩

/-- The blocks of a device with 40 blocks and 16 inodes.  The root directory has
an entry `f` for inode 2, a file of five bytes that only its owner may use. -/
def smallDisk (number : Nat) : Memory :=
  match number with
  | 1 => bytes [16, 0, 40, 0, 1, 0, 1, 0, 5, 0, 0, 0, 0, 28, 8, 16, 0x7F, 0x13]
  | 2 => bytes [7, 0, 0xFE]
  | 3 => bytes [7]
  | 4 => bytes [
      0xED, 0x41, 0, 0, 48, 0, 0, 0, 0, 0, 0, 0, 0, 2, 5, 0,
      0, 0, 0, 0, 0, 0, 0, 0, 0, 0, 0, 0, 0, 0, 0, 0,
      0x80, 0x81, 0, 0, 5, 0, 0, 0, 0, 0, 0, 0, 0, 1, 6, 0]
  | 5 => bytes [
      1, 0, 46, 0, 0, 0, 0, 0, 0, 0, 0, 0, 0, 0, 0, 0,
      1, 0, 46, 46, 0, 0, 0, 0, 0, 0, 0, 0, 0, 0, 0, 0,
      2, 0, 102]
  | 6 => bytes [104, 101, 108, 108, 111]
  | _ => bytes []

/-- The small device, mounted as the root file system. -/
def small : Fs where
  disk := fun dev => if dev = 1 then smallDisk else fun _ => bytes []
  inodeTable := fun ino =>
    if ino = 0 then ⟨1, 1, 6, 1, false, 4, 0⟩ else ⟨eof, 0, 0, 0, false, 0, 0⟩
  superTable := fun sb =>
    if sb = 0 then
      ⟨1, 1, fun i => if i = 0 then some 2 else none,
        fun i => if i = 0 then some 3 else none, [0], some 0, some 0⟩
    else
      ⟨eof, 0, fun _ => none, fun _ => none, [], none, none⟩
  time := 0

end Fs

end LightOS
