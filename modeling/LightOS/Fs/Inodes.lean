import LightOS.Fs.Zones

/-!
# Inodes in memory

The functions of `inode.c`.  An inode that is in use lies on the list of a super
block; `iput` of the last reference takes it off the list and frees its entry of
`inode_table`.
-/

namespace LightOS
namespace Fs

/-- `get_root_inode`. -/
abbrev rootInode : Nat := 0

/-- The entry of `super_table` that the variable `root` points to: `mount_root` is the
first to take one. -/
abbrev rootSuper : Nat := 0

/-- `get_free_inode`. -/
def getFreeInode (fs : Fs) : Except Fault Nat :=
  match (List.range inodeNr).find? fun ino => (fs.inodeTable ino).dev = eof with
  | some ino => .ok ino
  | none => .error .panic

/-- `put_free_inode`. -/
def putFreeInode (fs : Fs) (ino : Nat) : Except Fault Fs := do
  check (ino ≠ rootInode)
  check ((fs.inodeTable ino).count = 0)
  return fs.setInode ino { fs.inodeTable ino with dev := eof }

/-- `inode_block`. -/
def inodeBlock (desc : SuperDesc) (nr : Nat) : Nat :=
  imapBlockNr + desc.imapBlocks + desc.zmapBlocks + sub32 nr 1 / blockInodes

/-- `find_inode`. -/
def findInode (fs : Fs) (dev nr : Nat) : Except Fault (Option Nat) :=
  match fs.getSuper dev with
  | none => .error .assertion
  | some sb =>
      .ok ((fs.superTable sb).inodeList.find? fun ino =>
        (fs.inodeTable ino).nr = nr)

/-- Change the reference count of an inode. -/
def setCount (fs : Fs) (ino count : Nat) : Fs :=
  fs.setInode ino { fs.inodeTable ino with count := count }

/-- `list_remove` of an inode from the list that it lies on. -/
def unlistInode (fs : Fs) (ino : Nat) : Except Fault Fs := do
  check (∃ sb ∈ List.range superNr, ino ∈ (fs.superTable sb).inodeList)
  return { fs with superTable := fun sb =>
    { fs.superTable sb with
      inodeList := (fs.superTable sb).inodeList.erase ino } }

/-- `put_pipe_inode` of an inode.  The memory of the pipe goes back to the heap. -/
def putPipeInode (fs : Fs) (ino : Nat) : Except Fault Fs := do
  let fs := fs.setCount ino (sub32 (fs.inodeTable ino).count 1)
  if (fs.inodeTable ino).count ≠ 0 then
    return fs
  else
    let fs := fs.setInode ino { fs.inodeTable ino with pipe := false }
    fs.putFreeInode ino

/-- `iput` of an inode. -/
def iput (fs : Fs) (ino : Nat) : Except Fault Fs := do
  if (fs.inodeTable ino).pipe then
    fs.putPipeInode ino
  else
    let fs := fs.setCount ino (sub32 (fs.inodeTable ino).count 1)
    if (fs.inodeTable ino).count ≠ 0 then
      return fs
    else
      let fs ← fs.unlistInode ino
      fs.putFreeInode ino

/-- `iput` of a pointer that may be null. -/
def iputOption (fs : Fs) : Option Nat → Except Fault Fs
  | none => .ok fs
  | some ino => fs.iput ino

/-- `fit_inode`. -/
def fitInode (fs : Fs) (ino : Nat) : Except Fault (Nat × Fs) := do
  if (fs.inodeTable ino).mount = 0 then
    return (ino, fs)
  match fs.getSuper (fs.inodeTable ino).mount with
  | none => throw .assertion
  | some sb =>
      let fs ← fs.iput ino
      match (fs.superTable sb).iroot with
      | none => throw .wild
      | some root =>
          return (root, fs.setCount root (add32 (fs.inodeTable root).count 1))

/-- The part of `iget` for an inode that is not in memory. -/
def loadInode (fs : Fs) (sb dev nr : Nat) : Except Fault (Nat × Fs) := do
  let desc := fs.superDesc dev
  check (nr ≤ desc.inodes)
  let ino ← fs.getFreeInode
  if ino = rootInode then
    check ((fs.inodeTable ino).count = 4)
  check (ino ∉ (fs.superTable sb).inodeList)
  let inode := { fs.inodeTable ino with
    dev := dev
    nr := nr
    count := if ino = rootInode then 4 else 1
    block := inodeBlock desc nr
    slot := sub32 nr 1 % blockInodes }
  let super := { fs.superTable sb with
    inodeList := ino :: (fs.superTable sb).inodeList }
  return (ino, (fs.setInode ino inode).setSuper sb super)

/-- `iget`. -/
def iget (fs : Fs) (dev nr : Nat) : Except Fault (Nat × Fs) := do
  match ← fs.findInode dev nr with
  | some ino =>
      (fs.setCount ino (add32 (fs.inodeTable ino).count 1)).fitInode ino
  | none =>
      match fs.getSuper dev with
      | none => throw .assertion
      | some sb => fs.loadInode sb dev nr

/-- `inode_bfree` of the entry at an address of the block `cache`. -/
def inodeBfree (dev : Nat) : Nat → Fs → Nat → Nat → Except Fault Fs
  | 0, fs, cache, address => do
      if fs.indexAt dev cache address = 0 then
        return fs
      fs.bfree dev (fs.indexAt dev cache address)
  | level + 1, fs, cache, address => do
      let next := fs.indexAt dev cache address
      if next = 0 then
        return fs
      let fs ← (List.range blockIndexes).foldlM
        (fun fs i => inodeBfree dev level fs next (2 * i)) fs
      fs.bfree dev (fs.indexAt dev cache address)

/-- Free what one slot of the zone array refers to and clear the slot. -/
def releaseZone (fs : Fs) (ino level : Nat) (index : Fin 9) : Except Fault Fs := do
  let inode := fs.inodeTable ino
  let fs ← inodeBfree inode.dev level fs inode.block
    (fs.zoneStart ino + 2 * index)
  return fs.modifyDesc ino (InodeDesc.setZone index 0)

/-- The level of indirection of a slot of the zone array. -/
def zoneLevel (index : Fin 9) : Nat :=
  index - (directBlocks - 1)

/-- `inode_truncate`. -/
def inodeTruncate (fs : Fs) (ino : Nat) : Except Fault Fs := do
  if ¬isFile (fs.desc ino).mode ∧ ¬isDir (fs.desc ino).mode then
    return fs
  let fs ← (List.finRange 9).foldlM
    (fun fs index => fs.releaseZone ino (zoneLevel index) index) fs
  let fs := fs.modifyDesc ino (InodeDesc.setSize 0)
  return fs.modifyDesc ino (InodeDesc.setMtime fs.time)

/-- The fields that `new_inode` assigns. -/
def initialDesc (fs : Fs) (task : Creds) (memory : Memory) (start : Nat) :
    Memory :=
  let memory := InodeDesc.setMode (0o777 &&& (0o777 ^^^ task.umask)) memory start
  let memory := InodeDesc.setUid task.uid memory start
  let memory := InodeDesc.setSize 0 memory start
  let memory := InodeDesc.setMtime fs.time memory start
  let memory := InodeDesc.setGid task.gid memory start
  InodeDesc.setNlinks 1 memory start

/-- `new_inode`. -/
def newInode (fs : Fs) (task : Creds) (dev nr : Nat) :
    Except Fault (Nat × Fs) := do
  let (ino, fs) ← fs.iget dev nr
  return (ino, fs.modifyDesc ino (fs.initialDesc task))

end Fs

end LightOS
