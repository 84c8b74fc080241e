import LightOS.Fs.Files
import LightOS.Fs.Format

/-!
# System calls on names

The system calls of `namei.c` that make, remove and link directory entries.  Each
of them walks to the parent directory with `named`, looks the name up there and
releases its inodes at the label `clean`, whatever it returns.
-/

namespace LightOS
namespace Fs

/-- The label `clean` of the system calls: two pointers are released, either of
which may be null. -/
def leave (fs : Fs) (result : Int) (first second : Option Nat) :
    Except Fault (Int × Fs) := do
  let fs ← fs.iputOption first
  return (result, ← fs.iputOption second)

/-! ## Creating entries -/

/-- The fields that `sys_mkdir` assigns to the new inode. -/
def directoryDesc (task : Creds) (mode : Nat) (memory : Memory) (start : Nat) :
    Memory :=
  let mode := mode &&& 0o777 &&& (0o777 ^^^ task.umask) ||| ifdir
  let memory := InodeDesc.setMode mode memory start
  let memory := InodeDesc.setNlinks 2 memory start
  InodeDesc.setSize 32 memory start

/-- The part of `sys_mkdir` that creates the directory. -/
def makeDirectory (fs : Fs) (task : Creds) (dir : Nat) (name : Cursor)
    (mode : Nat) : Except Fault (Int × Fs) := do
  let (entry, fs) ← fs.addEntry dir name
  let (nr, fs) ← fs.ialloc (fs.inodeTable dir).dev
  let fs := fs.modifyEntry entry (Dentry.setNr nr)
  let (inode, fs) ← fs.newInode task (fs.inodeTable dir).dev
    (fs.entry entry).nr
  let fs := fs.modifyDesc inode (directoryDesc task mode)
  let fs := fs.modifyDesc dir (InodeDesc.setNlinks ((fs.desc dir).nlinks + 1))
  let (zone, fs) ← fs.bmap inode 0 true
  -- The zone is not compared with zero before it is read.
  let dev := (fs.inodeTable inode).dev
  let memory := writeEntry (fs.inodeTable inode).nr dotName
    (fs.block dev zone) 0
  let fs := fs.writeBlock dev zone
    (writeEntry (fs.inodeTable dir).nr dotDotName memory 16)
  fs.leave 0 (some inode) (some dir)

/-- `sys_mkdir`. -/
def sysMkdir (fs : Fs) (task : Creds) (pathname : Option Cursor) (mode : Nat) :
    Except Fault (Int × Fs) := do
  let (parent, fs) ← fs.named task pathname
  match parent with
  | none => fs.leave (-1) none none
  | some (dir, []) => fs.leave (-1) (some dir) none
  | some (dir, name) =>
      if fs.permission task dir pWrite = false then
        fs.leave (-1) (some dir) none
      else
        let (found, dir, fs) ← fs.findEntry dir name
        match found with
        | some _ => fs.leave (-1) (some dir) none
        | none => fs.makeDirectory task dir name mode

/-- The part of `sys_mknod` that creates the node. -/
def makeNode (fs : Fs) (task : Creds) (dir : Nat) (name : Cursor)
    (mode dev : Nat) : Except Fault (Int × Fs) := do
  let (entry, fs) ← fs.addEntry dir name
  let (nr, fs) ← fs.ialloc (fs.inodeTable dir).dev
  let fs := fs.modifyEntry entry (Dentry.setNr nr)
  let (inode, fs) ← fs.newInode task (fs.inodeTable dir).dev
    (fs.entry entry).nr
  let fs := fs.modifyDesc inode (InodeDesc.setMode mode)
  let fs :=
    if isBlk mode ∨ isChr mode then
      fs.modifyDesc inode (InodeDesc.setZone 0 dev)
    else
      fs
  fs.leave 0 (some inode) (some dir)

/-- `sys_mknod`. -/
def sysMknod (fs : Fs) (task : Creds) (filename : Option Cursor)
    (mode dev : Nat) : Except Fault (Int × Fs) := do
  let (parent, fs) ← fs.named task filename
  match parent with
  | none => fs.leave (-1) none none
  | some (dir, []) => fs.leave (-1) none (some dir)
  | some (dir, name) =>
      if fs.permission task dir pWrite = false then
        fs.leave (-1) none (some dir)
      else
        let (found, dir, fs) ← fs.findEntry dir name
        match found with
        | some _ => fs.leave (-1) none (some dir)
        | none => fs.makeNode task dir name mode dev

/-- The part of `sys_link` that adds the entry. -/
def addLink (fs : Fs) (inode dir : Nat) (name : Cursor) :
    Except Fault (Int × Fs) := do
  let (entry, fs) ← fs.addEntry dir name
  let fs := fs.modifyEntry entry (Dentry.setNr (fs.inodeTable inode).nr)
  let fs := fs.modifyDesc inode
    (InodeDesc.setNlinks ((fs.desc inode).nlinks + 1))
  fs.leave 0 (some dir) (some inode)

/-- `sys_link`. -/
def sysLink (fs : Fs) (task : Creds) (oldname newname : Option Cursor) :
    Except Fault (Int × Fs) := do
  let (inode, fs) ← fs.namei task oldname
  match inode with
  | none => fs.leave (-1) none none
  | some inode =>
      if isDir (fs.desc inode).mode then
        fs.leave (-1) none (some inode)
      else
        let (parent, fs) ← fs.named task newname
        match parent with
        | none => fs.leave (-1) none (some inode)
        | some (dir, []) => fs.leave (-1) (some dir) (some inode)
        | some (dir, name) =>
            if (fs.inodeTable dir).dev ≠ (fs.inodeTable inode).dev then
              fs.leave (-1) (some dir) (some inode)
            else if fs.permission task dir pWrite = false then
              fs.leave (-1) (some dir) (some inode)
            else
              let (found, dir, fs) ← fs.findEntry dir name
              match found with
              | some _ => fs.leave (-1) (some dir) (some inode)
              | none => fs.addLink inode dir name

/-! ## Removing entries -/

/-- The loop of `is_dir_empty`, which reads the block `1 / BLOCK_DENTRIES` each
time that it comes to a new one; `count` entries in use have been met. -/
def countEntries (fs : Fs) (inode : Nat) :
    Nat → Nat → Nat → Nat → Except Fault Nat
  | 0, _, _, count => .ok count
  | left + 1, i, pcache, count => do
      let pcache ← (if i % blockDentries = 0 then do
          let (block, _) ← fs.bmap inode (1 / blockDentries) false
          check (block ≠ 0)
          return block
        else
          return pcache)
      let entry : EntryRef :=
        ⟨(fs.inodeTable inode).dev, pcache, 16 * (i % blockDentries)⟩
      countEntries fs inode left (i + 1) pcache
        (if (fs.entry entry).nr ≠ 0 then count + 1 else count)

/-- `is_dir_empty`. -/
def isDirEmpty (fs : Fs) (inode : Nat) : Except Fault Bool := do
  let desc := fs.desc inode
  check (isDir desc.mode)
  let entries := desc.size / 16
  if entries < 2 ∨ desc.zone 0 = 0 then
    return false
  let count ← fs.countEntries inode entries 0 0 0
  return count = 2

/-- The part of `sys_rmdir` that removes the directory. -/
def removeDirectory (fs : Fs) (dir inode : Nat) (entry : EntryRef) :
    Except Fault (Int × Fs) := do
  check ((fs.desc inode).nlinks = 2)
  let fs ← fs.inodeTruncate inode
  let fs ← fs.ifree (fs.inodeTable inode).dev (fs.inodeTable inode).nr
  let fs := fs.modifyDesc inode (InodeDesc.setNlinks 0)
  let fs := fs.setInode inode { fs.inodeTable inode with nr := 0 }
  let fs := fs.modifyDesc dir
    (InodeDesc.setNlinks ((fs.desc dir).nlinks + (2 ^ 8 - 1)))
  let fs := fs.modifyDesc dir (InodeDesc.setMtime fs.time)
  check (0 < (fs.desc dir).nlinks)
  let fs := fs.modifyEntry entry (Dentry.setNr 0)
  fs.leave 0 (some inode) (some dir)

/-- `sys_rmdir`. -/
def sysRmdir (fs : Fs) (task : Creds) (pathname : Option Cursor) :
    Except Fault (Int × Fs) := do
  let (parent, fs) ← fs.named task pathname
  match parent with
  | none => fs.leave (-1) none none
  | some (dir, []) => fs.leave (-1) none (some dir)
  | some (dir, name) =>
      if name = dotName ∨ name = dotDotName then
        fs.leave (-1) none (some dir)
      else if fs.permission task dir pWrite = false then
        fs.leave (-1) none (some dir)
      else
        let (found, dir, fs) ← fs.findEntry dir name
        match found with
        | none => fs.leave (-1) none (some dir)
        | some found =>
            let (inode, fs) ← fs.iget (fs.inodeTable dir).dev
              (fs.entry found.entry).nr
            check (inode ≠ dir)
            if isDir (fs.desc inode).mode = false then
              fs.leave (-1) (some inode) (some dir)
            else if (fs.desc dir).mode &&& isvtx ≠ 0 ∧
                task.uid ≠ (fs.desc inode).uid then
              fs.leave (-1) (some inode) (some dir)
            else if (fs.inodeTable dir).dev ≠ (fs.inodeTable inode).dev ∨
                1 < (fs.inodeTable inode).count then
              fs.leave (-1) (some inode) (some dir)
            else if (← fs.isDirEmpty inode) = false then
              fs.leave (-1) (some inode) (some dir)
            else
              fs.removeDirectory dir inode found.entry

/-- The part of `sys_unlink` that removes the entry. -/
def removeLink (fs : Fs) (dir inode : Nat) (entry : EntryRef) :
    Except Fault (Int × Fs) := do
  check ((fs.desc inode).nlinks ≠ 0)
  let fs := fs.modifyEntry entry (Dentry.setNr 0)
  let fs := fs.modifyDesc inode
    (InodeDesc.setNlinks ((fs.desc inode).nlinks + (2 ^ 8 - 1)))
  let fs ← (if (fs.desc inode).nlinks = 0 then do
      let fs ← fs.inodeTruncate inode
      fs.ifree (fs.inodeTable inode).dev (fs.inodeTable inode).nr
    else
      return fs)
  fs.leave 0 (some inode) (some dir)

/-- `sys_unlink`. -/
def sysUnlink (fs : Fs) (task : Creds) (filename : Option Cursor) :
    Except Fault (Int × Fs) := do
  let (parent, fs) ← fs.named task filename
  match parent with
  | none => fs.leave (-1) none none
  | some (dir, []) => fs.leave (-1) none (some dir)
  | some (dir, name) =>
      if fs.permission task dir pWrite = false then
        fs.leave (-1) none (some dir)
      else
        let (found, dir, fs) ← fs.findEntry dir name
        match found with
        | none => fs.leave (-1) none (some dir)
        | some found =>
            let (inode, fs) ← fs.iget (fs.inodeTable dir).dev
              (fs.entry found.entry).nr
            if isDir (fs.desc inode).mode then
              fs.leave (-1) (some inode) (some dir)
            else if (fs.desc inode).mode &&& isvtx ≠ 0 ∧
                task.uid ≠ (fs.desc inode).uid then
              fs.leave (-1) (some inode) (some dir)
            else
              fs.removeLink dir inode found.entry

/-! ## Status -/

/-- The fields of `stat_t` that `copy_stat` takes from the tables and from the
descriptor of an inode. -/
structure Stat where
  dev : Nat
  nr : Nat
  mode : Nat
  nlinks : Nat
  uid : Nat
  gid : Nat
  rdev : Nat
  size : Nat
  mtime : Nat
  deriving DecidableEq, Repr

/-- `copy_stat`. -/
def copyStat (fs : Fs) (inode : Nat) : Stat :=
  let desc := fs.desc inode
  { dev := (fs.inodeTable inode).dev
    nr := (fs.inodeTable inode).nr
    mode := desc.mode
    nlinks := desc.nlinks
    uid := desc.uid
    gid := desc.gid
    rdev := desc.zone 0
    size := desc.size
    mtime := desc.mtime }

/-- `sys_stat`: the value returned and what is stored in `statbuf`. -/
def sysStat (fs : Fs) (task : Creds) (filename : Option Cursor) :
    Except Fault (Int × Option Stat × Fs) := do
  let (inode, fs) ← fs.namei task filename
  match inode with
  | none => return (-1, none, fs)
  | some inode => return (0, some (fs.copyStat inode), ← fs.iput inode)

end Fs
end LightOS
