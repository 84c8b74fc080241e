import LightOS.Fs.Buffers
import LightOS.Fs.Calls
import LightOS.Fs.Mounting

/-!
# Buffers in system calls

The functions that look names up and the system calls on names, with the references that
they take to buffers and give back.  The buffer that `find_entry` and `add_entry` return is
the one that the entry lies in.
-/

namespace LightOS
namespace Fs

/-- The buffer that an entry lies in. -/
def EntryRef.buffer (entry : EntryRef) : BufferId :=
  (entry.dev, entry.block)

namespace Buffered

open Counting (view replace)

/-! ## Names -/

/-- Read a block of a directory. -/
def nextBlock (dir block : Nat) (create : Bool) : Buffered BufferId := do
  let zone ← bmap dir block create
  check (zone ≠ 0)
  let fs ← view
  bread (fs.inodeTable dir).dev zone

/-- The buffer of the entry `i` of a directory: the one before it is still in `pcache`,
unless a new block begins and the function goes on with a given one. -/
def entryBlock (dir i block : Nat) (create : Bool) : Option BufferId → Buffered BufferId
  | none => nextBlock dir block create
  | some pcache => do
      if i % blockDentries = 0 then
        brelse pcache
        nextBlock dir block create
      else
        return pcache

/-- The loop of `find_entry`, over the entries from `i` on; `left` are left. -/
def searchEntries (dir : Nat) (name : Cursor) :
    Nat → Nat → Option BufferId → Buffered (Option Found)
  | 0, _, pcache => do
      brelseOption pcache
      return none
  | left + 1, i, pcache => do
      let pcache ← entryBlock dir i (i / blockDentries) false pcache
      let fs ← view
      let entry : EntryRef := ⟨pcache.1, pcache.2, 16 * (i % blockDentries)⟩
      if (fs.entry entry).nr = 0 then
        searchEntries dir name left (i + 1) (some pcache)
      else
        match matchName name (fs.entry entry).name with
        | some next => return some ⟨next, entry⟩
        | none => searchEntries dir name left (i + 1) (some pcache)

/-- The part of `find_entry` that leaves the root of a mounted file system
through `..`. -/
def leaveMount (dir : Nat) (name : Cursor) : Buffered Nat := do
  let fs ← view
  let inode := fs.inodeTable dir
  if (matchName name dotDot).isSome ∧ inode.nr = 1 ∧ dir ≠ rootInode then
    match fs.getSuper inode.dev with
    | none => throw .wild
    | some sb =>
        match (fs.superTable sb).imount with
        | none => throw .wild
        | some mounted =>
            replace (fs.setCount mounted (add32 (fs.inodeTable mounted).count 1))
            iput dir
            return mounted
  else
    return dir

/-- `find_entry`.  The result holds the directory that `dir` points to on return. -/
def findEntry (dir : Nat) (name : Cursor) : Buffered (Option Found × Nat) := do
  let fs ← view
  check (isDir (fs.desc dir).mode)
  let dir ← leaveMount dir name
  let fs ← view
  let found ← searchEntries dir name ((fs.desc dir).size / 16) 0 none
  return (found, dir)

/-- The loop of `add_entry`, from entry `i` on. -/
def claimEntry (dir : Nat) (name : Cursor) :
    Nat → Nat → Option BufferId → Buffered EntryRef
  | 0, _, _ => throw .blocked
  | left + 1, i, pcache => do
      let pcache ← entryBlock dir i (i / blockDentries) true pcache
      let fs ← view
      let entry : EntryRef := ⟨pcache.1, pcache.2, 16 * (i % blockDentries)⟩
      let fs :=
        if (fs.desc dir).size ≤ i * 16 then
          (fs.modifyEntry entry (Dentry.setNr 0)).modifyDesc dir
            (InodeDesc.setSize ((i + 1) * 16))
        else
          fs
      replace fs
      if (fs.entry entry).nr ≠ 0 then
        claimEntry dir name left (i + 1) (some pcache)
      else
        let fs := fs.modifyEntry entry (copyName name)
        replace (fs.modifyDesc dir (InodeDesc.setMtime fs.time))
        return entry

/-- `add_entry`.  `find_entry` works on the function's own copy of `dir`. -/
def addEntry (dir : Nat) (name : Cursor) : Buffered EntryRef := do
  let (found, dir) ← findEntry dir name
  match found with
  | some found => return found.entry
  | none =>
      check (∀ byte ∈ name.take nameLen, isSeparator byte = false)
      let fs ← view
      claimEntry dir name ((fs.desc dir).size / 16 + 2) 0 none

/-- The loop of `named`. -/
def descend (task : Creds) (right : Cursor) :
    Nat → Nat → Cursor → Buffered (Option (Nat × Cursor))
  | 0, _, _ => throw .blocked
  | rounds + 1, inode, left => do
      let (found, inode) ← findEntry inode left
      match found with
      | none =>
          iput inode
          return none
      | some found =>
          let fs ← view
          let dev := (fs.inodeTable inode).dev
          iput inode
          let fs ← view
          let inode ← iget dev (fs.entry found.entry).nr
          brelse found.entry.buffer
          let fs ← view
          if ¬isDir (fs.desc inode).mode ∨ fs.permission task inode pExec = false then
            return none
          else if right = found.next then
            return some (inode, found.next)
          else
            descend task right rounds inode found.next

/-- `named`.  The result holds the directory and what it stores in `next`. -/
def named (task : Creds) : Option Cursor → Buffered (Option (Nat × Cursor))
  | none => return none
  | some [] => return none
  | some (first :: rest) => do
      let inode := if isSeparator first then task.iroot else task.ipwd
      let left := skipSeparators (first :: rest)
      let fs ← view
      replace (fs.setCount inode (add32 (fs.inodeTable inode).count 1))
      match strrsep left with
      | none => return some (inode, left)
      | some right => descend task right.tail (2 ^ 32) inode left

/-- `namei`. -/
def namei (task : Creds) (pathname : Option Cursor) : Buffered (Option Nat) := do
  let parent ← named task pathname
  match parent with
  | none => return none
  | some (dir, []) => return some dir
  | some (dir, name) =>
      let (found, dir) ← findEntry dir name
      match found with
      | none =>
          iput dir
          return none
      | some found =>
          let fs ← view
          let inode ← iget (fs.inodeTable dir).dev (fs.entry found.entry).nr
          iput dir
          brelse found.entry.buffer
          return some inode

/-! ## System calls -/

/-- The label `clean` of `sys_mkdir` and `sys_rmdir`: the inodes, then the buffer. -/
def leave (result : Int) (first second : Option Nat) (pcache : Option BufferId) :
    Buffered Int := do
  iputOption first
  iputOption second
  brelseOption pcache
  return result

/-- The label `clean` of the other calls: the buffer, then the inodes. -/
def clean (result : Int) (first second : Option Nat) (pcache : Option BufferId) :
    Buffered Int := do
  brelseOption pcache
  iputOption first
  iputOption second
  return result

/-- The part of `sys_mkdir` that creates the directory. -/
def makeDirectory (task : Creds) (dir : Nat) (name : Cursor) (mode : Nat) :
    Buffered Int := do
  let entry ← addEntry dir name
  let fs ← view
  let nr ← ialloc (fs.inodeTable dir).dev
  let fs ← view
  let fs := fs.modifyEntry entry (Dentry.setNr nr)
  replace fs
  let inode ← newInode task (fs.inodeTable dir).dev (fs.entry entry).nr
  let fs ← view
  let fs := fs.modifyDesc inode (directoryDesc task mode)
  let fs := fs.modifyDesc dir (InodeDesc.setNlinks ((fs.desc dir).nlinks + 1))
  replace fs
  let zone ← bmap inode 0 true
  let fs ← view
  let zoneCache ← bread (fs.inodeTable inode).dev zone
  let memory := writeEntry (fs.inodeTable inode).nr dotName
    (fs.block zoneCache.1 zoneCache.2) 0
  replace (fs.writeBlock zoneCache.1 zoneCache.2
    (writeEntry (fs.inodeTable dir).nr dotDotName memory 16))
  iput inode
  iput dir
  brelse zoneCache
  brelse entry.buffer
  return 0

/-- `sys_mkdir`. -/
def sysMkdir (task : Creds) (pathname : Option Cursor) (mode : Nat) : Buffered Int := do
  let parent ← named task pathname
  match parent with
  | none => leave (-1) none none none
  | some (dir, []) => leave (-1) (some dir) none none
  | some (dir, name) =>
      let fs ← view
      if fs.permission task dir pWrite = false then
        leave (-1) (some dir) none none
      else
        let (found, dir) ← findEntry dir name
        match found with
        | some found => leave (-1) (some dir) none (some found.entry.buffer)
        | none => makeDirectory task dir name mode

/-- The part of `sys_mknod` that creates the node. -/
def makeNode (task : Creds) (dir : Nat) (name : Cursor) (mode dev : Nat) :
    Buffered Int := do
  let entry ← addEntry dir name
  let fs ← view
  let nr ← ialloc (fs.inodeTable dir).dev
  let fs ← view
  let fs := fs.modifyEntry entry (Dentry.setNr nr)
  replace fs
  let inode ← newInode task (fs.inodeTable dir).dev (fs.entry entry).nr
  let fs ← view
  let fs := fs.modifyDesc inode (InodeDesc.setMode mode)
  replace (
    if isBlk mode ∨ isChr mode then
      fs.modifyDesc inode (InodeDesc.setZone 0 dev)
    else
      fs)
  clean 0 (some inode) (some dir) (some entry.buffer)

/-- `sys_mknod`. -/
def sysMknod (task : Creds) (filename : Option Cursor) (mode dev : Nat) :
    Buffered Int := do
  let parent ← named task filename
  match parent with
  | none => clean (-1) none none none
  | some (dir, []) => clean (-1) none (some dir) none
  | some (dir, name) =>
      let fs ← view
      if fs.permission task dir pWrite = false then
        clean (-1) none (some dir) none
      else
        let (found, dir) ← findEntry dir name
        match found with
        | some found => clean (-1) none (some dir) (some found.entry.buffer)
        | none => makeNode task dir name mode dev

/-- The part of `sys_link` that adds the entry. -/
def addLink (inode dir : Nat) (name : Cursor) : Buffered Int := do
  let entry ← addEntry dir name
  let fs ← view
  let fs := fs.modifyEntry entry (Dentry.setNr (fs.inodeTable inode).nr)
  replace (fs.modifyDesc inode (InodeDesc.setNlinks ((fs.desc inode).nlinks + 1)))
  clean 0 (some dir) (some inode) (some entry.buffer)

/-- `sys_link`. -/
def sysLink (task : Creds) (oldname newname : Option Cursor) : Buffered Int := do
  let inode ← namei task oldname
  match inode with
  | none => clean (-1) none none none
  | some inode =>
      let fs ← view
      if isDir (fs.desc inode).mode then
        clean (-1) none (some inode) none
      else
        let parent ← named task newname
        match parent with
        | none => clean (-1) none (some inode) none
        | some (dir, []) => clean (-1) (some dir) (some inode) none
        | some (dir, name) =>
            let fs ← view
            if (fs.inodeTable dir).dev ≠ (fs.inodeTable inode).dev then
              clean (-1) (some dir) (some inode) none
            else if fs.permission task dir pWrite = false then
              clean (-1) (some dir) (some inode) none
            else
              let (found, dir) ← findEntry dir name
              match found with
              | some found =>
                  clean (-1) (some dir) (some inode) (some found.entry.buffer)
              | none => addLink inode dir name

/-- The loop of `is_dir_empty`, which reads the block `1 / BLOCK_DENTRIES` each time that
it comes to a new one; `count` entries in use have been met. -/
def countEntries (inode : Nat) : Nat → Nat → Option BufferId → Nat → Buffered Nat
  | 0, _, pcache, count => do
      brelseOption pcache
      return count
  | left + 1, i, pcache, count => do
      let pcache ← entryBlock inode i (1 / blockDentries) false pcache
      let fs ← view
      let entry : EntryRef := ⟨pcache.1, pcache.2, 16 * (i % blockDentries)⟩
      countEntries inode left (i + 1) (some pcache)
        (if (fs.entry entry).nr ≠ 0 then count + 1 else count)

/-- `is_dir_empty`. -/
def isDirEmpty (inode : Nat) : Buffered Bool := do
  let fs ← view
  let desc := fs.desc inode
  check (isDir desc.mode)
  let entries := desc.size / 16
  if entries < 2 ∨ desc.zone 0 = 0 then
    return false
  else
    let count ← countEntries inode entries 0 none 0
    return count = 2

/-- The part of `sys_rmdir` that removes the directory. -/
def removeDirectory (dir inode : Nat) (entry : EntryRef) : Buffered Int := do
  let fs ← view
  check ((fs.desc inode).nlinks = 2)
  inodeTruncate inode
  let fs ← view
  ifree (fs.inodeTable inode).dev (fs.inodeTable inode).nr
  let fs ← view
  let fs := fs.modifyDesc inode (InodeDesc.setNlinks 0)
  let fs := fs.setInode inode { fs.inodeTable inode with nr := 0 }
  let fs := fs.modifyDesc dir
    (InodeDesc.setNlinks ((fs.desc dir).nlinks + (2 ^ 8 - 1)))
  let fs := fs.modifyDesc dir (InodeDesc.setMtime fs.time)
  check (0 < (fs.desc dir).nlinks)
  replace (fs.modifyEntry entry (Dentry.setNr 0))
  leave 0 (some inode) (some dir) (some entry.buffer)

/-- `sys_rmdir`. -/
def sysRmdir (task : Creds) (pathname : Option Cursor) : Buffered Int := do
  let parent ← named task pathname
  match parent with
  | none => leave (-1) none none none
  | some (dir, []) => leave (-1) none (some dir) none
  | some (dir, name) =>
      if name = dotName ∨ name = dotDotName then
        leave (-1) none (some dir) none
      else
        let fs ← view
        if fs.permission task dir pWrite = false then
          leave (-1) none (some dir) none
        else
          let (found, dir) ← findEntry dir name
          match found with
          | none => leave (-1) none (some dir) none
          | some found =>
              let pcache := some found.entry.buffer
              let fs ← view
              let inode ← iget (fs.inodeTable dir).dev (fs.entry found.entry).nr
              check (inode ≠ dir)
              let fs ← view
              if isDir (fs.desc inode).mode = false then
                leave (-1) (some inode) (some dir) pcache
              else if (fs.desc dir).mode &&& isvtx ≠ 0 ∧
                  task.uid ≠ (fs.desc inode).uid then
                leave (-1) (some inode) (some dir) pcache
              else if (fs.inodeTable dir).dev ≠ (fs.inodeTable inode).dev ∨
                  1 < (fs.inodeTable inode).count then
                leave (-1) (some inode) (some dir) pcache
              else
                let empty ← isDirEmpty inode
                if empty = false then
                  leave (-1) (some inode) (some dir) pcache
                else
                  removeDirectory dir inode found.entry

/-- The part of `sys_unlink` that frees a file without links. -/
def freeUnlinked (inode : Nat) : Buffered Unit := do
  let fs ← view
  if (fs.desc inode).nlinks = 0 then
    inodeTruncate inode
    let fs ← view
    ifree (fs.inodeTable inode).dev (fs.inodeTable inode).nr
  else
    return

/-- The part of `sys_unlink` that removes the entry. -/
def removeLink (dir inode : Nat) (entry : EntryRef) : Buffered Int := do
  let fs ← view
  check ((fs.desc inode).nlinks ≠ 0)
  let fs := fs.modifyEntry entry (Dentry.setNr 0)
  replace (fs.modifyDesc inode
    (InodeDesc.setNlinks ((fs.desc inode).nlinks + (2 ^ 8 - 1))))
  freeUnlinked inode
  clean 0 (some inode) (some dir) (some entry.buffer)

/-- `sys_unlink`. -/
def sysUnlink (task : Creds) (filename : Option Cursor) : Buffered Int := do
  let parent ← named task filename
  match parent with
  | none => clean (-1) none none none
  | some (dir, []) => clean (-1) none (some dir) none
  | some (dir, name) =>
      let fs ← view
      if fs.permission task dir pWrite = false then
        clean (-1) none (some dir) none
      else
        let (found, dir) ← findEntry dir name
        match found with
        | none => clean (-1) none (some dir) none
        | some found =>
            let pcache := some found.entry.buffer
            let fs ← view
            let inode ← iget (fs.inodeTable dir).dev (fs.entry found.entry).nr
            let fs ← view
            if isDir (fs.desc inode).mode then
              clean (-1) (some inode) (some dir) pcache
            else if (fs.desc inode).mode &&& isvtx ≠ 0 ∧
                task.uid ≠ (fs.desc inode).uid then
              clean (-1) (some inode) (some dir) pcache
            else
              removeLink dir inode found.entry

/-! ## Unmounting -/

/-- Give back the buffers of the first maps of a super block. -/
def releaseMaps (dev : Nat) (maps : Nat → Option Nat) (blocks : Nat) : Buffered Unit :=
  forM (List.range (min blocks mapNr)) fun i =>
    brelseOption ((maps i).map fun number => (dev, number))

/-- `put_super` of a super block. -/
def putSuper (sb : Nat) : Buffered Unit := do
  let fs ← view
  let super := fs.superTable sb
  check (0 < super.count)
  if super.count - 1 ≠ 0 then
    replace (fs.setSuper sb { super with count := super.count - 1 })
  else
    replace (fs.setSuper sb { super with count := 0, dev := eof })
    iputOption super.imount
    iputOption super.iroot
    let fs ← view
    let desc := fs.superDesc super.dev
    releaseMaps super.dev super.imaps desc.imapBlocks
    releaseMaps super.dev super.zmaps desc.zmapBlocks
    brelse (super.dev, superBlockNr)

/-- `put_super` of a pointer that may be null. -/
def putSuperOption : Option Nat → Buffered Unit
  | none => return
  | some sb => putSuper sb

/-- The label `clean` of `sys_umount`. -/
def cleanUmount (result : Int) (sb inode : Option Nat) : Buffered Int := do
  putSuperOption sb
  iputOption inode
  return result

/-- The part of `sys_umount` that releases the super block of a mounted device. -/
def releaseMount (sb mounted : Nat) : Buffered Unit := do
  let fs ← view
  iputOption (fs.superTable sb).iroot
  let fs ← view
  let fs := fs.setSuper sb { fs.superTable sb with iroot := none }
  replace (fs.setMount mounted 0)
  iput mounted
  let fs ← view
  replace (fs.setSuper sb { fs.superTable sb with imount := none })
  putSuper sb

/-- The part of `sys_umount` that begins with `get_super`. -/
def umountSuper (inode dev : Nat) : Buffered Int := do
  let fs ← view
  match fs.getSuper dev with
  | none => throw .wild
  | some sb =>
      let fs := fs.holdSuper sb
      replace fs
      match (fs.superTable sb).imount with
      | none => cleanUmount (-1) (some sb) (some inode)
      | some mounted =>
          if 1 < (fs.superTable sb).inodeList.length then
            cleanUmount (-1) (some sb) (some inode)
          else
            releaseMount sb mounted
            cleanUmount 0 (some sb) (some inode)

/-- `sys_umount`. -/
def sysUmount (disks : Disks) (task : Creds) (target : Option Cursor) : Buffered Int := do
  let inode ← namei task target
  match inode with
  | none => cleanUmount (-1) none none
  | some inode =>
      let fs ← view
      if isBlk (fs.desc inode).mode = false ∧ (fs.inodeTable inode).nr ≠ 1 then
        cleanUmount (-1) none (some inode)
      else if (fs.superTable rootSuper).imount = some inode then
        cleanUmount (-1) none (some inode)
      else if disks.ramdisk.val = fs.umountDev inode then
        cleanUmount (-1) none (some inode)
      else
        umountSuper inode (fs.umountDev inode)

end Buffered

end Fs
end LightOS
