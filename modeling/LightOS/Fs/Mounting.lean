import LightOS.Device.State
import LightOS.Fs.Format
import LightOS.Fs.Names

/-!
# Mounting

The functions of `super.c` that mount and release devices, and the start of the file
systems.  `sys_mount` is divided where it comes to `read_super`.
-/

namespace LightOS

/-- The block devices of the machine.  Their numbers are places in `device_list`. -/
structure Disks where
  /-- The number of `device_find(DEV_IDE_PART, 0)`. -/
  rootPart : Fin DiskQueues.deviceNr
  /-- The number of `device_find(DEV_RAMDISK, 0)`. -/
  ramdisk : Fin DiskQueues.deviceNr
  /-- The number of blocks of each device. -/
  blocks : Nat → Nat

namespace Fs

/-- `put_super` of a pointer that may be null. -/
def putSuperOption (fs : Fs) : Option Nat → Except Fault Fs
  | none => .ok fs
  | some sb => fs.putSuper sb

/-- The label `clean` of `sys_mount`. -/
def cleanMount (fs : Fs) (sb devinode dirinode : Option Nat) :
    Except Fault (Int × Fs) := do
  let fs ← fs.putSuperOption sb
  let fs ← fs.iputOption devinode
  return (-1, ← fs.iputOption dirinode)

/-- What `sys_mount` has found when it comes to `read_super`. -/
structure MountTarget where
  dev : Nat
  devinode : Nat
  dirinode : Nat

/-- `sys_mount` in front of `read_super`.  The result is null where it has returned
`EOF`. -/
def mountTarget (fs : Fs) (task : Creds) (devname dirname : Option Cursor) :
    Except Fault (Option MountTarget × Fs) := do
  let (devinode, fs) ← fs.namei task devname
  match devinode with
  | none => return (none, (← fs.cleanMount none none none).2)
  | some devinode =>
      if isBlk (fs.desc devinode).mode = false then
        return (none, (← fs.cleanMount none (some devinode) none).2)
      let dev := (fs.desc devinode).zone 0
      let (dirinode, fs) ← fs.namei task dirname
      match dirinode with
      | none => return (none, (← fs.cleanMount none (some devinode) none).2)
      | some dirinode =>
          if isDir (fs.desc dirinode).mode = false then
            return (none, (← fs.cleanMount none (some devinode) (some dirinode)).2)
          if (fs.inodeTable dirinode).count ≠ 1 ∨ (fs.inodeTable dirinode).mount ≠ 0 then
            return (none, (← fs.cleanMount none (some devinode) (some dirinode)).2)
          return (some ⟨dev, devinode, dirinode⟩, fs)

/-- Set the directory that a device is mounted on. -/
def setMount (fs : Fs) (ino mount : Nat) : Fs :=
  fs.setInode ino { fs.inodeTable ino with mount := mount }

/-- `sys_mount`. -/
def sysMount (fs : Fs) (task : Creds) (devname dirname : Option Cursor) :
    Except Fault (Int × Fs) := do
  let (target, fs) ← fs.mountTarget task devname dirname
  match target with
  | none => return (-1, fs)
  | some ⟨dev, devinode, dirinode⟩ =>
      let (sb, fs) ← fs.readSuper dev
      match sb with
      | none => fs.cleanMount none (some devinode) (some dirinode)
      | some sb =>
          if (fs.superTable sb).imount.isSome then
            fs.cleanMount (some sb) (some devinode) (some dirinode)
          else
            let (iroot, fs) ← fs.iget dev 1
            let fs := fs.setSuper sb { fs.superTable sb with
              iroot := some iroot
              imount := some dirinode }
            let fs := fs.setMount dirinode dev
            return (0, ← fs.iput devinode)

/-- The label `clean` of `sys_umount`. -/
def cleanUmount (fs : Fs) (result : Int) (sb inode : Option Nat) :
    Except Fault (Int × Fs) := do
  let fs ← fs.putSuperOption sb
  return (result, ← fs.iputOption inode)

/-- The device that `sys_umount` is to release, for the inode of its target. -/
def umountDev (fs : Fs) (inode : Nat) : Nat :=
  if isBlk (fs.desc inode).mode then (fs.desc inode).zone 0 else (fs.inodeTable inode).dev

/-- The part of `sys_umount` that releases the super block of a mounted device. -/
def releaseMount (fs : Fs) (sb mounted : Nat) : Except Fault Fs := do
  let fs ← fs.iputOption (fs.superTable sb).iroot
  let fs := fs.setSuper sb { fs.superTable sb with iroot := none }
  let fs := fs.setMount mounted 0
  let fs ← fs.iput mounted
  let fs := fs.setSuper sb { fs.superTable sb with imount := none }
  fs.putSuper sb

/-- The part of `sys_umount` that begins with `get_super`. -/
def umountSuper (fs : Fs) (inode dev : Nat) : Except Fault (Int × Fs) := do
  match fs.getSuper dev with
  | none => throw .wild
  | some sb =>
      let fs := fs.holdSuper sb
      match (fs.superTable sb).imount with
      | none => fs.cleanUmount (-1) (some sb) (some inode)
      | some mounted =>
          if 1 < (fs.superTable sb).inodeList.length then
            fs.cleanUmount (-1) (some sb) (some inode)
          else
            let fs ← fs.releaseMount sb mounted
            fs.cleanUmount 0 (some sb) (some inode)

/-- `sys_umount`. -/
def sysUmount (fs : Fs) (disks : Disks) (task : Creds) (target : Option Cursor) :
    Except Fault (Int × Fs) := do
  let (inode, fs) ← fs.namei task target
  match inode with
  | none => fs.cleanUmount (-1) none none
  | some inode =>
      if isBlk (fs.desc inode).mode = false ∧ (fs.inodeTable inode).nr ≠ 1 then
        fs.cleanUmount (-1) none (some inode)
      else if (fs.superTable rootSuper).imount = some inode then
        fs.cleanUmount (-1) none (some inode)
      else if disks.ramdisk.val = fs.umountDev inode then
        fs.cleanUmount (-1) none (some inode)
      else
        fs.umountSuper inode (fs.umountDev inode)

/-- `sys_mkfs`. -/
def sysMkfs (fs : Fs) (disks : Disks) (task : Creds) (devname : Option Cursor)
    (icount : Int) : Except Fault (Int × Fs) := do
  let (inode, fs) ← fs.namei task devname
  match inode with
  | none => return (-1, fs)
  | some inode =>
      if isBlk (fs.desc inode).mode = false then
        return (-1, ← fs.iput inode)
      let dev := (fs.desc inode).zone 0
      check (dev ≠ 0)
      let (result, fs) ← fs.devmkfs task dev (disks.blocks dev) (toUnsigned icount)
      return (result, ← fs.iput inode)

/-- `mount_root`. -/
def mountRoot (fs : Fs) (disks : Disks) : Except Fault Fs := do
  let dev := disks.rootPart.val
  let (root, fs) ← fs.readSuper dev
  match root with
  | none => throw .panic
  | some root =>
      let (iroot, fs) ← fs.iget dev 1
      let fs := fs.setSuper root { fs.superTable root with iroot := some iroot }
      let (imount, fs) ← fs.iget dev 1
      let fs := fs.setSuper root { fs.superTable root with imount := some imount }
      return fs.setMount iroot dev

/-- The tables when `super_init` begins: `inode_init` and `task_init` have run, and the
first two tasks refer to the root inode twice each. -/
def fresh (disk : Volumes) (time : Nat) : Fs where
  disk := disk
  inodeTable := fun ino => ⟨eof, 0, if ino = rootInode then 4 else 0, 0, false, 0, 0⟩
  superTable := fun _ => ⟨0, 0, fun _ => none, fun _ => none, [], none, none⟩
  time := time

/-- `super_init`. -/
def superInit (fs : Fs) (disks : Disks) : Except Fault Fs :=
  mountRoot { fs with superTable := fun sb => { fs.superTable sb with
    dev := eof
    inodeList := []
    iroot := none
    imount := none } } disks

end Fs
end LightOS
