import LightOS.Fs.Names

/-!
# Permissions of an open

`inode_open` should hand out an existing inode only to a task that may access it
in the mode it asks for, and should not truncate one that the task may not
access.
-/

namespace LightOS
namespace Fs

variable {fs before after : Fs} {task : Creds} {pathname : Option Cursor}
  {flag mode : Nat} {result : Option Nat}

/-- A path names an inode that exists: the directory that `named` returns when
nothing is left of the path, or else the one that `find_entry` and `iget` find
there.  The file systems are then as in `found`. -/
inductive Names (fs : Fs) (task : Creds) (pathname : Option Cursor) :
    Nat → Fs → Prop
  | directory {dir : Nat} {found : Fs} :
      fs.named task pathname = .ok (some (dir, []), found) →
      Names fs task pathname dir found
  | entry {dir foundDir inode : Nat} {next : UInt8} {rest : Cursor}
      {entry : Found} {walked searched found : Fs} :
      fs.named task pathname = .ok (some (dir, next :: rest), walked) →
      walked.findEntry dir (next :: rest) = .ok (some entry, foundDir, searched) →
      searched.iget (searched.inodeTable foundDir).dev
        (searched.entry entry.entry).nr = .ok (inode, found) →
      Names fs task pathname inode found

/-- The task may access an inode in the mode of a flag. -/
abbrev Permits (fs : Fs) (task : Creds) (inode flag : Nat) : Prop :=
  fs.permission task inode (accMode (flag &&& oAccmode)) = true

/-- An existing inode is returned only if the task may access it, a directory
only for reading, and no block of any device changes when the task may not access
the inode. -/
def Enforced (fs : Fs) (task : Creds) (pathname : Option Cursor) (flag : Nat)
    (result : Option Nat) (after : Fs) : Prop :=
  ∀ inode found, fs.Names task pathname inode found →
    (result = some inode → found.Permits task inode flag ∧
      (isDir (found.desc inode).mode → flag &&& oAccmode = oRdonly)) ∧
    (¬found.Permits task inode flag → after.disk = fs.disk)

/-- `inode_open` refuses to truncate what it opens for reading. -/
def RefusedFlag (flag : Nat) : Prop :=
  flag &&& oTrunc ≠ 0 ∧ flag &&& oAccmode = oRdonly

/-- Either the flag is refused, or an inode that the path names may be accessed,
and one that `named` returns with nothing left of the path is opened for
reading when it is a directory. -/
def Guarded (fs : Fs) (task : Creds) (pathname : Option Cursor) (flag : Nat) :
    Prop :=
  RefusedFlag flag ∨
    (∀ inode found, fs.Names task pathname inode found →
      found.Permits task inode flag) ∧
    ∀ dir found, fs.named task pathname = .ok (some (dir, []), found) →
      isDir (found.desc dir).mode → flag &&& oAccmode = oRdonly

/-- A path names one inode at most. -/
theorem Names.unique {inode other : Nat} {found otherFound : Fs}
    (names : fs.Names task pathname inode found)
    (otherNames : fs.Names task pathname other otherFound) :
    inode = other ∧ found = otherFound := by
  cases names with
  | directory walked =>
      cases otherNames with
      | directory otherWalked =>
          rw [walked] at otherWalked
          cases otherWalked
          exact ⟨rfl, rfl⟩
      | entry otherWalked _ _ =>
          rw [walked] at otherWalked
          cases otherWalked
  | entry walked searched loaded =>
      cases otherNames with
      | directory otherWalked =>
          rw [walked] at otherWalked
          cases otherWalked
      | entry otherWalked otherSearched otherLoaded =>
          rw [walked] at otherWalked
          cases otherWalked
          rw [searched] at otherSearched
          cases otherSearched
          rw [loaded] at otherLoaded
          cases otherLoaded
          exact ⟨rfl, rfl⟩

/-- What `inode_open` returns at the label `makeup`. -/
theorem makeup_result {dir inode : Nat}
    (returned : fs.makeup dir inode flag = .ok (result, after)) :
    result = some inode := by
  unfold makeup at returned
  simp only [bind_eq_ok] at returned
  obtain ⟨_, _, _, _, same⟩ := returned
  cases same
  rfl

/-- What `inode_open` returns at the label `clean`. -/
theorem clean_result {dir inode : Option Nat}
    (returned : fs.clean dir inode = .ok (result, after)) :
    result = none := by
  unfold clean at returned
  simp only [bind_eq_ok] at returned
  obtain ⟨_, _, _, _, same⟩ := returned
  cases same
  rfl

/-- An open with a refused flag changes nothing. -/
theorem inodeOpen_of_refusedFlag (refused : RefusedFlag flag) :
    fs.inodeOpen task pathname flag mode = .ok (none, fs) := by
  unfold RefusedFlag at refused
  simp [inodeOpen, refused, clean, iputOption]

/-- Opening a path with nothing left after `named` returns the directory. -/
theorem inodeOpen_of_directory {dir : Nat} {found : Fs}
    (accepted : ¬RefusedFlag flag)
    (walked : fs.named task pathname = .ok (some (dir, []), found)) :
    fs.inodeOpen task pathname flag mode = .ok (some dir, found) := by
  unfold RefusedFlag at accepted
  simp [inodeOpen, accepted, walked]

/-- Opening a path that names an entry returns its inode, unless it is a directory
that the task may access but not in this way. -/
theorem inodeOpen_of_entry
    {dir foundDir inode : Nat} {next : UInt8} {rest : Cursor}
    {entry : Found} {walkedFs searchedFs found : Fs}
    (accepted : ¬RefusedFlag flag)
    (walked : fs.named task pathname = .ok (some (dir, next :: rest), walkedFs))
    (searched : walkedFs.findEntry dir (next :: rest) =
      .ok (some entry, foundDir, searchedFs))
    (loaded : searchedFs.iget (searchedFs.inodeTable foundDir).dev
      (searchedFs.entry entry.entry).nr = .ok (inode, found)) :
    fs.inodeOpen task pathname flag mode =
      if found.permission task inode (accMode (flag &&& oAccmode)) = true ∧
          isDir (found.desc inode).mode ∧ flag &&& oAccmode ≠ oRdonly then
        found.clean (some foundDir) (some inode)
      else
        found.makeup foundDir inode flag := by
  unfold RefusedFlag at accepted
  simp only [inodeOpen, accepted, if_false, walked, ok_bind, searched, loaded]
  cases permits : found.permission task inode (accMode (flag &&& oAccmode)) with
  | false => simp
  | true => simp

/-- A task that does not own the file of the small file system. -/
def stranger : Creds :=
  ⟨1000, 1000, 0o22, 0, 0⟩

end Fs
end LightOS
