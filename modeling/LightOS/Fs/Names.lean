import LightOS.Fs.Inodes
import LightOS.Kernel.Strings

/-!
# Names

The functions of `namei.c` that look names up, create them and open files.
-/

namespace LightOS

/-- The comparison of `match_name`; the bytes of the other string are numbered.
The result is what `match_name` stores in `next`. -/
def compareName : Cursor → (Nat → UInt8) → Nat → Option Cursor
  | [], name, index => if name index = 0 then some [] else none
  | byte :: rest, name, index =>
      if byte = name index then
        compareName rest name (index + 1)
      else if name index ≠ 0 then
        none
      else if isSeparator byte then
        some rest
      else
        none

/-- `match_name`. -/
def matchName (name : Cursor) (entryName : Nat → UInt8) : Option Cursor :=
  compareName (skipSeparators name) entryName 0

/-- The string `".."`. -/
def dotDot (index : Nat) : UInt8 :=
  if index < 2 then 46 else 0

namespace Fs

/-- `KERNEL_RING0`. -/
abbrev kernelRing0 : Nat := 0

/-- What `permission` answers about an inode with a descriptor. -/
def grants (desc : InodeDesc) (task : Creds) (mask : Nat) : Bool :=
  if desc.nlinks = 0 then
    false
  else if task.uid = kernelRing0 then
    true
  else
    let mode :=
      if task.uid = desc.uid then desc.mode >>> 6
      else if task.gid = desc.gid then desc.mode >>> 3
      else desc.mode
    mode &&& mask &&& 0o7 = mask

/-- `permission`. -/
def permission (fs : Fs) (task : Creds) (ino mask : Nat) : Bool :=
  grants (fs.desc ino) task mask

/-- A pointer to a directory entry: the device and number of the block that
holds it and its address there. -/
structure EntryRef where
  dev : Nat
  block : Nat
  address : Nat
  deriving DecidableEq, Repr

/-- The entry behind a pointer. -/
def entry (fs : Fs) (ref : EntryRef) : Dentry :=
  Dentry.read (fs.block ref.dev ref.block) ref.address

/-- Change the block around an entry. -/
def modifyEntry (fs : Fs) (ref : EntryRef) (change : Memory → Nat → Memory) : Fs :=
  fs.writeBlock ref.dev ref.block
    (change (fs.block ref.dev ref.block) ref.address)

/-- What `find_entry` returns when it finds an entry: what follows the component
in the path, and the entry. -/
structure Found where
  next : Cursor
  entry : EntryRef
  deriving DecidableEq, Repr

/-- The block of the entry `i` of a directory: the one before it is still in
`pcache` unless a new block begins. -/
def entryBlock (fs : Fs) (dir i pcache : Nat) (create : Bool) :
    Except Fault (Nat × Fs) := do
  if i % blockDentries = 0 then
    let (block, fs) ← fs.bmap dir (i / blockDentries) create
    check (block ≠ 0)
    return (block, fs)
  else
    return (pcache, fs)

/-- The loop of `find_entry`, over the entries from `i` on; `left` are left. -/
def searchEntries (fs : Fs) (dir : Nat) (name : Cursor) :
    Nat → Nat → Nat → Except Fault (Option Found)
  | 0, _, _ => .ok none
  | left + 1, i, pcache => do
      let (pcache, _) ← fs.entryBlock dir i pcache false
      let entry : EntryRef :=
        ⟨(fs.inodeTable dir).dev, pcache, 16 * (i % blockDentries)⟩
      if (fs.entry entry).nr = 0 then
        searchEntries fs dir name left (i + 1) pcache
      else
        match matchName name (fs.entry entry).name with
        | some next => return some ⟨next, entry⟩
        | none => searchEntries fs dir name left (i + 1) pcache

/-- The part of `find_entry` that leaves the root of a mounted file system
through `..`. -/
def leaveMount (fs : Fs) (dir : Nat) (name : Cursor) :
    Except Fault (Nat × Fs) := do
  let inode := fs.inodeTable dir
  if (matchName name dotDot).isSome ∧ inode.nr = 1 ∧ dir ≠ rootInode then
    match fs.getSuper inode.dev with
    | none => throw .wild
    | some sb =>
        match (fs.superTable sb).imount with
        | none => throw .wild
        | some mounted =>
            let fs := fs.setCount mounted
              (add32 (fs.inodeTable mounted).count 1)
            return (mounted, ← fs.iput dir)
  else
    return (dir, fs)

/-- `find_entry`.  The result holds the directory that `dir` points to on
return. -/
def findEntry (fs : Fs) (dir : Nat) (name : Cursor) :
    Except Fault (Option Found × Nat × Fs) := do
  check (isDir (fs.desc dir).mode)
  let (dir, fs) ← fs.leaveMount dir name
  let entries := (fs.desc dir).size / 16
  let found ← fs.searchEntries dir name entries 0 0
  return (found, dir, fs)

/-- Copy a name into an entry. -/
def copyName (name : Cursor) (memory : Memory) (start : Nat) : Memory :=
  strncpy memory (start + 2) name nameLen

/-- The loop of `add_entry`, from entry `i` on.  It stops at the latest at the
first entry past the size of the directory, so `left` rounds are enough. -/
def claimEntry (dir : Nat) (name : Cursor) :
    Nat → Fs → Nat → Nat → Except Fault (EntryRef × Fs)
  | 0, _, _, _ => .error .blocked
  | left + 1, fs, i, pcache => do
      let (pcache, fs) ← fs.entryBlock dir i pcache true
      let entry : EntryRef :=
        ⟨(fs.inodeTable dir).dev, pcache, 16 * (i % blockDentries)⟩
      let fs :=
        if (fs.desc dir).size ≤ i * 16 then
          (fs.modifyEntry entry (Dentry.setNr 0)).modifyDesc dir
            (InodeDesc.setSize ((i + 1) * 16))
        else
          fs
      if (fs.entry entry).nr ≠ 0 then
        claimEntry dir name left fs (i + 1) pcache
      else
        let fs := fs.modifyEntry entry (copyName name)
        let fs := fs.modifyDesc dir (InodeDesc.setMtime fs.time)
        return (entry, fs)

/-- `add_entry`.  `find_entry` works on the function's own copy of `dir`. -/
def addEntry (fs : Fs) (dir : Nat) (name : Cursor) :
    Except Fault (EntryRef × Fs) := do
  let (found, dir, fs) ← fs.findEntry dir name
  match found with
  | some found => return (found.entry, fs)
  | none =>
      check (∀ byte ∈ name.take nameLen, isSeparator byte = false)
      claimEntry dir name ((fs.desc dir).size / 16 + 2) fs 0 0

/-- The loop of `named`.  A run of more rounds than there are directories and
cursors has been in the same position before and never ends. -/
def descend (task : Creds) (right : Cursor) :
    Nat → Fs → Nat → Cursor → Except Fault (Option (Nat × Cursor) × Fs)
  | 0, _, _, _ => .error .blocked
  | rounds + 1, fs, inode, left => do
      let (found, inode, fs) ← fs.findEntry inode left
      match found with
      | none => return (none, ← fs.iput inode)
      | some found =>
          let dev := (fs.inodeTable inode).dev
          let fs ← fs.iput inode
          let (inode, fs) ← fs.iget dev (fs.entry found.entry).nr
          if ¬isDir (fs.desc inode).mode ∨
              fs.permission task inode pExec = false then
            return (none, fs)
          else if right = found.next then
            return (some (inode, found.next), fs)
          else
            descend task right rounds fs inode found.next

/-- `named`.  The result holds the directory and what it stores in `next`. -/
def named (fs : Fs) (task : Creds) (pathname : Option Cursor) :
    Except Fault (Option (Nat × Cursor) × Fs) := do
  match pathname with
  | none => return (none, fs)
  | some [] => return (none, fs)
  | some (first :: rest) =>
      let inode := if isSeparator first then task.iroot else task.ipwd
      let left := skipSeparators (first :: rest)
      let fs := fs.setCount inode (add32 (fs.inodeTable inode).count 1)
      match strrsep left with
      | none => return (some (inode, left), fs)
      | some right => descend task right.tail (2 ^ 32) fs inode left

/-- The entry of the inode that a path begins at. -/
def startOf (task : Creds) (path : Cursor) : Nat :=
  if path.head?.any isSeparator then task.iroot else task.ipwd

/-- `named` begins behind the leading separators. -/
theorem named_eq (task : Creds) (fs : Fs) {path : Cursor} (notEmpty : path ≠ []) :
    fs.named task (some path) =
      let fs := fs.setCount (startOf task path)
        (add32 (fs.inodeTable (startOf task path)).count 1)
      match strrsep (skipSeparators path) with
      | none => .ok (some (startOf task path, skipSeparators path), fs)
      | some right => fs.descend task right.tail (2 ^ 32) (startOf task path)
          (skipSeparators path) := by
  cases path with
  | nil => exact absurd rfl notEmpty
  | cons first behind =>
      simp only [named, startOf, List.head?_cons, Option.any_some]
      cases strrsep (skipSeparators (first :: behind)) with
      | none => rfl
      | some right => rfl

/-- `namei`. -/
def namei (fs : Fs) (task : Creds) (pathname : Option Cursor) :
    Except Fault (Option Nat × Fs) := do
  let (parent, fs) ← fs.named task pathname
  match parent with
  | none => return (none, fs)
  | some (dir, []) => return (some dir, fs)
  | some (dir, name) =>
      let (found, dir, fs) ← fs.findEntry dir name
      match found with
      | none => return (none, ← fs.iput dir)
      | some found =>
          let (inode, fs) ← fs.iget (fs.inodeTable dir).dev
            (fs.entry found.entry).nr
          let fs ← fs.iput dir
          return (some inode, fs)

/-- The part of `inode_open` at the label `makeup`. -/
def makeup (fs : Fs) (dir inode flag : Nat) : Except Fault (Option Nat × Fs) := do
  let fs ← (if flag &&& oTrunc ≠ 0 then fs.inodeTruncate inode else .ok fs)
  return (some inode, ← fs.iput dir)

/-- The part of `inode_open` at the label `clean`. -/
def clean (fs : Fs) (dir inode : Option Nat) : Except Fault (Option Nat × Fs) := do
  let fs ← fs.iputOption inode
  return (none, ← fs.iputOption dir)

/-- The part of `inode_open` that creates a file. -/
def createFile (fs : Fs) (task : Creds) (dir : Nat) (name : Cursor)
    (flag mode : Nat) : Except Fault (Option Nat × Fs) := do
  let (entry, fs) ← fs.addEntry dir name
  let (nr, fs) ← fs.ialloc (fs.inodeTable dir).dev
  let fs := fs.modifyEntry entry (Dentry.setNr nr)
  let (inode, fs) ← fs.newInode task (fs.inodeTable dir).dev
    (fs.entry entry).nr
  let mode := mode &&& (0o777 &&& (0o777 ^^^ task.umask)) ||| ifreg
  let fs := fs.modifyDesc inode (InodeDesc.setMode mode)
  fs.makeup dir inode flag

/-- `inode_open`. -/
def inodeOpen (fs : Fs) (task : Creds) (pathname : Option Cursor)
    (flag mode : Nat) : Except Fault (Option Nat × Fs) := do
  if flag &&& oTrunc ≠ 0 ∧ flag &&& oAccmode = oRdonly then
    return ← fs.clean none none
  let (parent, fs) ← fs.named task pathname
  match parent with
  | none => fs.clean none none
  | some (dir, []) => return (some dir, fs)
  | some (dir, name) =>
      let (found, dir, fs) ← fs.findEntry dir name
      match found with
      | some found =>
          let (inode, fs) ← fs.iget (fs.inodeTable dir).dev
            (fs.entry found.entry).nr
          if fs.permission task inode (accMode (flag &&& oAccmode)) = false then
            fs.makeup dir inode flag
          else if isDir (fs.desc inode).mode ∧ flag &&& oAccmode ≠ oRdonly then
            fs.clean (some dir) (some inode)
          else
            fs.makeup dir inode flag
      | none =>
          if flag &&& oCreat = 0 then
            fs.clean (some dir) none
          else if fs.permission task dir pWrite = false then
            fs.clean (some dir) none
          else
            fs.createFile task dir name flag mode

end Fs

end LightOS
