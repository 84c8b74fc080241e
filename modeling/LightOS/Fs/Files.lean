import LightOS.Fs.Content
import LightOS.Fs.Names

/-!
# Open files

The functions of `file.c` over the table of open files and the tasks.  What a
pipe or a device does with a read or a write is a parameter.
-/

namespace LightOS

/-- `FILE_NR`. -/
abbrev fileNr : Nat := 128

/-- `TASK_FILE_NR`. -/
abbrev taskFileNr : Nat := 16

/-- The structure `file_t`. -/
structure File where
  inode : Nat
  count : Nat
  offset : Int
  flags : Nat
  mode : Nat
  deriving DecidableEq, Repr

/-- What the functions of `file.c` use of the structure `task_t`. -/
structure FileTask where
  creds : Creds
  /-- Index in `file_table` of each open descriptor. -/
  files : Nat → Option Nat

/-- The file systems, the open files and the tasks. -/
structure FileState where
  fs : Fs
  /-- `file_table`. -/
  fileTable : Nat → File
  task : Nat → FileTask

/-- What pipes and devices do: the value returned, the bytes read, and the file
systems afterwards. -/
structure Devices where
  /-- `pipe_read` of an inode and a count. -/
  pipeRead : Fs → Nat → Nat → Except Fault (Int × List UInt8 × Fs)
  /-- `pipe_write` of an inode, a buffer and a count. -/
  pipeWrite : Fs → Nat → (Nat → UInt8) → Nat → Except Fault (Int × Fs)
  /-- `device_read` of a device, a count and a position. -/
  deviceRead : Fs → Nat → Nat → Nat → Except Fault (Int × List UInt8 × Fs)
  /-- `device_write` of a device, a buffer, a count and a position. -/
  deviceWrite : Fs → Nat → (Nat → UInt8) → Nat → Nat → Except Fault (Int × Fs)

/-- `whence_t`. -/
inductive Whence
  | seekSet
  | seekCur
  | seekEnd
  deriving DecidableEq, Repr

namespace FileState

/-- Change an entry of `file_table`. -/
def setFile (state : FileState) (index : Nat) (file : File) : FileState :=
  { state with fileTable := Function.update state.fileTable index file }

/-- Change a descriptor of a task. -/
def setDescriptor (state : FileState) (pid fd : Nat) (file : Option Nat) :
    FileState :=
  let task := state.task pid
  let task := { task with files := Function.update task.files fd file }
  { state with task := Function.update state.task pid task }

/-- `get_file`. -/
def getFile (state : FileState) : Except Fault Nat :=
  match (List.range fileNr).find? fun index =>
      3 ≤ index ∧ (state.fileTable index).count = 0 with
  | some index => .ok index
  | none => .error .panic

/-- `task_get_fd`. -/
def taskGetFd (state : FileState) (pid : Nat) : Except Fault Nat :=
  match (List.range taskFileNr).find? fun fd =>
      3 ≤ fd ∧ (state.task pid).files fd = none with
  | some fd => .ok fd
  | none => .error .panic

/-- `sys_open`. -/
def sysOpen (state : FileState) (pid : Nat) (filename : Option Cursor)
    (flags mode : Nat) : Except Fault (Int × FileState) := do
  let (inode, fs) ←
    state.fs.inodeOpen (state.task pid).creds filename flags mode
  let state := { state with fs := fs }
  match inode with
  | none => return (-1, state)
  | some inode =>
      let fd ← state.taskGetFd pid
      let index ← state.getFile
      let state := state.setDescriptor pid fd (some index)
      let desc := state.fs.desc inode
      let offset := if flags &&& oAppend ≠ 0 then toSigned desc.size else 0
      return (fd, state.setFile index ⟨inode, 1, offset, flags, desc.mode⟩)

/-- A file opened through a descriptor. -/
def withOpened (state : FileState) (pid fd index : Nat) (file : File) :
    FileState :=
  (state.setDescriptor pid fd (some index)).setFile index file

@[simp] theorem withOpened_files_self
    (state : FileState) (pid fd index : Nat) (file : File) :
    ((state.withOpened pid fd index file).task pid).files fd = some index := by
  simp [withOpened, FileState.setFile, setDescriptor]

@[simp] theorem withOpened_fileTable_self
    (state : FileState) (pid fd index : Nat) (file : File) :
    (state.withOpened pid fd index file).fileTable index = file := by
  simp [withOpened, FileState.setFile]

/-- The entry of `file_table` that `get_file` finds is free. -/
theorem getFile_cases {state : FileState} {index : Nat}
    (found : state.getFile = .ok index) :
    index < fileNr ∧ 3 ≤ index ∧ (state.fileTable index).count = 0 := by
  unfold getFile at found
  split at found
  · rename_i other isFree
    cases found
    have free := List.find?_some isFree
    have inTable := List.mem_of_find?_eq_some isFree
    exact ⟨List.mem_range.mp inTable, by simpa using free⟩
  · cases found

/-- What `sys_open` may do. -/
theorem sysOpen_cases {state after : FileState} {pid : Nat} {filename : Option Cursor}
    {flags mode : Nat} {fd : Int}
    (returned : state.sysOpen pid filename flags mode = .ok (fd, after)) :
    (∃ fs, state.fs.inodeOpen (state.task pid).creds filename flags mode =
        .ok (none, fs) ∧ fd = -1 ∧ after = { state with fs := fs }) ∨
    ∃ inode fs slot index,
      state.fs.inodeOpen (state.task pid).creds filename flags mode =
        .ok (some inode, fs) ∧
      fd = (slot : Nat) ∧ index < fileNr ∧ 3 ≤ index ∧
      (state.fileTable index).count = 0 ∧
      after = FileState.withOpened { state with fs := fs } pid slot index
        ⟨inode, 1, if flags &&& oAppend ≠ 0 then toSigned (fs.desc inode).size
          else 0, flags, (fs.desc inode).mode⟩ := by
  unfold sysOpen at returned
  rw [bind_eq_ok] at returned
  obtain ⟨⟨inode, fs⟩, opened, returned⟩ := returned
  cases inode with
  | none =>
      cases returned
      exact .inl ⟨fs, opened, rfl, rfl⟩
  | some inode =>
      simp only [bind_eq_ok] at returned
      obtain ⟨slot, _, index, free, same⟩ := returned
      cases same
      obtain ⟨inTable, above, unused⟩ := getFile_cases free
      exact .inr ⟨inode, fs, slot, index, opened, rfl, inTable, above, unused, rfl⟩

/-- The file that a descriptor of a task refers to. -/
def fileOf (state : FileState) (pid : Nat) (fd : Int) : Option Nat :=
  if 0 ≤ fd ∧ fd < taskFileNr then (state.task pid).files fd.toNat else none

/-- Move the offset of a file by what a call transferred. -/
def moveOffset (state : FileState) (index : Nat) (result : Int) : FileState :=
  let file := state.fileTable index
  if result = -1 then
    state
  else
    state.setFile index { file with
      offset := toSigned (toUnsigned file.offset + toUnsigned result) }

/-- `sys_read`: the value returned and the bytes copied to the caller.  For a file that is
open for writing only the source returns a `ret` that it has not set yet; it is `EOF` here. -/
def sysRead (devices : Devices) (state : FileState) (pid : Nat) (fd : Int)
    (count : Nat) : Except Fault (Int × List UInt8 × FileState) := do
  if fd < 0 ∨ taskFileNr ≤ fd then
    return (-1, [], state)
  match state.fileOf pid fd with
  | none => throw .assertion
  | some index =>
      let file := state.fileTable index
      check (0 < count)
      if file.flags &&& oAccmode = oWronly then
        return (-1, [], state)
      let desc := state.fs.desc file.inode
      if (state.fs.inodeTable file.inode).pipe then
        let (result, bytes, fs) ← devices.pipeRead state.fs file.inode count
        return (result, bytes, { state with fs := fs })
      else if isChr desc.mode then
        check (desc.zone 0 ≠ 0)
        let (result, bytes, fs) ←
          devices.deviceRead state.fs (desc.zone 0) count 0
        return (result, bytes, { state with fs := fs })
      else if isBlk desc.mode then
        check (desc.zone 0 ≠ 0)
        check (file.offset.tmod 2 = 0)
        check (count % blockSize = 0)
        let (result, bytes, fs) ← devices.deviceRead state.fs (desc.zone 0)
          (count / blockSize) (toUnsigned (file.offset.tdiv blockSize))
        return (result, bytes, { state with fs := fs })
      else
        let (result, bytes) ← state.fs.inodeRead file.inode count file.offset
        return (result, bytes, state.moveOffset index result)

/-- `sys_write` of `count` bytes of a buffer. -/
def sysWrite (devices : Devices) (state : FileState) (pid : Nat) (fd : Int)
    (buf : Nat → UInt8) (count : Nat) : Except Fault (Int × FileState) := do
  if fd ≤ 0 ∨ taskFileNr ≤ fd then
    return (-1, state)
  match state.fileOf pid fd with
  | none => throw .assertion
  | some index =>
      let file := state.fileTable index
      check (0 < count)
      if file.flags &&& oAccmode = oRdonly then
        return (-1, state)
      let desc := state.fs.desc file.inode
      if (state.fs.inodeTable file.inode).pipe then
        let (result, fs) ← devices.pipeWrite state.fs file.inode buf count
        return (result, { state with fs := fs })
      else if isChr desc.mode then
        check (desc.zone 0 ≠ 0)
        let (result, fs) ←
          devices.deviceWrite state.fs (desc.zone 0) buf count 0
        return (result, { state with fs := fs })
      else if isBlk desc.mode then
        check (desc.zone 0 ≠ 0)
        check (file.offset.tmod 2 = 0)
        check (count % blockSize = 0)
        let (result, fs) ← devices.deviceWrite state.fs (desc.zone 0) buf
          (count / blockSize) (toUnsigned (file.offset.tdiv blockSize))
        return (result, { state with fs := fs })
      else
        let (result, fs) ←
          state.fs.inodeWrite file.inode buf count file.offset
        let state := { state with fs := fs }
        return (result, state.moveOffset index result)

/-- `sys_lseek`.  A value of `whence` outside the enumeration is `none`. -/
def sysLseek (state : FileState) (pid : Nat) (fd offset : Int)
    (whence : Option Whence) : Int × FileState :=
  if fd ≤ 2 ∨ taskFileNr ≤ fd then
    (-1, state)
  else
    match state.fileOf pid fd with
    | none => (-1, state)
    | some index =>
        let file := state.fileTable index
        let place (target : Int) : Int × FileState :=
          (target, state.setFile index { file with offset := target })
        match whence with
        | none => (-1, state)
        | some .seekSet =>
            if offset < 0 then (-1, state) else place offset
        | some .seekCur =>
            let sum := toSigned (toUnsigned file.offset + toUnsigned offset)
            if sum < 0 then (-1, state) else place sum
        | some .seekEnd =>
            -- The sum is an unsigned word, so the check never fails.
            let sum := add32 (state.fs.desc file.inode).size (toUnsigned offset)
            if sum < 0 then (-1, state) else place (toSigned sum)

end FileState

end LightOS
