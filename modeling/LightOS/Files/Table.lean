import LightOS.Fs.Files
import LightOS.Sched.State
import LightOS.Foundation.Transition

/-!
# The table of open files

The calls that make slots of tasks point to entries of `file_table`, run by any number
of tasks.  A task may be put to sleep inside the `iput` of `sys_close`, between the
release of its reference and the moment at which it clears its slot, so `sys_close` is
two steps here; the other functions do what they do with the table and the slots
without sleeping.  What `inode_open`, `get_pipe_inode` and `namei` come up with is
part of the label of a step.
-/

namespace LightOS

open Sched (taskNr)

/-- What the caller of `sys_close` does when its descriptors are closed. -/
inductive Then
  /-- `sys_close` and `sys_execve` are done with the table. -/
  | back
  /-- `sys_dup2` goes on with `dupfd`. -/
  | dup (oldfd newfd : Nat)
  /-- `sys_exit` goes on to its end. -/
  | dead
  deriving DecidableEq, Repr

/-- Where a task stands. -/
inductive CallPoint
  /-- The slot of `task_list` is null. -/
  | absent
  /-- The task is in none of the calls. -/
  | outside
  /-- The task is about to call `sys_close` for the first of the descriptors. -/
  | closing (fds : List Nat) (next : Then)
  /-- The task is in `sys_close`, between `put_file` and `task_put_fd`. -/
  | clearing (fd : Nat) (fds : List Nat) (next : Then)
  /-- `sys_exit` is through with the files of the task. -/
  | exited
  deriving DecidableEq, Repr

/-- What happens to the inode of an entry of `file_table`: the entry takes over a
reference to it, and `put_file` gives the reference back with `iput`. -/
inductive FileEvent
  | opened (inode : Nat)
  | released (inode : Nat)
  deriving DecidableEq, Repr

/-- The table and the tasks. -/
structure OpenFiles where
  /-- `file_table`. -/
  fileTable : Nat → File
  /-- `files` of each task. -/
  files : Nat → Nat → Option Nat
  call : Nat → CallPoint
  /-- What has happened to the inodes of each entry, the latest first. -/
  events : Nat → List FileEvent

namespace OpenFiles

/-- Change an entry of `file_table`. -/
def setFile (s : OpenFiles) (index : Nat) (file : File) : OpenFiles :=
  { s with fileTable := Function.update s.fileTable index file }

/-- Change a slot of a task. -/
def setSlot (s : OpenFiles) (pid fd : Nat) (file : Option Nat) : OpenFiles :=
  { s with files :=
      Function.update s.files pid (Function.update (s.files pid) fd file) }

/-- Put a task somewhere else. -/
def setCall (s : OpenFiles) (pid : Nat) (call : CallPoint) : OpenFiles :=
  { s with call := Function.update s.call pid call }

/-- Record an event. -/
def note (s : OpenFiles) (index : Nat) (event : FileEvent) : OpenFiles :=
  { s with events := Function.update s.events index (event :: s.events index) }

/-- `file->count++` for an entry. -/
def share (s : OpenFiles) (index : Nat) : OpenFiles :=
  s.setFile index { s.fileTable index with
    count := add32 (s.fileTable index).count 1 }

/-- `get_file`. -/
def getFile (s : OpenFiles) : Except Fault (Nat × OpenFiles) :=
  match (List.range fileNr).find? fun index =>
      3 ≤ index ∧ (s.fileTable index).count = 0 with
  | some index => .ok (index, s.share index)
  | none => .error .panic

/-- `put_file`. -/
def putFile (s : OpenFiles) (index : Nat) : Except Fault OpenFiles := do
  let file := s.fileTable index
  check (0 < file.count)
  let s := s.setFile index { file with count := file.count - 1 }
  if file.count - 1 = 0 then
    return s.note index (.released file.inode)
  else
    return s

/-- `task_get_fd`. -/
def taskGetFd (s : OpenFiles) (pid : Nat) : Except Fault Nat :=
  match (List.range taskFileNr).find? fun fd => 3 ≤ fd ∧ s.files pid fd = none with
  | some fd => .ok fd
  | none => .error .panic

/-- `sys_open` behind `inode_open`, which has returned an inode with its descriptor
or a null pointer. -/
def sysOpen (s : OpenFiles) (pid : Nat) (inode : Option Nat) (desc : InodeDesc)
    (flags : Nat) : Except Fault (Int × OpenFiles) := do
  match inode with
  | none => return (-1, s)
  | some inode =>
      let fd ← s.taskGetFd pid
      let (index, s) ← s.getFile
      check (s.files pid fd = none)
      let s := s.setSlot pid fd (some index)
      let file : File := {
        inode := inode
        flags := flags
        count := 1
        mode := desc.mode
        offset := if flags &&& oAppend ≠ 0 then toSigned desc.size else 0 }
      return (fd, (s.setFile index file).note index (.opened inode))

/-- The end of `sys_pipe` for one of its two files. -/
def setPipe (s : OpenFiles) (index inode flags : Nat) : OpenFiles :=
  (s.setFile index { s.fileTable index with inode := inode, flags := flags }).note index
    (.opened inode)

/-- `sys_pipe` with the inode that `get_pipe_inode` has made.  The result holds the
two descriptors. -/
def sysPipe (s : OpenFiles) (pid inode : Nat) :
    Except Fault (Int × (Nat × Nat) × OpenFiles) := do
  let readFd ← s.taskGetFd pid
  let (readFile, s) ← s.getFile
  let s := s.setSlot pid readFd (some readFile)
  let writeFd ← s.taskGetFd pid
  let (writeFile, s) ← s.getFile
  let s := s.setSlot pid writeFd (some writeFile)
  let s := s.setPipe readFile inode oRdonly
  let s := s.setPipe writeFile inode oWronly
  return (0, (readFd, writeFd), s)

/-- `dupfd`. -/
def dupfd (s : OpenFiles) (pid fd arg : Nat) : Int × OpenFiles :=
  if taskFileNr ≤ fd then
    (-1, s)
  else
    match s.files pid fd with
    | none => (-1, s)
    | some index =>
        match (List.range taskFileNr).find? fun slot =>
            arg ≤ slot ∧ s.files pid slot = none with
        | none => (-1, s)
        | some slot => (slot, (s.setSlot pid slot (some index)).share index)

/-- `sys_close` up to the `iput` of `put_file`. -/
def beginClose (s : OpenFiles) (pid fd : Nat) (fds : List Nat) (next : Then) :
    Except Fault OpenFiles := do
  check (fd < taskFileNr)
  match s.files pid fd with
  | none => return s.setCall pid (.closing fds next)
  | some index =>
      let s ← s.putFile index
      return s.setCall pid (.clearing fd fds next)

/-- The end of `sys_close`: `task_put_fd`. -/
def endClose (s : OpenFiles) (pid fd : Nat) (fds : List Nat) (next : Then) :
    OpenFiles :=
  (s.setSlot pid fd none).setCall pid (.closing fds next)

/-- What follows the last `sys_close` of a call. -/
def proceed (s : OpenFiles) (pid : Nat) : Then → OpenFiles
  | .back => s.setCall pid .outside
  | .dup oldfd newfd => (s.dupfd pid oldfd newfd).2.setCall pid .outside
  | .dead => s.setCall pid .exited

/-- A task goes on with its call. -/
def resume (s : OpenFiles) (pid : Nat) : Except Fault OpenFiles :=
  match s.call pid with
  | .closing [] next => .ok (s.proceed pid next)
  | .closing (fd :: fds) next => s.beginClose pid fd fds next
  | .clearing fd fds next => .ok (s.endClose pid fd fds next)
  | _ => .error .misuse

/-- `get_free_task`. -/
def getFreeTask (s : OpenFiles) : Except Fault Nat :=
  match (List.range taskNr).find? fun pid => s.call pid = .absent with
  | some pid => .ok pid
  | none => .error .panic

/-- The loop of `sys_fork` over the files of the child. -/
def shareFiles (files : Nat → Option Nat) (s : OpenFiles) : List Nat → OpenFiles
  | [] => s
  | fd :: fds =>
      match files fd with
      | none => shareFiles files s fds
      | some index => shareFiles files (s.share index) fds

/-- `sys_fork`. -/
def sysFork (s : OpenFiles) (pid : Nat) : Except Fault (Nat × OpenFiles) := do
  let child ← s.getFreeTask
  let s := { s with files := Function.update s.files child (s.files pid) }
  let s := s.setCall child .outside
  return (child, shareFiles (s.files child) s (List.range taskFileNr))

/-- The descriptors that `fork_clean` closes. -/
def programFds : List Nat :=
  List.range' 3 (taskFileNr - 3)

/-- `sys_execve` up to its first `sys_close`.  It has been accepted when `namei` found
a regular file that the task may execute. -/
def sysExecve (s : OpenFiles) (pid : Nat) (accepted : Bool) : OpenFiles :=
  if accepted then s.setCall pid (.closing programFds .back) else s

/-- `sys_exit` up to its first `sys_close`. -/
def sysExit (s : OpenFiles) (pid : Nat) : Except Fault OpenFiles := do
  check (pid ≠ 0 ∧ pid ≠ 1)
  return s.setCall pid (.closing (List.range taskFileNr) .dead)

/-- A call of a task, or its return from a sleep. -/
inductive Label
  | open (pid : Nat) (inode : Option Nat) (desc : InodeDesc) (flags : Nat)
  | close (pid fd : Nat)
  | dup (pid oldfd : Nat)
  | dup2 (pid oldfd newfd : Nat)
  | pipe (pid inode : Nat)
  | fork (pid : Nat)
  | execve (pid : Nat) (accepted : Bool)
  | exit (pid : Nat)
  /-- `sys_waitpid` removes a child that has exited. -/
  | waitpid (pid child : Nat)
  | resume (pid : Nat)

/-- A task begins a call. -/
def enter (s : OpenFiles) (pid : Nat) : Except Fault Unit :=
  if s.call pid = .outside then .ok () else .error .misuse

/-- One step of a task. -/
def next (s : OpenFiles) : Label → Except Fault OpenFiles
  | .open pid inode desc flags => do
      s.enter pid
      return (← s.sysOpen pid inode desc flags).2
  | .close pid fd => do
      s.enter pid
      return s.setCall pid (.closing [fd] .back)
  | .dup pid oldfd => do
      s.enter pid
      return (s.dupfd pid oldfd 0).2
  | .dup2 pid oldfd newfd => do
      s.enter pid
      if oldfd = newfd then
        return s
      return s.setCall pid (.closing [newfd] (.dup oldfd newfd))
  | .pipe pid inode => do
      s.enter pid
      return (← s.sysPipe pid inode).2.2
  | .fork pid => do
      s.enter pid
      return (← s.sysFork pid).2
  | .execve pid accepted => do
      s.enter pid
      return s.sysExecve pid accepted
  | .exit pid => do
      s.enter pid
      s.sysExit pid
  | .waitpid pid child => do
      s.enter pid
      if s.call child = .exited then
        return s.setCall child .absent
      throw .misuse
  | .resume pid => s.resume pid

/-! ## The start of the system -/

/-- Memory before any task is created. -/
def blank : OpenFiles where
  fileTable := fun _ => ⟨0, 0, 0, 0, 0⟩
  files := fun _ _ => none
  call := fun _ => .absent
  events := fun _ => []

/-- The part of `task_create` about files: the standard streams. -/
def taskCreate (s : OpenFiles) : Except Fault OpenFiles := do
  let pid ← s.getFreeTask
  let s := { s with files := Function.update s.files pid fun _ => none }
  let s := s.setCall pid .outside
  let s := ((s.setSlot pid 0 (some 0)).setSlot pid 1 (some 1)).setSlot pid 2 (some 2)
  return ((s.share 0).share 1).share 2

/-- What `dev_init` stores in the entry of a standard stream. -/
def setStream (s : OpenFiles) (index inode mode flags : Nat) : OpenFiles :=
  (s.setFile index { s.fileTable index with
    inode := inode
    mode := mode
    flags := flags
    offset := 0 }).note index (.opened inode)

/-- The part of `dev_init` about files: the inodes that `namei` finds for the standard
streams, and their modes. -/
def devInit (s : OpenFiles) (inode mode : Nat → Nat) : OpenFiles :=
  let s := s.setStream 0 (inode 0) (mode 0) oRdonly
  let s := s.setStream 1 (inode 1) (mode 1) oWronly
  s.setStream 2 (inode 2) (mode 2) oWronly

/-- `task_setup` and `dev_init`. -/
def boot (inode mode : Nat → Nat) : Except Fault OpenFiles := do
  let s ← blank.taskCreate
  let s ← s.taskCreate
  return s.devInit inode mode

/-- The runs from the start of the system. -/
def runs : System OpenFiles Label where
  initial s := ∃ inode mode, boot inode mode = .ok s
  step before label after := before.next label = .ok after

end OpenFiles
end LightOS
