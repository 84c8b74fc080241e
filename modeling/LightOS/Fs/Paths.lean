import LightOS.Fs.Calls
import LightOS.Sched.State

/-!
# Working directories

The functions of `file.c` that a task moves with.  `abspath` works in place on a
copy of the path: the cursor `t` follows the text that has been kept and the
cursor `c` reads ahead of it.
-/

namespace LightOS

/-- `MAX_PATH_LEN`. -/
abbrev maxPathLen : Nat := 4096

/-- `SEPARATOR1`. -/
abbrev separator : UInt8 := 47

/-- The text that a buffer begins with. -/
abbrev Text := Nat → UInt8

/-- The text of a string, with its terminator. -/
def Text.ofString (content : Cursor) : Text :=
  fun index => content.getD index 0

/-- The string in a buffer of `size` bytes. -/
def Text.toString (text : Text) (size : Nat) : Cursor :=
  ((List.range size).map text).takeWhile (· ≠ 0)

/-- The loop of `abspath` that takes `t` back behind the component before. -/
def stepBack (text : Text) : Nat → Nat
  | 0 => 0
  | t + 1 => if isSeparator (text t) then t else stepBack text t

/-- The loop of `abspath` that copies a component to `t`. -/
def copyComponent : Nat → Text → Nat → Nat → Except Fault (Text × Nat × Nat)
  | 0, _, _, _ => .error .blocked
  | rounds + 1, text, t, c =>
      if isSeparator (text (c + 1)) then
        .ok (text, t, c)
      else
        copyComponent rounds (Function.update text (t + 1) (text (c + 1)))
          (t + 1) (c + 1)

/-- The main loop of `abspath`.  Each round moves `c`, so there are no more rounds
than bytes. -/
def cleanPath (size : Nat) : Nat → Text → Nat → Nat → Except Fault Text
  | 0, _, _, _ => .error .blocked
  | rounds + 1, text, t, c =>
      if text (c + 1) = 0 then
        .ok (if 0 < t then Function.update text t 0
          else Function.update text (t + 1) 0)
      else if isSeparator (text (c + 1)) then
        cleanPath size rounds text t (c + 1)
      else if text (c + 1) = 46 ∧ isSeparator (text (c + 2)) then
        cleanPath size rounds text t (c + 2)
      else if text (c + 1) = 46 ∧ text (c + 2) = 46 ∧
          isSeparator (text (c + 3)) then
        cleanPath size rounds text (stepBack text t) (c + 3)
      else do
        let (text, t, c) ← copyComponent size text t c
        cleanPath size rounds (Function.update text (t + 1) separator) (t + 1) c

/-- `abspath` of a string that is not empty; `pwd` are the `pwd_len` bytes of the
working directory. -/
def abspath (pwd pathname : Cursor) : Except Fault Cursor := do
  let relative := ¬pathname.head?.any isSeparator
  let content :=
    (if relative then pwd ++ [separator] else []) ++ pathname ++ [separator]
  let text := Text.ofString content
  check (isSeparator (text 0))
  let size := content.length + 1
  let text ← cleanPath size size text 0 0
  return text.toString size

/-- What the functions here use of the tasks, besides the open files. -/
structure ProcessState where
  files : FileState
  /-- The slots of `task_list` in use. -/
  present : Nat → Bool
  /-- The `pwd_len` bytes of `pwd` of each task. -/
  pwd : Nat → Cursor
  /-- `iexec` of each task. -/
  iexec : Nat → Option Nat

namespace ProcessState

/-- The file systems of a state. -/
def fs (state : ProcessState) : Fs :=
  state.files.fs

/-- What the file system reads of a task. -/
def creds (state : ProcessState) (pid : Nat) : Creds :=
  (state.files.task pid).creds

/-- Replace the file systems. -/
def setFs (state : ProcessState) (fs : Fs) : ProcessState :=
  { state with files := { state.files with fs := fs } }

/-- Change what the file system reads of a task. -/
def setCreds (state : ProcessState) (pid : Nat) (creds : Creds) : ProcessState :=
  let task := { state.files.task pid with creds := creds }
  { state with files := { state.files with
      task := Function.update state.files.task pid task } }

/-- Store the first bytes of the working directory of a task. -/
def setPwd (state : ProcessState) (pid : Nat) (pwd : Cursor) : ProcessState :=
  { state with pwd := Function.update state.pwd pid pwd }

/-- `sys_chdir`. -/
def sysChdir (state : ProcessState) (pid : Nat) (pathname : Cursor) :
    Except Fault (Int × ProcessState) := do
  check (pathname.length < maxPathLen)
  if pathname.length < 1 then
    return (-1, state)
  let path ← abspath (state.pwd pid) pathname
  let creds := state.creds pid
  let (inode, fs) ← state.fs.namei creds (some path)
  match inode with
  | none => return (-1, state.setFs fs)
  | some inode =>
      if isDir (fs.desc inode).mode = false then
        return (-1, state.setFs (← fs.iput inode))
      else if inode = creds.ipwd then
        return (0, state.setFs (← fs.iput inode))
      else
        let fs ← fs.iput creds.ipwd
        let state := (state.setFs fs).setCreds pid { creds with ipwd := inode }
        return (0, state.setPwd pid path)

/-- `sys_chroot`. -/
def sysChroot (state : ProcessState) (pid : Nat) (pathname : Cursor) :
    Except Fault (Int × ProcessState) := do
  check (pathname.length < maxPathLen)
  if pathname.length < 1 then
    return (-1, state)
  let path ← abspath (state.pwd pid) pathname
  let creds := state.creds pid
  let (inode, fs) ← state.fs.namei creds (some path)
  match inode with
  | none => return (-1, state.setFs fs)
  | some inode =>
      if isDir (fs.desc inode).mode = false ∨ inode = creds.ipwd then
        return (-1, state.setFs (← fs.iput inode))
      else
        let fs ← fs.iput creds.iroot
        return (0, (state.setFs fs).setCreds pid { creds with iroot := inode })

end ProcessState
end LightOS
