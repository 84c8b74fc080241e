import LightOS.Fs.AbsolutePaths
import LightOS.Fs.Moves
import LightOS.Heap.Arena

/-!
# The block of the working directory

`task->pwd` points to a block of the heap, whose first `pwd_len` bytes are the path of the
working directory.  `sys_chdir` stores the new length before it compares the lengths, so that
it never asks for another block: each task keeps the block that it began with.
-/

namespace LightOS

/-- One more reference to an inode: `inode->count++`. -/
def Fs.refer (fs : Fs) (ino : Nat) : Fs :=
  fs.setCount ino (add32 (fs.inodeTable ino).count 1)

/-- One more reference to an inode, where the pointer is not null. -/
def Fs.referOption (fs : Fs) : Option Nat → Fs
  | none => fs
  | some ino => fs.refer ino

/-- A block of the heap, and the size that `kmalloc` was asked for. -/
structure PwdBlock where
  requested : Nat
  text : Text

namespace PwdBlock

/-- `kmalloc`, which clears the block. -/
def kmalloc (size : Nat) : PwdBlock :=
  ⟨size, fun _ => 0⟩

/-- `memcpy` of a string to the block. -/
def memcpy (block : PwdBlock) (source : Cursor) : PwdBlock :=
  { block with text := fun index => source.getD index (block.text index) }

/-- The bytes that the block has. -/
def capacity (block : PwdBlock) : Nat :=
  Heap.roundSize block.requested

end PwdBlock

/-- What `sys_chdir` and `sys_fork` use of the structure `task_t`. -/
structure WorkTask where
  creds : Creds
  iexec : Option Nat
  pwd : PwdBlock
  pwdLen : Nat

namespace WorkTask

/-- The first `pwd_len` bytes of `pwd`. -/
def path (task : WorkTask) : Cursor :=
  (List.range task.pwdLen).map task.pwd.text

/-- The working directory that `task_create` gives a task. -/
structure Created (task : WorkTask) : Prop where
  ipwd : task.creds.ipwd = task.creds.iroot
  pwd : task.pwd = (PwdBlock.kmalloc 1).memcpy [separator]
  pwdLen : task.pwdLen = 1

end WorkTask

/-- The file systems and `task_list`. -/
structure Working where
  fs : Fs
  task : Nat → Option WorkTask

/-- The calls that change or copy a working directory. -/
inductive WorkCall
  | chdir (pid : Nat) (pathname : { pathname : Cursor // Unterminated pathname })
  | fork (pid : Nat)

namespace Working

/-- `sys_chdir`. -/
def sysChdir (w : Working) (pid : Nat) (pathname : Cursor) : Except Fault (Int × Working) := do
  match w.task pid with
  | none => throw .misuse
  | some task =>
      check (pathname.length < maxPathLen)
      if pathname.length < 1 then
        return (-1, w)
      let path ← abspath task.path pathname
      let (inode, fs) ← w.fs.namei task.creds (some path)
      match inode with
      | none => return (-1, { w with fs := fs })
      | some inode =>
          if isDir (fs.desc inode).mode = false then
            return (-1, { w with fs := ← fs.iput inode })
          else if inode = task.creds.ipwd then
            return (0, { w with fs := ← fs.iput inode })
          else
            let fs ← fs.iput task.creds.ipwd
            let task := { task with
              creds := { task.creds with ipwd := inode }
              pwdLen := path.length }
            -- `pwd_len` is the new length here already.
            let pwd := if task.pwdLen < path.length then .kmalloc path.length else task.pwd
            let task := { task with pwd := pwd.memcpy path }
            return (0, ⟨fs, Function.update w.task pid (some task)⟩)

/-- `get_free_task`. -/
def getFreeTask (w : Working) : Except Fault Nat :=
  match (List.range Sched.taskNr).find? fun pid => (w.task pid).isNone with
  | some pid => .ok pid
  | none => .error .panic

/-- The parts of `sys_fork` about the directories of the task. -/
def sysFork (w : Working) (pid : Nat) : Except Fault (Int × Working) := do
  match w.task pid with
  | none => throw .misuse
  | some task =>
      check (task.creds.uid = Sched.userRing3)
      let child ← w.getFreeTask
      let pwd := (PwdBlock.kmalloc task.pwdLen).memcpy task.path
      let fs := ((w.fs.refer task.creds.ipwd).refer task.creds.iroot).referOption task.iexec
      return (child, ⟨fs, Function.update w.task child (some { task with pwd := pwd })⟩)

def next (w : Working) : WorkCall → Except Fault (Int × Working)
  | .chdir pid pathname => w.sysChdir pid pathname.val
  | .fork pid => w.sysFork pid

/-- Runs of the two calls, with any tasks that `task_create` has made. -/
def runs : System Working WorkCall where
  initial w := ∀ pid task, w.task pid = some task → task.Created
  step before call after := ∃ value, before.next call = .ok (value, after)

end Working

/-! ## Working directories that fit their blocks -/

/-- The path of the working directory lies in the block.  The terminator in the block is what
`strcpy` in `abspath` and `strncpy` in `sys_getcwd` stop at.  `namei` has found the working
directory under the path, and since then inodes have been taken and given back only. -/
structure WorkTask.Fits (fs : Fs) (task : WorkTask) : Prop where
  requested : minBlockSize < task.pwdLen → task.pwdLen ≤ task.pwd.requested
  inside : task.pwdLen ≤ task.pwd.capacity
  terminated : ∃ index < task.pwd.capacity, task.pwd.text index = 0
  canonical : IsCanonical task.path
  named : ∃ before after, Fs.Moves before fs ∧
    before.namei task.creds (some task.path) = .ok (some task.creds.ipwd, after)

namespace Working

def Good (w : Working) : Prop :=
  ∀ pid task, w.task pid = some task → task.Fits w.fs

/-- `sys_chdir` comes to a directory other than the present one. -/
def Enters (w : Working) (pid : Nat) (pathname path : Cursor) (inode : Nat) : Prop :=
  ∃ task fs, w.task pid = some task ∧ 0 < pathname.length ∧
    abspath task.path pathname = .ok path ∧
    w.fs.namei task.creds (some path) = .ok (some inode, fs) ∧
    isDir (fs.desc inode).mode = true ∧ inode ≠ task.creds.ipwd

/-- The directories that `sys_chdir` enters have paths shorter than the smallest block. -/
def Short (w : Working) : WorkCall → Prop
  | .chdir pid pathname => ∀ path inode, w.Enters pid pathname.val path inode →
      path.length < minBlockSize
  | .fork _ => True

end Working

/-! ## Paths in blocks -/

namespace PwdBlock

variable {block : PwdBlock} {source : Cursor} {index : Nat}

theorem memcpy_inside (inside : index < source.length) :
    (block.memcpy source).text index = source[index] :=
  List.getD_eq_getElem _ _ inside

theorem memcpy_behind (behind : source.length ≤ index) :
    (block.memcpy source).text index = block.text index :=
  List.getD_eq_default _ _ behind

theorem range_memcpy (block : PwdBlock) (source : Cursor) :
    (List.range source.length).map (block.memcpy source).text = source := by
  apply List.ext_getElem
  · rw [List.length_map, List.length_range]
  · intro index _ inside
    rw [List.getElem_map, List.getElem_range]
    exact memcpy_inside inside

end PwdBlock

/-! ## Walks that do not read the working directory -/

namespace Fs

theorem descend_ipwd (task : Creds) (ipwd : Nat) (right : Cursor) (rounds : Nat) (fs : Fs)
    (inode : Nat) (left : Cursor) :
    fs.descend { task with ipwd := ipwd } right rounds inode left =
      fs.descend task right rounds inode left := by
  induction rounds generalizing fs inode left with
  | zero => rfl
  | succ rounds inductionHypothesis =>
      unfold descend
      simp only [inductionHypothesis]
      rfl

/-- An absolute path names the same for every working directory. -/
theorem namei_ipwd (fs : Fs) (task : Creds) (ipwd : Nat) {path : Cursor}
    (absolute : path.head?.any isSeparator = true) :
    fs.namei { task with ipwd := ipwd } (some path) = fs.namei task (some path) := by
  have same : fs.named { task with ipwd := ipwd } (some path) = fs.named task (some path) := by
    cases path with
    | nil => rfl
    | cons first rest =>
        have isSep : isSeparator first = true := absolute
        unfold named
        simp only [isSep, descend_ipwd]
        rfl
  unfold namei
  rw [same]

end Fs

namespace Working

variable {w after : Working} {pid : Nat} {pathname : Cursor} {value : Int}

/-- The directory that is entered is the one that `namei` finds. -/
theorem Enters.found {path other : Cursor} {inode : Nat} {task : WorkTask} {fs : Fs}
    {result : Option Nat} (enters : w.Enters pid pathname path inode)
    (present : w.task pid = some task) (isPath : abspath task.path pathname = .ok other)
    (found : w.fs.namei task.creds (some other) = .ok (result, fs)) :
    path = other ∧ result = some inode ∧ isDir (fs.desc inode).mode = true ∧
      inode ≠ task.creds.ipwd := by
  obtain ⟨_, _, alsoPresent, _, alsoPath, alsoFound, directory, different⟩ := enters
  rw [present] at alsoPresent
  cases alsoPresent
  rw [isPath] at alsoPath
  cases alsoPath
  rw [found] at alsoFound
  cases alsoFound
  exact ⟨rfl, rfl, directory, different⟩

/-- What `sys_chdir` may do: the directory stays, or another one is entered. -/
theorem sysChdir_cases (call : w.sysChdir pid pathname = .ok (value, after)) :
    Fs.Moves w.fs after.fs ∧
      ((after.task = w.task ∧ ∀ path inode, ¬w.Enters pid pathname path inode) ∨
        ∃ task path inode, w.task pid = some task ∧ w.Enters pid pathname path inode ∧
          (∃ fs, w.fs.namei task.creds (some path) = .ok (some inode, fs)) ∧
          abspath task.path pathname = .ok path ∧
          after.task = Function.update w.task pid (some { task with
            creds := { task.creds with ipwd := inode }
            pwdLen := path.length
            pwd := task.pwd.memcpy path })) := by
  unfold sysChdir at call
  cases present : w.task pid with
  | none =>
      rw [present] at call
      cases call
  | some task =>
      rw [present] at call
      simp only [bind_eq_ok, check_eq_ok] at call
      obtain ⟨_, _, rest⟩ := call
      split at rest
      · rename_i empty
        cases rest
        refine ⟨.refl, .inl ⟨rfl, ?_⟩⟩
        rintro path inode ⟨_, _, _, some, _⟩
        omega
      · rename_i some
        simp only [bind_eq_ok] at rest
        obtain ⟨path, isPath, ⟨result, fs⟩, found, rest⟩ := rest
        have walked := Fs.Moves.namei found
        cases result with
        | none =>
            cases rest
            refine ⟨walked, .inl ⟨rfl, fun other inode enters => ?_⟩⟩
            obtain ⟨_, impossible, _⟩ := enters.found present isPath found
            cases impossible
        | some inode =>
            dsimp only at rest
            split at rest
            · rename_i noDirectory
              rw [bind_eq_ok] at rest
              obtain ⟨dropped, released, same⟩ := rest
              cases same
              refine ⟨walked.trans (Fs.Moves.put released), .inl ⟨rfl, ?_⟩⟩
              intro other number enters
              obtain ⟨_, isFound, directory, _⟩ := enters.found present isPath found
              cases isFound
              rw [noDirectory] at directory
              cases directory
            · rename_i directory
              rw [Bool.not_eq_false] at directory
              split at rest
              · rename_i isPwd
                rw [bind_eq_ok] at rest
                obtain ⟨dropped, released, same⟩ := rest
                cases same
                refine ⟨walked.trans (Fs.Moves.put released), .inl ⟨rfl, ?_⟩⟩
                intro other number enters
                obtain ⟨_, isFound, _, different⟩ := enters.found present isPath found
                cases isFound
                exact different isPwd
              · rename_i different
                rw [bind_eq_ok] at rest
                obtain ⟨dropped, released, same⟩ := rest
                rw [if_neg (Nat.lt_irrefl _)] at same
                cases same
                exact ⟨walked.trans (Fs.Moves.put released), .inr ⟨task, path, inode, rfl,
                  ⟨task, fs, present, by omega, isPath, found, directory, different⟩,
                  ⟨fs, found⟩, isPath, rfl⟩⟩

/-- What `sys_fork` does. -/
theorem sysFork_cases (call : w.sysFork pid = .ok (value, after)) :
    Fs.Moves w.fs after.fs ∧ ∃ task child, w.task pid = some task ∧
      after.task = Function.update w.task child (some { task with
        pwd := (PwdBlock.kmalloc task.pwdLen).memcpy task.path }) := by
  unfold sysFork at call
  cases present : w.task pid with
  | none =>
      rw [present] at call
      cases call
  | some task =>
      rw [present] at call
      simp only [bind_eq_ok, check_eq_ok] at call
      obtain ⟨_, _, child, _, same⟩ := call
      cases same
      have referred : Fs.Moves w.fs ((w.fs.refer task.creds.ipwd).refer task.creds.iroot) :=
        (Fs.Moves.take _ _).trans (Fs.Moves.take _ _)
      refine ⟨?_, task, child, rfl, rfl⟩
      cases task.iexec with
      | none => exact referred
      | some ino => exact referred.trans (Fs.Moves.take _ _)

end Working

/-! ## What the calls keep -/

/-- A working directory whose path is shorter than the smallest block. -/
structure WorkTask.Snug (fs : Fs) (task : WorkTask) : Prop where
  requested : task.pwd.requested < minBlockSize
  short : task.pwdLen < minBlockSize
  last : task.pwd.text 15 = 0
  canonical : IsCanonical task.path
  named : ∃ before after, Fs.Moves before fs ∧
    before.namei task.creds (some task.path) = .ok (some task.creds.ipwd, after)

namespace WorkTask

variable {fs after : Fs} {task : WorkTask}

theorem Snug.capacity (snug : task.Snug fs) : task.pwd.capacity = 16 :=
  if_neg (Nat.not_le_of_lt snug.requested)

theorem Snug.fits (snug : task.Snug fs) : task.Fits fs where
  requested := fun long => absurd snug.short (Nat.not_lt_of_lt long)
  inside := by
    rw [snug.capacity]
    exact Nat.le_of_lt snug.short
  terminated := ⟨15, by rw [snug.capacity]; decide, snug.last⟩
  canonical := snug.canonical
  named := snug.named

theorem Snug.moved (snug : task.Snug fs) (moves : Fs.Moves fs after) : task.Snug after := by
  obtain ⟨before, found, earlier, call⟩ := snug.named
  exact { snug with named := ⟨before, found, earlier.trans moves, call⟩ }

theorem Created.path (created : task.Created) : task.path = [separator] := by
  unfold WorkTask.path
  rw [created.pwd, created.pwdLen]
  exact PwdBlock.range_memcpy (PwdBlock.kmalloc 1) [separator]

theorem Created.snug (created : task.Created) (fs : Fs) : task.Snug fs where
  requested := by
    rw [created.pwd]
    decide
  short := by
    rw [created.pwdLen]
    decide
  last := by
    rw [created.pwd]
    exact PwdBlock.memcpy_behind (by decide)
  canonical := by
    rw [created.path]
    exact ⟨separator, [], rfl, List.forall_mem_nil _, rfl⟩
  named := by
    rw [created.path, created.ipwd]
    exact ⟨fs, _, .refl, rfl⟩

/-- A task after `sys_chdir` has entered a directory. -/
def enter (task : WorkTask) (path : Cursor) (inode : Nat) : WorkTask :=
  { task with
    creds := { task.creds with ipwd := inode }
    pwdLen := path.length
    pwd := task.pwd.memcpy path }

theorem enter_path (task : WorkTask) (path : Cursor) (inode : Nat) :
    (task.enter path inode).path = path :=
  PwdBlock.range_memcpy task.pwd path

/-- A directory with a short path is entered. -/
theorem Snug.enter (snug : task.Snug fs) (moves : Fs.Moves fs after) {pathname path : Cursor}
    (text : Unterminated pathname) (isPath : abspath task.path pathname = .ok path) {inode : Nat}
    (found : ∃ walked, fs.namei task.creds (some path) = .ok (some inode, walked))
    (short : path.length < minBlockSize) : (task.enter path inode).Snug after := by
  have isCanonical : IsCanonical path := by
    have result := abspath_eq snug.canonical text
    rw [isPath] at result
    cases result
    exact isCanonical_fullPath snug.canonical text
  refine ⟨snug.requested, short, ?last, ?canonical, ?named⟩
  case last =>
    have behind : path.length ≤ 15 := Nat.le_of_lt_succ short
    exact (PwdBlock.memcpy_behind behind).trans snug.last
  case canonical =>
    rw [enter_path]
    exact isCanonical
  case named =>
    obtain ⟨walked, call⟩ := found
    refine ⟨fs, walked, moves, ?_⟩
    rw [enter_path]
    exact (fs.namei_ipwd task.creds inode isCanonical.absolute).trans call

/-- The working directory of a child. -/
theorem Snug.child (snug : task.Snug fs) (moves : Fs.Moves fs after) :
    ({ task with pwd := (PwdBlock.kmalloc task.pwdLen).memcpy task.path } : WorkTask).Snug
      after := by
  have length : task.path.length = task.pwdLen := by
    unfold WorkTask.path
    rw [List.length_map, List.length_range]
  have samePath : ({ task with
      pwd := (PwdBlock.kmalloc task.pwdLen).memcpy task.path } : WorkTask).path = task.path := by
    have copied := PwdBlock.range_memcpy (PwdBlock.kmalloc task.pwdLen) task.path
    rw [length] at copied
    exact copied
  refine ⟨snug.short, snug.short, ?last, ?canonical, ?named⟩
  case last =>
    apply PwdBlock.memcpy_behind
    rw [length]
    exact Nat.le_of_lt_succ snug.short
  case canonical =>
    rw [samePath]
    exact snug.canonical
  case named =>
    rw [samePath]
    exact (snug.moved moves).named

end WorkTask

namespace Working

variable {w after : Working} {value : Int}

/-- Every working directory is short. -/
def Snug (w : Working) : Prop :=
  ∀ pid task, w.task pid = some task → task.Snug w.fs

theorem Snug.update (snug : w.Snug) (moves : Fs.Moves w.fs after.fs) {pid : Nat}
    {task : WorkTask} (isTask : task.Snug after.fs)
    (others : after.task = Function.update w.task pid (some task)) : after.Snug := by
  intro other found present
  rw [others] at present
  by_cases same : other = pid
  · rw [same, Function.update_self] at present
    cases present
    exact isTask
  · rw [Function.update_of_ne same] at present
    exact (snug other found present).moved moves

theorem Snug.next {call : WorkCall} (snug : w.Snug) (short : w.Short call)
    (called : w.next call = .ok (value, after)) : after.Snug := by
  cases call with
  | chdir pid pathname =>
      obtain ⟨moves, stays | ⟨task, path, inode, present, enters, found, isPath, others⟩⟩ :=
        sysChdir_cases called
      · intro other task present
        rw [stays.1] at present
        exact (snug other task present).moved moves
      · exact snug.update moves ((snug pid task present).enter moves pathname.property isPath
          found (short path inode enters)) others
  | fork pid =>
      obtain ⟨moves, task, child, present, others⟩ := sysFork_cases called
      exact snug.update moves ((snug pid task present).child moves) others

/-- A directory whose path fills the block does not fit. -/
theorem not_good_of_not_short {call : WorkCall} (snug : w.Snug) (long : ¬w.Short call)
    (called : w.next call = .ok (value, after)) : ¬after.Good := by
  cases call with
  | fork pid => exact absurd trivial long
  | chdir pid pathname =>
      intro good
      obtain ⟨_, ⟨_, stays⟩ | ⟨task, path, inode, present, _, _, isPath, others⟩⟩ :=
        sysChdir_cases called
      · exact long fun other found enters => absurd enters (stays other found)
      · apply long
        intro other found enters
        obtain ⟨_, _, alsoPresent, _, alsoPath, _⟩ := enters
        rw [present] at alsoPresent
        cases alsoPresent
        rw [isPath] at alsoPath
        cases alsoPath
        have fits := good pid (task.enter path inode) (by
          rw [others]
          exact Function.update_self _ _ _)
        have snugTask := snug pid task present
        have capacity : (task.enter path inode).pwd.capacity = 16 := snugTask.capacity
        have inside : path.length ≤ 16 := by
          have inside := fits.inside
          rw [capacity] at inside
          exact inside
        obtain ⟨index, isIndex, ends⟩ := fits.terminated
        rw [capacity] at isIndex
        -- A path of 16 bytes leaves no room for a terminator.
        by_contra full
        have inPath : index < path.length := by
          simp only [minBlockSize] at full
          omega
        have isCanonical := fits.canonical
        rw [WorkTask.enter_path] at isCanonical
        have isByte : (task.enter path inode).pwd.text index = path[index] :=
          PwdBlock.memcpy_inside inPath
        rw [isByte] at ends
        exact isCanonical.text _ (List.getElem_mem inPath) ends

/-- In a run of the two calls every working directory lies in its block exactly when the
directories that are entered have paths shorter than the smallest block. -/
theorem good_iff_short {start final : Working} {trace : List (Working × WorkCall)}
    (begins : runs.initial start) (path : runs.Path start trace final) :
    System.Visits Good trace final ↔ System.Obeys Short trace := by
  refine path.visits_iff_obeys Snug
    (fun pid task present => (begins pid task present).snug start.fs) ?_
    (fun state snug pid task present => (snug pid task present).fits) ?_
  · rintro before call after snug short ⟨value, called⟩
    exact snug.next short called
  · rintro before call after snug long ⟨value, called⟩
    exact not_good_of_not_short snug long called

/-- A device whose root directory has a directory of thirteen letters, which has a directory
of two. -/
def nestedDisk (number : Nat) : Memory :=
  match number with
  | 4 => Fs.bytes ([0xED, 0x41, 0, 0, 48, 0, 0, 0, 0, 0, 0, 0, 0, 3, 5, 0] ++ List.replicate 16 0 ++
      [0xED, 0x41, 0, 0, 48, 0, 0, 0, 0, 0, 0, 0, 0, 3, 6, 0] ++ List.replicate 16 0 ++
      [0xED, 0x41, 0, 0, 32, 0, 0, 0, 0, 0, 0, 0, 0, 2, 7, 0])
  | 5 => Fs.bytes ([1, 0, 46] ++ List.replicate 13 0 ++ [1, 0, 46, 46] ++ List.replicate 12 0 ++
      [2, 0] ++ List.replicate 13 97)
  | 6 => Fs.bytes ([2, 0, 46] ++ List.replicate 13 0 ++ [1, 0, 46, 46] ++ List.replicate 12 0 ++
      [3, 0, 98, 98])
  | 7 => Fs.bytes ([3, 0, 46] ++ List.replicate 13 0 ++ [2, 0, 46, 46])
  | number => Fs.smallDisk number

/-- A user task has just been made. -/
def nested : Working where
  fs := { Fs.small with disk := fun dev => if dev = 1 then nestedDisk else fun _ => Fs.bytes [] }
  task := fun pid =>
    if pid = 2 then
      some ⟨⟨1000, 0, 0o22, 0, 0⟩, none, (PwdBlock.kmalloc 1).memcpy [separator], 1⟩
    else none

theorem initial_nested : runs.initial nested := by
  intro pid task present
  unfold nested at present
  dsimp only at present
  split at present
  · cases present
    exact ⟨rfl, rfl, rfl⟩
  · cases present

/-- The effect of a call. -/
def nextState (w : Working) (call : WorkCall) : Except Fault Working :=
  (w.next call).map Prod.snd

theorem step_of_nextState (before : Working) (call : WorkCall) (after : Working)
    (called : before.nextState call = .ok after) : runs.step before call after := by
  unfold nextState at called
  cases result : before.next call with
  | error fault =>
      rw [result] at called
      cases called
  | ok result' =>
      rw [result] at called
      cases called
      exact ⟨result'.1, result⟩

/-- The path of task 2 has a number of bytes, and it lies in the block of `task_create`. -/
def hasPath (length : Nat) (w : Working) : Bool :=
  (w.task 2).any fun task => task.pwdLen = length ∧ task.pwd.requested = 1

/-- The outer directory is entered, and the task gets a child. -/
theorem good_iff_short_outer :
    ∃ trace final, runs.Path nested trace final ∧ hasPath 14 final = true ∧
      (System.Visits Good trace final ↔ System.Obeys Short trace) := by
  obtain ⟨trace, final, path, isLong⟩ := System.Path.of_run runs nextState step_of_nextState
    nested [.chdir 2 ⟨separator :: List.replicate 13 97, by decide⟩, .fork 2] (hasPath 14)
    (by decide +kernel)
  exact ⟨trace, final, path, isLong, good_iff_short initial_nested path⟩

/-- The path of the inner directory does not fit. -/
theorem good_fails :
    ¬∀ start trace final, runs.initial start → runs.Path start trace final →
      System.Visits Good trace final := by
  intro always
  obtain ⟨trace, final, path, isLong⟩ := System.Path.of_run runs nextState step_of_nextState
    nested [.chdir 2 ⟨separator :: List.replicate 13 97 ++ [separator, 98, 98], by decide⟩]
    (hasPath 17) (by decide +kernel)
  obtain ⟨good, _⟩ := always nested trace final initial_nested path
  unfold hasPath at isLong
  cases present : final.task 2 with
  | none =>
      rw [present] at isLong
      cases isLong
  | some task =>
      rw [present, Option.any_some, decide_eq_true_eq] at isLong
      have requested := (good 2 task present).requested
      rw [isLong.1, isLong.2] at requested
      exact absurd (requested (by decide)) (by decide)

end Working

end LightOS
