import LightOS.Fs.Balance
import Mathlib.Algebra.Order.BigOperators.Group.Finset

/-!
# Calls on names

The functions that take a name, as calls of a task, and the references to inodes
that last beyond them.  A call that returns has changed the counts as it should
unless a walk of `named` was turned back at an inode that it had already taken.
-/

namespace LightOS

open Fs

variable {fs : Fs} {value : Int} {held : Multiset Nat} {pathname : Cursor} {after : ProcessState}

/-- A pointer that may be null points to an inode. -/
def pointsTo (pointer : Option Nat) (ino : Nat) : Nat :=
  if pointer = some ino then 1 else 0

namespace ProcessState

/-- The inode of an entry of `file_table` that is in use. -/
def fileInode (state : ProcessState) (index : Nat) : Option Nat :=
  let file := state.files.fileTable index
  if 0 < file.count then some file.inode else none

/-- The references of a task to an inode. -/
def taskReferences (state : ProcessState) (ino pid : Nat) : Nat :=
  if state.present pid then
    pointsTo (some (state.creds pid).iroot) ino +
      pointsTo (some (state.creds pid).ipwd) ino + pointsTo (state.iexec pid) ino
  else
    0

/-- The references of a super block to an inode.  One that is not mounted has none,
whatever its pointers hold. -/
def superReferences (state : ProcessState) (ino sb : Nat) : Nat :=
  let super := state.fs.superTable sb
  if super.imount.isSome then pointsTo super.iroot ino + pointsTo super.imount ino else 0

/-- The references of the super blocks to an inode. -/
def mountReferences (state : ProcessState) (ino : Nat) : Nat :=
  ∑ sb ∈ Finset.range superNr, state.superReferences ino sb

/-- The number of references to an inode that last. -/
def references (state : ProcessState) (ino : Nat) : Nat :=
  ∑ index ∈ Finset.range fileNr, pointsTo (state.fileInode index) ino +
    ∑ pid ∈ Finset.range Sched.taskNr, state.taskReferences ino pid +
      state.mountReferences ino

/-- The count of an inode. -/
def count (state : ProcessState) (ino : Nat) : Nat :=
  (state.fs.inodeTable ino).count

/-- The references to an inode that have never been counted: `mount_root` takes the
pointer `iroot` of the root device when the count is that of the first tasks still. -/
def uncounted (ino : Nat) : Nat :=
  if ino = rootInode then 1 else 0

/-- The tables are in order, an inode has been counted for each reference to it, and the
directories of the tasks are not pipes. -/
structure Consistent (state : ProcessState) : Prop extends state.fs.InOrder where
  counted : ∀ ino, state.references ino ≤ state.count ino + uncounted ino
  room : ∀ ino, state.count ino + 4 < 2 ^ 32
  directories : ∀ pid < Sched.taskNr, state.present pid = true →
    (state.fs.inodeTable (state.creds pid).iroot).pipe = false ∧
      (state.fs.inodeTable (state.creds pid).ipwd).pipe = false

end ProcessState

/-- A call of a function that takes a name. -/
inductive NameCall
  | named (pathname : Option Cursor)
  | namei (pathname : Option Cursor)
  | inodeOpen (pathname : Option Cursor) (flag mode : Nat)
  | sysOpen (filename : Option Cursor) (flags mode : Nat)
  | sysMkdir (pathname : Option Cursor) (mode : Nat)
  | sysRmdir (pathname : Option Cursor)
  | sysLink (oldname newname : Option Cursor)
  | sysUnlink (filename : Option Cursor)
  | sysMknod (filename : Option Cursor) (mode dev : Nat)
  | sysStat (filename : Option Cursor)
  | sysChdir (pathname : Cursor)
  | sysChroot (pathname : Cursor)

/-- What a call leaves behind: whether it returned `NULL` or `EOF`, and the inode
that it returned a pointer to. -/
structure Outcome where
  failed : Bool
  handed : Option Nat
  state : ProcessState

namespace ProcessState

/-- A system call that returned a value. -/
def returned (state : ProcessState) (value : Int) (fs : Fs) : Outcome :=
  ⟨value = -1, none, state.setFs fs⟩

/-- Carry out a call of a task. -/
def perform (state : ProcessState) (pid : Nat) : NameCall → Except Fault Outcome
  | .named pathname => do
      let (result, fs) ← state.fs.named (state.creds pid) pathname
      return ⟨result.isNone, result.map Prod.fst, state.setFs fs⟩
  | .namei pathname => do
      let (result, fs) ← state.fs.namei (state.creds pid) pathname
      return ⟨result.isNone, result, state.setFs fs⟩
  | .inodeOpen pathname flag mode => do
      let (result, fs) ← state.fs.inodeOpen (state.creds pid) pathname flag mode
      return ⟨result.isNone, result, state.setFs fs⟩
  | .sysOpen filename flags mode => do
      let (fd, files) ← state.files.sysOpen pid filename flags mode
      return ⟨fd = -1, none, { state with files := files }⟩
  | .sysMkdir pathname mode => do
      let (value, fs) ← state.fs.sysMkdir (state.creds pid) pathname mode
      return state.returned value fs
  | .sysRmdir pathname => do
      let (value, fs) ← state.fs.sysRmdir (state.creds pid) pathname
      return state.returned value fs
  | .sysLink oldname newname => do
      let (value, fs) ← state.fs.sysLink (state.creds pid) oldname newname
      return state.returned value fs
  | .sysUnlink filename => do
      let (value, fs) ← state.fs.sysUnlink (state.creds pid) filename
      return state.returned value fs
  | .sysMknod filename mode dev => do
      let (value, fs) ← state.fs.sysMknod (state.creds pid) filename mode dev
      return state.returned value fs
  | .sysStat filename => do
      let (value, _, fs) ← state.fs.sysStat (state.creds pid) filename
      return state.returned value fs
  | .sysChdir pathname => do
      let (value, state) ← state.sysChdir pid pathname
      return ⟨value = -1, none, state⟩
  | .sysChroot pathname => do
      let (value, state) ← state.sysChroot pid pathname
      return ⟨value = -1, none, state⟩

/-- The walk that `sys_chdir` and `sys_chroot` begin with is refused. -/
def PathRefused (state : ProcessState) (pid : Nat) (pathname : Cursor) : Prop :=
  pathname ≠ [] ∧ ∃ path, abspath (state.pwd pid) pathname = .ok path ∧
    state.fs.Refused (state.creds pid) (some path)

/-- A walk of a call comes to an inode that the task may not search. -/
def Leaks (state : ProcessState) (pid : Nat) : NameCall → Prop
  | .inodeOpen pathname flag _ | .sysOpen pathname flag _ =>
      ¬RefusedFlag flag ∧ state.fs.Refused (state.creds pid) pathname
  | .sysLink oldname newname =>
      state.fs.LinkRefused (state.creds pid) oldname newname
  | .sysChdir pathname | .sysChroot pathname => state.PathRefused pid pathname
  | .named pathname | .namei pathname | .sysMkdir pathname _ | .sysRmdir pathname
  | .sysUnlink pathname | .sysMknod pathname _ _ | .sysStat pathname =>
      state.fs.Refused (state.creds pid) pathname

/-- A call has changed the count of each inode by as much as the number of the
references to it has changed, the one handed out among them, and the counts are as
they were when it failed. -/
def Balanced (before : ProcessState) (outcome : Outcome) : Prop :=
  (∀ ino, outcome.state.count ino + before.references ino =
    before.count ino + (outcome.state.references ino + pointsTo outcome.handed ino)) ∧
  (outcome.failed = true → ∀ ino, outcome.state.count ino = before.count ino)

section Calls

variable {state : ProcessState} {pid : Nat}

/-- The uncounted reference is one of the two that the root device has. -/
theorem mountReferences_root (order : state.fs.InOrder) (ino : Nat) :
    2 * uncounted ino ≤ state.mountReferences ino := by
  by_cases same : ino = rootInode
  · have own : state.superReferences ino rootSuper = 2 := by
      simp [superReferences, order.rootMounted.1, order.rootMounted.2, same, pointsTo]
    have atMost : state.superReferences ino rootSuper ≤ state.mountReferences ino :=
      Finset.single_le_sum (fun _ _ => Nat.zero_le _)
        (Finset.mem_range.mpr (by decide : rootSuper < superNr))
    have atMostOne : uncounted ino ≤ 1 := by
      unfold uncounted
      split <;> omega
    omega
  · unfold uncounted
    rw [if_neg same]
    omega

/-- The references to the root directory and to the directory of a mounted device. -/
theorem mountReferences_mounted (order : state.fs.InOrder) {sb ino : Nat}
    (inTable : sb < superNr) (mounted : (state.fs.superTable sb).imount.isSome)
    (pointed : (state.fs.superTable sb).iroot = some ino ∨
      (state.fs.superTable sb).imount = some ino) :
    1 + uncounted ino ≤ state.mountReferences ino := by
  have root := mountReferences_root order ino
  have own : state.superReferences ino sb ≤ state.mountReferences ino :=
    Finset.single_le_sum (fun _ _ => Nat.zero_le _) (Finset.mem_range.mpr inTable)
  have positive : 0 < state.superReferences ino sb := by
    unfold superReferences pointsTo
    rw [if_pos mounted]
    rcases pointed with isRoot | isMount
    · simp [isRoot]
    · simp [isMount]
  by_cases same : ino = rootInode
  · have one : uncounted ino = 1 := if_pos same
    omega
  · have none : uncounted ino = 0 := if_neg same
    omega

theorem mountReferences_le (state : ProcessState) (ino : Nat) :
    state.mountReferences ino ≤ state.references ino := by
  unfold references
  omega

theorem Consistent.referenced (consistent : state.Consistent) :
    Referenced state.fs state.fs state.count 0 where
  toInOrder := consistent.toInOrder
  count := fun ino => by rw [Multiset.count_zero]; rfl
  room := consistent.room
  mounts := by
    intro sb inTable mounted ino pointed
    have atMost := consistent.counted ino
    have some_ := mountReferences_mounted consistent.toInOrder inTable mounted pointed
    have within := state.mountReferences_le ino
    omega
  pointers := fun _ => ⟨_, rfl⟩
  plain := fun _ absent => absurd absent (Multiset.notMem_zero _)
  kept := fun _ _ => ⟨rfl, rfl, rfl⟩
  mount := fun _ => rfl
  filed := id
  rooted := fun _ _ _ => id

/-- The references of a task are among those to an inode, and different from those of
the super blocks. -/
theorem taskReferences_le (state : ProcessState) (inTable : pid < Sched.taskNr)
    (ino : Nat) :
    state.taskReferences ino pid + state.mountReferences ino ≤ state.references ino := by
  have own : state.taskReferences ino pid ≤
      ∑ other ∈ Finset.range Sched.taskNr, state.taskReferences ino other :=
    Finset.single_le_sum (fun _ _ => Nat.zero_le _) (Finset.mem_range.mpr inTable)
  unfold references
  omega

/-- The directories of a task last. -/
theorem lasting_creds (order : state.fs.InOrder)
    (counted : ∀ ino, state.references ino ≤ state.count ino + uncounted ino)
    (directories : (state.fs.inodeTable (state.creds pid).iroot).pipe = false ∧
      (state.fs.inodeTable (state.creds pid).ipwd).pipe = false)
    (inTable : pid < Sched.taskNr) (present : state.present pid = true) :
    Lasting state.fs state.count (state.creds pid).iroot ∧
      Lasting state.fs state.count (state.creds pid).ipwd := by
  have root := counted (state.creds pid).iroot
  have pwd := counted (state.creds pid).ipwd
  have ofRoot := state.taskReferences_le inTable (state.creds pid).iroot
  have ofPwd := state.taskReferences_le inTable (state.creds pid).ipwd
  have mountsRoot := mountReferences_root order (state.creds pid).iroot
  have mountsPwd := mountReferences_root order (state.creds pid).ipwd
  simp only [taskReferences, present, pointsTo, if_true] at ofRoot ofPwd
  exact ⟨⟨by omega, directories.1⟩, ⟨by omega, directories.2⟩⟩

theorem Consistent.creds (consistent : state.Consistent) (inTable : pid < Sched.taskNr)
    (present : state.present pid = true) :
    Lasting state.fs state.count (state.creds pid).iroot ∧
      Lasting state.fs state.count (state.creds pid).ipwd :=
  lasting_creds consistent.toInOrder consistent.counted
    (consistent.directories pid inTable present) inTable present

/-- The references of the super blocks are the same. -/
theorem mountReferences_setFs (pointers : ∀ sb, ∃ inodeList, fs.superTable sb =
      { state.fs.superTable sb with inodeList := inodeList }) (ino : Nat) :
    (state.setFs fs).mountReferences ino = state.mountReferences ino := by
  have same (sb : Nat) :
      ((state.setFs fs).fs.superTable sb).iroot = (state.fs.superTable sb).iroot ∧
        ((state.setFs fs).fs.superTable sb).imount = (state.fs.superTable sb).imount := by
    obtain ⟨_, same⟩ := pointers sb
    change (fs.superTable sb).iroot = _ ∧ (fs.superTable sb).imount = _
    rw [same]
    exact ⟨rfl, rfl⟩
  simp only [mountReferences, superReferences, same]

/-- Calls on the file systems alone leave the lasting references alone. -/
theorem references_setFs (pointers : ∀ sb, ∃ inodeList, fs.superTable sb =
      { state.fs.superTable sb with inodeList := inodeList }) (ino : Nat) :
    (state.setFs fs).references ino = state.references ino := by
  unfold references
  rw [mountReferences_setFs pointers]
  rfl

theorem count_setFs (referenced : Referenced state.fs fs state.count held) (ino : Nat) :
    (state.setFs fs).count ino = state.count ino + held.count ino :=
  referenced.count ino

/-- A lost reference shows in the counts. -/
theorem not_balanced_of_lost {failed : Bool} {leaked : Nat}
    (referenced : Referenced state.fs fs state.count {leaked}) :
    ¬state.Balanced ⟨failed, none, state.setFs fs⟩ := by
  rintro ⟨counts, _⟩
  have counted := counts leaked
  rw [count_setFs referenced, references_setFs referenced.pointers,
    Multiset.count_singleton_self] at counted
  simp only [pointsTo, reduceCtorEq, if_false] at counted
  omega

theorem handed_iff {result : Option Nat} {lost : Prop}
    (handed : Handed state.fs state.count 0 lost result fs) :
    state.Balanced ⟨result.isNone, result, state.setFs fs⟩ ↔ ¬lost := by
  cases handed with
  | handed holds accepted =>
      rename_i ino
      refine iff_of_true ⟨fun other => ?_, fun impossible => ?_⟩ accepted
      · rw [count_setFs holds, references_setFs holds.pointers]
        by_cases same : other = ino
        · simp [same, pointsTo]
          omega
        · have apart : ino ≠ other := Ne.symm same
          simp [pointsTo, same, apart]
      · cases impossible
  | nothing holds accepted =>
      refine iff_of_true ⟨fun other => ?_, fun _ other => ?_⟩ accepted
      · rw [count_setFs holds, references_setFs holds.pointers]
        simp [pointsTo]
      · exact (count_setFs holds other).trans (by simp)
  | lost holds stopped =>
      exact iff_of_false (not_balanced_of_lost holds) (not_not_intro stopped)

theorem settled_iff (value : Int) {lost : Prop}
    (settled : Settled state.fs state.count 0 lost value fs) :
    state.Balanced (state.returned value fs) ↔ ¬lost := by
  cases settled with
  | settled holds accepted =>
      refine iff_of_true ⟨fun other => ?_, fun _ other => ?_⟩ accepted
      · unfold returned
        rw [count_setFs holds, references_setFs holds.pointers]
        simp [pointsTo]
      · exact (count_setFs holds other).trans (by simp)
  | lost holds stopped =>
      exact iff_of_false (not_balanced_of_lost holds) (not_not_intro stopped)

/-! ## Open files -/

/-- The state after a file has been opened. -/
def openedFile (state : ProcessState) (fs : Fs) (pid fd index : Nat) (file : File) :
    ProcessState :=
  { state with files := FileState.withOpened { state.files with fs := fs } pid fd index file }

/-- An entry of `file_table` that is taken up refers to its inode. -/
theorem references_opened {fd index : Nat} {file : File}
    (referenced : Referenced state.fs fs state.count held) (inTable : index < fileNr)
    (free : (state.files.fileTable index).count = 0) (used : 0 < file.count) (ino : Nat) :
    (state.openedFile fs pid fd index file).references ino =
      state.references ino + pointsTo (some file.inode) ino := by
  have supers : (state.openedFile fs pid fd index file).mountReferences ino =
      state.mountReferences ino :=
    mountReferences_setFs referenced.pointers ino
  have tasks (other : Nat) :
      (state.openedFile fs pid fd index file).taskReferences ino other =
        state.taskReferences ino other := by
    have creds : (state.openedFile fs pid fd index file).creds other =
        state.creds other := by
      by_cases same : other = pid
      · simp [openedFile, ProcessState.creds, FileState.withOpened, FileState.setFile,
          FileState.setDescriptor, same]
      · simp [openedFile, ProcessState.creds, FileState.withOpened, FileState.setFile,
          FileState.setDescriptor, same]
    unfold taskReferences
    rw [creds]
    rfl
  have others (other : Nat) (different : other ≠ index) :
      pointsTo ((state.openedFile fs pid fd index file).fileInode other) ino =
        pointsTo (state.fileInode other) ino := by
    simp [openedFile, fileInode, FileState.withOpened, FileState.setFile,
      FileState.setDescriptor, different]
  have before : pointsTo (state.fileInode index) ino = 0 := by
    simp [fileInode, free, pointsTo]
  have after : pointsTo ((state.openedFile fs pid fd index file).fileInode index) ino =
      pointsTo (some file.inode) ino := by
    simp [openedFile, fileInode, used]
  have changed := sum_change_one (Finset.mem_range.mpr inTable) others
  rw [before, after] at changed
  unfold references
  simp only [tasks, supers]
  omega

theorem sysOpen_iff {filename : Option Cursor} {flags mode : Nat} {fd : Int}
    {files : FileState} (consistent : state.Consistent) (inTable : pid < Sched.taskNr)
    (present : state.present pid = true)
    (opened : state.files.sysOpen pid filename flags mode = .ok (fd, files)) :
    state.Balanced ⟨fd = -1, none, { state with files := files }⟩ ↔
      ¬(¬RefusedFlag flags ∧ state.fs.Refused (state.creds pid) filename) := by
  obtain ⟨iroot, ipwd⟩ := consistent.creds inTable present
  rcases FileState.sysOpen_cases opened with
    ⟨fs, found, rfl, rfl⟩ | ⟨ino, fs, slot, index, found, rfl, below, _, free, rfl⟩
  · exact handed_iff (consistent.referenced.inodeOpen (by simp) iroot ipwd found)
  · cases consistent.referenced.inodeOpen (by simp) iroot ipwd found with
    | handed holds accepted =>
        refine iff_of_true ⟨fun other => ?_, fun failed => ?_⟩ accepted
        · change (state.openedFile fs pid slot index _).count other + _ =
            _ + ((state.openedFile fs pid slot index _).references other + _)
          rw [references_opened holds below free (Nat.one_pos : 0 < File.count _)]
          have counted : (fs.inodeTable other).count =
              state.count other + Multiset.count other {ino} := holds.count other
          change (fs.inodeTable other).count + _ = _
          rw [counted, Multiset.count_singleton]
          simp only [pointsTo, Option.some.injEq, eq_comm]
          simp
          omega
        · simp at failed

/-! ## Working directories -/

/-- The state after a task has moved to another directory. -/
def moved (state : ProcessState) (fs : Fs) (pid : Nat) (creds : Creds) : ProcessState :=
  (state.setFs fs).setCreds pid creds

theorem references_setCreds (creds : Creds) (inTable : pid < Sched.taskNr)
    (present : state.present pid = true) (ino : Nat) :
    (state.setCreds pid creds).references ino +
        (pointsTo (some (state.creds pid).iroot) ino +
          pointsTo (some (state.creds pid).ipwd) ino) =
      state.references ino +
        (pointsTo (some creds.iroot) ino + pointsTo (some creds.ipwd) ino) := by
  have supers : (state.setCreds pid creds).mountReferences ino =
      state.mountReferences ino := rfl
  have files (index : Nat) :
      (state.setCreds pid creds).fileInode index = state.fileInode index := rfl
  have others (other : Nat) (different : other ≠ pid) :
      (state.setCreds pid creds).taskReferences ino other =
        state.taskReferences ino other := by
    simp [taskReferences, ProcessState.creds, setCreds, different]
  have own : (state.setCreds pid creds).taskReferences ino pid =
      pointsTo (some creds.iroot) ino + pointsTo (some creds.ipwd) ino +
        pointsTo (state.iexec pid) ino := by
    simp [taskReferences, ProcessState.creds, setCreds, present]
  have before : state.taskReferences ino pid =
      pointsTo (some (state.creds pid).iroot) ino +
        pointsTo (some (state.creds pid).ipwd) ino + pointsTo (state.iexec pid) ino := by
    simp [taskReferences, present]
  have changed := sum_change_one (Finset.mem_range.mpr inTable) others
  rw [own, before] at changed
  unfold references
  simp only [supers, files]
  omega

theorem references_moved (creds : Creds) {base : Nat → Nat}
    (referenced : Referenced state.fs fs base held) (inTable : pid < Sched.taskNr)
    (present : state.present pid = true) (ino : Nat) :
    (state.moved fs pid creds).references ino +
        (pointsTo (some (state.creds pid).iroot) ino +
          pointsTo (some (state.creds pid).ipwd) ino) =
      state.references ino +
        (pointsTo (some creds.iroot) ino + pointsTo (some creds.ipwd) ino) := by
  rw [← references_setFs referenced.pointers]
  have inState : (state.setFs fs).present pid = true := present
  exact references_setCreds creds inTable inState ino

/-- A task that moves gives up one of its references, to `left`, and keeps the one
that it has been handed, to `inode`. -/
theorem balanced_moved (creds : Creds) {released : Fs} {inode left : Nat}
    (consistent : state.Consistent) (inTable : pid < Sched.taskNr)
    (present : state.present pid = true) (holds : Referenced state.fs fs state.count {inode})
    (own : 0 < pointsTo (some (state.creds pid).iroot) left +
      pointsTo (some (state.creds pid).ipwd) left)
    (exchanged : ∀ ino, pointsTo (some creds.iroot) ino + pointsTo (some creds.ipwd) ino +
        pointsTo (some left) ino =
      pointsTo (some (state.creds pid).iroot) ino +
        pointsTo (some (state.creds pid).ipwd) ino + pointsTo (some inode) ino)
    (release : fs.iput left = .ok released) {outcome : Outcome} (failed : outcome.failed = false)
    (handed : outcome.handed = none)
    (counts : ∀ ino, outcome.state.count ino = (released.inodeTable ino).count)
    (references : ∀ ino, outcome.state.references ino =
      (state.moved released pid creds).references ino) : state.Balanced outcome := by
  have task : pointsTo (some (state.creds pid).iroot) left +
      pointsTo (some (state.creds pid).ipwd) left ≤ state.taskReferences left pid := by
    simp [taskReferences, present]
  have atMost := consistent.counted left
  have both := state.taskReferences_le inTable left
  obtain ⟨iroot, ipwd⟩ := consistent.creds inTable present
  have lasts : Lasting state.fs state.count left := by
    by_cases isRoot : (state.creds pid).iroot = left
    · rw [← isRoot]
      exact iroot
    · by_cases isPwd : (state.creds pid).ipwd = left
      · rw [← isPwd]
        exact ipwd
      · simp [pointsTo, isRoot, isPwd] at own
  have lent := holds.lend left lasts (by
    intro sb isSuper mounted pointed
    obtain ⟨_, same⟩ := holds.pointers sb
    rw [same] at mounted pointed
    have some_ := mountReferences_mounted consistent.toInOrder isSuper mounted pointed
    omega)
  have positive := lasts.positive
  have after := lent.iput release
  refine ⟨fun ino => ?_, fun impossible => ?_⟩
  · have moved := references_moved creds after inTable present ino
    have counted := after.count ino
    have change := exchanged ino
    have single : Multiset.count ino {inode} = pointsTo (some inode) ino := by
      simp [Multiset.count_singleton, pointsTo, eq_comm]
    have none : pointsTo none ino = 0 := by simp [pointsTo]
    rw [counts, references, handed, counted, single, none]
    by_cases same : ino = left
    · have one : pointsTo (some left) ino = 1 := by simp [pointsTo, same]
      rw [same] at change moved one ⊢
      rw [Function.update_self]
      omega
    · have zero : pointsTo (some left) ino = 0 := by simp [pointsTo, Ne.symm same]
      rw [Function.update_of_ne same]
      omega
  · rw [failed] at impossible
    cases impossible

/-- What `sys_chdir` and `sys_chroot` do before they look at the inode. -/
theorem path_iff {body : Cursor → Option Nat × Fs → Except Fault (Int × ProcessState)}
    (consistent : state.Consistent) (inTable : pid < Sched.taskNr)
    (present : state.present pid = true) (moves : (check (pathname.length < maxPathLen) >>= fun _ =>
      if pathname.length < 1 then
        pure (-1, state)
      else
        abspath (state.pwd pid) pathname >>= fun path =>
          state.fs.namei (state.creds pid) (some path) >>= body path) =
        .ok (value, after)) (nothing : ∀ path fs, body path (none, fs) = .ok (-1, state.setFs fs))
    (found : ∀ path inode fs, Referenced state.fs fs state.count {inode} →
      body path (some inode, fs) = .ok (value, after) →
        state.Balanced ⟨value = -1, none, after⟩) :
    state.Balanced ⟨value = -1, none, after⟩ ↔ ¬state.PathRefused pid pathname := by
  obtain ⟨iroot, ipwd⟩ := consistent.creds inTable present
  rw [bind_eq_ok] at moves
  obtain ⟨_, _, moves⟩ := moves
  split at moves
  · rename_i short
    cases moves
    refine iff_of_true ⟨fun ino => ?_, fun _ _ => rfl⟩ ?_
    · simp [pointsTo]
    · rintro ⟨notEmpty, _⟩
      have := List.length_pos_of_ne_nil notEmpty
      omega
  · rename_i long
    have notEmpty : pathname ≠ [] := by
      rintro rfl
      simp at long
    simp only [bind_eq_ok] at moves
    obtain ⟨path, isPath, ⟨result, fs⟩, resolved, moves⟩ := moves
    have lost : state.PathRefused pid pathname ↔
        state.fs.Refused (state.creds pid) (some path) := by
      constructor
      · rintro ⟨_, other, isOther, stopped⟩
        cases isPath.symm.trans isOther
        exact stopped
      · exact fun stopped => ⟨notEmpty, path, isPath, stopped⟩
    rw [lost]
    have handed := consistent.referenced.namei (by simp) iroot ipwd resolved
    cases result with
    | none =>
        rw [nothing] at moves
        cases moves
        exact handed_iff handed
    | some inode =>
        cases handed with
        | handed holds accepted =>
            exact iff_of_true (found path inode fs holds moves) accepted

theorem balanced_released {inode : Nat} {released : Fs}
    (holds : Referenced state.fs fs state.count {inode}) (release : fs.iput inode = .ok released) :
    state.Balanced ⟨value = -1, none, state.setFs released⟩ :=
  (settled_iff value (.settled (holds.iput release) not_false)).mpr not_false

theorem not_eof : decide ((0 : Int) = -1) = false := by decide

theorem sysChdir_iff (consistent : state.Consistent) (inTable : pid < Sched.taskNr)
    (present : state.present pid = true)
    (moves : state.sysChdir pid pathname = .ok (value, after)) :
    state.Balanced ⟨value = -1, none, after⟩ ↔ ¬state.PathRefused pid pathname := by
  unfold sysChdir at moves
  refine path_iff consistent inTable present moves (fun _ _ => ?_) ?_
  · rfl
  intro path inode fs holds moves
  dsimp only at moves
  split at moves
  · simp only [bind_eq_ok] at moves
    obtain ⟨released, release, same⟩ := moves
    cases same
    exact balanced_released holds release
  · split at moves
    · simp only [bind_eq_ok] at moves
      obtain ⟨released, release, same⟩ := moves
      cases same
      exact balanced_released holds release
    · simp only [bind_eq_ok] at moves
      obtain ⟨released, release, same⟩ := moves
      cases same
      refine balanced_moved { state.creds pid with ipwd := inode } consistent inTable
        present holds ?own ?exchanged release ?failed ?handed ?counts ?references
      case own => simp [pointsTo]
      case exchanged =>
        intro ino
        dsimp only
        omega
      case failed => exact not_eof
      case handed => rfl
      case counts => exact fun _ => rfl
      case references => exact fun _ => rfl

theorem sysChroot_iff (consistent : state.Consistent) (inTable : pid < Sched.taskNr)
    (present : state.present pid = true)
    (moves : state.sysChroot pid pathname = .ok (value, after)) :
    state.Balanced ⟨value = -1, none, after⟩ ↔ ¬state.PathRefused pid pathname := by
  unfold sysChroot at moves
  refine path_iff consistent inTable present moves (fun _ _ => ?_) ?_
  · rfl
  intro path inode fs holds moves
  dsimp only at moves
  split at moves
  · simp only [bind_eq_ok] at moves
    obtain ⟨released, release, same⟩ := moves
    cases same
    exact balanced_released holds release
  · simp only [bind_eq_ok] at moves
    obtain ⟨released, release, same⟩ := moves
    cases same
    refine balanced_moved { state.creds pid with iroot := inode } consistent inTable
      present holds ?own ?exchanged release ?failed ?handed ?counts ?references
    case own => simp [pointsTo]
    case exchanged =>
      intro ino
      dsimp only
      omega
    case failed => exact not_eof
    case handed => rfl
    case counts => exact fun _ => rfl
    case references => exact fun _ => rfl

theorem settled_of_performed {lost : Prop} {call : Except Fault (Int × Fs)} {outcome : Outcome}
    (performed : (do
      let (value, fs) ← call
      return state.returned value fs) = .ok outcome)
    (settles : ∀ value fs, call = .ok (value, fs) →
      Settled state.fs state.count 0 lost value fs) :
    state.Balanced outcome ↔ ¬lost := by
  simp only [bind_eq_ok] at performed
  obtain ⟨⟨value, fs⟩, called, same⟩ := performed
  cases same
  exact settled_iff value (settles value fs called)

end Calls

/-! ## The small file system -/

/-- One task of the super user in the root directory of the small file system. -/
def smallProcess : ProcessState where
  files :=
    { fs := small
      fileTable := fun _ => ⟨0, 0, 0, 0, 0⟩
      task := fun _ => ⟨⟨0, 0, 0o22, 0, 0⟩, fun _ => none⟩ }
  present := fun pid => pid = 0
  pwd := fun _ => [separator]
  iexec := fun _ => none

theorem references_smallProcess (ino : Nat) :
    smallProcess.references ino = 4 * pointsTo (some 0) ino := by
  have files : ∑ index ∈ Finset.range fileNr,
      pointsTo (smallProcess.fileInode index) ino = 0 :=
    Finset.sum_eq_zero fun index _ => by simp [fileInode, smallProcess, pointsTo]
  have tasks : ∑ pid ∈ Finset.range Sched.taskNr, smallProcess.taskReferences ino pid =
      smallProcess.taskReferences ino 0 :=
    Finset.sum_eq_single_of_mem 0 (by simp) fun pid _ different => by
      simp [taskReferences, smallProcess, different]
  have supers : smallProcess.mountReferences ino = smallProcess.superReferences ino 0 :=
    Finset.sum_eq_single_of_mem 0 (by simp) fun sb _ different => by
      simp [superReferences, smallProcess, fs, small, different]
  have none : pointsTo none ino = 0 := by simp [pointsTo]
  unfold references
  rw [files, tasks, supers]
  simp only [taskReferences, superReferences, smallProcess, creds, fs, small, none,
    decide_true, if_true, Option.isSome_some]
  omega

theorem smallProcess_consistent : smallProcess.Consistent where
  counted := by
    intro ino
    rw [references_smallProcess]
    by_cases same : ino = 0
    · simp [same, pointsTo, uncounted, count, smallProcess, fs, small]
    · simp [Ne.symm same, pointsTo]
  room := by
    intro ino
    by_cases same : ino = 0
    · simp [same, count, smallProcess, fs, small]
    · simp [same, count, smallProcess, fs, small]
  directories := by
    intro pid _ _
    simp [creds, smallProcess, fs, small]
  blank := by
    intro ino
    by_cases same : ino = 0
    · intro free
      simp [same, smallProcess, fs, small, eof] at free
    · simp [same, smallProcess, fs, small]
  listed := by
    intro sb _ ino present
    by_cases same : sb = 0
    · have isRoot : ino = 0 := by
        simpa [same, smallProcess, fs, small] using present
      simp [isRoot, smallProcess, fs, small, eof]
    · simp [same, smallProcess, fs, small] at present
  nodup := by
    intro sb _
    by_cases same : sb = 0
    · simp [same, smallProcess, fs, small]
    · simp [same, smallProcess, fs, small]
  root := by simp [smallProcess, fs, small, eof]
  rootMounted := ⟨rfl, rfl⟩
  plainMounts := by
    intro sb _ _ ino _
    by_cases same : ino = 0
    · simp [same, smallProcess, fs, small]
    · simp [same, smallProcess, fs, small]
  covered := by
    intro ino sb covering isSuper
    by_cases same : ino = 0
    · rw [same] at isSuper
      have isFirst : smallProcess.fs.getSuper 1 = some 0 := rfl
      cases isFirst.symm.trans isSuper
      rfl
    · simp [same, smallProcess, fs, small] at covering
  mountPoint := by
    intro sb _ ino mounted
    by_cases same : sb = 0
    · have isRoot : 0 = ino := by
        simpa [same, smallProcess, fs, small] using mounted
      exact .inl isRoot.symm
    · simp [same, smallProcess, fs, small] at mounted

end ProcessState
end LightOS
