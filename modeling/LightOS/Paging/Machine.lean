import LightOS.Heap.Arena
import LightOS.Sched.State

/-!
# Kernel pages of tasks

Which kernel pages the tasks hold, and which page directory the processor uses.  The
steps are the parts of the system calls between two points at which the task may give
up the processor.  How often the heap asks for pages, and when tasks block and wake,
is left open; user pages are no kernel pages and are left out.
-/

namespace LightOS
namespace Paging

open Sched (TaskState taskNr userRing3)

/-- `KERNEL_PAGE_DIR_PADDR`. -/
abbrev kernelPageDir : Nat := 0

/-- `USED`. -/
abbrev used : UInt8 := 100

/-- `INODE_NR`. -/
abbrev inodeSlots : Nat := 64

/-- `sizeof(bitmap_t)`. -/
abbrev bitmapSize : Nat := 12

/-- `sizeof(kfifo_t)`. -/
abbrev kfifoSize : Nat := 16

/-- The structure `task_t`, as far as it is about kernel pages. -/
structure Task where
  state : TaskState
  uid : Nat
  /-- The page of the structure and of the kernel stack. -/
  page : Nat
  pde : Nat
  /-- `vmap->bits`. -/
  bits : Nat
  /-- `pages` and `argvk`, while the task is in `set_env_and_clean_fork`. -/
  staging : Option (Nat × Nat)

/-- The state of the kernel. -/
structure Machine where
  pages : PageMaps
  /-- `task_list`. -/
  tasks : Nat → Option Task
  current : Nat
  /-- The register CR3. -/
  cr3 : Nat
  /-- The field `cache` of the inodes in `inode_table` that belong to pipes. -/
  pipes : Nat → Option Nat

/-- The pages that `kmalloc` adds to the heap for a block of a size. -/
def grow (pages : PageMaps) (size : Nat) : Nat → Except Fault PageMaps
  | 0 => .ok pages
  | growths + 1 => do
      let (_, pages) ← pages.allocKpage (add32 (Heap.roundSize size) arenaSize / pageSize + 1)
      grow pages size growths

namespace Machine

/-- Change a task. -/
def modify (s : Machine) (pid : Nat) (change : Task → Task) : Machine :=
  { s with tasks := Function.update s.tasks pid ((s.tasks pid).map change) }

/-- The current task. -/
def getCurrent (s : Machine) : Except Fault Task :=
  match s.tasks s.current with
  | some task => .ok task
  | none => .error .wild

/-- The current task makes a system call.  It is in the middle of no other one. -/
def calling (s : Machine) : Except Fault Task := do
  let task ← s.getCurrent
  check (task.state = .running ∧ task.staging = none)
  return task

/-- `set_cr3`. -/
def setCr3 (s : Machine) (pde : Nat) : Except Fault Machine := do
  check (pde % pageSize = 0)
  return { s with cr3 := pde }

/-- The task that gives up the processor stays ready if it was running. -/
def pause (task : Task) : Task :=
  if task.state = .running then { task with state := .ready } else task

/-- `switch_to`. -/
def switchTo (s : Machine) (pid : Nat) : Except Fault Machine := do
  check (pid < taskNr ∧ (s.tasks pid).isSome)
  if s.current = pid then
    return s
  let s := { s.modify s.current pause with current := pid }
  let task ← s.getCurrent
  check (task.state = .ready)
  (s.modify pid fun task => { task with state := .running }).setCr3 task.pde

/-- `get_free_task`: the slot and the page of a new task. -/
def getFreeTask (s : Machine) : Except Fault (Nat × Nat × PageMaps) :=
  match (List.range taskNr).find? fun pid => (s.tasks pid).isNone with
  | some pid => do
      let (page, pages) ← s.pages.allocKpage 1
      return (pid, page, pages)
  | none => .error .panic

/-- `sys_fork`. -/
def fork (s : Machine) (pwdLen vmapGrowths pwdGrowths : Nat) : Except Fault Machine := do
  let task ← s.calling
  check (task.uid = userRing3)
  let (pid, page, pages) ← s.getFreeTask
  let (pde, pages) ← pages.allocKpage 1
  let s ← s.setCr3 task.pde
  let pages ← grow pages bitmapSize vmapGrowths
  let (bits, pages) ← pages.allocKpage 1
  let pages ← grow pages pwdLen pwdGrowths
  let child :=
    { task with state := .ready, page := page, pde := pde - kernelVaddrOffset, bits := bits }
  return { s with pages := pages, tasks := Function.update s.tasks pid (some child) }

/-- `move_to_user_mode`, up to its call of `sys_execve`. -/
def enterUser (s : Machine) (growths : Nat) : Except Fault Machine := do
  let _ ← s.calling
  check (s.current = 1)
  let pages ← grow s.pages bitmapSize growths
  let (bits, pages) ← pages.allocKpage 1
  let (pde, pages) ← pages.allocKpage 1
  let pde := pde - kernelVaddrOffset
  ({ s with pages := pages }.modify s.current fun task =>
    { task with bits := bits, pde := pde, uid := userRing3 }).setCr3 pde

/-- `set_env_and_clean_fork`, up to its call of `fork_clean`. -/
def stage (s : Machine) : Except Fault Machine := do
  let _ ← s.calling
  let (stack, pages) ← s.pages.allocKpage 4
  let (argvk, pages) ← pages.allocKpage 1
  return { s with pages := pages }.modify s.current fun task =>
    { task with staging := some (stack, argvk) }

/-- The end of `fork_clean` and of `set_env_and_clean_fork`. -/
def unstage (s : Machine) : Except Fault Machine := do
  let task ← s.getCurrent
  match task.staging with
  | none => throw .misuse
  | some (stack, argvk) =>
      let s ← s.setCr3 task.pde
      let pages ← s.pages.freeKpage argvk 1
      let pages ← pages.freeKpage stack 4
      return { s with pages := pages }.modify s.current fun task =>
        { task with staging := none }

/-- `get_pipe_inode`, for the slot that `get_free_inode` finds. -/
def getPipe (s : Machine) (slot growths : Nat) : Except Fault Machine := do
  let _ ← s.calling
  check (slot < inodeSlots ∧ s.pipes slot = none)
  let pages ← grow s.pages kfifoSize growths
  let (cache, pages) ← pages.allocKpage 1
  return { s with pages := pages, pipes := Function.update s.pipes slot (some cache) }

/-- `put_pipe_inode`, for the last reference. -/
def putPipe (s : Machine) (slot : Nat) : Except Fault Machine :=
  match s.pipes slot with
  | none => .error .misuse
  | some cache => do
      let pages ← s.pages.freeKpage cache 1
      return { s with pages := pages, pipes := Function.update s.pipes slot none }

/-- `sys_exit`, up to its first call of `iput`. -/
def exit (s : Machine) : Except Fault Machine := do
  let task ← s.calling
  check (s.current ≠ 0 ∧ s.current ≠ 1)
  let pages ← s.pages.freeKpage (task.pde + kernelVaddrOffset) 1
  let pages ← pages.freeKpage task.bits 1
  return { s with pages := pages }.modify s.current fun task =>
    { task with state := .dead }

/-- The end of `sys_waitpid`, for the child that it finds dead. -/
def reap (s : Machine) (pid : Nat) : Except Fault Machine := do
  let _ ← s.calling
  match s.tasks pid with
  | none => throw .misuse
  | some child =>
      if child.state = .dead then
        let pages ← s.pages.freeKpage child.page 1
        return { s with pages := pages, tasks := Function.update s.tasks pid none }
      else
        throw .misuse

end Machine

/-- Labels of steps. -/
inductive Label
  /-- `schedule` switches to a task. -/
  | switchTo (pid : Nat)
  /-- A task blocks or is woken. -/
  | setState (pid : Nat) (state : TaskState)
  /-- `kmalloc` of a block. -/
  | kmalloc (size growths : Nat)
  | fork (pwdLen vmapGrowths pwdGrowths : Nat)
  | enterUser (growths : Nat)
  | stage
  | unstage
  | getPipe (slot growths : Nat)
  | putPipe (slot : Nat)
  | exit
  | reap (pid : Nat)
  deriving DecidableEq, Repr

namespace Machine

/-- A step. -/
def step (s : Machine) : Label → Except Fault Machine
  | .switchTo pid => s.switchTo pid
  | .setState pid state =>
      if state = .dead then
        .error .misuse
      else
        .ok (s.modify pid fun task => { task with state := state })
  | .kmalloc size growths => do
      return { s with pages := ← grow s.pages size growths }
  | .fork pwdLen vmapGrowths pwdGrowths => s.fork pwdLen vmapGrowths pwdGrowths
  | .enterUser growths => s.enterUser growths
  | .stage => s.stage
  | .unstage => s.unstage
  | .getPipe slot growths => s.getPipe slot growths
  | .putPipe slot => s.putPipe slot
  | .exit => s.exit
  | .reap pid => s.reap pid

/-- `memory_map_init`, behind `memory_init`. -/
def memoryMapInit (totalPages : Nat) : Except Fault PageMaps := do
  let mapPages := (totalPages + pageSize - 1) / pageSize
  let memMap : Memory := Memory.fill ⟨fun _ => 0⟩ 0 (memoryBase / pageSize + mapPages) used
  let free := totalPages - memoryBase / pageSize - mapPages
  match ← kernelMap.scan ⟨fun _ => 0⟩ mapPages with
  | none => return ⟨⟨fun _ => 0⟩, memMap, totalPages, free⟩
  | some (_, bits) => return ⟨bits, memMap, totalPages, free⟩

/-- A task of `task_setup`. -/
def setupTask (page : Nat) : Task :=
  ⟨.ready, 0, page, kernelPageDir, 0, none⟩

/-- What `kernel_init` leaves to the idle task. -/
def boot (totalPages idleGrowths initGrowths : Nat) : Except Fault Machine := do
  let pages ← memoryMapInit totalPages
  let (idle, pages) ← pages.allocKpage 1
  let pages ← grow pages 1 idleGrowths
  let (init, pages) ← pages.allocKpage 1
  let pages ← grow pages 1 initGrowths
  -- `kmap_init` keeps a page and `ide_ctrl_init` gives one back.
  let (_, pages) ← pages.allocKpage 1
  let (buf, pages) ← pages.allocKpage 1
  let pages ← pages.freeKpage buf 1
  return {
    pages := pages
    tasks := fun pid =>
      if pid = 0 then some (setupTask idle) else if pid = 1 then some (setupTask init) else none
    current := 0
    cr3 := kernelPageDir
    pipes := fun _ => none }

/-- The kernel pages of a system from its start, with at least 16 MiB of memory. -/
def system : System Machine Label where
  initial := fun s => ∃ totalPages idleGrowths initGrowths,
    kernelMemSize / pageSize ≤ totalPages ∧ totalPages ≤ 2 ^ 20 ∧
      boot totalPages idleGrowths initGrowths = .ok s
  step := fun before label after => before.step label = .ok after

end Machine

end Paging
end LightOS
