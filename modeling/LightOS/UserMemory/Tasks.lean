import LightOS.Foundation.Transition
import LightOS.UserMemory.Machine

/-!
# User tasks

How tasks come and go: `move_to_user_mode`, `sys_fork`, `sys_execve`, `sys_exit` and the end
of `sys_waitpid`, as far as they are about user memory and kernel pages of tasks, and the
runs that user tasks make with these calls, the calls on memory and their own loads and
stores.
-/

namespace LightOS
namespace UserMemory

open Sched (taskNr userRing3)

/-- What `sys_execve` finds in a file.  Which program headers the loop of `load_elf` passes
on to `load_segment` is left open. -/
structure Image where
  header : Nat → Entry
  /-- `elf_validate`. -/
  valid : Bool
  /-- The program headers: the number of bytes and the words that they leave in memory. -/
  table : Nat × (Nat → Entry)
  segments : List Machine.Segment

namespace Machine

/-- `move_to_user_mode`, up to its call of `sys_execve`.  How often the heap asks for pages
is left open. -/
def moveToUserMode (s : Machine) (growths : Nat) : Except Fault Machine := do
  let s := { s with pages := ← Paging.grow s.pages Paging.bitmapSize growths }
  let (buf, s) ← s.allocKpage 1
  let (vmap, s) := s.bitmapInit buf (userMmapSize / pageSize / 8) (userMmapAddr / pageSize)
  let (pde, s) ← s.copyPde
  return s.modify s.current fun task => { task with vmap := vmap, pde := pde, uid := userRing3 }

/-- `get_free_task`: the slot and the page of a new task. -/
def getFreeTask (s : Machine) : Except Fault (Nat × Nat × Machine) :=
  match (List.range taskNr).find? fun pid => (s.tasks pid).isNone with
  | some pid => do
      let (page, s) ← s.allocKpage 1
      return (pid, page, s)
  | none => .error .panic

/-- `sys_fork`. -/
def sysFork (s : Machine) (growths : Nat) : Except Fault Machine := do
  let task ← s.getCurrent
  check (task.uid = userRing3)
  let (pid, page, s) ← s.getFreeTask
  let (pde, s) ← s.copyPte
  let s := { s with pages := ← Paging.grow s.pages Paging.bitmapSize growths }
  let (bits, s) ← s.allocKpage 1
  let child := { task with page := page, pde := pde, vmap := { task.vmap with bits := bits } }
  return { s with
    memory := s.memory.copy bits task.vmap.bits pageSize
    tasks := Function.update s.tasks pid (some child) }

/-- `sys_exit`. -/
def sysExit (s : Machine) : Except Fault Machine := do
  let task ← s.getCurrent
  check (s.current ≠ 0 ∧ s.current ≠ 1)
  let s ← s.freePte
  let s ← s.freeKpage (task.pde + kernelVaddrOffset) 1
  let s ← s.freeKpage task.vmap.bits 1
  return s.modify s.current fun task => { task with dead := true }

/-- `load_elf` and the end of `sys_execve`. -/
def loadElf (s : Machine) (image : Image) : Except Stop Machine := do
  let s ← lift (s.linkUserPage userExecAddr)
  let s ← s.kernelStores userExecAddr 52 image.header
  if image.valid then
    let s ← s.kernelStores (userExecAddr + 52) image.table.1 image.table.2
    let s ← image.segments.foldlM loadSegment s
    return s.modify s.current fun task => { task with brk := task.end_ }
  else
    return s

/-- `sys_execve`, from `free_pte` on.  The arguments and the environment are given by the
number of bytes that they take on the stack and the words that they leave there. -/
def sysExecve (s : Machine) (args : Nat × (Nat → Entry)) (image : Image) :
    Except Stop Machine := do
  lift (check (args.1 < 4 * pageSize))
  let s ← lift s.freePte
  let s ← s.kernelStores (userStackTop - args.1) args.1 args.2
  s.loadElf image

/-- The end of `sys_waitpid`, for the child that it finds dead. -/
def reap (s : Machine) (pid : Nat) : Except Fault Machine :=
  match s.tasks pid with
  | none => .error .misuse
  | some child =>
      if child.dead then do
        let s ← s.freeKpage child.page 1
        return { s with tasks := Function.update s.tasks pid none }
      else
        .error .misuse

/-! ## Runs -/

/-- Labels of steps. -/
inductive Label
  /-- `schedule` switches to a task. -/
  | switchTo (pid : Nat)
  | fork (growths : Nat)
  | execve (args : Nat × (Nat → Entry)) (image : Image)
  | exit
  | reap (pid : Nat)
  | brk (brk : Nat)
  | mmap (args : MmapArgs)
  | munmap (addr length : Nat)
  /-- The program loads or stores a word. -/
  | access (vaddr : Nat) (store : Option Entry)

/-- A call that may exit. -/
def settle : Except Stop Machine → Except Fault Machine
  | .ok s => .ok s
  | .error (.fault fault) => .error fault
  | .error (.exit _ s) => s.sysExit

/-- The current task is a user task that has not exited. -/
def Alive (s : Machine) : Prop :=
  ∃ task, s.tasks s.current = some task ∧ task.uid = userRing3 ∧ task.dead = false

/-- Carry out a step. -/
def next (s : Machine) : Label → Except Fault Machine
  | .switchTo pid => .ok { s with current := pid }
  | .fork growths => s.sysFork growths
  | .execve args image => settle (s.sysExecve args image)
  | .exit => s.sysExit
  | .reap pid => s.reap pid
  | .brk brk => do
      let (_, s) ← s.sysBrk brk
      return s
  | .mmap args => settle do
      let (_, s) ← s.sysMmap args
      return s
  | .munmap addr length => do
      let (_, s) ← s.sysMunmap addr length
      return s
  | .access vaddr store => settle (s.access vaddr store)

/-- A task is switched to, or the current task makes a step. -/
def Takes (s : Machine) : Label → Prop
  | .switchTo pid => { s with current := pid }.Alive
  | .reap pid => s.Alive ∧ pid ≠ s.current
  | _ => s.Alive

/-- The runs of user tasks from the return of `move_to_user_mode` on. -/
def runs (Start : Machine → Prop) : System Machine Label where
  initial s := ∃ before growths, Start before ∧ before.moveToUserMode growths = .ok s
  step before label after := before.Takes label ∧ before.next label = .ok after

/-- The current task, as far as it decides about its steps. -/
def isAlive (s : Machine) : Bool :=
  match s.tasks s.current with
  | some task => task.uid == userRing3 && !task.dead
  | none => false

theorem isAlive_iff (s : Machine) : s.isAlive = true ↔ s.Alive := by
  unfold isAlive Alive
  cases s.tasks s.current with
  | none => simp
  | some task => simp

instance (s : Machine) : Decidable s.Alive :=
  decidable_of_iff _ s.isAlive_iff

instance (s : Machine) : (label : Label) → Decidable (s.Takes label)
  | .switchTo pid => inferInstanceAs (Decidable { s with current := pid }.Alive)
  | .reap _ => inferInstanceAs (Decidable (_ ∧ _))
  | .fork _ => inferInstanceAs (Decidable s.Alive)
  | .execve _ _ => inferInstanceAs (Decidable s.Alive)
  | .exit => inferInstanceAs (Decidable s.Alive)
  | .brk _ => inferInstanceAs (Decidable s.Alive)
  | .mmap _ => inferInstanceAs (Decidable s.Alive)
  | .munmap _ _ => inferInstanceAs (Decidable s.Alive)
  | .access _ _ => inferInstanceAs (Decidable s.Alive)

end Machine

end UserMemory
end LightOS
