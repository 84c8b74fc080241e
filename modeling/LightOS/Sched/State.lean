import LightOS.Foundation.Words
import LightOS.Kernel.Fault
import Mathlib.Data.List.Basic
import Mathlib.Logic.Function.Basic

/-!
# Tasks and the scheduler

The task table of `task.c` with the places where blocked tasks are found again,
the timer list of `timer.c`, and `schedule`, `switch_to`, `task_block` and the
functions that wake tasks.  A task is named by its slot of `task_list`, which is
its `pid`.  Kernel code runs with interrupts disabled, so a task gives up the
processor only in `schedule`; what it still has to do in the kernel when it
runs again is kept with it as a list of operations.  The idle task calls
`schedule` with interrupts enabled; it is assumed here that none comes before
`schedule` has switched to the task that it has selected.
-/

namespace LightOS
namespace Sched

/-- `TASK_NR`. -/
abbrev taskNr : Nat := 64

/-- `USER_RING3`. -/
abbrev userRing3 : Nat := 1000

/-- `JIFFY`, in milliseconds. -/
abbrev jiffy : Nat := 10

/-- The enumeration `task_state_t`, without the state that no task is given. -/
inductive TaskState
  | running
  | ready
  | blocked
  | sleeping
  | waiting
  | dead
  deriving DecidableEq, Repr

/-- A mutex: the one of a disk controller or another one. -/
inductive Lock
  | controller (ctrl : Nat)
  | other (number : Nat)
  deriving DecidableEq, Repr

/-- Pointers to the one task that waits for something. -/
inductive Slot
  /-- `waiter` of a disk controller. -/
  | disk (ctrl : Nat)
  /-- `rx_waiter` of a serial port. -/
  | serial (port : Nat)
  /-- `fg_task` of the keyboard. -/
  | keyboard
  /-- `rxwaiter` of a pipe. -/
  | reader (pipe : Nat)
  /-- `txwaiter` of a pipe. -/
  | writer (pipe : Nat)
  deriving DecidableEq, Repr

/-- Places where a task that blocks is found again. -/
inductive Place
  /-- `waiters` of a mutex, linked through the `node` of the tasks. -/
  | mutex (lock : Lock)
  /-- `wait_list` of the buffer cache, linked through `node` as well. -/
  | buffers
  | slot (slot : Slot)
  /-- The requests of a disk that are not being served. -/
  | requests (disk : Nat)
  deriving DecidableEq, Repr

/-- Tasks are linked into a place through their `node`. -/
def Place.byNode : Place → Bool
  | .mutex _ => true
  | .buffers => true
  | _ => false

/-- A block device: requests for a ramdisk are served at once. -/
inductive Device
  | ramdisk (number : Nat)
  | ide (disk ctrl : Nat)
  deriving DecidableEq, Repr

/-- A buffer of the cache, named by the block that it carries. -/
structure Buffer where
  device : Device
  block : Nat
  deriving DecidableEq, Repr

/-- Operations that kernel code is made of. -/
inductive Op
  /-- `sys_sleep`. -/
  | sleep (ms : Nat)
  /-- The return of `sys_sleep` behind its call of `schedule`. -/
  | slept (serial : Nat)
  /-- `sys_kill`. -/
  | kill (pid sig : Nat)
  /-- `sys_yield`. -/
  | yield
  /-- `sys_fork`. -/
  | fork
  /-- `sys_waitpid`. -/
  | wait (pid : Nat)
  /-- `mutex_lock`. -/
  | lock (lock : Lock)
  /-- `mutex_unlock`. -/
  | unlock (lock : Lock)
  /-- The wait of `get_free_cache`. -/
  | starve
  /-- The wakeup of `brelse`. -/
  | refill
  /-- Leave a pointer to the task and block. -/
  | await (slot : Slot)
  /-- Wake the task that a pointer was left to. -/
  | rouse (slot : Slot)
  /-- `device_request`, up to `do_request`. -/
  | request (disk : Nat)
  /-- `device_request`, behind `do_request`.  The request that the elevator picks
  is left open. -/
  | complete (disk choice : Nat)
  /-- Set the dirty bit of a buffer. -/
  | soil (buffer : Buffer)
  /-- Clear the dirty bit of a buffer. -/
  | clean (buffer : Buffer)
  /-- `bwrite` of a buffer. -/
  | flush (buffer : Buffer) (choice : Nat)
  /-- `start_beep`. -/
  | beep
  /-- The part of `move_to_user_mode` that makes `init`, its only caller, a user
  process. -/
  | enterUser
  /-- The beginning of `sys_exit`, up to the assignment of the state. -/
  | die (status : Nat)
  /-- `timer_remove`. -/
  | dropTimers
  /-- `task_tell_father`. -/
  | tellFather
  /-- The last loop of `sys_exit`. -/
  | adopt
  deriving DecidableEq, Repr

/-- The structure `task_t`, as far as the scheduler reads it. -/
structure Task where
  state : TaskState
  ticks : Nat
  priority : Nat
  uid : Nat
  ppid : Nat
  waitpid : Nat
  status : Nat
  /-- The list that `node` is linked into. -/
  node : Option Place
  /-- What the task still has to do in the kernel. -/
  pending : List Op
  deriving DecidableEq, Repr

/-- The handlers of timers. -/
inductive Handler
  | taskWakeup
  | stopBeep
  deriving DecidableEq, Repr

/-- The structure `timer_t`.  The serial number tells timers apart. -/
structure Timer where
  serial : Nat
  task : Nat
  expires : Nat
  handler : Handler
  deriving DecidableEq, Repr

/-- The state of the kernel. -/
structure Kernel where
  /-- `task_list`. -/
  tasks : Nat → Option Task
  current : Nat
  jiffies : Nat
  /-- `timer_list`. -/
  timers : List Timer
  /-- Serial number of the next timer. -/
  serial : Nat
  beeping : Bool
  /-- The tasks registered in a place. -/
  waiting : Place → List Nat
  /-- The mutexes that are held. -/
  held : Lock → Bool
  /-- The disks with a request that is being served. -/
  serving : Nat → Bool
  /-- The dirty bits of the buffers. -/
  dirty : Buffer → Bool

namespace Kernel

/-- Change a task. -/
def modify (s : Kernel) (pid : Nat) (change : Task → Task) : Kernel :=
  { s with tasks := Function.update s.tasks pid ((s.tasks pid).map change) }

/-- Assign the state of a task. -/
def setState (s : Kernel) (pid : Nat) (state : TaskState) : Kernel :=
  s.modify pid fun task => { task with state := state }

/-- Change what the current task still has to do. -/
def setPending (s : Kernel) (ops : List Op) : Kernel :=
  s.modify s.current fun task => { task with pending := ops }

/-- The current task has something else to do first. -/
def push (s : Kernel) (ops : List Op) : Kernel :=
  s.modify s.current fun task => { task with pending := ops ++ task.pending }

/-- Change the tasks registered in a place. -/
def setWaiting (s : Kernel) (place : Place) (tasks : List Nat) : Kernel :=
  { s with waiting := Function.update s.waiting place tasks }

section Rules

variable (s : Kernel) (pid other : Nat) (change : Task → Task) (place : Place)
  (tasks : List Nat)

theorem modify_tasks : (s.modify pid change).tasks other =
    if other = pid then (s.tasks other).map change else s.tasks other := by
  unfold modify
  by_cases same : other = pid
  · subst same
    simp
  · simp [same]

@[simp] theorem modify_current : (s.modify pid change).current = s.current := rfl

@[simp] theorem modify_waiting : (s.modify pid change).waiting = s.waiting := rfl

@[simp] theorem setWaiting_tasks : (s.setWaiting place tasks).tasks = s.tasks := rfl

@[simp] theorem setWaiting_current :
    (s.setWaiting place tasks).current = s.current := rfl

theorem setWaiting_waiting (otherPlace : Place) :
    (s.setWaiting place tasks).waiting otherPlace =
      if otherPlace = place then tasks else s.waiting otherPlace := by
  unfold setWaiting
  by_cases same : otherPlace = place
  · subst same
    simp
  · simp [same]

end Rules

/-! ## The scheduler -/

/-- `schedule` may switch to a task. -/
def eligible (s : Kernel) (pid : Nat) : Bool :=
  pid ≠ 0 ∧ (s.tasks pid).any fun task => task.ticks ≠ 0 ∧ task.state = .ready

/-- The task that `schedule` switches to. -/
def target (s : Kernel) : Nat :=
  (((List.range taskNr).map fun i => (s.current + 1 + i) % taskNr).find?
    s.eligible).getD 0

/-- The task that gives up the processor stays ready if it was running. -/
def pause (task : Task) : Task :=
  if task.state = .running then { task with state := .ready } else task

/-- `switch_to`. -/
def switchTo (s : Kernel) (pid : Nat) : Except Fault Kernel := do
  check (s.tasks pid).isSome
  if s.current = pid then
    return s
  let s := { s.modify s.current pause with current := pid }
  check ((s.tasks pid).any fun task => task.state = .ready)
  return s.setState pid .running

/-- `schedule`. -/
def schedule (s : Kernel) : Except Fault Kernel :=
  s.switchTo s.target

/-- `task_block` of the current task, which is registered where it waits. -/
def block (s : Kernel) (state : TaskState) : Except Fault Kernel :=
  (s.setState s.current state).schedule

/-- `list_pushback` of the current task to a list of tasks. -/
def pushback (s : Kernel) (place : Place) : Except Fault Kernel := do
  check (s.current ∉ s.waiting place)
  let s := s.setWaiting place (s.waiting place ++ [s.current])
  return s.modify s.current fun task =>
    { task with node := if place.byNode then some place else task.node }

/-- Take a task off the list that its `node` is linked into. -/
def unlist (s : Kernel) (pid : Nat) : Kernel :=
  match (s.tasks pid).bind Task.node with
  | none => s
  | some place =>
      (s.setWaiting place ((s.waiting place).erase pid)).modify pid fun task =>
        { task with node := none }

/-- `task_intr_unblock_no_waiting_list`. -/
def intrUnblock (s : Kernel) (pid : Nat) : Kernel :=
  (s.unlist pid).setState pid .ready

/-- Take a task off the place that it is registered in. -/
def unregister (s : Kernel) (place : Place) (pid : Nat) : Kernel :=
  (s.setWaiting place ((s.waiting place).erase pid)).modify pid fun task =>
    { task with node := none }

/-! ## Timers -/

/-- `list_insert_sort` by `expires`, as signed words. -/
def insertTimer (timer : Timer) : List Timer → List Timer
  | [] => [timer]
  | head :: rest =>
      if toSigned timer.expires < toSigned head.expires then
        timer :: head :: rest
      else
        head :: insertTimer timer rest

/-- `timer_add` for the current task. -/
def timerAdd (s : Kernel) (ms : Nat) (handler : Handler) : Kernel :=
  { s with
    timers := insertTimer ⟨s.serial, s.current, add32 s.jiffies (ms / jiffy), handler⟩
      s.timers
    serial := s.serial + 1 }

/-- `timer_remove`. -/
def timerRemove (s : Kernel) (pid : Nat) : Kernel :=
  { s with timers := s.timers.filter fun timer => timer.task ≠ pid }

/-- `task_wakeup`. -/
def taskWakeup (s : Kernel) (pid : Nat) : Kernel :=
  s.modify pid fun task => { task with ticks := task.priority, state := .ready }

/-- Run the handler of a timer. -/
def handle (s : Kernel) (timer : Timer) : Kernel :=
  match timer.handler with
  | .taskWakeup => s.taskWakeup timer.task
  | .stopBeep => { s with beeping := false }

/-- The loop of `timer_wakeup` over a list of timers.  `timer_expires` answers
`EOF` for an empty list, and the loop then takes the end of the list for a timer
when that many ticks have passed. -/
def timerWakeupFrom (s : Kernel) : List Timer → Except Fault Kernel
  | [] => do
      bounded (s.jiffies < eof)
      return { s with timers := [] }
  | timer :: rest =>
      if timer.expires ≤ s.jiffies then
        timerWakeupFrom (s.handle timer) rest
      else
        .ok { s with timers := timer :: rest }

/-- `timer_wakeup`. -/
def timerWakeup (s : Kernel) : Except Fault Kernel :=
  s.timerWakeupFrom s.timers

/-- `clock_handler`. -/
def clockHandler (s : Kernel) : Except Fault Kernel := do
  let s ← { s with jiffies := add32 s.jiffies 1 }.timerWakeup
  let s := s.modify s.current fun task => { task with ticks := sub32 task.ticks 1 }
  if (s.tasks s.current).any fun task => task.ticks = 0 then
    (s.modify s.current fun task => { task with ticks := task.priority }).schedule
  else
    return s

end Kernel

end Sched
end LightOS
