import LightOS.Foundation.Transition
import LightOS.Sched.State

/-!
# System calls and interrupts

A system call is a sequence of operations that its task runs through.  Other
tasks run when it blocks or yields, and interrupts arrive while the current
task is outside the kernel.
-/

namespace LightOS
namespace Sched

/-- `MINSIG`. -/
abbrev minSig : Nat := 1

/-- `MAXSIG`. -/
abbrev maxSig : Nat := 31

/-- `SIGINT`. -/
abbrev sigInt : Nat := 2

/-- `BEEP_LAST_MS`. -/
abbrev beepLastMs : Nat := 100

/-- `ide_pio_write` of a block in a request of a disk: both sectors are waited
for. -/
def writeOps (buffer : Buffer) (disk ctrl choice : Nat) : List Op :=
  [.request disk, .lock (.controller ctrl), .await (.disk ctrl), .await (.disk ctrl),
    .unlock (.controller ctrl), .complete disk choice, .clean buffer]

/-- Outcomes of a round of the loop of `sys_waitpid`. -/
inductive Round
  /-- The call returns `EOF`. -/
  | childless
  /-- The call returns the `pid` of a child, with its status. -/
  | reaps (child status : Nat)
  /-- The task waits, and looks again when it is woken. -/
  | blocks
  deriving DecidableEq, Repr

namespace Kernel

/-- Whether `sys_kill` wakes a task: it accepts the call, and the task waits or
sleeps. -/
def killWakes (s : Kernel) (pid sig : Nat) (state : TaskState) : Bool :=
  (minSig ≤ sig ∧ sig ≤ maxSig ∧ pid ≠ 1) ∧
    (s.tasks pid).any fun task => task.uid ≠ 0 ∧ task.state = state

/-- `sys_kill`. -/
def kill (s : Kernel) (pid sig : Nat) : Kernel :=
  if s.killWakes pid sig .waiting || s.killWakes pid sig .sleeping then
    s.intrUnblock pid
  else
    s

/-- `get_free_task`. -/
def getFreeTask (s : Kernel) : Except Fault Nat :=
  match (List.range taskNr).find? fun pid => (s.tasks pid).isNone with
  | some pid => .ok pid
  | none => .error .panic

/-- `sys_fork`. -/
def fork (s : Kernel) : Except Fault Kernel := do
  check ((s.tasks s.current).any fun task => task.uid = userRing3)
  let pid ← s.getFreeTask
  let child := (s.tasks s.current).map fun task =>
    { task with
      state := .ready
      ticks := task.priority
      ppid := s.current
      pending := [] }
  return { s with tasks := Function.update s.tasks pid child }

theorem getFreeTask_eq {s : Kernel} {new : Nat} (isNew : s.getFreeTask = .ok new) :
    s.tasks new = none ∧ new < taskNr := by
  unfold getFreeTask at isNew
  split at isNew
  · rename_i pid found
    cases isNew
    exact ⟨by simpa using List.find?_some found,
      List.mem_range.mp (List.mem_of_find?_eq_some found)⟩
  · cases isNew

/-- The child is ready and outside the kernel, and the other tasks stay. -/
theorem fork_spec {s after : Kernel} (ran : s.fork = .ok after) :
    ∃ tasks, after = { s with tasks := tasks } ∧
      (∀ pid task, s.tasks pid = some task → tasks pid = some task) ∧
      ∀ pid later, tasks pid = some later →
        later.state = .ready ∧ later.pending = [] ∨ s.tasks pid = some later := by
  unfold Kernel.fork at ran
  simp only [bind_eq_ok, pure_eq_ok] at ran
  obtain ⟨_, _, new, isNew, ran⟩ := ran
  obtain ⟨empty, _⟩ := getFreeTask_eq isNew
  cases ran
  refine ⟨_, rfl, fun pid task present => ?_, fun pid later found => ?_⟩
  · rw [Function.update_of_ne]
    · exact present
    · rintro rfl
      rw [empty] at present
      cases present
  · by_cases same : pid = new
    · subst same
      rw [Function.update_self] at found
      obtain ⟨task, _, rfl⟩ := Option.map_eq_some_iff.mp found
      exact .inl ⟨rfl, rfl⟩
    · rw [Function.update_of_ne same] at found
      exact .inr found

/-- A task that is found when another one has been taken off the list. -/
theorem of_update_none {tasks : Nat → Option Task} {pid other : Nat} {task : Task}
    (found : Function.update tasks pid none other = some task) :
    other ≠ pid ∧ tasks other = some task := by
  by_cases same : other = pid
  · rw [same, Function.update_self] at found
    cases found
  · rw [Function.update_of_ne same] at found
    exact ⟨same, found⟩

/-- The child that `sys_waitpid` looks at. -/
def child (s : Kernel) : Option Nat :=
  (List.range taskNr).find? fun pid =>
    2 ≤ pid ∧ (s.tasks pid).any fun task => task.ppid = s.current

/-- What a round of the loop of `sys_waitpid` comes to. -/
def round (s : Kernel) : Round :=
  match s.child.bind fun child => (s.tasks child).map fun task => (child, task) with
  | none => .childless
  | some (child, task) =>
      if task.state = .dead then .reaps child task.status else .blocks

/-- A round of the loop of `sys_waitpid`. -/
def wait (s : Kernel) (pid : Nat) : Except Fault Kernel :=
  match s.round with
  | .childless => .ok s
  | .reaps child _ => .ok { s with tasks := Function.update s.tasks child none }
  | .blocks =>
      ((s.push [.wait pid]).modify s.current fun task =>
        { task with waitpid := pid }).block .waiting

/-- A round of the last loop of `sys_exit`. -/
def adoptOne (s : Kernel) (pid : Nat) : Kernel :=
  match s.tasks pid, s.tasks s.current with
  | some task, some dying =>
      if task.ppid = s.current then
        s.modify pid fun task => { task with ppid := dying.ppid }
      else if task.waitpid = s.current then
        (if task.state = .waiting then s.intrUnblock pid else s).modify pid
          fun task => { task with waitpid := 0 }
      else
        s
  | _, _ => s

/-- `bwrite`. -/
def flush (s : Kernel) (buffer : Buffer) (choice : Nat) : Kernel :=
  if s.dirty buffer then
    match buffer.device with
    | .ramdisk _ => { s with dirty := Function.update s.dirty buffer false }
    | .ide disk ctrl => s.push (writeOps buffer disk ctrl choice)
  else
    s

/-- Run an operation of the current task. -/
def exec (s : Kernel) : Op → Except Fault Kernel
  | .sleep ms => do
      check ((s.tasks s.current).all fun task => task.node = none)
      (s.timerAdd ms .taskWakeup |>.push [.slept s.serial]).block .sleeping
  | .slept _ => .ok s
  | .kill pid sig => .ok (s.kill pid sig)
  | .yield => s.schedule
  | .fork => s.fork
  | .wait pid => s.wait pid
  | .lock lock =>
      if s.held lock then do
        (← (s.push [.lock lock]).pushback (.mutex lock)).block .blocked
      else
        .ok { s with held := Function.update s.held lock true }
  | .unlock lock =>
      let s := { s with held := Function.update s.held lock false }
      match s.waiting (.mutex lock) with
      | [] => .ok s
      | pid :: _ => ((s.unregister (.mutex lock) pid).setState pid .ready).schedule
  | .starve => do
      (← s.pushback .buffers).block .blocked
  | .refill =>
      match (s.waiting .buffers).getLast? with
      | none => .ok s
      | some pid => .ok ((s.unregister .buffers pid).intrUnblock pid)
  | .await slot =>
      if s.current = 0 then
        .ok s
      else
        (s.setWaiting (.slot slot) [s.current]).block .blocked
  | .rouse slot =>
      match s.waiting (.slot slot) with
      | [] => .ok s
      | pid :: _ => .ok ((s.intrUnblock pid).setWaiting (.slot slot) [])
  | .request disk =>
      if s.serving disk = false ∧ s.waiting (.requests disk) = [] then
        .ok { s with serving := Function.update s.serving disk true }
      else do
        (← s.pushback (.requests disk)).block .blocked
  | .complete disk choice =>
      let s := { s with serving := Function.update s.serving disk false }
      match (s.waiting (.requests disk))[choice]? with
      | none => .ok s
      | some pid =>
          let s := { s with serving := Function.update s.serving disk true }
          .ok ((s.setWaiting (.requests disk)
            ((s.waiting (.requests disk)).erase pid)).intrUnblock pid)
  | .soil buffer => .ok { s with dirty := Function.update s.dirty buffer true }
  | .clean buffer => .ok { s with dirty := Function.update s.dirty buffer false }
  | .flush buffer choice => .ok (s.flush buffer choice)
  | .beep =>
      if s.beeping then
        .ok s
      else
        .ok ({ s with beeping := true }.timerAdd beepLastMs .stopBeep)
  | .enterUser => do
      check (s.current = 1)
      return s.modify s.current fun task =>
        { task with uid := userRing3, ppid := s.current }
  | .die status => do
      check ((s.tasks s.current).any fun task => task.state = .running)
      check (s.current ≠ 0 ∧ s.current ≠ 1)
      return s.modify s.current fun task =>
        { task with state := .dead, status := status }
  | .dropTimers => .ok (s.timerRemove s.current)
  | .tellFather =>
      if (s.tasks s.current).any fun task =>
          task.ppid ≠ 0 ∧ (task.ppid < taskNr → s.tasks task.ppid = none) then
        .error .panic
      else
        .ok s
  | .adopt => .ok ((List.range taskNr).foldl adoptOne s)

end Kernel

/-- What `sys_exit` does to one of the inodes that it releases: `iput` writes the
buffer of the inode when it is dirty, and the last reference to the buffer
wakes a task that waits for one. -/
structure Release where
  buffer : Buffer
  choice : Nat
  last : Bool
  deriving DecidableEq, Repr

def Release.ops (release : Release) : List Op :=
  .flush release.buffer release.choice :: if release.last then [.refill] else []

/-- The part of `sys_exit` behind the assignment of the state.  The inodes of the
task are released before its timers and its files after them. -/
def exitTail (inodes files : List Release) : List Op :=
  inodes.flatMap Release.ops ++ [.dropTimers, .tellFather] ++
    files.flatMap Release.ops ++ [.adopt, .yield]

/-- Operations that drivers, the cache and the file system are made of. -/
def Op.isWork : Op → Bool
  | .lock _ | .unlock _ | .starve | .refill | .await _ | .rouse _ | .request _
  | .complete _ _ | .soil _ | .clean _ | .flush _ _ | .beep | .enterUser => true
  | _ => false

/-- System calls. -/
inductive Call
  | sleep (ms : Nat)
  | kill (pid sig : Nat)
  | yield
  | fork
  | waitpid (pid : Nat)
  | exit (status : Nat) (inodes files : List Release)
  /-- A call that uses files or devices. -/
  | work (ops : List Op)
  deriving DecidableEq, Repr

namespace Call

/-- The operations of a call. -/
def ops : Call → List Op
  | .sleep ms => [.sleep ms]
  | .kill pid sig => [.kill pid sig]
  | .yield => [.yield]
  | .fork => [.fork]
  | .waitpid pid => [.wait pid]
  | .exit status inodes files => .die status :: exitTail inodes files
  | .work ops => ops.filter Op.isWork

end Call

/-- Pointers that an interrupt handler looks at. -/
def Slot.isLine : Slot → Bool
  | .disk _ | .serial _ | .keyboard => true
  | _ => false

/-- Labels of steps. -/
inductive Label
  /-- The current task enters the kernel. -/
  | call (call : Call)
  /-- The current task runs its next operation. -/
  | run
  /-- The clock interrupt. -/
  | tick
  /-- The interrupt of a device. -/
  | interrupt (slot : Slot)
  /-- `tty_intr` reaches a task of the foreground group. -/
  | strike (pid : Nat)
  deriving DecidableEq, Repr

namespace Kernel

/-- What the current task still has to do in the kernel. -/
def pending (s : Kernel) : List Op :=
  ((s.tasks s.current).map Task.pending).getD []

/-- A step.  Only `schedule` is called by the idle task, and interrupts find the
current task outside the kernel, the idle task outside `schedule` too. -/
def step (s : Kernel) : Label → Except Fault Kernel
  | .call call =>
      if s.pending = [] ∧ (s.current ≠ 0 ∨ call = .yield) then
        .ok (s.setPending call.ops)
      else
        .error .misuse
  | .run =>
      match s.pending with
      | [] => .error .misuse
      | op :: rest => (s.setPending rest).exec op
  | .tick => if s.pending = [] then s.clockHandler else .error .misuse
  | .interrupt slot =>
      if s.pending = [] ∧ slot.isLine then s.exec (.rouse slot) else .error .misuse
  | .strike pid =>
      if s.pending = [] then .ok (s.kill pid sigInt) else .error .misuse

/-- What a step can do. -/
inductive Taken (s : Kernel) : Label → Kernel → Prop
  | call {call : Call} (outside : s.pending = []) (enters : s.current ≠ 0 ∨ call = .yield) :
      Taken s (.call call) (s.setPending call.ops)
  | run {op : Op} {rest : List Op} {after : Kernel} (pending : s.pending = op :: rest)
      (ran : (s.setPending rest).exec op = .ok after) : Taken s .run after
  | tick {after : Kernel} (outside : s.pending = []) (ticked : s.clockHandler = .ok after) :
      Taken s .tick after
  | interrupt {slot : Slot} {after : Kernel} (outside : s.pending = [])
      (roused : s.exec (.rouse slot) = .ok after) : Taken s (.interrupt slot) after
  | strike {pid : Nat} (outside : s.pending = []) : Taken s (.strike pid) (s.kill pid sigInt)

theorem taken_of_step {s after : Kernel} {label : Label} (taken : s.step label = .ok after) :
    s.Taken label after := by
  cases label with
  | run =>
      rw [step] at taken
      split at taken
      · cases taken
      · rename_i pending
        exact .run pending taken
  | _ =>
      rw [step] at taken
      split at taken
      · rename_i enters
        first
        | exact .tick enters taken
        | exact .interrupt enters.1 taken
        | cases taken
          exact .strike enters
        | cases taken
          exact .call enters.1 enters.2
      · cases taken

/-- A call with the operations that its task gets through at once. -/
def does (call : Call) (count : Nat) : List Label :=
  .call call :: List.replicate count .run

/-- The tasks that `task_setup` creates, with the idle task running. -/
def boot : Kernel where
  tasks := fun pid =>
    if pid = 0 then some ⟨.ready, 1, 1, 0, 0, 0, 0, none, []⟩
    else if pid = 1 then some ⟨.ready, 5, 5, 0, 0, 0, 0, none, []⟩
    else none
  current := 0
  jiffies := 0
  timers := []
  serial := 0
  beeping := false
  waiting := fun _ => []
  held := fun _ => false
  serving := fun _ => false
  dirty := fun _ => false

/-- The tasks of a system from its start. -/
def system : System Kernel Label where
  initial := fun s => s = boot
  step := fun before label after => before.step label = .ok after

end Kernel

end Sched
end LightOS
