import LightOS.Foundation.Transition
import LightOS.Signal.State

/-!
# The signal that cannot be blocked

Runs of the calls of `signal.c`, of `sys_fork` and of the delivery of signals.  The calls
keep `SIGKILL` out of the bitmap of blocked signals and its action at the default, but
delivery adds the mask of an action to the bitmap, and nothing keeps `SIGKILL` out of
the masks that `sys_sigaction` stores.
-/

namespace LightOS

/-- The table of tasks, by number. -/
structure SignalTable where
  tasks : Nat → Option SignalTask

namespace SignalTable

open Signal

/-- `TASK_NR`, the size of the table of tasks. -/
abbrev tableSize : Nat := 64

/-- Replace a task. -/
def setTask (s : SignalTable) (pid : Nat) (task : SignalTask) : SignalTable :=
  ⟨Function.update s.tasks pid (some task)⟩

/-- A running task makes a call. -/
def call (s : SignalTable) (pid : Nat) (body : SignalTask → SignalTask) :
    Except Fault SignalTable :=
  match s.tasks pid with
  | some task => if task.dead then throw .misuse else return s.setTask pid (body task)
  | none => throw .misuse

/-- Change the pending signals of some tasks. -/
def raise (s : SignalTable) (sig : Nat) (receives : Nat → SignalTask → Bool) : SignalTable :=
  ⟨fun pid => (s.tasks pid).map fun task =>
    if receives pid task then { task with signal := task.signal ||| sigmask sig } else task⟩

/-- `sys_kill`. -/
def sysKill (s : SignalTable) (pid : Nat) (sig : Int) : SignalTable :=
  if sig < minsig ∨ maxsig < sig then
    s
  else
    match s.tasks pid with
    | none => s
    | some task =>
        if pid = 1 ∨ task.uid = 0 then
          s
        else
          s.raise sig.toNat fun other _ => other = pid

/-- `get_free_task`. -/
def getFreeTask (s : SignalTable) : Except Fault Nat :=
  match (List.range tableSize).find? fun pid => (s.tasks pid).isNone with
  | some pid => .ok pid
  | none => .error .panic

/-- `sys_fork`. -/
def sysFork (s : SignalTable) (pid : Nat) : Except Fault SignalTable :=
  match s.tasks pid with
  | none => throw .misuse
  | some task =>
      if task.dead then
        throw .misuse
      else do
        check (task.uid = 1000)
        let child ← s.getFreeTask
        return s.setTask child { task with ppid := pid }

/-- `task_tell_father`. -/
def taskTellFather (s : SignalTable) (ppid : Nat) : Except Fault SignalTable :=
  if ppid = 0 then
    return s
  else if (s.tasks ppid).isSome then
    return s.raise sigchld fun other _ => other = ppid
  else
    throw .panic

/-- `sys_exit`, as far as signals are concerned. -/
def sysExit (s : SignalTable) (pid : Nat) (task : SignalTask) : Except Fault SignalTable := do
  check (pid ≠ 0 ∧ pid ≠ 1)
  let s := s.setTask pid { task with dead := true }
  let s ← s.taskTellFather task.ppid
  let s := if task.sid = pid then
    s.raise sighup fun other session => other ≠ pid ∧ session.sid = task.sid
  else
    s
  return ⟨fun other => (s.tasks other).map fun child =>
    if child.ppid = pid then { child with ppid := task.ppid } else child⟩

/-- `task_signal` for the running task. -/
def taskSignal (s : SignalTable) (pid : Nat) : Except Fault SignalTable :=
  match s.tasks pid with
  | none => throw .misuse
  | some task =>
      if task.dead then
        throw .misuse
      else do
        match ← task.taskSignal with
        | .resumes after => return s.setTask pid after
        | .exits after _ => s.sysExit pid after
        | .diverts _ after => return s.setTask pid after

/-- What happens next. -/
inductive Label
  | ssetmask (pid : Nat) (newmask : BitVec 32)
  | signal (pid : Nat) (sig : Int) (handler restorer : BitVec 32)
  | sigaction (pid : Nat) (sig : Int) (action : Sigaction)
  | kill (pid : Nat) (sig : Int)
  | fork (pid : Nat)
  /-- The task goes back from the kernel to its user program. -/
  | deliver (pid : Nat)
  /-- A user program computes. -/
  | user (pid : Nat) (frame : Registers) (memory : Memory)
  /-- A dead task is removed. -/
  | reap (pid : Nat)

/-- One step. -/
def next (s : SignalTable) : Label → Except Fault SignalTable
  | .ssetmask pid newmask => s.call pid fun task => (task.sysSsetmask newmask).2
  | .signal pid sig handler restorer =>
      s.call pid fun task => (task.sysSignal sig handler restorer).2
  | .sigaction pid sig action => s.call pid fun task => (task.sysSigaction sig action).2.2
  | .kill pid sig => .ok (s.sysKill pid sig)
  | .fork pid => s.sysFork pid
  | .deliver pid => s.taskSignal pid
  | .user pid frame memory =>
      s.call pid fun task => { task with frame := frame, memory := memory }
  | .reap pid =>
      match s.tasks pid with
      | some task =>
          if task.dead then .ok ⟨Function.update s.tasks pid none⟩ else .error .misuse
      | none => .error .misuse

/-- A task as `task_create` makes it. -/
structure Created (task : SignalTask) : Prop where
  signal : task.signal = 0
  blocked : task.blocked = 0
  actions : ∀ index, task.actions index = ⟨sigDfl, 0, 0, 0⟩

/-- The runs from any tasks that have just been created. -/
def runs : System SignalTable Label where
  initial s := ∀ pid task, s.tasks pid = some task → Created task
  step before label after := before.next label = .ok after

/-- A task neither blocks nor catches `SIGKILL`. -/
def KillableTask (task : SignalTask) : Prop :=
  task.blocked &&& sigmask sigkill = 0 ∧ (task.actions (sigkill - 1)).handler = sigDfl

/-- No task blocks or catches `SIGKILL`. -/
def Killable (s : SignalTable) : Prop :=
  ∀ pid task, s.tasks pid = some task → KillableTask task

/-- A signal that goes to a handler comes with a mask that does not block `SIGKILL`. -/
def SparesKill (s : SignalTable) : Label → Prop
  | .deliver pid => ∀ task sig, s.tasks pid = some task →
      SignalTask.firstSignal task.deliverable = some sig →
      (task.actions (sig - 1)).handler ≠ sigIgn → (task.actions (sig - 1)).handler ≠ sigDfl →
      (task.actions (sig - 1)).mask &&& sigmask sigkill = 0
  | _ => True

variable {s after : SignalTable} {pid : Nat} {task : SignalTask}

/-! ## One task -/

theorem killableTask_ssetmask (killable : KillableTask task) (newmask : BitVec 32) :
    KillableTask (task.sysSsetmask newmask).2 := by
  unfold SignalTask.sysSsetmask
  split
  · exact killable
  · refine ⟨?_, killable.2⟩
    dsimp only
    rw [BitVec.and_assoc, BitVec.and_comm (~~~_), BitVec.and_not_self]
    exact BitVec.and_zero

/-- An action for another signal than `SIGKILL` is replaced. -/
theorem killableTask_setAction (killable : KillableTask task) {sig : Int}
    (accepted : ¬SignalTask.Refuses sig) (action : Sigaction) :
    KillableTask (task.setAction sig.toNat action) := by
  refine ⟨killable.1, ?_⟩
  unfold SignalTask.Refuses at accepted
  simp only [minsig, maxsig, sigkill] at accepted
  have other : sigkill - 1 ≠ sig.toNat - 1 := by
    simp only [sigkill]
    omega
  unfold SignalTask.setAction
  dsimp only
  rw [Function.update_of_ne other]
  exact killable.2

theorem killableTask_signal (killable : KillableTask task) (sig : Int)
    (handler restorer : BitVec 32) :
    KillableTask (task.sysSignal sig handler restorer).2 := by
  unfold SignalTask.sysSignal
  split
  · exact killable
  · rename_i accepted
    exact killableTask_setAction killable accepted _

theorem killableTask_sigaction (killable : KillableTask task) (sig : Int)
    (action : Sigaction) : KillableTask (task.sysSigaction sig action).2.2 := by
  unfold SignalTask.sysSigaction
  split
  · exact killable
  · rename_i accepted
    exact killableTask_setAction killable accepted _

/-- A handler is called: the bitmap gets the mask of the action. -/
theorem killableTask_divert (killable : KillableTask task) (sig : Nat) :
    KillableTask (task.divert sig) ↔
      (task.actions (sig - 1)).mask &&& sigmask sigkill = 0 := by
  have inRange : sigkill - 1 < 32 := by decide
  have clear := (and_sigmask_eq_zero inRange task.blocked).mp killable.1
  have blocked : (task.divert sig).blocked &&& sigmask sigkill = 0 ↔
      (task.actions (sig - 1)).mask &&& sigmask sigkill = 0 := by
    have both := and_sigmask_eq_zero inRange (task.blocked ||| (task.actions (sig - 1)).mask)
    rw [BitVec.getLsbD_or, clear, Bool.false_or] at both
    exact both.trans (and_sigmask_eq_zero inRange _).symm
  refine ⟨fun holds => blocked.mp holds.1, fun spares => ⟨blocked.mpr spares, ?_⟩⟩
  change ((if _ then _ else _ : Nat → Sigaction) _).handler = sigDfl
  split
  · by_cases same : sigkill - 1 = sig - 1
    · rw [same, Function.update_self]
    · rw [Function.update_of_ne same]
      exact killable.2
  · exact killable.2

/-! ## All tasks -/

theorem Killable.setTask (killable : s.Killable) (isKillable : KillableTask task) :
    (s.setTask pid task).Killable := by
  intro other found present
  unfold SignalTable.setTask at present
  dsimp only at present
  by_cases same : other = pid
  · subst same
    rw [Function.update_self] at present
    cases present
    exact isKillable
  · rw [Function.update_of_ne same] at present
    exact killable other found present

theorem Killable.call (killable : s.Killable) {body : SignalTask → SignalTask}
    (kept : ∀ task, KillableTask task → KillableTask (body task))
    (called : s.call pid body = .ok after) : after.Killable := by
  unfold SignalTable.call at called
  split at called
  · rename_i task present
    split at called
    · cases called
    · cases called
      exact killable.setTask (kept task (killable pid task present))
  · cases called

/-- Tasks change in other fields. -/
theorem Killable.map (killable : s.Killable) {change : Nat → SignalTask → SignalTask}
    (kept : ∀ pid task, KillableTask task → KillableTask (change pid task)) :
    Killable ⟨fun pid => (s.tasks pid).map (change pid)⟩ := by
  intro pid task present
  obtain ⟨before, wasPresent, rfl⟩ := Option.map_eq_some_iff.mp present
  exact kept pid before (killable pid before wasPresent)

theorem Killable.raise (killable : s.Killable) (sig : Nat)
    (receives : Nat → SignalTask → Bool) : (s.raise sig receives).Killable := by
  apply killable.map
  intro pid task isKillable
  split
  · exact isKillable
  · exact isKillable

theorem Killable.kill (killable : s.Killable) (pid : Nat) (sig : Int) :
    (s.sysKill pid sig).Killable := by
  unfold sysKill
  split
  · exact killable
  · split
    · exact killable
    · split
      · exact killable
      · exact killable.raise _ _

theorem Killable.fork (killable : s.Killable) (forked : s.sysFork pid = .ok after) :
    after.Killable := by
  unfold sysFork at forked
  split at forked
  · cases forked
  · rename_i task present
    split at forked
    · cases forked
    · simp only [bind_eq_ok] at forked
      obtain ⟨_, _, child, _, result⟩ := forked
      cases result
      have isKillable := killable pid task present
      exact killable.setTask ⟨isKillable.1, isKillable.2⟩

theorem Killable.exit (killable : s.Killable) (isKillable : KillableTask task)
    (exited : s.sysExit pid task = .ok after) : after.Killable := by
  simp only [sysExit, bind_eq_ok] at exited
  obtain ⟨_, _, told, tells, result⟩ := exited
  have dies : (s.setTask pid { task with dead := true }).Killable :=
    killable.setTask ⟨isKillable.1, isKillable.2⟩
  have toldKillable : told.Killable := by
    unfold taskTellFather at tells
    split at tells
    · cases tells
      exact dies
    · split at tells
      · cases tells
        exact dies.raise _ _
      · cases tells
  cases result
  refine Killable.map ?_ fun other child holds => ?_
  · split
    · exact toldKillable.raise _ _
    · exact toldKillable
  · split
    · exact holds
    · exact holds

/-- What `task_signal` does for a running task. -/
theorem taskSignal_cases (delivered : s.taskSignal pid = .ok after) :
    ∃ task outcome, s.tasks pid = some task ∧ task.taskSignal = .ok outcome ∧
      match outcome with
      | .resumes resumed => after = s.setTask pid resumed
      | .exits dying _ => s.sysExit pid dying = .ok after
      | .diverts _ diverted => after = s.setTask pid diverted := by
  unfold SignalTable.taskSignal at delivered
  split at delivered
  · cases delivered
  · rename_i task present
    split at delivered
    · cases delivered
    · simp only [bind_eq_ok] at delivered
      obtain ⟨outcome, isOutcome, rest⟩ := delivered
      refine ⟨task, outcome, present, isOutcome, ?_⟩
      cases outcome with
      | resumes resumed =>
          cases rest
          rfl
      | exits dying status => exact rest
      | diverts sig diverted =>
          cases rest
          rfl

/-- A task that goes on or ends has its bitmap and its actions as before. -/
theorem taskSignal_keeps {outcome : SignalTask.Delivery}
    (killable : KillableTask task) (isOutcome : task.taskSignal = .ok outcome) :
    match outcome with
    | .resumes after => KillableTask after
    | .exits after _ => KillableTask after
    | .diverts _ _ => True := by
  unfold SignalTask.taskSignal at isOutcome
  split at isOutcome
  · cases isOutcome
    exact killable
  · split at isOutcome
    · cases isOutcome
    · split at isOutcome
      · cases isOutcome
      · dsimp only at isOutcome
        split at isOutcome
        · cases isOutcome
          exact ⟨killable.1, killable.2⟩
        · split at isOutcome
          · cases isOutcome
            exact ⟨killable.1, killable.2⟩
          · split at isOutcome
            · cases isOutcome
              exact ⟨killable.1, killable.2⟩
            · cases isOutcome
              trivial

/-- A delivery keeps every task killable exactly when it spares `SIGKILL`. -/
theorem killable_taskSignal_iff (killable : s.Killable)
    (delivered : s.taskSignal pid = .ok after) :
    after.Killable ↔ s.SparesKill (.deliver pid) := by
  obtain ⟨task, outcome, present, isOutcome, rest⟩ := taskSignal_cases delivered
  have isKillable := killable pid task present
  have kept := taskSignal_keeps isKillable isOutcome
  have diverted (sig : Nat) : KillableTask ((task.clearSignal sig).divert sig) ↔
      (task.actions (sig - 1)).mask &&& sigmask sigkill = 0 :=
    have cleared : KillableTask (task.clearSignal sig) := ⟨isKillable.1, isKillable.2⟩
    killableTask_divert cleared sig
  constructor
  · intro afterKillable other sig otherPresent isFirst notIgnored notDefault
    rw [present] at otherPresent
    cases otherPresent
    have pending : task.deliverable ≠ 0 := by
      intro none
      obtain ⟨_, _, isSet⟩ := SignalTask.firstSignal_spec isFirst
      apply isSet
      rw [none]
      exact BitVec.zero_and
    have isUser : task.uid ≠ 0 := by
      intro isKernel
      rw [SignalTask.taskSignal, if_neg pending, if_pos isKernel] at isOutcome
      cases isOutcome
    rw [SignalTask.taskSignal_handler pending isUser isFirst notIgnored notDefault] at isOutcome
    cases isOutcome
    cases rest
    exact (diverted sig).mp (afterKillable pid _ (Function.update_self ..))
  · intro spares
    cases outcome with
    | resumes resumed =>
        cases rest
        exact killable.setTask kept
    | exits dying status => exact killable.exit kept rest
    | diverts sig divertedTask =>
        cases rest
        obtain ⟨isFirst, notIgnored, notDefault, rfl⟩ := SignalTask.taskSignal_diverts isOutcome
        exact killable.setTask
          ((diverted sig).mpr (spares task sig present isFirst notIgnored notDefault))

theorem Killable.step (killable : s.Killable) {label : Label} (spares : s.SparesKill label)
    (stepped : s.next label = .ok after) : after.Killable := by
  cases label with
  | ssetmask pid newmask =>
      exact killable.call (fun task holds => killableTask_ssetmask holds newmask) stepped
  | signal pid sig handler restorer =>
      exact killable.call
        (fun task holds => killableTask_signal holds sig handler restorer) stepped
  | sigaction pid sig action =>
      exact killable.call (fun task holds => killableTask_sigaction holds sig action) stepped
  | kill pid sig =>
      cases stepped
      exact killable.kill pid sig
  | fork pid => exact killable.fork stepped
  | deliver pid => exact (killable_taskSignal_iff killable stepped).mpr spares
  | user pid frame memory =>
      apply killable.call ?_ stepped
      exact fun task holds => ⟨holds.1, holds.2⟩
  | reap pid =>
      simp only [next] at stepped
      split at stepped
      · split at stepped
        · cases stepped
          intro other task present
          dsimp only at present
          by_cases same : other = pid
          · rw [same, Function.update_self] at present
            cases present
          · rw [Function.update_of_ne same] at present
            exact killable other task present
        · cases stepped
      · cases stepped

theorem killable_of_initial (begins : runs.initial s) : s.Killable := by
  intro pid task present
  have created := begins pid task present
  refine ⟨?_, by rw [created.actions]⟩
  rw [created.blocked]
  exact BitVec.zero_and

/-- In a run no task ever blocks or catches `SIGKILL` exactly when every signal that goes
to a handler comes with a mask that spares it. -/
theorem killable_iff_sparesKill {start final : SignalTable}
    {trace : List (SignalTable × Label)} (begins : runs.initial start)
    (path : runs.Path start trace final) :
    System.Visits Killable trace final ↔ System.Obeys SparesKill trace := by
  refine path.visits_iff_obeys Killable (killable_of_initial begins)
    (fun before label after killable spares stepped => killable.step spares stepped)
    (fun state killable => killable) fun before label after killable notSpared stepped => ?_
  cases label with
  | deliver pid => exact mt (killable_taskSignal_iff killable stepped).mp notSpared
  | _ => exact absurd trivial notSpared

/-- A user program right after `task_create`. -/
def newTask : SignalTask where
  uid := 1000
  ppid := 1
  sid := 2
  dead := false
  signal := 0
  blocked := 0
  actions := fun _ => ⟨sigDfl, 0, 0, 0⟩
  frame := ⟨0, 0, 0, 0x202#32, 0x8048000#32, 0xBFFFF000#32⟩
  memory := ⟨fun _ => 0⟩

/-- Only task 2 is there. -/
def oneTask : SignalTable :=
  ⟨fun pid => if pid = 2 then some newTask else none⟩

theorem initial_oneTask : runs.initial oneTask := by
  intro pid task present
  unfold oneTask at present
  dsimp only at present
  split at present
  · cases present
    exact ⟨rfl, rfl, fun _ => rfl⟩
  · cases present

/-- Task 2 registers a handler for `SIGUSR1` with a mask and gets the signal. -/
def handled (mask : BitVec 32) : List Label :=
  [.sigaction 2 10 ⟨0x8049000#32, mask, 0, 0x804A000#32⟩, .kill 2 10, .deliver 2]

/-- Task 2 blocks a signal. -/
def blocks (sig : Nat) (s : SignalTable) : Bool :=
  match s.tasks 2 with
  | some task => task.blocked &&& sigmask sig ≠ 0
  | none => false

theorem killable_iff_sparesKill_handled :
    ∃ trace final, runs.Path oneTask trace final ∧ blocks 10 final = true ∧
      (System.Visits Killable trace final ↔ System.Obeys SparesKill trace) := by
  obtain ⟨trace, final, path, isBlocked⟩ := System.Path.of_run runs next
    (fun _ _ _ stepped => stepped) oneTask (handled 0) (blocks 10) (by decide +kernel)
  exact ⟨trace, final, path, isBlocked, killable_iff_sparesKill initial_oneTask path⟩

/-- A handler whose mask has the bit of `SIGKILL` blocks it. -/
theorem killable_fails : ¬∀ s, runs.Reachable s → s.Killable := by
  intro always
  obtain ⟨s, reached, isBlocked⟩ := System.ReachableWithin.extend_run runs
    (fun _ _ => True) next (fun _ _ _ stepped => ⟨trivial, stepped⟩)
    (handled (sigmask sigkill)) (blocks sigkill) (.initial initial_oneTask) (by decide +kernel)
  unfold blocks at isBlocked
  split at isBlocked
  · rename_i task present
    exact of_decide_eq_true isBlocked (always s reached 2 task present).1
  · cases isBlocked

end SignalTable

end LightOS
