import LightOS.Sched.Discipline

/-!
# What an operation does to the tasks

Most operations create and remove no task, and leave every task with its parent,
its status and what it has to do.  They may change states, but nobody is put into
an exit or made to wait for a child, and a dead task comes back only when it is
registered somewhere or blocks itself.
-/

namespace LightOS
namespace Sched

variable {moved : Nat → Prop}

/-- What is left of a task.  The parameter tells whether it may come back from an
exit. -/
structure Resembles (moves : Prop) (task later : Task) : Prop where
  ppid : later.ppid = task.ppid
  waitpid : later.waitpid = task.waitpid
  status : later.status = task.status
  pending : later.pending = task.pending
  dies : later.state = .dead → task.state = .dead
  waits : later.state = .waiting → task.state = .waiting
  rests : task.state = .dead → later.state = .dead ∨ moves

/-- Operations in which the current task may block. -/
def Op.blocks : Op → Bool
  | .sleep _ | .lock _ | .starve | .await _ | .request _ => true
  | _ => false

/-- Operations about parents and children, and the beginning of an exit. -/
def Op.isFamily : Op → Bool
  | .fork | .wait _ | .enterUser | .die _ | .adopt => true
  | _ => false

namespace Resembles

variable {moves : Prop} {task later last : Task}

theorem refl (task : Task) : Resembles moves task task :=
  ⟨rfl, rfl, rfl, rfl, id, id, .inl⟩

theorem trans (first : Resembles moves task later) (second : Resembles moves later last) :
    Resembles moves task last := by
  refine ⟨second.ppid.trans first.ppid, second.waitpid.trans first.waitpid,
    second.status.trans first.status, second.pending.trans first.pending,
    fun dead => first.dies (second.dies dead), fun waits => first.waits (second.waits waits),
    fun dead => ?_⟩
  rcases first.rests dead with still | moved
  · exact second.rests still
  · exact .inr moved

/-- Assigning a state. -/
theorem setState (task : Task) (state : TaskState) (notDead : state ≠ .dead)
    (notWaiting : state ≠ .waiting) (moved : task.state = .dead → moves) :
    Resembles moves task { task with state := state } :=
  ⟨rfl, rfl, rfl, rfl, fun dead => absurd dead notDead,
    fun waits => absurd waits notWaiting, fun dead => .inr (moved dead)⟩

end Resembles

namespace Kernel

/-- Every task is left as it was, up to its state, and a task that gets the processor
is neither dead nor does it wait for a child.  The parameter names the tasks that may
come back from an exit. -/
structure Passes (moved : Nat → Prop) (s after : Kernel) : Prop where
  kept : ∀ pid task, s.tasks pid = some task →
    ∃ later, after.tasks pid = some later ∧ Resembles (moved pid) task later
  empty : ∀ pid, s.tasks pid = none → after.tasks pid = none
  switch : after.current = s.current ∨ ∃ task, after.tasks after.current = some task ∧
    task.state ≠ .dead ∧ task.state ≠ .waiting

namespace Passes

variable {s middle after : Kernel} {pid : Nat}

/-- The tasks are untouched. -/
theorem of_tasks (tasks : after.tasks = s.tasks) (current : after.current = s.current) :
    Passes moved s after := by
  refine ⟨fun pid task present => ⟨task, ?_, Resembles.refl task⟩, fun pid empty => ?_,
    .inl current⟩
  · rw [tasks]
    exact present
  · rw [tasks]
    exact empty

theorem refl (s : Kernel) : Passes moved s s :=
  of_tasks rfl rfl

theorem trans (first : Passes moved s middle) (second : Passes moved middle after) :
    Passes moved s after := by
  refine ⟨fun pid task present => ?kept,
    fun pid empty => second.empty pid (first.empty pid empty), ?switch⟩
  case kept =>
    obtain ⟨later, found, resembles⟩ := first.kept pid task present
    obtain ⟨last, foundLast, alsoResembles⟩ := second.kept pid later found
    exact ⟨last, foundLast, resembles.trans alsoResembles⟩
  case switch =>
    rcases second.switch with stays | switched
    · rcases first.switch with staysFirst | ⟨task, present, notDead, notWaiting⟩
      · exact .inl (stays.trans staysFirst)
      · obtain ⟨last, found, resembles⟩ := second.kept _ task present
        exact .inr ⟨last, stays ▸ found, fun dead => notDead (resembles.dies dead),
          fun waits => notWaiting (resembles.waits waits)⟩
    · exact .inr switched

theorem setWaiting (s : Kernel) (place : Place) (tasks : List Nat) :
    Passes moved s (s.setWaiting place tasks) :=
  of_tasks rfl rfl

/-- A task is changed. -/
theorem modify (s : Kernel) (pid : Nat) (change : Task → Task)
    (resembles : ∀ task, s.tasks pid = some task →
      Resembles (moved pid) task (change task)) :
    Passes moved s (s.modify pid change) := by
  refine ⟨fun other task present => ?_, fun other empty => ?_, .inl rfl⟩
  · rw [modify_tasks]
    split
    · rename_i same
      subst same
      rw [present]
      exact ⟨change task, rfl, resembles task present⟩
    · exact ⟨task, present, Resembles.refl task⟩
  · rw [modify_tasks]
    split
    · rw [empty]
      rfl
    · exact empty

/-- A task that is not in an exit, or that may come back from it, gets a state. -/
theorem setState (s : Kernel) (pid : Nat) (state : TaskState) (notDead : state ≠ .dead)
    (notWaiting : state ≠ .waiting)
    (moves : ∀ task, s.tasks pid = some task → task.state = .dead → moved pid) :
    Passes moved s (s.setState pid state) :=
  modify s pid _ fun task present =>
    Resembles.setState task state notDead notWaiting (moves task present)

/-- A change of what a task's `node` is linked into. -/
theorem relink (s : Kernel) (pid : Nat) (node : Task → Option Place) :
    Passes moved s (s.modify pid fun task => { task with node := node task }) :=
  modify s pid _ fun _ _ => ⟨rfl, rfl, rfl, rfl, id, id, .inl⟩

/-- A change of a task's time slice. -/
theorem retick (s : Kernel) (pid : Nat) (ticks : Task → Nat) :
    Passes moved s (s.modify pid fun task => { task with ticks := ticks task }) :=
  modify s pid _ fun _ _ => ⟨rfl, rfl, rfl, rfl, id, id, .inl⟩

theorem pause (s : Kernel) : Passes moved s (s.modify s.current pause) := by
  refine modify s s.current Kernel.pause fun task present => ?_
  unfold Kernel.pause
  split
  · rename_i running
    refine Resembles.setState task .ready (by decide) (by decide) fun dead => ?_
    rw [dead] at running
    cases running
  · exact Resembles.refl task

theorem schedule (scheduled : s.schedule = .ok after) : Passes moved s after := by
  rcases schedule_cases scheduled with ⟨rfl, _⟩ | ⟨apart, next, found, isReady, rfl⟩
  · exact refl after
  · have foundStill : (s.modify s.current Kernel.pause).tasks s.target = some next := by
      rw [modify_tasks, if_neg apart]
      exact found
    have switched : Passes moved s
        { s.modify s.current Kernel.pause with current := s.target } := by
      have paused : Passes moved s (s.modify s.current Kernel.pause) := pause s
      exact ⟨paused.kept, paused.empty,
        .inr ⟨next, foundStill, by simp [isReady], by simp [isReady]⟩⟩
    refine switched.trans (setState _ s.target .running (by decide) (by decide) ?_)
    intro task present dead
    change (s.modify s.current Kernel.pause).tasks s.target = some task at present
    rw [foundStill] at present
    cases present
    rw [isReady] at dead
    cases dead

/-- The current task blocks. -/
theorem block {state : TaskState} (notDead : state ≠ .dead) (notWaiting : state ≠ .waiting)
    (moves : moved s.current) (ran : s.block state = .ok after) : Passes moved s after :=
  (setState s s.current state notDead notWaiting fun _ _ _ => moves).trans (schedule ran)

theorem pushback {place : Place} (ran : s.pushback place = .ok after) :
    Passes moved s after ∧ after.current = s.current := by
  unfold Kernel.pushback at ran
  simp only [bind_eq_ok, pure_eq_ok] at ran
  obtain ⟨_, _, ran⟩ := ran
  cases ran
  exact ⟨(setWaiting s place _).trans (relink _ _ fun task =>
    if place.byNode then some place else task.node), rfl⟩

/-- The current task blocks in a list. -/
theorem waitIn {place : Place} (moves : moved s.current)
    (ran : (do (← s.pushback place).block .blocked) = .ok after) : Passes moved s after := by
  rw [bind_eq_ok] at ran
  obtain ⟨registered, pushed, ran⟩ := ran
  obtain ⟨passes, current⟩ := pushback pushed
  exact passes.trans (block (by decide) (by decide) (by rw [current]; exact moves) ran)

theorem unlist (s : Kernel) (pid : Nat) : Passes moved s (s.unlist pid) := by
  unfold Kernel.unlist
  split
  · exact refl s
  · exact (setWaiting s _ _).trans (relink _ pid fun _ => none)

/-- A task is woken. -/
theorem intrUnblock (s : Kernel) (pid : Nat)
    (moves : ∀ task, s.tasks pid = some task → task.state = .dead → moved pid) :
    Passes moved s (s.intrUnblock pid) := by
  refine (unlist s pid).trans (setState _ pid .ready (by decide) (by decide) ?_)
  intro task present dead
  unfold Kernel.unlist at present
  split at present
  · exact moves task present dead
  · rw [modify_tasks, if_pos rfl, setWaiting_tasks] at present
    obtain ⟨before, found, rfl⟩ := Option.map_eq_some_iff.mp present
    exact moves before found dead

theorem unregister (s : Kernel) (place : Place) (pid : Nat) :
    Passes moved s (s.unregister place pid) :=
  (setWaiting s _ _).trans (relink _ pid fun _ => none)

theorem taskWakeup (s : Kernel) (pid : Nat)
    (moves : ∀ task, s.tasks pid = some task → task.state = .dead → moved pid) :
    Passes moved s (s.taskWakeup pid) :=
  modify s pid _ fun task present => ⟨rfl, rfl, rfl, rfl, by simp, by simp,
    fun dead => .inr (moves task present dead)⟩

/-- Signals wake tasks that wait or sleep. -/
theorem kill (s : Kernel) (pid sig : Nat) : Passes moved s (s.kill pid sig) := by
  unfold Kernel.kill
  split
  · rename_i wakes
    refine intrUnblock s pid fun task present dead => ?_
    unfold killWakes at wakes
    simp [present, dead] at wakes
  · exact refl s

end Passes

/-- The tasks that may come back from an exit in an operation: those registered in a
place, and the current one when the operation blocks. -/
def Movable (s : Kernel) (op : Op) (pid : Nat) : Prop :=
  (∃ place, pid ∈ s.waiting place) ∨ pid = s.current ∧ op.blocks = true

/-- What an operation gives the current task to do. -/
def pushes (s : Kernel) : Op → List Op
  | .sleep _ => [.slept s.serial]
  | .lock lock => if s.held lock then [.lock lock] else []
  | .flush buffer choice =>
      if s.dirty buffer then
        match buffer.device with
        | .ramdisk _ => []
        | .ide disk ctrl => writeOps buffer disk ctrl choice
      else
        []
  | _ => []

theorem push_nil (s : Kernel) : s.push [] = s := by
  unfold push modify
  have same : (s.tasks s.current).map (fun task => { task with pending := [] ++ task.pending }) =
      s.tasks s.current := by
    cases s.tasks s.current <;> rfl
  rw [same, Function.update_eq_self]

namespace Passes

variable {s after : Kernel} {pid : Nat}

/-- An operation that gives the current task nothing to do. -/
theorem of_pushes {op : Op} (nothing : s.pushes op = []) (passes : Passes moved s after) :
    Passes moved (s.push (s.pushes op)) after := by
  rw [nothing, push_nil]
  exact passes

/-- Every operation but those about parents and children. -/
theorem exec {op : Op} (unrelated : op.isFamily = false) (ran : s.exec op = .ok after) :
    Passes (s.Movable op) (s.push (s.pushes op)) after := by
  cases op with
  | sleep ms =>
      rw [Kernel.exec] at ran
      simp only [bind_eq_ok] at ran
      obtain ⟨_, _, ran⟩ := ran
      have added : Passes (s.Movable (.sleep ms)) (s.push [.slept s.serial])
          ((s.timerAdd ms .taskWakeup).push [.slept s.serial]) := of_tasks rfl rfl
      exact added.trans (block (by decide) (by decide) (.inr ⟨rfl, rfl⟩) ran)
  | slept serial =>
      cases ran
      exact of_pushes rfl (refl s)
  | kill pid sig =>
      cases ran
      exact of_pushes rfl (kill s pid sig)
  | yield => exact of_pushes rfl (schedule ran)
  | fork => cases unrelated
  | wait pid => cases unrelated
  | lock lock =>
      rw [Kernel.exec] at ran
      rw [pushes]
      split at ran
      · rename_i isHeld
        rw [if_pos isHeld]
        exact waitIn (.inr ⟨rfl, rfl⟩) ran
      · rename_i notHeld
        cases ran
        rw [if_neg notHeld, push_nil]
        exact of_tasks rfl rfl
  | unlock lock =>
      refine of_pushes rfl ?_
      rw [Kernel.exec] at ran
      dsimp only at ran
      split at ran
      · cases ran
        exact of_tasks rfl rfl
      · rename_i pid rest queue
        have registered : pid ∈ s.waiting (.mutex lock) := by
          rw [queue]
          exact List.mem_cons_self
        have released : Passes (s.Movable (.unlock lock)) s
            { s with held := Function.update s.held lock false } := of_tasks rfl rfl
        exact ((released.trans (unregister _ _ pid)).trans
          (setState _ pid .ready (by decide) (by decide)
            fun _ _ _ => .inl ⟨_, registered⟩)).trans (schedule ran)
  | starve =>
      rw [Kernel.exec] at ran
      exact of_pushes rfl (waitIn (.inr ⟨rfl, rfl⟩) ran)
  | refill =>
      refine of_pushes rfl ?_
      rw [Kernel.exec] at ran
      split at ran
      · cases ran
        exact refl s
      · rename_i pid last
        cases ran
        exact (unregister s .buffers pid).trans (intrUnblock _ pid
          fun _ _ _ => .inl ⟨_, List.mem_of_getLast? last⟩)
  | await slot =>
      refine of_pushes rfl ?_
      rw [Kernel.exec] at ran
      split at ran
      · cases ran
        exact refl s
      · exact (setWaiting s _ _).trans
          (block (by decide) (by decide) (.inr ⟨rfl, rfl⟩) ran)
  | rouse slot =>
      refine of_pushes rfl ?_
      rw [Kernel.exec] at ran
      split at ran
      · cases ran
        exact refl s
      · rename_i pid rest queue
        cases ran
        refine (intrUnblock s pid fun _ _ _ => .inl ⟨.slot slot, ?_⟩).trans
          (setWaiting _ _ _)
        rw [queue]
        exact List.mem_cons_self
  | request disk =>
      refine of_pushes rfl ?_
      rw [Kernel.exec] at ran
      split at ran
      · cases ran
        exact of_tasks rfl rfl
      · exact waitIn (.inr ⟨rfl, rfl⟩) ran
  | complete disk choice =>
      refine of_pushes rfl ?_
      rw [Kernel.exec] at ran
      dsimp only at ran
      split at ran
      · cases ran
        exact of_tasks rfl rfl
      · rename_i pid chosen
        cases ran
        have served : Passes (s.Movable (.complete disk choice)) s
            { s with serving :=
              Function.update (Function.update s.serving disk false) disk true } :=
          of_tasks rfl rfl
        exact (served.trans (setWaiting _ _ _)).trans (intrUnblock _ pid
          fun _ _ _ => .inl ⟨_, List.mem_of_getElem? chosen⟩)
  | soil buffer =>
      cases ran
      exact of_pushes rfl (of_tasks rfl rfl)
  | clean buffer =>
      cases ran
      exact of_pushes rfl (of_tasks rfl rfl)
  | flush buffer choice =>
      cases ran
      rw [pushes]
      unfold Kernel.flush
      by_cases isDirty : s.dirty buffer = true
      · rw [if_pos isDirty, if_pos isDirty]
        cases buffer.device with
        | ramdisk number =>
            rw [push_nil]
            exact of_tasks rfl rfl
        | ide disk ctrl => exact refl _
      · rw [if_neg isDirty, if_neg isDirty, push_nil]
        exact refl s
  | beep =>
      refine of_pushes rfl ?_
      rw [Kernel.exec] at ran
      split at ran
      · cases ran
        exact refl s
      · cases ran
        exact of_tasks rfl rfl
  | enterUser => cases unrelated
  | die status => cases unrelated
  | dropTimers =>
      cases ran
      exact of_pushes rfl (of_tasks rfl rfl)
  | tellFather =>
      refine of_pushes rfl ?_
      rw [Kernel.exec] at ran
      split at ran
      · cases ran
      · cases ran
        exact refl s
  | adopt => cases unrelated

theorem rouse {slot : Slot} (roused : s.exec (.rouse slot) = .ok after) :
    Passes (s.Movable (.rouse slot)) s after := by
  have passes := exec rfl roused
  rwa [show s.pushes (.rouse slot) = [] from rfl, push_nil] at passes

theorem handle (s : Kernel) (timer : Timer)
    (moves : timer.handler = .taskWakeup → moved timer.task) : Passes moved s (s.handle timer) := by
  unfold Kernel.handle
  cases handler : timer.handler with
  | taskWakeup => exact taskWakeup s timer.task fun _ _ _ => moves handler
  | stopBeep => exact of_tasks rfl rfl

theorem timerWakeupFrom (queue : List Timer)
    (moves : ∀ timer ∈ queue, timer.handler = .taskWakeup → moved timer.task)
    (ran : s.timerWakeupFrom queue = .ok after) : Passes moved s after := by
  induction queue generalizing s with
  | nil =>
      rw [Kernel.timerWakeupFrom] at ran
      simp only [bind_eq_ok, pure_eq_ok] at ran
      obtain ⟨_, _, ran⟩ := ran
      cases ran
      exact of_tasks rfl rfl
  | cons timer rest inductionHypothesis =>
      rw [Kernel.timerWakeupFrom] at ran
      split at ran
      · refine (handle s timer (moves timer List.mem_cons_self)).trans
          (inductionHypothesis (fun other inRest => moves other ?_) ran)
        exact List.mem_cons_of_mem timer inRest
      · cases ran
        exact of_tasks rfl rfl

/-- The clock interrupt: a dead task comes back only if a timer wakes it. -/
theorem clockHandler (ran : s.clockHandler = .ok after) :
    Passes (fun pid => ∃ timer ∈ s.timers, timer.handler = .taskWakeup ∧
      timer.task = pid) s after := by
  unfold Kernel.clockHandler timerWakeup at ran
  simp only [bind_eq_ok, pure_eq_ok] at ran
  obtain ⟨woken, wakes, ran⟩ := ran
  have ticking : Passes (fun pid => ∃ timer ∈ s.timers, timer.handler = .taskWakeup ∧
      timer.task = pid) s { s with jiffies := add32 s.jiffies 1 } := of_tasks rfl rfl
  have used := (ticking.trans (timerWakeupFrom s.timers
    (fun timer queued wakesTask => ⟨timer, queued, wakesTask, rfl⟩) wakes)).trans
    (retick woken woken.current fun task => sub32 task.ticks 1)
  split at ran
  · exact (used.trans (retick _ _ fun task => task.priority)).trans (schedule ran)
  · cases ran
    exact used

end Passes

end Kernel
end Sched
end LightOS
