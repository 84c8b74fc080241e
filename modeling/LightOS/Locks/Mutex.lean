import LightOS.Foundation.Threads
import LightOS.Foundation.Transition
import LightOS.Foundation.Words
import LightOS.Kernel.Fault
import Mathlib.Data.List.Nodup

/-!
# The mutex

Tasks that call `mutex_lock` and `mutex_unlock` in pairs on one mutex of `mutex.c`.
The compare-exchange, the decrement and the bodies of `task_block` and
`task_unblock`, which run with interrupts disabled, are the atomic steps; a task
may be preempted between any two of them.
-/

namespace LightOS
namespace Locks
namespace Mutex

/-- Program points of a task. -/
inductive Point
  /-- Outside, without the mutex. -/
  | outside
  /-- In `mutex_lock`, in front of the compare-exchange. -/
  | trying
  /-- Behind a failed compare-exchange, in front of the body of `task_block`. -/
  | refused
  /-- Blocked in `task_block`. -/
  | blocked
  /-- Behind the successful compare-exchange. -/
  | holding
  /-- In `mutex_unlock`, behind the decrement, in front of the body of
  `task_unblock`. -/
  | releasing
  deriving DecidableEq, Repr

/-- The structure `mutex_t`, with the points that the tasks have reached. -/
structure State (Task : Type) where
  value : Nat
  waiters : List Task
  point : Task → Point

variable {Task : Type} [DecidableEq Task]

namespace State

/-- A task reaches a program point. -/
def goto (s : State Task) (task : Task) (point : Point) : State Task :=
  { s with point := Function.update s.point task point }

@[simp] theorem goto_waiters (s : State Task) (task : Task) (point : Point) :
    (s.goto task point).waiters = s.waiters := rfl

theorem goto_point (s : State Task) (task other : Task) (point : Point) :
    (s.goto task point).point other = if other = task then point else s.point other := by
  unfold goto
  by_cases same : other = task
  · subst same
    simp
  · simp [same]

/-- `lock cmpxchg` of the value, expecting 0. -/
def compareExchange (s : State Task) (task : Task) : State Task :=
  if s.value = 0 then
    { s with value := 1 }.goto task .holding
  else
    s.goto task .refused

/-- The body of `task_block`: `list_pushback`, and the task is blocked. -/
def taskBlock (s : State Task) (task : Task) : Except Fault (State Task) := do
  check (task ∉ s.waiters)
  return { s with waiters := s.waiters ++ [task] }.goto task .blocked

/-- `lock dec` of the value. -/
def decrement (s : State Task) (task : Task) : State Task :=
  { s with value := sub32 s.value 1 }.goto task .releasing

/-- The body of `task_unblock`: the first waiter is taken off the list and becomes
ready, so that it goes on to the next round of the loop of `mutex_lock`. -/
def taskUnblock (s : State Task) (task : Task) : State Task :=
  match s.waiters with
  | [] => s.goto task .outside
  | first :: rest => ({ s with waiters := rest }.goto first .trying).goto task .outside

/-- The next atomic step of a task.  A blocked task takes none. -/
def step (s : State Task) (task : Task) : Except Fault (State Task) :=
  match s.point task with
  | .outside => .ok (s.goto task .trying)
  | .trying => .ok (s.compareExchange task)
  | .refused => s.taskBlock task
  | .blocked => .error .blocked
  | .holding => .ok (s.decrement task)
  | .releasing => .ok (s.taskUnblock task)

end State

/-- `mutex_init`, with every task outside. -/
def init : State Task where
  value := 0
  waiters := []
  point := fun _ => .outside

/-- The interleavings of the steps of the tasks. -/
def system (Task : Type) [DecidableEq Task] : System (State Task) Task where
  initial := fun s => s = init
  step := fun before task after => before.step task = .ok after

namespace State

variable {s after : State Task} {task : Task}

/-- A task is behind the successful compare-exchange. -/
def Holds (s : State Task) (task : Task) : Prop :=
  s.point task = .holding

/-- The value guards the tasks that hold the mutex, and the list has the blocked
tasks. -/
structure Ordered (s : State Task) : Prop where
  guards : Threads.Guards s.value s.Holds
  queued : ∀ task, task ∈ s.waiters ↔ s.point task = .blocked
  nodup : s.waiters.Nodup

/-- Moving a task between points that are neither blocked nor holding. -/
theorem Ordered.goto (ordered : s.Ordered) {point : Point}
    (before : s.point task ≠ .holding ∧ s.point task ≠ .blocked)
    (notHolding : point ≠ .holding) (notBlocked : point ≠ .blocked) :
    (s.goto task point).Ordered := by
  refine ⟨ordered.guards.congr fun other => ?guards, fun other => ?queued, ordered.nodup⟩
  case guards =>
    unfold Holds
    rw [goto_point]
    split
    · rename_i same
      simp [same, before.1, notHolding]
    · exact Iff.rfl
  case queued =>
    rw [goto_waiters, ordered.queued, goto_point]
    split
    · rename_i same
      simp [same, before.2, notBlocked]
    · exact Iff.rfl

theorem Ordered.compareExchange (ordered : s.Ordered) (tries : s.point task = .trying) :
    (s.compareExchange task).Ordered := by
  unfold State.compareExchange
  split
  · rename_i isFree
    refine ⟨ordered.guards.enter task isFree fun other => ?guards,
      fun other => ?queued, ordered.nodup⟩
    case guards =>
      unfold Holds
      rw [goto_point]
      by_cases same : other = task <;> simp [same]
    case queued =>
      rw [goto_waiters, goto_point]
      change other ∈ s.waiters ↔ _
      rw [ordered.queued]
      by_cases same : other = task <;> simp [same, tries]
  · exact ordered.goto (by simp [tries]) (by simp) (by simp)

theorem Ordered.taskBlock (ordered : s.Ordered) (isRefused : s.point task = .refused)
    (ran : s.taskBlock task = .ok after) : after.Ordered := by
  unfold State.taskBlock at ran
  simp only [bind_eq_ok, check_eq_ok, pure_eq_ok] at ran
  obtain ⟨_, unqueued, ran⟩ := ran
  cases ran
  refine ⟨ordered.guards.congr fun other => ?guards, fun other => ?queued, ?nodup⟩
  case guards =>
    unfold Holds
    rw [goto_point]
    by_cases same : other = task <;> simp [same, isRefused]
  case queued =>
    rw [goto_waiters, goto_point]
    change other ∈ s.waiters ++ [task] ↔ _
    rw [List.mem_append, List.mem_singleton, ordered.queued]
    by_cases same : other = task <;> simp [same]
  case nodup =>
    refine List.nodup_append.mpr ⟨ordered.nodup, List.nodup_singleton task, ?_⟩
    rintro other before last isLast rfl
    rw [List.mem_singleton.mp isLast] at before
    exact unqueued before

theorem Ordered.decrement (ordered : s.Ordered) (holds : s.point task = .holding) :
    (s.decrement task).Ordered := by
  have isTaken : s.value = 1 := ordered.guards.taken task holds
  unfold State.decrement
  rw [isTaken]
  refine ⟨ordered.guards.leave task holds fun other => ?guards,
    fun other => ?queued, ordered.nodup⟩
  case guards =>
    unfold Holds
    rw [goto_point]
    by_cases same : other = task <;> simp [same]
  case queued =>
    rw [goto_waiters, goto_point]
    change other ∈ s.waiters ↔ _
    rw [ordered.queued]
    by_cases same : other = task <;> simp [same, holds]

theorem Ordered.taskUnblock (ordered : s.Ordered) (releases : s.point task = .releasing) :
    (s.taskUnblock task).Ordered := by
  unfold State.taskUnblock
  split
  · exact ordered.goto (by simp [releases]) (by simp) (by simp)
  · rename_i first rest queue
    have isBlocked : s.point first = .blocked :=
      (ordered.queued first).mp (by rw [queue]; exact List.mem_cons_self)
    have nodup := ordered.nodup
    rw [queue, List.nodup_cons] at nodup
    have woken : ({ s with waiters := rest }.goto first .trying).Ordered := by
      refine ⟨ordered.guards.congr fun other => ?guards, fun other => ?queued, nodup.2⟩
      case guards =>
        unfold Holds
        rw [goto_point]
        by_cases same : other = first <;> simp [same, isBlocked]
      case queued =>
        rw [goto_waiters, goto_point]
        change other ∈ rest ↔ _
        have member := ordered.queued other
        rw [queue, List.mem_cons] at member
        by_cases same : other = first
        · simp [same, nodup.1]
        · simp [same, ← member]
    have apart : task ≠ first := by
      rintro rfl
      rw [releases] at isBlocked
      cases isBlocked
    refine woken.goto ?_ (by simp) (by simp)
    rw [goto_point, if_neg apart]
    simp [releases]

/-- A step keeps the order. -/
theorem Ordered.step (ordered : s.Ordered) (taken : s.step task = .ok after) :
    after.Ordered := by
  unfold State.step at taken
  cases point : s.point task with
  | outside =>
      rw [point] at taken
      cases taken
      exact ordered.goto (by simp [point]) (by simp) (by simp)
  | trying =>
      rw [point] at taken
      cases taken
      exact ordered.compareExchange point
  | refused =>
      rw [point] at taken
      exact ordered.taskBlock point taken
  | blocked =>
      rw [point] at taken
      cases taken
  | holding =>
      rw [point] at taken
      cases taken
      exact ordered.decrement point
  | releasing =>
      rw [point] at taken
      cases taken
      exact ordered.taskUnblock point

/-- Only a blocked task has no step: the assertion of `list_pushback` holds. -/
theorem Ordered.step_ok (ordered : s.Ordered) (runs : s.point task ≠ .blocked) :
    ∃ after, s.step task = .ok after := by
  unfold State.step
  cases point : s.point task with
  | refused =>
      have unqueued : task ∉ s.waiters := by
        intro queued
        rw [ordered.queued, point] at queued
        cases queued
      unfold State.taskBlock
      rw [check_true unqueued]
      exact ⟨_, rfl⟩
  | blocked => exact absurd point runs
  | outside => exact ⟨_, rfl⟩
  | trying => exact ⟨_, rfl⟩
  | holding => exact ⟨_, rfl⟩
  | releasing => exact ⟨_, rfl⟩

omit [DecidableEq Task] in
theorem Ordered.init : (Mutex.init : State Task).Ordered := by
  refine ⟨⟨?single, ?taken, fun _ => rfl⟩, fun task => ?queued, List.nodup_nil⟩
  case single => rintro first second ⟨⟩
  case taken => rintro thread ⟨⟩
  case queued => simp [Mutex.init]

/-! ## Exclusion -/

/-- At most one task holds the mutex, the value tells whether one does, and the list
has no task twice and none that holds the mutex. -/
structure Exclusive (s : State Task) : Prop where
  single : ∀ first second, s.Holds first → s.Holds second → first = second
  taken : (∃ task, s.Holds task) → s.value = 1
  free : (¬∃ task, s.Holds task) → s.value = 0
  nodup : s.waiters.Nodup
  apart : ∀ task ∈ s.waiters, ¬s.Holds task

omit [DecidableEq Task] in
theorem Ordered.exclusive (ordered : s.Ordered) : s.Exclusive := by
  refine ⟨ordered.guards.single, ?taken, ?free, ordered.nodup, ?apart⟩
  case taken =>
    rintro ⟨task, holds⟩
    exact ordered.guards.taken task holds
  case free =>
    intro nobody
    exact ordered.guards.free fun task holds => nobody ⟨task, holds⟩
  case apart =>
    intro task queued holds
    have isBlocked := (ordered.queued task).mp queued
    rw [show s.point task = .holding from holds] at isBlocked
    cases isBlocked

end State

theorem ordered_of_reachable {s : State Task} (reached : (system Task).Reachable s) :
    s.Ordered :=
  reached.invariant State.Ordered (by rintro s rfl; exact State.Ordered.init)
    fun _ _ _ ordered _ taken => ordered.step taken

/-- In every interleaving the mutex excludes. -/
theorem mutexExclusive_of_reachable (s : State Task) (reached : (system Task).Reachable s) :
    s.Exclusive :=
  (ordered_of_reachable reached).exclusive

/-- One task holds the mutex while another one waits for it. -/
theorem mutexExclusive_of_reachable_contended :
    ∃ s : State (Fin 2), (system (Fin 2)).Reachable s ∧ s.waiters = [1] ∧ s.Exclusive := by
  obtain ⟨final, reached, waits⟩ := System.ReachableWithin.extend_run (system (Fin 2))
    (fun _ _ => True) State.step (fun _ _ _ taken => ⟨trivial, taken⟩)
    [0, 0, 1, 1, 1] (fun final => decide (final.waiters = [1])) (.initial rfl) (by decide)
  exact ⟨final, reached, of_decide_eq_true waits, mutexExclusive_of_reachable final reached⟩

/-! ## Wakeups -/

namespace State

variable {s after : State Task} {task : Task}

/-- A task is in the middle of `mutex_lock` or `mutex_unlock`, and not blocked. -/
def Busy (s : State Task) (task : Task) : Prop :=
  s.point task = .trying ∨ s.point task = .refused ∨ s.point task = .releasing

/-- No task waits for a mutex that nobody holds, unless a task is still in the middle
of `mutex_lock` or `mutex_unlock`. -/
def NoLostWakeup (s : State Task) : Prop :=
  ¬(s.value = 0 ∧ s.waiters ≠ [] ∧ ∀ task, ¬s.Busy task)

/-- A task that is about to block still finds the mutex held, or another task in the
middle of `mutex_lock` or `mutex_unlock`. -/
def BlocksHeld (s : State Task) (task : Task) : Prop :=
  s.point task = .refused → s.value ≠ 0 ∨ ∃ other, other ≠ task ∧ s.Busy other

theorem busy_goto {point : Point} :
    (s.goto task point).Busy task ↔ point = .trying ∨ point = .refused ∨ point = .releasing := by
  unfold Busy
  rw [goto_point, if_pos rfl]

theorem busy_goto_other {other : Task} (apart : other ≠ task) {point : Point} :
    (s.goto task point).Busy other ↔ s.Busy other := by
  unfold Busy
  rw [goto_point, if_neg apart]

omit [DecidableEq Task] in
theorem NoLostWakeup.of_busy (busy : s.Busy task) : s.NoLostWakeup :=
  fun lost => lost.2.2 task busy

/-- A step that meets the condition loses no wakeup. -/
theorem Ordered.noLostWakeup (ordered : s.Ordered) (held : s.BlocksHeld task)
    (taken : s.step task = .ok after) : after.NoLostWakeup := by
  unfold State.step at taken
  cases point : s.point task with
  | outside =>
      rw [point] at taken
      cases taken
      exact .of_busy (busy_goto.mpr (by simp))
  | trying =>
      rw [point] at taken
      cases taken
      unfold State.compareExchange
      split
      · rintro ⟨isFree, _⟩
        cases isFree
      · exact .of_busy (busy_goto.mpr (by simp))
  | refused =>
      rw [point] at taken
      simp only [State.taskBlock, bind_eq_ok, pure_eq_ok] at taken
      obtain ⟨_, _, taken⟩ := taken
      cases taken
      rcases held point with isHeld | ⟨other, apart, busy⟩
      · exact fun lost => isHeld lost.1
      · exact .of_busy ((busy_goto_other apart).mpr busy)
  | blocked =>
      rw [point] at taken
      cases taken
  | holding =>
      rw [point] at taken
      cases taken
      exact .of_busy (busy_goto.mpr (by simp))
  | releasing =>
      rw [point] at taken
      cases taken
      unfold State.taskUnblock
      split
      · rename_i nobody
        exact fun lost => lost.2.1 nobody
      · rename_i first rest queue
        have isBlocked : s.point first = .blocked :=
          (ordered.queued first).mp (by rw [queue]; exact List.mem_cons_self)
        have apart : first ≠ task := by
          rintro rfl
          rw [point] at isBlocked
          cases isBlocked
        exact .of_busy ((busy_goto_other apart).mpr (busy_goto.mpr (by simp)))

/-- A task that blocks with the mutex free and all others outside or blocked is
left behind. -/
theorem lost_of_not_blocksHeld (notHeld : ¬s.BlocksHeld task)
    (taken : s.step task = .ok after) : ¬after.NoLostWakeup := by
  unfold BlocksHeld at notHeld
  simp only [Classical.not_imp, not_or, not_not, not_exists, not_and] at notHeld
  obtain ⟨point, isFree, alone⟩ := notHeld
  rw [State.step, point] at taken
  simp only [State.taskBlock, bind_eq_ok, pure_eq_ok] at taken
  obtain ⟨_, _, taken⟩ := taken
  cases taken
  intro kept
  refine kept ⟨isFree, by simp, fun other busy => ?_⟩
  by_cases same : other = task
  · subst same
    have impossible := busy_goto.mp busy
    simp at impossible
  · exact alone other same ((busy_goto_other same).mp busy)

end State

/-- A run loses no wakeup exactly when a task blocks only while the mutex is held or
another task is in the middle of `mutex_lock` or `mutex_unlock`. -/
theorem noLostWakeup_iff_blocksHeld {final : State Task}
    {trace : List (State Task × Task)} (path : (system Task).Path init trace final) :
    System.Visits State.NoLostWakeup trace final ↔
      System.Obeys State.BlocksHeld trace :=
  path.visits_iff_obeys (fun s => s.Ordered ∧ s.NoLostWakeup)
    ⟨State.Ordered.init, fun lost => lost.2.1 rfl⟩
    (fun _ _ _ invariant held taken =>
      ⟨invariant.1.step taken, invariant.1.noLostWakeup held taken⟩)
    (fun _ invariant => invariant.2)
    fun _ _ _ _ notHeld taken => State.lost_of_not_blocksHeld notHeld taken

/-- A task is preempted behind its failed compare-exchange, the mutex is unlocked,
and the task blocks. -/
def preemptedRefusal : List (Fin 2) :=
  [0, 0, 1, 1, 0, 0, 1]

/-- A wakeup can be lost. -/
theorem noLostWakeup_fails :
    ¬∀ (taskCount : Nat) (final : State (Fin taskCount)),
      (system (Fin taskCount)).Reachable final → final.NoLostWakeup := by
  intro always
  obtain ⟨final, reached, lost⟩ := System.ReachableWithin.extend_run (system (Fin 2))
    (fun _ _ => True) State.step (fun _ _ _ taken => ⟨trivial, taken⟩)
    preemptedRefusal
    (fun final => decide (final.value = 0 ∧ final.waiters ≠ [] ∧
      ∀ task, final.point task ≠ .trying ∧ final.point task ≠ .refused ∧
        final.point task ≠ .releasing)) (.initial rfl) (by decide)
  obtain ⟨isFree, waits, idle⟩ := of_decide_eq_true lost
  refine always 2 final reached ⟨isFree, waits, fun task busy => ?_⟩
  obtain ⟨notTrying, notRefused, notReleasing⟩ := idle task
  rcases busy with trying | refused | releasing
  · exact notTrying trying
  · exact notRefused refused
  · exact notReleasing releasing

/-- A run in which a task blocks while the mutex is held. -/
theorem noLostWakeup_iff_blocksHeld_contended :
    ∃ (final : State (Fin 2)) (trace : List (State (Fin 2) × Fin 2)),
      (system (Fin 2)).Path init trace final ∧ final.waiters = [1] ∧
        (System.Visits State.NoLostWakeup trace final ↔
          System.Obeys State.BlocksHeld trace) := by
  obtain ⟨trace, final, path, waits⟩ := System.Path.of_run (system (Fin 2)) State.step
    (fun _ _ _ taken => taken) init [0, 0, 1, 1, 1]
    (fun final => decide (final.waiters = [1])) (by decide)
  exact ⟨final, trace, path, of_decide_eq_true waits, noLostWakeup_iff_blocksHeld path⟩

end Mutex
end Locks
end LightOS
