import LightOS.Sched.Calls
import Mathlib.Data.List.Nodup

/-!
# Order among waiting tasks

A task that is registered in a place is blocked, and registered nowhere else; the
timer of a sleeping task is that of the sleep it is in.  A task that is in no
place and has no such timer may change its state freely, and the other
operations take a task out of a place before they wake it.
-/

namespace LightOS
namespace Sched
namespace Kernel

/-- The task of a timer sleeps in the call of `sys_sleep` that added the timer. -/
def Armed (s : Kernel) (timer : Timer) : Prop :=
  ∃ task, s.tasks timer.task = some task ∧ task.state = .sleeping ∧
    task.pending.head? = some (.slept timer.serial)

/-- The places and the timers fit the tasks. -/
structure Orderly (s : Kernel) : Prop where
  blocked : ∀ place pid, pid ∈ s.waiting place →
    ∃ task, s.tasks pid = some task ∧ task.state = .blocked
  single : ∀ place other pid, pid ∈ s.waiting place → pid ∈ s.waiting other →
    place = other
  nodup : ∀ place, (s.waiting place).Nodup
  node : ∀ pid task place, s.tasks pid = some task → task.node = some place →
    place.byNode = true ∧ pid ∈ s.waiting place
  armed : ∀ timer ∈ s.timers, timer.handler = .taskWakeup → s.Armed timer
  serials : ∀ timer ∈ s.timers, timer.serial < s.serial
  distinct : (s.timers.map Timer.serial).Nodup

/-- A task is registered in no place and no timer will wake it. -/
structure Free (s : Kernel) (pid : Nat) : Prop where
  unregistered : ∀ place, pid ∉ s.waiting place
  untimed : ∀ timer ∈ s.timers, timer.handler = .taskWakeup → timer.task ≠ pid

variable {s after : Kernel} {pid : Nat} {task : Task}

namespace Orderly

theorem free (orderly : s.Orderly) (present : s.tasks pid = some task)
    (notBlocked : task.state ≠ .blocked) (awake : task.state ≠ .sleeping) :
    s.Free pid := by
  refine ⟨?unregistered, ?untimed⟩
  case unregistered =>
    intro place registered
    obtain ⟨other, found, blocked⟩ := orderly.blocked place pid registered
    rw [present] at found
    cases found
    exact notBlocked blocked
  case untimed =>
    intro timer queued wakes same
    obtain ⟨other, found, sleeping, _⟩ := orderly.armed timer queued wakes
    rw [same, present] at found
    cases found
    exact awake sleeping

theorem node_none (orderly : s.Orderly) (present : s.tasks pid = some task)
    (unregistered : ∀ place, pid ∉ s.waiting place) : task.node = none := by
  cases linked : task.node with
  | none => rfl
  | some place =>
      exact absurd (orderly.node pid task place present linked).2 (unregistered place)

/-- The order depends on the tasks, the places and the timers alone. -/
theorem congr (orderly : s.Orderly) (tasks : after.tasks = s.tasks)
    (waiting : after.waiting = s.waiting) (timers : after.timers = s.timers)
    (serial : after.serial = s.serial) : after.Orderly := by
  cases s
  cases after
  subst tasks waiting timers serial
  exact ⟨orderly.blocked, orderly.single, orderly.nodup, orderly.node, orderly.armed,
    orderly.serials, orderly.distinct⟩

/-- A free task may change in any way. -/
theorem modify (orderly : s.Orderly) (free : s.Free pid) {change : Task → Task}
    (node : ∀ task, (change task).node = task.node) : (s.modify pid change).Orderly := by
  have others (other : Nat) (apart : other ≠ pid) :
      (s.modify pid change).tasks other = s.tasks other := by
    rw [modify_tasks, if_neg apart]
  refine ⟨?blocked, orderly.single, orderly.nodup, ?node, ?armed, orderly.serials,
    orderly.distinct⟩
  case blocked =>
    intro place other registered
    have apart : other ≠ pid := fun same => free.unregistered place (same ▸ registered)
    rw [others other apart]
    exact orderly.blocked place other registered
  case node =>
    intro other task place present linked
    rw [modify_tasks] at present
    split at present
    · obtain ⟨before, found, rfl⟩ := Option.map_eq_some_iff.mp present
      rw [node] at linked
      exact orderly.node other before place found linked
    · exact orderly.node other task place present linked
  case armed =>
    intro timer queued wakes
    have apart := free.untimed timer queued wakes
    unfold Armed
    rw [others timer.task apart]
    exact orderly.armed timer queued wakes

/-- A change that leaves the order of a task as it is. -/
theorem modify_keeps (orderly : s.Orderly) {change : Task → Task}
    (node : ∀ task, (change task).node = task.node)
    (state : ∀ task, (change task).state = task.state)
    (pending : ∀ task, (change task).pending = task.pending) :
    (s.modify pid change).Orderly := by
  have kept (other : Nat) {task : Task} (present : s.tasks other = some task) :
      ∃ later, (s.modify pid change).tasks other = some later ∧
        later.state = task.state ∧ later.pending = task.pending := by
    rw [modify_tasks]
    split
    · rw [present]
      exact ⟨change task, rfl, state task, pending task⟩
    · exact ⟨task, present, rfl, rfl⟩
  refine ⟨?blocked, orderly.single, orderly.nodup, ?node, ?armed, orderly.serials,
    orderly.distinct⟩
  case blocked =>
    intro place other registered
    obtain ⟨task, present, blocked⟩ := orderly.blocked place other registered
    obtain ⟨later, found, same, _⟩ := kept other present
    exact ⟨later, found, same.trans blocked⟩
  case node =>
    intro other task place present linked
    rw [modify_tasks] at present
    split at present
    · obtain ⟨before, found, rfl⟩ := Option.map_eq_some_iff.mp present
      rw [node] at linked
      exact orderly.node other before place found linked
    · exact orderly.node other task place present linked
  case armed =>
    intro timer queued wakes
    obtain ⟨task, present, sleeping, inside⟩ := orderly.armed timer queued wakes
    obtain ⟨later, found, same, rest⟩ := kept timer.task present
    exact ⟨later, found, same.trans sleeping, by rw [rest]; exact inside⟩

/-- Taking a task out of the place that it is registered in makes it free. -/
theorem unregister (orderly : s.Orderly) {place : Place}
    (registered : pid ∈ s.waiting place) :
    (s.unregister place pid).Orderly ∧ (s.unregister place pid).Free pid := by
  have remains (other : Nat) (otherPlace : Place)
      (still : other ∈ (s.unregister place pid).waiting otherPlace) :
      other ∈ s.waiting otherPlace ∧ other ≠ pid := by
    unfold Kernel.unregister at still
    rw [modify_waiting, setWaiting_waiting] at still
    split at still
    · rename_i same
      subst same
      have mem := (orderly.nodup otherPlace).mem_erase_iff.mp still
      exact ⟨mem.2, mem.1⟩
    · rename_i different
      exact ⟨still, fun same =>
        different (orderly.single otherPlace place pid (same ▸ still) registered)⟩
  have others (other : Nat) (apart : other ≠ pid) :
      (s.unregister place pid).tasks other = s.tasks other := by
    unfold Kernel.unregister
    rw [modify_tasks, if_neg apart, setWaiting_tasks]
  obtain ⟨task, present, blocked⟩ := orderly.blocked place pid registered
  have untimed (timer : Timer) (queued : timer ∈ s.timers)
      (wakes : timer.handler = .taskWakeup) : timer.task ≠ pid := by
    intro same
    obtain ⟨sleeper, found, sleeping, _⟩ := orderly.armed timer queued wakes
    rw [same, present] at found
    cases found
    rw [blocked] at sleeping
    cases sleeping
  refine ⟨⟨?blocked, ?single, ?nodup, ?node, ?armed, orderly.serials,
    orderly.distinct⟩, fun otherPlace still => (remains pid otherPlace still).2 rfl,
    untimed⟩
  case blocked =>
    intro otherPlace other still
    obtain ⟨before, apart⟩ := remains other otherPlace still
    rw [others other apart]
    exact orderly.blocked otherPlace other before
  case single =>
    intro first second other inFirst inSecond
    exact orderly.single first second other (remains other first inFirst).1
      (remains other second inSecond).1
  case nodup =>
    intro otherPlace
    unfold Kernel.unregister
    rw [modify_waiting, setWaiting_waiting]
    split
    · exact (orderly.nodup place).erase pid
    · exact orderly.nodup otherPlace
  case node =>
    intro other later otherPlace found linked
    by_cases same : other = pid
    · subst same
      unfold Kernel.unregister at found
      rw [modify_tasks, if_pos rfl, setWaiting_tasks, present] at found
      cases found
      cases linked
    · rw [others other same] at found
      obtain ⟨byNode, before⟩ := orderly.node other later otherPlace found linked
      refine ⟨byNode, ?_⟩
      unfold Kernel.unregister
      rw [modify_waiting, setWaiting_waiting]
      split
      · rename_i isPlace
        subst isPlace
        exact (orderly.nodup otherPlace).mem_erase_iff.mpr ⟨same, before⟩
      · exact before
  case armed =>
    intro timer queued wakes
    unfold Armed
    rw [others timer.task (untimed timer queued wakes)]
    exact orderly.armed timer queued wakes

/-- No pointer is left to a task. -/
theorem clear (orderly : s.Orderly) (slot : Slot) :
    (s.setWaiting (.slot slot) []).Orderly := by
  have remains (other : Nat) (place : Place)
      (still : other ∈ (s.setWaiting (.slot slot) []).waiting place) :
      other ∈ s.waiting place := by
    rw [setWaiting_waiting] at still
    split at still
    · cases still
    · exact still
  refine ⟨fun place other still => orderly.blocked place other (remains other place still),
    ?single, ?nodup, ?node, orderly.armed, orderly.serials, orderly.distinct⟩
  case single =>
    intro first second other inFirst inSecond
    exact orderly.single first second other (remains other first inFirst)
      (remains other second inSecond)
  case nodup =>
    intro place
    rw [setWaiting_waiting]
    split
    · exact List.nodup_nil
    · exact orderly.nodup place
  case node =>
    intro other task place present linked
    obtain ⟨byNode, before⟩ := orderly.node other task place present linked
    refine ⟨byNode, ?_⟩
    rw [setWaiting_waiting, if_neg]
    · exact before
    · rintro rfl
      cases byNode

theorem free_clear (free : s.Free pid) (slot : Slot) :
    (s.setWaiting (.slot slot) []).Free pid := by
  refine ⟨fun place still => ?_, free.untimed⟩
  rw [setWaiting_waiting] at still
  split at still
  · cases still
  · exact free.unregistered place still

/-- The task that a pointer was left to is free without the pointer. -/
theorem free_of_slot (orderly : s.Orderly) {slot : Slot}
    (registered : pid ∈ s.waiting (.slot slot)) :
    (s.setWaiting (.slot slot) []).Free pid := by
  refine ⟨fun place still => ?_, (orderly.unregister registered).2.untimed⟩
  rw [setWaiting_waiting] at still
  split at still
  · cases still
  · rename_i different
    exact different (orderly.single place _ pid still registered)

/-- A free task that blocks is registered where it waits. -/
theorem register (orderly : s.Orderly) (free : s.Free pid)
    (present : (s.tasks pid).isSome) (place : Place) (change : Task → Task)
    (state : ∀ task, (change task).state = .blocked)
    (node : ∀ task, (change task).node =
      if place.byNode then some place else task.node) :
    ((s.setWaiting place (s.waiting place ++ [pid])).modify pid change).Orderly := by
  have registered (other : Nat) (otherPlace : Place) :
      other ∈ ((s.setWaiting place (s.waiting place ++ [pid])).modify pid
          change).waiting otherPlace ↔
        other ∈ s.waiting otherPlace ∨ other = pid ∧ otherPlace = place := by
    rw [modify_waiting, setWaiting_waiting]
    by_cases same : otherPlace = place
    · subst same
      simp
    · simp [same]
  have others (other : Nat) (apart : other ≠ pid) :
      ((s.setWaiting place (s.waiting place ++ [pid])).modify pid change).tasks other =
        s.tasks other := by
    rw [modify_tasks, if_neg apart, setWaiting_tasks]
  obtain ⟨task, found⟩ := Option.isSome_iff_exists.mp present
  have self : ((s.setWaiting place (s.waiting place ++ [pid])).modify pid
      change).tasks pid = some (change task) := by
    rw [modify_tasks, if_pos rfl, setWaiting_tasks, found]
    rfl
  refine ⟨?blocked, ?single, ?nodup, ?node, ?armed, orderly.serials, orderly.distinct⟩
  case blocked =>
    intro otherPlace other mem
    rcases (registered other otherPlace).mp mem with before | ⟨rfl, _⟩
    · have apart : other ≠ pid := fun same =>
        free.unregistered otherPlace (same ▸ before)
      rw [others other apart]
      exact orderly.blocked otherPlace other before
    · exact ⟨_, self, state task⟩
  case single =>
    intro first second other inFirst inSecond
    rcases (registered other first).mp inFirst with before | ⟨rfl, rfl⟩
    · rcases (registered other second).mp inSecond with alsoBefore | ⟨rfl, _⟩
      · exact orderly.single first second other before alsoBefore
      · exact absurd before (free.unregistered first)
    · rcases (registered other second).mp inSecond with before | ⟨_, rfl⟩
      · exact absurd before (free.unregistered second)
      · rfl
  case nodup =>
    intro otherPlace
    rw [modify_waiting, setWaiting_waiting]
    split
    · refine List.nodup_append.mpr ⟨orderly.nodup place, List.nodup_singleton pid, ?_⟩
      intro other before last isLast
      rw [List.mem_singleton.mp isLast]
      rintro rfl
      exact free.unregistered place before
    · exact orderly.nodup otherPlace
  case node =>
    intro other later otherPlace later_present linked
    by_cases same : other = pid
    · subst same
      rw [self] at later_present
      cases later_present
      rw [node, orderly.node_none found free.unregistered] at linked
      split at linked
      · rename_i byNode
        cases linked
        exact ⟨byNode, (registered other place).mpr (.inr ⟨rfl, rfl⟩)⟩
      · cases linked
    · rw [others other same] at later_present
      obtain ⟨byNode, before⟩ := orderly.node other later otherPlace later_present linked
      exact ⟨byNode, (registered other otherPlace).mpr (.inl before)⟩
  case armed =>
    intro timer queued wakes
    unfold Armed
    rw [others timer.task (free.untimed timer queued wakes)]
    exact orderly.armed timer queued wakes

/-- Leaving a pointer to a free task that blocks. -/
theorem await (orderly : s.Orderly) (free : s.Free pid)
    (present : (s.tasks pid).isSome) (slot : Slot) (change : Task → Task)
    (state : ∀ task, (change task).state = .blocked)
    (node : ∀ task, (change task).node = task.node) :
    ((s.setWaiting (.slot slot) [pid]).modify pid change).Orderly := by
  have registered := (orderly.clear slot).register (free_clear free slot) present
    (.slot slot) change state (by simpa [Place.byNode] using node)
  rw [setWaiting_waiting, if_pos rfl] at registered
  have same : (s.setWaiting (.slot slot) []).setWaiting (.slot slot) ([] ++ [pid]) =
      s.setWaiting (.slot slot) [pid] := by
    simp [setWaiting]
  rw [same] at registered
  exact registered

/-! ## Timers -/

theorem timers_sublist (orderly : s.Orderly) {timers : List Timer}
    (fewer : timers.Sublist s.timers) : { s with timers := timers }.Orderly :=
  ⟨orderly.blocked, orderly.single, orderly.nodup, orderly.node,
    fun timer queued wakes => orderly.armed timer (fewer.mem queued) wakes,
    fun timer queued => orderly.serials timer (fewer.mem queued),
    orderly.distinct.sublist (fewer.map Timer.serial)⟩

theorem insertTimer_perm (timer : Timer) (timers : List Timer) :
    (insertTimer timer timers).Perm (timer :: timers) := by
  induction timers with
  | nil => exact List.Perm.refl _
  | cons head rest inductionHypothesis =>
      rw [insertTimer]
      split
      · exact List.Perm.refl _
      · exact (inductionHypothesis.cons head).trans (List.Perm.swap timer head rest)

/-- Adding a timer for a task whose sleep is armed with it, or one that wakes no
task. -/
theorem timerAdd (orderly : s.Orderly) (ms : Nat) (handler : Handler)
    (change : Task → Task) (node : ∀ task, (change task).node = task.node)
    (free : s.Free s.current)
    (armed : handler = .taskWakeup → ∃ task, s.tasks s.current = some task ∧
      (change task).state = .sleeping ∧
      (change task).pending.head? = some (.slept s.serial)) :
    ((s.timerAdd ms handler).modify s.current change).Orderly := by
  have members (timer : Timer) (queued : timer ∈ (s.timerAdd ms handler).timers) :
      timer = ⟨s.serial, s.current, add32 s.jiffies (ms / jiffy), handler⟩ ∨
        timer ∈ s.timers :=
    List.mem_cons.mp ((insertTimer_perm _ _).mem_iff.mp queued)
  have changed := orderly.modify free node
  refine ⟨changed.blocked, orderly.single, orderly.nodup, changed.node, ?armed, ?serials,
    ?distinct⟩
  case armed =>
    intro timer queued wakes
    rcases members timer queued with rfl | before
    · obtain ⟨task, present, sleeping, inside⟩ := armed wakes
      refine ⟨change task, ?_, sleeping, inside⟩
      rw [modify_tasks, if_pos rfl]
      exact congrArg (Option.map change) present
    · exact changed.armed timer before wakes
  case serials =>
    intro timer queued
    rcases members timer queued with rfl | before
    · exact Nat.lt_succ_self s.serial
    · exact Nat.lt_succ_of_lt (orderly.serials timer before)
  case distinct =>
    refine ((insertTimer_perm _ _).map Timer.serial).nodup_iff.mpr ?_
    refine List.nodup_cons.mpr ⟨fun mem => ?_, orderly.distinct⟩
    obtain ⟨timer, queued, same⟩ := List.mem_map.mp mem
    have below := orderly.serials timer queued
    rw [same] at below
    exact Nat.lt_irrefl _ below

/-- A task whose timer leaves the list is free. -/
theorem fire (orderly : s.Orderly) {timer : Timer} {rest : List Timer}
    (queue : s.timers = timer :: rest) (wakes : timer.handler = .taskWakeup) :
    { s with timers := rest }.Free timer.task := by
  have queued : timer ∈ s.timers := by simp [queue]
  obtain ⟨task, present, sleeping, inside⟩ := orderly.armed timer queued wakes
  refine ⟨fun place registered => ?_, fun other inRest otherWakes same => ?_⟩
  · obtain ⟨other, found, blocked⟩ := orderly.blocked place _ registered
    rw [present] at found
    cases found
    rw [sleeping] at blocked
    cases blocked
  · have otherQueued : other ∈ s.timers := by
      rw [queue]
      exact List.mem_cons_of_mem _ inRest
    obtain ⟨otherTask, found, _, otherInside⟩ := orderly.armed other otherQueued otherWakes
    rw [same, present] at found
    cases found
    rw [inside] at otherInside
    have serial : timer.serial = other.serial :=
      Op.slept.inj (Option.some.inj otherInside)
    have distinct := orderly.distinct
    rw [queue, List.map_cons, List.nodup_cons] at distinct
    exact distinct.1 (serial.symm ▸ List.mem_map_of_mem inRest)

/-! ## New and reaped tasks -/

/-- A task that takes up an empty slot or leaves one behind. -/
theorem replace (orderly : s.Orderly) (free : s.Free pid) {new : Option Task}
    (node : ∀ task, new = some task → task.node = none) :
    { s with tasks := Function.update s.tasks pid new }.Orderly := by
  have others (other : Nat) (apart : other ≠ pid) :
      Function.update s.tasks pid new other = s.tasks other := by
    rw [Function.update_of_ne apart]
  refine ⟨?blocked, orderly.single, orderly.nodup, ?node, ?armed, orderly.serials,
    orderly.distinct⟩
  case blocked =>
    intro place other registered
    have apart : other ≠ pid := fun same => free.unregistered place (same ▸ registered)
    dsimp only
    rw [others other apart]
    exact orderly.blocked place other registered
  case node =>
    intro other task place present linked
    dsimp only at present
    by_cases same : other = pid
    · rw [same, Function.update_self] at present
      rw [node task present] at linked
      cases linked
    · rw [others other same] at present
      exact orderly.node other task place present linked
  case armed =>
    intro timer queued wakes
    unfold Armed
    dsimp only
    rw [others timer.task (free.untimed timer queued wakes)]
    exact orderly.armed timer queued wakes

/-- An empty slot is free. -/
theorem free_of_none (orderly : s.Orderly) (empty : s.tasks pid = none) :
    s.Free pid := by
  refine ⟨fun place registered => ?_, fun timer queued wakes same => ?_⟩
  · obtain ⟨task, present, _⟩ := orderly.blocked place pid registered
    rw [empty] at present
    cases present
  · obtain ⟨task, present, _⟩ := orderly.armed timer queued wakes
    rw [same, empty] at present
    cases present

end Orderly

end Kernel
end Sched
end LightOS
