import LightOS.Foundation.Rotation
import LightOS.Sched.Discipline

/-!
# The turns of ready tasks

`schedule` looks for a ready task in rotation, beginning behind the current one.  While a
task waits for its turn, each task that is selected lies nearer to it than the one before,
whatever happens to the states of other tasks between the calls.
-/

namespace LightOS
namespace Sched
namespace Kernel

variable {s after : Kernel} {pid : Nat}

theorem target_eq (s : Kernel) :
    s.target = ((rotation taskNr s.current).find? s.eligible).getD 0 := rfl

theorem not_eligible_zero (s : Kernel) : s.eligible 0 = false := by
  simp [eligible]

/-- A task that may be selected is ready. -/
theorem ready_of_eligible (eligible : s.eligible pid = true) :
    (s.tasks pid).any (fun task => task.state = .ready) = true := by
  unfold Kernel.eligible at eligible
  simp only [Bool.decide_and, Bool.and_eq_true, decide_eq_true_eq, Option.any_eq_true]
    at eligible
  obtain ⟨_, task, present, _, ready⟩ := eligible
  rw [present]
  simpa using ready

/-- While a task may be selected, the one that is selected comes no later in rotation. -/
theorem target_spec (current : s.current < taskNr) (inRange : pid < taskNr)
    (eligible : s.eligible pid = true) :
    s.eligible s.target = true ∧
      ahead taskNr s.current s.target ≤ ahead taskNr s.current pid := by
  obtain ⟨found, search, accepted, _, first⟩ := find?_rotation current inRange eligible
  rw [target_eq, search]
  exact ⟨accepted, first⟩

theorem target_lt (current : s.current < taskNr) : s.target < taskNr := by
  rw [target_eq]
  cases search : (rotation taskNr s.current).find? s.eligible with
  | none => exact Nat.zero_lt_of_lt current
  | some found => exact (mem_rotation current).mp (List.mem_of_find?_eq_some search)

theorem schedule_current (scheduled : s.schedule = .ok after) :
    after.current = s.target := by
  rcases schedule_cases scheduled with ⟨rfl, same⟩ | ⟨_, _, _, _, rfl⟩
  · exact same.symm
  · rfl

/-- A task that is not selected may be selected later. -/
theorem schedule_eligible (scheduled : s.schedule = .ok after) (other : s.target ≠ pid)
    (eligible : s.eligible pid = true) : after.eligible pid = true := by
  rcases schedule_cases scheduled with ⟨rfl, _⟩ | ⟨_, _, _, _, rfl⟩
  · exact eligible
  · have ready := ready_of_eligible eligible
    have same : ({ s.modify s.current pause with current := s.target }.setState
        s.target .running).tasks pid = s.tasks pid := by
      unfold setState
      rw [modify_tasks, if_neg other.symm]
      change (s.modify s.current pause).tasks pid = s.tasks pid
      rw [modify_tasks]
      split
      · rw [Option.any_eq_true] at ready
        obtain ⟨task, present, isReady⟩ := ready
        have notRunning : task.state ≠ .running := by
          rw [of_decide_eq_true isReady]
          exact nofun
        rw [present, Option.map_some, pause, if_neg notRunning]
      · rfl
    unfold Kernel.eligible at eligible ⊢
    rw [same]
    exact eligible

/-- Runs in which a task waits for its turn, with the tasks selected meanwhile.  Between
the calls of `schedule` everything may change, other than which task is current and that
the task is ready with ticks left. -/
inductive Waits (pid : Nat) : List Nat → Kernel → Prop
  | start {s : Kernel} :
      s.current < taskNr → s.eligible pid = true → Waits pid [] s
  | change {s after : Kernel} {selected : List Nat} :
      Waits pid selected s → after.current = s.current → after.eligible pid = true →
      Waits pid selected after
  | schedule {s after : Kernel} {selected : List Nat} :
      Waits pid selected s → s.target ≠ pid → s.schedule = .ok after →
      Waits pid (s.target :: selected) after

/-- Every task selected so far lies behind the current one in rotation. -/
structure Approaches (pid : Nat) (selected : List Nat) (s : Kernel) : Prop where
  current : s.current < taskNr
  eligible : s.eligible pid = true
  nodup : selected.Nodup
  notIdle : 0 ∉ selected
  nearer : ∀ other ∈ selected, ahead taskNr s.current pid ≤ ahead taskNr other pid

theorem Approaches.schedule {selected : List Nat} (approaches : Approaches pid selected s)
    (inRange : pid < taskNr) (notYet : s.target ≠ pid)
    (scheduled : s.schedule = .ok after) :
    Approaches pid (s.target :: selected) after := by
  obtain ⟨current, eligible, nodup, notIdle, nearer⟩ := approaches
  obtain ⟨targetEligible, first⟩ := target_spec current inRange eligible
  have targetInRange := target_lt current
  have before : ahead taskNr s.current s.target < ahead taskNr s.current pid := by
    refine Nat.lt_of_le_of_ne first fun same => notYet ?_
    rw [← rotation_ahead targetInRange current, same, rotation_ahead inRange current]
  have shorter := ahead_of_ahead inRange current before
  refine ⟨?_, schedule_eligible scheduled notYet eligible, ?_, ?_, ?_⟩
  · rw [schedule_current scheduled]
    exact targetInRange
  · refine List.nodup_cons.mpr ⟨fun again => ?_, nodup⟩
    exact Nat.not_lt.mpr (nearer s.target again) shorter
  · intro isIdle
    rcases List.mem_cons.mp isIdle with zero | earlier
    · rw [← zero, not_eligible_zero] at targetEligible
      cases targetEligible
    · exact notIdle earlier
  · intro other isSelected
    rw [schedule_current scheduled]
    rcases List.mem_cons.mp isSelected with rfl | earlier
    · exact Nat.le_refl _
    · exact Nat.le_trans (Nat.le_of_lt shorter) (nearer other earlier)

theorem Waits.approaches {selected : List Nat} (waits : Waits pid selected s)
    (inRange : pid < taskNr) : Approaches pid selected s := by
  induction waits with
  | start current eligible =>
      exact ⟨current, eligible, List.nodup_nil, List.not_mem_nil, nofun⟩
  | change _ same eligible approaches =>
      obtain ⟨current, _, nodup, notIdle, nearer⟩ := approaches
      refine ⟨?_, eligible, nodup, notIdle, ?_⟩
      · rw [same]
        exact current
      · rw [same]
        exact nearer
  | schedule _ notYet scheduled approaches =>
      exact approaches.schedule inRange notYet scheduled

/-- When no other task may be selected, the idle task is ready or current. -/
def IdleServes (s : Kernel) : Prop :=
  (∀ pid < taskNr, s.eligible pid = false) →
    (s.tasks 0).any (fun task => task.state = .ready) = true ∨ s.current = 0

/-- The task that `schedule` hands to `switch_to` is ready, or it is the idle task, which
is current and goes on. -/
def HandsReady (s : Kernel) : Prop :=
  (s.tasks s.target).any (fun task => task.state = .ready) = true ∨
    s.target = 0 ∧ s.current = 0 ∧ ((s.tasks 0).isSome → s.schedule = .ok s)

theorem IdleServes.handsReady (serves : s.IdleServes) (current : s.current < taskNr) :
    s.HandsReady := by
  by_cases some : ∃ pid < taskNr, s.eligible pid = true
  · obtain ⟨pid, inRange, eligible⟩ := some
    exact .inl (ready_of_eligible (target_spec current inRange eligible).1)
  · have none (pid : Nat) (inRange : pid < taskNr) : s.eligible pid = false := by
      rw [← Bool.not_eq_true]
      exact fun eligible => some ⟨pid, inRange, eligible⟩
    have isIdle : s.target = 0 := by
      rw [target_eq, List.find?_eq_none.mpr]
      · rfl
      · intro pid present
        rw [none pid ((mem_rotation current).mp present)]
        exact Bool.false_ne_true
    rcases serves none with ready | isCurrent
    · rw [HandsReady, isIdle]
      exact .inl ready
    · refine .inr ⟨isIdle, isCurrent, fun present => ?_⟩
      unfold schedule switchTo
      rw [isIdle, check_true present, ok_bind, if_pos isCurrent]
      rfl

/-- While a task waits for its turn no other task has two turns and the idle task has none,
and the task that `schedule` selects is ready unless the idle task goes on. -/
theorem roundRobin :
    (∀ pid < taskNr, ∀ selected s, Waits pid selected s → selected.Nodup ∧ 0 ∉ selected) ∧
      ∀ s : Kernel, s.current < taskNr → s.IdleServes → s.HandsReady := by
  refine ⟨fun pid inRange selected s waits => ?_, fun s current serves =>
    serves.handsReady current⟩
  have approaches := waits.approaches inRange
  exact ⟨approaches.nodup, approaches.notIdle⟩

/-- Only the idle task, running. -/
def idling : Kernel :=
  { boot with tasks := fun pid =>
      if pid = 0 then some ⟨.running, 1, 1, 0, 0, 0, 0, none, []⟩ else none }

theorem idling_serves : idling.IdleServes :=
  fun _ => .inr rfl

theorem roundRobin_fails :
    ¬∀ s : Kernel, s.current < taskNr → s.IdleServes →
      (s.tasks s.target).any (fun task => task.state = .ready) = true := by
  intro always
  have ready := always idling (by decide) idling_serves
  revert ready
  decide +kernel

/-- Three tasks, of which task 2 waits while task 1 has its turn. -/
def threeTasks : Kernel :=
  { boot with tasks := fun pid =>
      if pid < 3 then some ⟨.ready, 5, 5, 0, 0, 0, 0, none, []⟩ else none }

theorem roundRobin_threeTasks :
    (∃ selected s, Waits 2 selected s ∧ selected = [1] ∧ selected.Nodup ∧ 0 ∉ selected) ∧
      idling.HandsReady := by
  obtain ⟨turns, hands⟩ := roundRobin
  refine ⟨?_, hands idling (by decide) idling_serves⟩
  have start : Waits 2 [] threeTasks := .start (by decide) (by decide)
  cases scheduled : threeTasks.schedule with
  | error fault =>
      have returns : threeTasks.schedule.isOk = true := by decide +kernel
      rw [scheduled] at returns
      cases returns
  | ok after =>
      have waits := start.schedule (by decide +kernel) scheduled
      exact ⟨_, after, waits, by decide +kernel, turns 2 (by decide) _ after waits⟩

end Kernel
end Sched
end LightOS
