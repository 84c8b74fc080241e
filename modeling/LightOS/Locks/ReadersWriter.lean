import LightOS.Foundation.Threads
import LightOS.Foundation.Transition
import LightOS.Foundation.Words
import LightOS.Kernel.Fault

/-!
# The lock of readers and writers

Tasks that call the functions of `rwlock_t` in pairs on one lock.  A reader takes
the flag of the writers for the increment of the counter; a writer keeps it and
polls the counter until the readers have left.  Each of the instructions with a
`lock` prefix, the load of the counter and the store to the flag is an atomic step.
-/

namespace LightOS
namespace Locks
namespace ReadersWriter

/-- Program points of a task. -/
inductive Point
  | outside
  /-- In `rwlock_read_lock`, in front of the compare-exchange. -/
  | readTrying
  /-- In front of the increment. -/
  | counting
  /-- Behind the increment, in front of the decrement of the flag. -/
  | counted
  /-- Behind `rwlock_read_lock`. -/
  | reading
  /-- In `rwlock_write_lock`, in front of the compare-exchange. -/
  | writeTrying
  /-- In the loop that waits for the readers. -/
  | polling
  /-- Behind `rwlock_write_lock`. -/
  | writing
  deriving DecidableEq, Repr

/-- The structure `rwlock_t`, with the points that the tasks have reached. -/
structure State (Task : Type) where
  writer : Nat
  readers : Nat
  point : Task → Point

/-- What a task outside calls next. -/
inductive Choice
  | read
  | write
  deriving DecidableEq, Repr

variable {Task : Type} [DecidableEq Task]

namespace State

/-- A task reaches a program point. -/
def goto (s : State Task) (task : Task) (point : Point) : State Task :=
  { s with point := Function.update s.point task point }

theorem goto_point (s : State Task) (task other : Task) (point : Point) :
    (s.goto task point).point other = if other = task then point else s.point other := by
  unfold goto
  by_cases same : other = task
  · subst same
    simp
  · simp [same]

/-- `lock cmpxchg` of the flag, expecting 0; the loop tries again. -/
def compareExchange (s : State Task) (task : Task) (point : Point) : State Task :=
  if s.writer = 0 then
    { s with writer := 1 }.goto task point
  else
    s

/-- The next atomic step of a task, with its choice when it is outside. -/
def step (s : State Task) (task : Task) (choice : Choice) : State Task :=
  match s.point task with
  | .outside =>
      match choice with
      | .read => s.goto task .readTrying
      | .write => s.goto task .writeTrying
  | .readTrying => s.compareExchange task .counting
  | .counting => { s with readers := add32 s.readers 1 }.goto task .counted
  | .counted => { s with writer := sub32 s.writer 1 }.goto task .reading
  | .reading => { s with readers := sub32 s.readers 1 }.goto task .outside
  | .writeTrying => s.compareExchange task .polling
  | .polling => if s.readers ≠ 0 then s else s.goto task .writing
  | .writing => { s with writer := 0 }.goto task .outside

end State

/-- `rwlock_init`, with every task outside. -/
def init : State Task where
  writer := 0
  readers := 0
  point := fun _ => .outside

/-- The interleavings of the steps of the tasks. -/
def system (Task : Type) [DecidableEq Task] : System (State Task) (Task × Choice) where
  initial := fun s => s = init
  step := fun before label after => after = before.step label.1 label.2

/-- The points between taking the flag and giving it back. -/
def Point.flagged : Point → Bool
  | .counting | .counted | .polling | .writing => true
  | _ => false

/-- The points between the increment and the decrement of the counter. -/
def Point.counts : Point → Bool
  | .counted | .reading => true
  | _ => false

namespace State

variable {s after : State Task} {task : Task}

/-- A task has the flag. -/
def Flagged (s : State Task) (task : Task) : Prop :=
  (s.point task).flagged = true

/-- A task is counted as a reader. -/
def Counted (s : State Task) (task : Task) : Prop :=
  (s.point task).counts = true

instance (s : State Task) : DecidablePred s.Counted :=
  fun task => inferInstanceAs (Decidable ((s.point task).counts = true))

variable [Fintype Task]

/-- The flag guards the tasks that have taken it, the counter counts the readers, and
there are none while a task writes. -/
structure Ordered (s : State Task) : Prop where
  guards : Threads.Guards s.writer s.Flagged
  counter : s.readers = Threads.tally s.Counted
  alone : ∀ task, s.point task = .writing → s.readers = 0

/-- A step of a task that neither takes the flag nor is counted, before or after. -/
theorem Ordered.goto (ordered : s.Ordered) {point : Point}
    (flagged : point.flagged = (s.point task).flagged)
    (counts : point.counts = (s.point task).counts)
    (alone : point = .writing → s.readers = 0) : (s.goto task point).Ordered := by
  refine ⟨ordered.guards.congr fun other => ?guards, ?counter, fun other writes => ?alone⟩
  case guards =>
    unfold Flagged
    rw [goto_point]
    split
    · rename_i same
      rw [same, flagged]
    · exact Iff.rfl
  case counter =>
    refine ordered.counter.trans (Threads.tally_congr fun other => ?_).symm
    unfold Counted
    rw [goto_point]
    split
    · rename_i same
      rw [same, counts]
    · exact Iff.rfl
  case alone =>
    rw [goto_point] at writes
    split at writes
    · exact alone writes
    · exact ordered.alone other writes

theorem Ordered.compareExchange (ordered : s.Ordered) {point : Point}
    (before : (s.point task).counts = false) (flagged : point.flagged = true)
    (counts : point.counts = false) (notWriting : point ≠ .writing) :
    (s.compareExchange task point).Ordered := by
  unfold State.compareExchange
  split
  · rename_i isFree
    refine ⟨ordered.guards.enter task isFree fun other => ?guards, ?counter,
      fun other writes => ?alone⟩
    case guards =>
      unfold Flagged
      rw [goto_point]
      by_cases same : other = task <;> simp [same, flagged]
    case counter =>
      refine ordered.counter.trans (Threads.tally_congr fun other => ?_).symm
      unfold Counted
      rw [goto_point]
      by_cases same : other = task <;> simp [same, counts, before]
    case alone =>
      rw [goto_point] at writes
      split at writes
      · exact absurd writes notWriting
      · exact ordered.alone other writes
  · exact ordered

/-- The increment does not overflow: the task that counts itself is not counted
yet. -/
theorem Ordered.count (ordered : s.Ordered) (few : Fintype.card Task < 2 ^ 32)
    (counting : s.point task = .counting) :
    ({ s with readers := add32 s.readers 1 }.goto task .counted).Ordered := by
  have notCounted : ¬s.Counted task := by
    unfold Counted
    rw [counting]
    simp [Point.counts]
  have grows : s.readers + 1 < 2 ^ 32 := by
    rw [ordered.counter]
    have below := Threads.tally_lt_card notCounted
    omega
  have flagged : s.Flagged task := by
    unfold Flagged
    rw [counting]
    rfl
  refine ⟨ordered.guards.congr fun other => ?guards, ?counter, fun other writes => ?alone⟩
  case guards =>
    unfold Flagged
    rw [goto_point]
    by_cases same : other = task <;> simp [same, counting, Point.flagged]
  case counter =>
    change add32 s.readers 1 = _
    rw [add32, Nat.mod_eq_of_lt grows, ordered.counter]
    refine (Threads.tally_enter task notCounted fun other => ?_).symm
    unfold Counted
    rw [goto_point]
    by_cases same : other = task <;> simp [same, Point.counts]
  case alone =>
    rw [goto_point] at writes
    split at writes
    · cases writes
    · rename_i apart
      have alsoFlagged : s.Flagged other := by
        unfold Flagged
        rw [show s.point other = .writing from writes]
        rfl
      exact absurd (ordered.guards.single other task alsoFlagged flagged) apart

/-- A task that has the flag gives it back. -/
theorem Ordered.giveBack (ordered : s.Ordered) {point : Point} {word : Nat}
    (flagged : s.Flagged task) (cleared : word = 0) (unflagged : point.flagged = false)
    (counts : point.counts = (s.point task).counts) :
    ({ s with writer := word }.goto task point).Ordered := by
  subst cleared
  refine ⟨ordered.guards.leave task flagged fun other => ?guards, ?counter,
    fun other writes => ?alone⟩
  case guards =>
    unfold Flagged
    rw [goto_point]
    by_cases same : other = task <;> simp [same, unflagged]
  case counter =>
    refine ordered.counter.trans (Threads.tally_congr fun other => ?_).symm
    unfold Counted
    rw [goto_point]
    split
    · rename_i same
      rw [same, counts]
    · exact Iff.rfl
  case alone =>
    rw [goto_point] at writes
    split at writes
    · rw [writes] at unflagged
      cases unflagged
    · exact ordered.alone other writes

theorem Ordered.uncount (ordered : s.Ordered) (reads : s.point task = .reading) :
    ({ s with readers := sub32 s.readers 1 }.goto task .outside).Ordered := by
  have counted : s.Counted task := by
    unfold Counted
    rw [reads]
    rfl
  have positive : s.readers ≠ 0 := by
    rw [ordered.counter]
    exact fun isZero => Threads.tally_eq_zero.mp isZero task counted
  refine ⟨ordered.guards.congr fun other => ?guards, ?counter, fun other writes => ?alone⟩
  case guards =>
    unfold Flagged
    rw [goto_point]
    by_cases same : other = task <;> simp [same, reads, Point.flagged]
  case counter =>
    change sub32 s.readers 1 = _
    rw [sub32_eq (by omega)]
    refine Nat.sub_eq_of_eq_add ?_
    rw [ordered.counter]
    refine (Threads.tally_leave counted fun other => ?_).symm
    unfold Counted
    rw [goto_point]
    by_cases same : other = task <;> simp [same, Point.counts]
  case alone =>
    rw [goto_point] at writes
    split at writes
    · cases writes
    · exact absurd (ordered.alone other writes) positive

/-- A step keeps the order. -/
theorem Ordered.step (ordered : s.Ordered) (few : Fintype.card Task < 2 ^ 32)
    (choice : Choice) : (s.step task choice).Ordered := by
  unfold State.step
  cases point : s.point task with
  | outside =>
      cases choice with
      | read =>
          exact ordered.goto (by rw [point]; rfl) (by rw [point]; rfl) (by simp)
      | write =>
          exact ordered.goto (by rw [point]; rfl) (by rw [point]; rfl) (by simp)
  | readTrying =>
      exact ordered.compareExchange (by rw [point]; rfl) rfl rfl (by simp)
  | counting => exact ordered.count few point
  | counted =>
      have flagged : s.Flagged task := by
        unfold Flagged
        rw [point]
        rfl
      have isTaken := ordered.guards.taken task flagged
      exact ordered.giveBack flagged (by rw [isTaken]; rfl) rfl
        (by rw [point]; rfl)
  | reading => exact ordered.uncount point
  | writeTrying =>
      exact ordered.compareExchange (by rw [point]; rfl) rfl rfl (by simp)
  | polling =>
      dsimp only
      split
      · exact ordered
      · rename_i nobody
        exact ordered.goto (by rw [point]; rfl) (by rw [point]; rfl)
          fun _ => not_not.mp nobody
  | writing =>
      have flagged : s.Flagged task := by
        unfold Flagged
        rw [point]
        rfl
      exact ordered.giveBack flagged rfl rfl (by rw [point]; rfl)

omit [DecidableEq Task] in
theorem Ordered.init : (ReadersWriter.init : State Task).Ordered := by
  refine ⟨⟨?single, ?taken, fun _ => rfl⟩, ?counter, ?alone⟩
  case single => rintro first second ⟨⟩
  case taken => rintro thread ⟨⟩
  case counter => exact (Threads.tally_eq_zero.mpr (by rintro thread ⟨⟩)).symm
  case alone => rintro task ⟨⟩

/-- At most one task writes, none reads while one writes, and the counter equals the
number of the tasks between its increment and its decrement. -/
structure Exclusive (s : State Task) : Prop where
  single : ∀ first second, s.point first = .writing → s.point second = .writing →
    first = second
  apart : ∀ writer reader, s.point writer = .writing → s.point reader ≠ .reading
  counter : s.readers = Threads.tally s.Counted

omit [DecidableEq Task] in
theorem Ordered.exclusive (ordered : s.Ordered) : s.Exclusive := by
  refine ⟨?single, ?apart, ordered.counter⟩
  case single =>
    intro first second firstWrites secondWrites
    refine ordered.guards.single first second ?_ ?_
    · unfold Flagged
      rw [firstWrites]
      rfl
    · unfold Flagged
      rw [secondWrites]
      rfl
  case apart =>
    intro writer reader writes reads
    have nobody := ordered.alone writer writes
    rw [ordered.counter] at nobody
    refine Threads.tally_eq_zero.mp nobody reader ?_
    unfold Counted
    rw [reads]
    rfl

end State

/-- In every interleaving writers exclude readers and each other. -/
theorem writersExclusive_of_reachable [Fintype Task] (few : Fintype.card Task < 2 ^ 32)
    (s : State Task) (reached : (system Task).Reachable s) : s.Exclusive := by
  have ordered : s.Ordered := reached.invariant State.Ordered
    (by rintro s rfl; exact State.Ordered.init)
    fun before label after ordered _ taken => taken ▸ ordered.step few label.2
  exact ordered.exclusive

/-- A reader is inside while a writer polls the counter. -/
theorem writersExclusive_of_reachable_polled :
    ∃ s : State (Fin 2), (system (Fin 2)).Reachable s ∧ s.readers = 1 ∧
      s.point 1 = .polling ∧ s.Exclusive := by
  obtain ⟨final, reached, polls⟩ := System.ReachableWithin.extend_run (system (Fin 2))
    (fun _ _ => True)
    (fun before label => (.ok (before.step label.1 label.2) : Except Fault _))
    (fun _ _ _ taken => ⟨trivial, (Except.ok.inj taken).symm⟩)
    [(0, .read), (0, .read), (0, .read), (0, .read), (1, .write), (1, .write),
      (1, .write)]
    (fun final => decide (final.readers = 1 ∧ final.point 1 = .polling)) (.initial rfl)
    (by decide)
  obtain ⟨one, polling⟩ := of_decide_eq_true polls
  exact ⟨final, reached, one, polling,
    writersExclusive_of_reachable (by simp) final reached⟩

end ReadersWriter
end Locks
end LightOS
