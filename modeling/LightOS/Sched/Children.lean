import LightOS.Sched.Family

/-!
# Forks, exits and waits

The operations that give tasks children, hand children over and reap them keep the
tasks in trees.
-/

namespace LightOS
namespace Sched

variable {rest : List Op} {op : Op}

/-- What the last loop of `sys_exit` does to a task: the children of the dying task go
to its parent, and a task that waits for it is woken. -/
structure Adopted (dying grand : Nat) (task later : Task) : Prop where
  ppid : later.ppid = if task.ppid = dying then grand else task.ppid
  waitpid : later.waitpid =
    if task.ppid ≠ dying ∧ task.waitpid = dying then 0 else task.waitpid
  status : later.status = task.status
  pending : later.pending = task.pending
  dies : later.state = .dead → task.state = .dead
  rests : task.state = .dead → later.state = .dead
  waits : later.state = .waiting →
    task.state = .waiting ∧ (task.ppid = dying ∨ task.waitpid ≠ dying)

theorem Call.proper (call : Call) : Proper call.ops := by
  cases call with
  | exit status inodes files =>
      refine .inr ⟨status, exitTail inodes files, rfl, ?_, Leaving.exitTail inodes files⟩
      exact (exitTail_closing inodes files).dieFree
  | work ops =>
      refine .inl fun status mem => ?_
      obtain ⟨_, isWork⟩ := List.mem_filter.mp mem
      cases isWork
  | sleep ms => exact .inl (by simp [DieFree, Call.ops])
  | kill pid sig => exact .inl (by simp [DieFree, Call.ops])
  | yield => exact .inl (by simp [DieFree, Call.ops])
  | fork => exact .inl (by simp [DieFree, Call.ops])
  | waitpid pid => exact .inl (by simp [DieFree, Call.ops])

namespace Kernel

variable {s after : Kernel} {pid : Nat} {task : Task}

/-- The current task is not in an exit. -/
def Alive (s : Kernel) : Prop :=
  ∀ task, s.tasks s.current = some task → task.state ≠ .dead

/-- A task is dead. -/
def Dead (s : Kernel) (pid : Nat) : Prop :=
  ∃ task, s.tasks pid = some task ∧ task.state = .dead

theorem dead_modify (pid other : Nat) (change : Task → Task)
    (state : ∀ task, (change task).state = task.state) :
    (s.modify pid change).Dead other ↔ s.Dead other := by
  unfold Dead
  rw [modify_tasks]
  split
  · cases s.tasks other with
    | none => simp
    | some task => simp [state]
  · rfl

theorem dead_setPending (ops : List Op) : (s.setPending ops).Dead pid ↔ s.Dead pid :=
  dead_modify s.current pid _ fun _ => rfl

theorem dead_push (ops : List Op) : (s.push ops).Dead pid ↔ s.Dead pid :=
  dead_modify s.current pid _ fun _ => rfl

theorem Ended.dead (ended : s.Ended pid) : s.Dead pid := by
  obtain ⟨task, found, dead, _⟩ := ended
  exact ⟨task, found, dead⟩

/-- While the current task is not in an exit, the dead tasks have ended theirs. -/
theorem Alive.ended (alive : s.Alive) (dead : s.Dead pid) : s.Ended pid := by
  obtain ⟨task, found, isDead⟩ := dead
  refine ⟨task, found, isDead, ?_⟩
  rintro ⟨rfl, _⟩
  exact alive task found isDead

/-- The task runs an operation that is no part of an exit. -/
theorem Tree.alive (tree : s.Tree) (pending : s.pending = op :: rest) (notQuick : op.quick = false)
    (notAwait : ∀ slot, op ≠ .await slot) (notAdopt : op ≠ .adopt) (notYield : op ≠ .yield) :
    s.Alive := by
  intro task present dead
  rcases (tree.dying pending present dead).2 with leaving | ⟨isYield, _⟩
  · rcases leaving.head with quick | ⟨slot, isAwait⟩ | isAdopt
    · rw [quick] at notQuick
      cases notQuick
    · exact notAwait slot isAwait
    · exact notAdopt isAdopt
  · exact notYield isYield

/-- A task that is in no exit goes on with other operations. -/
theorem Tree.setPending (tree : s.Tree) (alive : s.Alive) {ops : List Op}
    (forest : (s.setPending ops).Forest) :
    (s.setPending ops).Tree ∧ (s.setPending ops).Alive := by
  have aliveNext : (s.setPending ops).Alive := by
    intro task found
    obtain ⟨before, present, state, _⟩ := of_setPending found
    rw [state]
    exact alive before present
  refine ⟨⟨forest, ?grown, ?awake, ?exits⟩, aliveNext⟩
  case grown =>
    intro pid task notRoot found ended
    obtain ⟨before, present, _, ppid, _⟩ := of_setPending found
    obtain ⟨parent, foundParent, dead⟩ := ended.dead
    obtain ⟨parentBefore, presentParent, state, _⟩ := of_setPending foundParent
    rw [ppid] at presentParent
    exact tree.grown pid before notRoot present
      (alive.ended ⟨parentBefore, presentParent, state ▸ dead⟩)
  case awake =>
    intro task found
    obtain ⟨before, present, state, _⟩ := of_setPending found
    rw [state]
    exact tree.awake before present
  case exits =>
    intro task found dead
    exact absurd dead (aliveNext task found)

/-- A task that is in no exit takes up its next operation. -/
theorem Tree.next (tree : s.Tree) (alive : s.Alive) (pending : s.pending = op :: rest) :
    (s.setPending rest).Tree ∧ (s.setPending rest).Alive :=
  tree.setPending alive (tree.forest.next pending)

/-- A new child of the current task. -/
theorem Forest.grow (forest : s.Forest) {new : Nat} {child : Task}
    (empty : s.tasks new = none) (small : new < taskNr) (ppid : child.ppid = s.current)
    (nothing : child.pending = []) :
    { s with tasks := Function.update s.tasks new (some child) }.Forest := by
  have others (pid : Nat) (apart : pid ≠ new) :
      Function.update s.tasks new (some child) pid = s.tasks pid :=
    Function.update_of_ne apart _ _
  have apart (pid : Nat) (task : Task) (present : s.tasks pid = some task) : pid ≠ new := by
    rintro rfl
    rw [empty] at present
    cases present
  have cases (pid : Nat) (task : Task)
      (found : Function.update s.tasks new (some child) pid = some task) :
      pid = new ∧ task = child ∨ s.tasks pid = some task := by
    by_cases same : pid = new
    · subst same
      rw [Function.update_self] at found
      cases found
      exact .inl ⟨rfl, rfl⟩
    · rw [others pid same] at found
      exact .inr found
  have lineage (pid : Nat) (rooted : s.Lineage pid) :
      { s with tasks := Function.update s.tasks new (some child) }.Lineage pid := by
    refine rooted.mono fun node up _ isParent => ?_
    obtain ⟨task, present, rfl⟩ := Option.map_eq_some_iff.mp isParent
    unfold Kernel.parent
    dsimp only
    rw [others node (apart node task present), present]
    rfl
  obtain ⟨current, presentCurrent⟩ := Option.isSome_iff_exists.mp forest.present
  refine ⟨?slots, ?roots, ?rooted, ?present, ?idle, ?begins⟩
  case slots =>
    intro pid task found
    rcases cases pid task found with ⟨rfl, _⟩ | present
    · exact small
    · exact forest.slots pid task present
  case roots =>
    intro pid isRoot
    obtain ⟨task, present, rest⟩ := forest.roots pid isRoot
    refine ⟨task, ?_, rest⟩
    dsimp only
    rw [others pid (apart pid task present)]
    exact present
  case rooted =>
    intro pid task found
    rcases cases pid task found with ⟨rfl, rfl⟩ | present
    · have isParent : { s with tasks := Function.update s.tasks pid (some task) }.parent pid =
          some s.current := by
        unfold Kernel.parent
        dsimp only
        rw [Function.update_self, Option.map_some, ppid]
      exact .child isParent (lineage _ (forest.rooted _ current presentCurrent))
    · exact lineage pid (forest.rooted pid task present)
  case present =>
    dsimp only
    rw [others _ (apart _ current presentCurrent)]
    exact forest.present
  case idle =>
    intro task found
    rcases cases 0 task found with ⟨_, rfl⟩ | present
    · rw [nothing]
      simp
    · exact forest.idle task present
  case begins =>
    intro pid task found
    rcases cases pid task found with ⟨_, rfl⟩ | present
    · rw [nothing]
      exact .inl (by simp [DieFree])
    · exact forest.begins pid task present

theorem Tree.fork (tree : s.Tree) (alive : s.Alive) (ran : s.fork = .ok after) :
    after.Tree := by
  unfold Kernel.fork at ran
  simp only [bind_eq_ok, pure_eq_ok] at ran
  obtain ⟨_, _, new, isNew, ran⟩ := ran
  obtain ⟨empty, small⟩ := getFreeTask_eq isNew
  obtain ⟨task, present⟩ := Option.isSome_iff_exists.mp tree.forest.present
  rw [present, Option.map_some] at ran
  cases ran
  have apart : s.current ≠ new := by
    intro same
    rw [← same, present] at empty
    cases empty
  have currentStill (child : Option Task) :
      Function.update s.tasks new child s.current = s.tasks s.current :=
    Function.update_of_ne apart _ _
  refine ⟨tree.forest.grow empty small rfl rfl, ?grown, ?awake, ?exits⟩
  case grown =>
    intro pid child notRoot found ended
    obtain ⟨parent, foundParent, dead⟩ := ended.dead
    have deadBefore : s.Dead child.ppid := by
      dsimp only at foundParent
      by_cases same : child.ppid = new
      · rw [same, Function.update_self] at foundParent
        cases foundParent
        cases dead
      · rw [Function.update_of_ne same] at foundParent
        exact ⟨parent, foundParent, dead⟩
    dsimp only at found
    by_cases same : pid = new
    · subst same
      rw [Function.update_self] at found
      cases found
      obtain ⟨current, foundCurrent, isDead⟩ := deadBefore
      exact alive current foundCurrent isDead
    · rw [Function.update_of_ne same] at found
      exact tree.grown pid child notRoot found (alive.ended deadBefore)
  case awake =>
    intro current found
    dsimp only at found
    rw [currentStill] at found
    exact tree.awake current found
  case exits =>
    intro current found dead
    dsimp only at found
    rw [currentStill] at found
    exact absurd dead (alive current found)

/-- The child that `sys_waitpid` looks at. -/
theorem child_eq {found : Nat} (isChild : s.child = some found) :
    2 ≤ found ∧ ∃ task, s.tasks found = some task ∧ task.ppid = s.current := by
  have test := List.find?_some isChild
  simp only [decide_eq_true_eq, Bool.decide_and, Bool.and_eq_true,
    Option.any_eq_true] at test
  obtain ⟨notRoot, task, present, ppid⟩ := test
  exact ⟨notRoot, task, present, ppid⟩

/-- A task without children is taken off the list. -/
theorem Forest.reap (forest : s.Forest) (notRoot : 2 ≤ pid) (apart : pid ≠ s.current)
    (childless : ∀ other task, 2 ≤ other → s.tasks other = some task → task.ppid ≠ pid) :
    { s with tasks := Function.update s.tasks pid none }.Forest := by
  have lineage (other : Nat) (stays : other ≠ pid) (rooted : s.Lineage other) :
      { s with tasks := Function.update s.tasks pid none }.Lineage other := by
    refine rooted.drop ?_ ?_ stays
    · intro node up remains isParent
      unfold Kernel.parent
      dsimp only
      rw [Function.update_of_ne remains]
      exact isParent
    · intro node notRootNode isParent
      obtain ⟨task, present, same⟩ := Option.map_eq_some_iff.mp isParent
      exact childless node task (by omega) present same
  refine ⟨?slots, ?roots, ?rooted, ?present, ?idle, ?begins⟩
  case slots =>
    intro other task found
    exact forest.slots other task (of_update_none found).2
  case roots =>
    intro other isRoot
    obtain ⟨task, present, rest⟩ := forest.roots other isRoot
    refine ⟨task, ?_, rest⟩
    dsimp only
    rw [Function.update_of_ne (by omega)]
    exact present
  case rooted =>
    intro other task found
    obtain ⟨stays, present⟩ := of_update_none found
    exact lineage other stays (forest.rooted other task present)
  case present =>
    dsimp only
    rw [Function.update_of_ne apart.symm]
    exact forest.present
  case idle =>
    intro task found
    exact forest.idle task (of_update_none found).2
  case begins =>
    intro other task found
    exact forest.begins other task (of_update_none found).2

/-- A dead child is reaped. -/
theorem Tree.reap (tree : s.Tree) (alive : s.Alive) {status : Nat}
    (round : s.round = .reaps pid status) :
    { s with tasks := Function.update s.tasks pid none }.Tree := by
  obtain ⟨child, isChild, present, dead, _⟩ := reaps_of_round round
  have notRoot := (child_eq isChild).1
  have apart : pid ≠ s.current := by
    rintro rfl
    exact alive child present dead
  have isEnded : s.Ended pid := alive.ended ⟨child, present, dead⟩
  have childless (other : Nat) (task : Task) (notRootOther : 2 ≤ other)
      (found : s.tasks other = some task) : task.ppid ≠ pid := by
    intro same
    exact tree.grown other task notRootOther found (same ▸ isEnded)
  refine ⟨tree.forest.reap notRoot apart childless, ?grown, ?awake, ?exits⟩
  case grown =>
    intro other task notRootOther found ended
    obtain ⟨parent, foundParent, isDead⟩ := ended.dead
    exact tree.grown other task notRootOther (of_update_none found).2
      (alive.ended ⟨parent, (of_update_none foundParent).2, isDead⟩)
  case awake => exact fun task found => tree.awake task (of_update_none found).2
  case exits =>
    exact fun task found isDead => absurd isDead (alive task (of_update_none found).2)

/-- A change of a task that puts nobody into an exit and keeps the parents. -/
theorem Tree.modify (tree : s.Tree) (alive : s.Alive) (pid : Nat) (change : Task → Task)
    (forest : (s.modify pid change).Forest)
    (ppid : ∀ task, 2 ≤ pid → s.tasks pid = some task → (change task).ppid = task.ppid)
    (dies : ∀ task, (change task).state = .dead → task.state = .dead) :
    ∀ other task, 2 ≤ other → (s.modify pid change).tasks other = some task →
      ¬(s.modify pid change).Dead task.ppid := by
  have kept (other : Nat) (task : Task) (found : (s.modify pid change).tasks other = some task) :
      ∃ before, s.tasks other = some before ∧ (2 ≤ other → task.ppid = before.ppid) ∧
        (task.state = .dead → before.state = .dead) := by
    rw [modify_tasks] at found
    split at found
    · rename_i same
      subst same
      obtain ⟨before, present, rfl⟩ := Option.map_eq_some_iff.mp found
      exact ⟨before, present, fun notRoot => ppid before notRoot present, dies before⟩
    · exact ⟨task, found, fun _ => rfl, id⟩
  rintro other task notRoot found ⟨parent, foundParent, dead⟩
  obtain ⟨before, present, sameParent, _⟩ := kept other task found
  obtain ⟨parentBefore, presentParent, _, deadBefore⟩ := kept task.ppid parent foundParent
  rw [sameParent notRoot] at presentParent
  exact tree.grown other before notRoot present
    (alive.ended ⟨parentBefore, presentParent, deadBefore dead⟩)

/-- The current task waits, and another one runs. -/
theorem Tree.of_schedule (forest : s.Forest)
    (grown : ∀ pid task, 2 ≤ pid → s.tasks pid = some task → ¬s.Dead task.ppid)
    (leaves : after.current ≠ s.current) (scheduled : s.schedule = .ok after) :
    after.Tree := by
  have passes : Passes (fun _ => True) s after := Passes.schedule scheduled
  obtain ⟨next, foundNext, notDead, notWaiting⟩ := passes.switch.resolve_left leaves
  refine ⟨forest.passes passes, ?grown, ?awake, ?exits⟩
  case grown =>
    intro pid task notRoot found ended
    obtain ⟨before, present, resembles⟩ := passes.before found
    obtain ⟨parent, foundParent, dead⟩ := ended.dead
    obtain ⟨parentBefore, presentParent, resemblesParent⟩ := passes.before foundParent
    rw [resembles.ppid] at presentParent
    exact grown pid before notRoot present
      ⟨parentBefore, presentParent, resemblesParent.dies dead⟩
  case awake =>
    intro task found
    rw [foundNext] at found
    cases found
    exact notWaiting
  case exits =>
    intro task found dead
    rw [foundNext] at found
    cases found
    exact absurd dead notDead

/-- What the current task is changed to when it waits for a child. -/
def waits (asked : Nat) (task : Task) : Task :=
  { task with pending := .wait asked :: task.pending, waitpid := asked, state := .waiting }

/-- A round of `sys_waitpid` that blocks. -/
theorem wait_blocks {asked : Nat} (round : s.round = .blocks)
    (ran : s.wait asked = .ok after) : (s.modify s.current (waits asked)).schedule = .ok after := by
  unfold Kernel.wait at ran
  rw [round] at ran
  unfold block setState push at ran
  rw [modify_current, modify_current, modify_modify, modify_modify] at ran
  exact ran

theorem Tree.wait (tree : s.Tree) (alive : s.Alive) (notIdle : s.current ≠ 0) {asked : Nat}
    (dieFree : ∀ task, s.tasks s.current = some task → DieFree task.pending)
    (ran : s.wait asked = .ok after) : after.Tree := by
  cases round : s.round with
  | childless =>
      unfold Kernel.wait at ran
      rw [round] at ran
      cases ran
      exact tree
  | reaps child status =>
      unfold Kernel.wait at ran
      rw [round] at ran
      cases ran
      exact tree.reap alive round
  | blocks =>
      have scheduled := wait_blocks round ran
      have forest : (s.modify s.current (waits asked)).Forest := by
        refine tree.forest.modify s.current (waits asked) (fun _ _ => .inl rfl)
          (fun _ _ _ => by simp [waits]) (fun isIdle => absurd isIdle notIdle) ?_
        intro task present _
        refine .inl fun status mem => ?_
        rcases List.mem_cons.mp mem with same | inPending
        · cases same
        · exact dieFree task present status inPending
      obtain ⟨task, present⟩ := Option.isSome_iff_exists.mp tree.forest.present
      have presentWaiting : (s.modify s.current (waits asked)).tasks s.current =
          some (waits asked task) := by
        rw [modify_tasks, if_pos rfl, present]
        rfl
      refine .of_schedule forest (tree.modify alive s.current (waits asked) forest
        (fun _ _ _ => rfl) (by simp [waits])) ?_ scheduled
      exact schedule_leaves (s := s.modify s.current (waits asked)) notIdle presentWaiting
        (by simp [waits]) scheduled

/-- Init becomes a user process. -/
theorem Tree.enterUser (tree : s.Tree) (alive : s.Alive)
    (ran : s.exec .enterUser = .ok after) : after.Tree := by
  rw [Kernel.exec] at ran
  simp only [bind_eq_ok, check_eq_ok, pure_eq_ok] at ran
  obtain ⟨_, isInit, ran⟩ := ran
  cases ran
  let enters : Task → Task := fun task => { task with uid := userRing3, ppid := s.current }
  have forest : (s.modify s.current enters).Forest :=
    tree.forest.modify s.current enters (fun _ _ => .inr ⟨by omega, by
      change s.current ≤ 1
      omega⟩)
      (fun _ _ alive => alive) (fun _ _ yields => yields) fun _ _ proper => proper
  have kept (task : Task) (found : (s.modify s.current enters).tasks s.current = some task) :
      ∃ before, s.tasks s.current = some before ∧ task.state = before.state := by
    rw [modify_tasks, if_pos rfl] at found
    obtain ⟨before, present, rfl⟩ := Option.map_eq_some_iff.mp found
    exact ⟨before, present, rfl⟩
  refine ⟨forest, fun pid task notRoot found ended => ?grown, ?awake, ?exits⟩
  case grown =>
    exact tree.modify alive s.current enters forest (fun _ notRoot _ => by omega)
      (fun _ dead => dead) pid task notRoot found ended.dead
  case awake =>
    intro task found
    obtain ⟨before, present, state⟩ := kept task found
    rw [state]
    exact tree.awake before present
  case exits =>
    intro task found dead
    obtain ⟨before, present, state⟩ := kept task found
    exact absurd (state ▸ dead) (alive before present)

/-- The beginning of an exit. -/
theorem Tree.die (tree : s.Tree) (alive : s.Alive) {status : Nat}
    (leaving : ∀ task, s.tasks s.current = some task → Leaving task.pending)
    (ran : s.exec (.die status) = .ok after) : after.Tree := by
  rw [Kernel.exec] at ran
  simp only [bind_eq_ok, check_eq_ok, pure_eq_ok] at ran
  obtain ⟨_, _, _, notRoot, ran⟩ := ran
  cases ran
  let dies : Task → Task := fun task => { task with state := .dead, status := status }
  have forest : (s.modify s.current dies).Forest :=
    tree.forest.modify s.current dies (fun _ _ => .inl rfl) (fun _ => by omega)
      (fun _ _ yields => yields) fun _ _ proper => proper
  have self (task : Task) (found : (s.modify s.current dies).tasks s.current = some task) :
      task.state = .dead ∧ Leaving task.pending := by
    rw [modify_tasks, if_pos rfl] at found
    obtain ⟨before, present, rfl⟩ := Option.map_eq_some_iff.mp found
    exact ⟨rfl, leaving before present⟩
  have others (pid : Nat) (apart : pid ≠ s.current) :
      (s.modify s.current dies).tasks pid = s.tasks pid := by
    rw [modify_tasks, if_neg apart]
  refine ⟨forest, fun pid task isChild found ended => ?grown, ?awake, ?exits⟩
  case grown =>
    have before : ∃ child, s.tasks pid = some child ∧ child.ppid = task.ppid := by
      rw [modify_tasks] at found
      split at found
      · obtain ⟨child, present, rfl⟩ := Option.map_eq_some_iff.mp found
        exact ⟨child, present, rfl⟩
      · exact ⟨task, found, rfl⟩
    obtain ⟨child, present, ppid⟩ := before
    obtain ⟨parent, foundParent, dead, notLeaving⟩ := ended
    by_cases same : task.ppid = s.current
    · rw [same] at foundParent
      exact notLeaving ⟨same, (self parent foundParent).2⟩
    · rw [others task.ppid same] at foundParent
      refine tree.grown pid child isChild present (alive.ended ⟨parent, ?_, dead⟩)
      rw [ppid]
      exact foundParent
  case awake =>
    intro task found waits
    rw [(self task found).1] at waits
    cases waits
  case exits =>
    intro task found _
    exact .inl (self task found).2

/-! ## Adoption -/

theorem adoptOne_other (s : Kernel) {other : Nat} (apart : other ≠ pid) :
    (s.adoptOne pid).tasks other = s.tasks other := by
  unfold adoptOne
  split
  · split
    · rw [modify_tasks, if_neg apart]
    · split
      · rw [modify_tasks, if_neg apart]
        split
        · exact intrUnblock_other s apart
        · rfl
      · rfl
  · rfl

theorem adoptOne_current (s : Kernel) (pid : Nat) : (s.adoptOne pid).current = s.current := by
  unfold adoptOne
  split
  · split
    · rfl
    · split
      · rw [modify_current]
        split
        · exact intrUnblock_current s pid
        · rfl
      · rfl
  · rfl

/-- A woken task but for its state and its `node`. -/
theorem intrUnblock_self (s : Kernel) (present : s.tasks pid = some task) :
    ∃ later, (s.intrUnblock pid).tasks pid = some later ∧ later.state = .ready ∧
      later.ppid = task.ppid ∧ later.waitpid = task.waitpid ∧
      later.status = task.status ∧ later.pending = task.pending := by
  unfold intrUnblock setState
  rw [modify_tasks, if_pos rfl]
  unfold unlist
  split
  · rw [present]
    exact ⟨_, rfl, rfl, rfl, rfl, rfl, rfl⟩
  · rw [modify_tasks, if_pos rfl, setWaiting_tasks, present]
    exact ⟨_, rfl, rfl, rfl, rfl, rfl, rfl⟩

theorem adoptOne_self (s : Kernel) {dying : Task} (current : s.tasks s.current = some dying)
    (present : s.tasks pid = some task) :
    ∃ later, (s.adoptOne pid).tasks pid = some later ∧
      Adopted s.current dying.ppid task later := by
  unfold adoptOne
  rw [present, current]
  dsimp only
  by_cases isChild : task.ppid = s.current
  · rw [if_pos isChild, modify_tasks, if_pos rfl, present]
    exact ⟨_, rfl, by rw [if_pos isChild], by rw [if_neg (by simp [isChild])], rfl, rfl, id,
      id, fun waits => ⟨waits, .inl isChild⟩⟩
  · rw [if_neg isChild]
    by_cases isWaited : task.waitpid = s.current
    · rw [if_pos isWaited, modify_tasks, if_pos rfl]
      by_cases waits : task.state = .waiting
      · obtain ⟨later, found, ready, ppid, waitpid, status, pending⟩ :=
          intrUnblock_self s present
        rw [if_pos waits, found]
        refine ⟨_, rfl, by rw [if_neg isChild]; exact ppid,
          by rw [if_pos ⟨isChild, isWaited⟩], status, pending, fun dead => ?_,
          fun dead => ?_, fun stillWaits => ?_⟩
        · change later.state = .dead at dead
          rw [ready] at dead
          cases dead
        · rw [waits] at dead
          cases dead
        · change later.state = .waiting at stillWaits
          rw [ready] at stillWaits
          cases stillWaits
      · rw [if_neg waits, present]
        exact ⟨_, rfl, by rw [if_neg isChild], by rw [if_pos ⟨isChild, isWaited⟩], rfl, rfl,
          id, id, fun stillWaits => absurd stillWaits waits⟩
    · rw [if_neg isWaited]
      exact ⟨task, present, by rw [if_neg isChild], by rw [if_neg (by simp [isWaited])], rfl,
        rfl, id, id, fun waits => ⟨waits, .inr isWaited⟩⟩

theorem adoptOne_none (s : Kernel) (empty : s.tasks pid = none) : s.adoptOne pid = s := by
  unfold adoptOne
  rw [empty]

/-- The last loop of `sys_exit`. -/
theorem adopt_tasks (pids : List Nat) (nodup : pids.Nodup) {dying grand : Nat}
    (isCurrent : s.current = dying)
    (parent : ∃ task, s.tasks dying = some task ∧ task.ppid = grand) :
    (pids.foldl adoptOne s).current = dying ∧
      ∀ pid, (s.tasks pid = none → (pids.foldl adoptOne s).tasks pid = none) ∧
        ∀ task, s.tasks pid = some task →
          ∃ later, (pids.foldl adoptOne s).tasks pid = some later ∧
            (pid ∈ pids → Adopted dying grand task later) ∧
            (pid ∉ pids → later = task) := by
  induction pids generalizing s with
  | nil =>
      exact ⟨isCurrent, fun pid => ⟨id, fun task present =>
        ⟨task, present, by simp, fun _ => rfl⟩⟩⟩
  | cons first rest inductionHypothesis =>
      obtain ⟨notInRest, nodupRest⟩ := List.nodup_cons.mp nodup
      obtain ⟨dyingTask, presentDying, isGrand⟩ := parent
      subst isCurrent
      have parentAfter : ∃ task, (s.adoptOne first).tasks s.current = some task ∧
          task.ppid = grand := by
        by_cases same : s.current = first
        · obtain ⟨later, found, adopted⟩ := adoptOne_self s presentDying presentDying
          refine ⟨later, by rw [← same]; exact found, ?_⟩
          rw [adopted.ppid]
          split <;> exact isGrand
        · exact ⟨dyingTask, by rw [adoptOne_other s same]; exact presentDying, isGrand⟩
      obtain ⟨current, tasks⟩ := inductionHypothesis nodupRest
        (adoptOne_current s first) parentAfter
      refine ⟨current, fun pid => ⟨fun empty => ?none, fun task present => ?some⟩⟩
      case none =>
        refine (tasks pid).1 ?_
        by_cases same : pid = first
        · rw [← same, adoptOne_none s empty]
          exact empty
        · rw [adoptOne_other s same]
          exact empty
      case some =>
        by_cases same : pid = first
        · subst same
          obtain ⟨later, found, adopted⟩ := adoptOne_self s presentDying present
          obtain ⟨last, foundLast, _, unchanged⟩ := (tasks pid).2 later found
          rw [isGrand] at adopted
          exact ⟨last, foundLast, fun _ => unchanged notInRest ▸ adopted, by simp⟩
        · obtain ⟨later, found, adopted, unchanged⟩ := (tasks pid).2 task
            (by rw [adoptOne_other s same]; exact present)
          refine ⟨later, found, fun mem => adopted ?_, fun notMem => unchanged ?_⟩
          · exact (List.mem_cons.mp mem).resolve_left same
          · exact fun mem => notMem (List.mem_cons_of_mem first mem)

/-- The tasks behind the last loop of an exit. -/
theorem Forest.adopted (forest : s.Forest) {dying : Task}
    (isDying : s.tasks s.current = some dying)
    (ran : s.exec .adopt = .ok after) :
    after.current = s.current ∧
      (∀ pid task, s.tasks pid = some task → ∃ later, after.tasks pid = some later ∧
        Adopted s.current dying.ppid task later) ∧
      ∀ pid later, after.tasks pid = some later → ∃ task, s.tasks pid = some task ∧
        Adopted s.current dying.ppid task later := by
  rw [Kernel.exec] at ran
  cases ran
  obtain ⟨current, tasks⟩ := adopt_tasks (List.range taskNr) List.nodup_range rfl
    ⟨dying, isDying, rfl⟩
  have kept (pid : Nat) (task : Task) (present : s.tasks pid = some task) :
      ∃ later, ((List.range taskNr).foldl adoptOne s).tasks pid = some later ∧
        Adopted s.current dying.ppid task later := by
    obtain ⟨later, found, adopted, _⟩ := (tasks pid).2 task present
    exact ⟨later, found, adopted (List.mem_range.mpr (forest.slots pid task present))⟩
  refine ⟨current, kept, fun pid later found => ?_⟩
  cases present : s.tasks pid with
  | none =>
      rw [(tasks pid).1 present] at found
      cases found
  | some task =>
      obtain ⟨last, foundLast, adopted⟩ := kept pid task present
      rw [found] at foundLast
      cases foundLast
      exact ⟨task, rfl, adopted⟩

theorem Forest.adopt (forest : s.Forest) (ran : s.exec .adopt = .ok after) :
    after.Forest := by
  obtain ⟨dying, isDying⟩ := Option.isSome_iff_exists.mp forest.present
  obtain ⟨current, kept, before⟩ := forest.adopted isDying ran
  have atRoot : s.current ≤ 1 → dying.ppid ≤ 1 := by
    intro isRoot
    obtain ⟨task, present, _, ppid⟩ := forest.roots s.current isRoot
    rw [isDying] at present
    cases present
    exact ppid
  refine ⟨?slots, ?roots, ?rooted, ?present, ?idle, ?begins⟩
  case slots =>
    intro pid later found
    obtain ⟨task, present, _⟩ := before pid later found
    exact forest.slots pid task present
  case roots =>
    intro pid isRoot
    obtain ⟨task, present, lives, ppid⟩ := forest.roots pid isRoot
    obtain ⟨later, found, adopted⟩ := kept pid task present
    refine ⟨later, found, fun dead => lives (adopted.dies dead), ?_⟩
    rw [adopted.ppid]
    split
    · rename_i isChild
      exact atRoot (isChild ▸ ppid)
    · exact ppid
  case rooted =>
    intro pid later found
    obtain ⟨task, present, _⟩ := before pid later found
    have isGrand : s.parent s.current = some dying.ppid := by
      unfold Kernel.parent
      rw [isDying]
      rfl
    refine (forest.rooted pid task present).adopt isGrand atRoot ?_
    · intro node up isParent
      obtain ⟨child, foundChild, rfl⟩ := Option.map_eq_some_iff.mp isParent
      obtain ⟨childLater, foundLater, adopted⟩ := kept node child foundChild
      unfold Kernel.parent
      rw [foundLater, Option.map_some, adopted.ppid]
  case present =>
    obtain ⟨later, found, _⟩ := kept s.current dying isDying
    rw [current, found]
    rfl
  case idle =>
    intro later found
    obtain ⟨task, present, adopted⟩ := before 0 later found
    rw [adopted.pending]
    exact forest.idle task present
  case begins =>
    intro pid later found
    obtain ⟨task, present, adopted⟩ := before pid later found
    rw [adopted.pending]
    exact forest.begins pid task present

/-- The end of an exit but for the call of `schedule`. -/
theorem Tree.adopt (tree : s.Tree) (pending : s.pending = .adopt :: rest)
    (ran : (s.setPending rest).exec .adopt = .ok after) : after.Tree := by
  obtain ⟨dying, isDying, ops, isNext⟩ := present_of_pending pending
  have forest := tree.forest.next pending
  obtain ⟨current, kept, before⟩ := forest.adopted isNext ran
  have dead (pid : Nat) (isDead : after.Dead pid) : s.Dead pid := by
    obtain ⟨later, found, deadLater⟩ := isDead
    obtain ⟨task, present, adopted⟩ := before pid later found
    obtain ⟨first, foundFirst, state, _⟩ := of_setPending present
    exact ⟨first, foundFirst, state ▸ adopted.dies deadLater⟩
  refine ⟨forest.adopt ran, ?grown, ?awake, ?exits⟩
  case grown =>
    intro pid child notRoot found ended
    obtain ⟨task, present, adopted⟩ := before pid child found
    obtain ⟨first, foundFirst, _, ppid, _⟩ := of_setPending present
    obtain ⟨parent, foundParent, isDead⟩ := dead _ ended.dead
    have isPpid := adopted.ppid
    change child.ppid = if task.ppid = s.current then dying.ppid else task.ppid at isPpid
    by_cases isChild : task.ppid = s.current
    · rw [if_pos isChild] at isPpid
      rw [isPpid] at foundParent
      by_cases isRoot : s.current ≤ 1
      · obtain ⟨root, foundRoot, _, rootPpid⟩ := tree.forest.roots s.current isRoot
        rw [isDying] at foundRoot
        cases foundRoot
        obtain ⟨grand, foundGrand, lives, _⟩ := tree.forest.roots dying.ppid rootPpid
        rw [foundParent] at foundGrand
        cases foundGrand
        exact lives isDead
      · refine tree.grown s.current dying (by omega) isDying ⟨parent, foundParent, isDead, ?_⟩
        rintro ⟨same, _⟩
        refine (tree.forest.rooted s.current dying isDying).ne_parent isRoot ?_
        unfold Kernel.parent
        rw [isDying, Option.map_some, same]
    · rw [if_neg isChild] at isPpid
      rw [isPpid] at foundParent
      refine tree.grown pid first notRoot foundFirst ?_
      rw [← ppid]
      exact ⟨parent, foundParent, isDead, fun departing => isChild departing.1⟩
  case awake =>
    intro later found waits
    rw [current] at found
    obtain ⟨task, present, adopted⟩ := before _ later found
    obtain ⟨first, foundFirst, state, _⟩ := of_setPending present
    exact tree.awake first foundFirst (state ▸ (adopted.waits waits).1)
  case exits =>
    intro later found isDead
    rw [current] at found
    obtain ⟨task, present, adopted⟩ := before _ later found
    change (s.setPending rest).tasks s.current = some task at present
    rw [isNext] at present
    cases present
    have diesBefore : dying.state = .dead := adopted.dies isDead
    rw [adopted.pending]
    rcases (tree.dying pending isDying diesBefore).2 with leaving | ⟨isYield, _⟩
    · cases leaving with
      | quick quick _ => cases quick
      | last => exact .inr rfl
    · cases isYield

/-! ## Runs -/

theorem Tree.alive_of_outside (tree : s.Tree) (outside : s.pending = []) : s.Alive := by
  intro task present dead
  unfold Kernel.pending at outside
  rw [present] at outside
  have nothing : task.pending = [] := outside
  rcases tree.exits task present dead with leaving | last
  · rw [nothing] at leaving
    cases leaving
  · rw [nothing] at last
    cases last

/-- A step that is not an operation of the current task, which is outside the kernel. -/
theorem Tree.passes {moved : Nat → Prop} (tree : s.Tree) (outside : s.pending = [])
    (passes : Passes moved s after) : after.Tree := by
  have alive := tree.alive_of_outside outside
  refine ⟨tree.forest.passes passes, ?grown, ?awake, ?exits⟩
  case grown =>
    intro pid task notRoot found ended
    obtain ⟨before, present, resembles⟩ := passes.before found
    obtain ⟨parent, foundParent, dead⟩ := ended.dead
    obtain ⟨parentBefore, presentParent, resemblesParent⟩ := passes.before foundParent
    rw [resembles.ppid] at presentParent
    exact tree.grown pid before notRoot present
      (alive.ended ⟨parentBefore, presentParent, resemblesParent.dies dead⟩)
  case awake =>
    intro task found waits
    rcases passes.switch with stays | ⟨next, foundNext, _, notWaiting⟩
    · rw [stays] at found
      obtain ⟨before, present, resembles⟩ := passes.before found
      exact tree.awake before present (resembles.waits waits)
    · rw [found] at foundNext
      cases foundNext
      exact notWaiting waits
  case exits =>
    intro task found dead
    rcases passes.switch with stays | ⟨next, foundNext, notDead, _⟩
    · rw [stays] at found
      obtain ⟨before, present, resembles⟩ := passes.before found
      exact absurd (resembles.dies dead) (alive before present)
    · rw [found] at foundNext
      cases foundNext
      exact absurd dead notDead

/-- The current task enters the kernel. -/
theorem Tree.call (tree : s.Tree) (alive : s.Alive) (call : Call)
    (idle : s.current ≠ 0 ∨ call = .yield) : (s.setPending call.ops).Tree := by
  have forest : (s.setPending call.ops).Forest := by
    refine tree.forest.repend (fun _ => call.ops) ?_ fun _ _ => call.proper
    intro isIdle _ _ op mem
    rw [idle.resolve_left fun notIdle => notIdle isIdle] at mem
    exact List.mem_singleton.mp mem
  exact (tree.setPending alive forest).1

/-- The current task runs its next operation. -/
theorem Tree.run (tree : s.Tree) (pending : s.pending = op :: rest)
    (ran : (s.setPending rest).exec op = .ok after) : after.Tree := by
  obtain ⟨task, present, ops, presentNext⟩ := present_of_pending pending
  have proper := tree.forest.begins s.current task present
  rw [ops] at proper
  have alone (current : Task)
      (found : (s.setPending rest).tasks (s.setPending rest).current = some current) :
      current.pending = rest := by
    rw [show (s.setPending rest).tasks (s.setPending rest).current = _ from presentNext]
      at found
    cases found
    rfl
  have notIdle (notYield : op ≠ .yield) : s.current ≠ 0 := by
    intro isIdle
    refine notYield (tree.forest.idle task (isIdle ▸ present) op ?_)
    rw [ops]
    exact List.mem_cons_self
  cases unrelated : op.isFamily with
  | false => exact tree.exec pending unrelated ran
  | true =>
      cases op with
      | fork =>
          have alive := tree.alive pending rfl (by simp) (by simp) (by simp)
          obtain ⟨next, aliveNext⟩ := tree.next alive pending
          exact next.fork aliveNext ran
      | wait asked =>
          have alive := tree.alive pending rfl (by simp) (by simp) (by simp)
          obtain ⟨next, aliveNext⟩ := tree.next alive pending
          refine next.wait aliveNext (notIdle (by simp)) (fun current found => ?_) ran
          rw [alone current found]
          exact proper.tail
      | enterUser =>
          have alive := tree.alive pending rfl (by simp) (by simp) (by simp)
          obtain ⟨next, aliveNext⟩ := tree.next alive pending
          exact next.enterUser aliveNext ran
      | die status =>
          have alive := tree.alive pending rfl (by simp) (by simp) (by simp)
          obtain ⟨next, aliveNext⟩ := tree.next alive pending
          refine next.die aliveNext (fun current found => ?_) ran
          rw [alone current found]
          rcases proper with dieFree | ⟨_, _, same, _, leaving⟩
          · exact absurd List.mem_cons_self (dieFree status)
          · cases same
            exact leaving
      | adopt => exact tree.adopt pending ran
      | _ => cases unrelated

/-- A step keeps the tasks in trees. -/
theorem Tree.step (tree : s.Tree) {label : Label} (taken : s.step label = .ok after) :
    after.Tree := by
  cases taken_of_step taken with
  | call outside enters => exact tree.call (tree.alive_of_outside outside) _ enters
  | run pending ran => exact tree.run pending ran
  | tick outside ticked => exact tree.passes outside (Passes.clockHandler ticked)
  | interrupt outside roused => exact tree.passes outside (Passes.rouse roused)
  | @strike pid outside =>
      have passes : Passes (fun _ => False) s (s.kill pid sigInt) := Passes.kill s pid sigInt
      exact tree.passes outside passes

theorem Tree.boot : Kernel.boot.Tree := by
  have isRoot (pid : Nat) (task : Task) (present : Kernel.boot.tasks pid = some task) :
      pid ≤ 1 ∧ task.state = .ready ∧ task.ppid = 0 ∧ task.pending = [] := by
    dsimp only [Kernel.boot] at present
    split at present
    · rename_i isIdle
      cases present
      exact ⟨by omega, rfl, rfl, rfl⟩
    · split at present
      · rename_i isInit
        cases present
        exact ⟨by omega, rfl, rfl, rfl⟩
      · cases present
  refine ⟨⟨?slots, ?roots, ?rooted, rfl, ?idle, ?begins⟩, ?grown, ?awake, ?exits⟩
  case slots =>
    intro pid task present
    have := (isRoot pid task present).1
    change pid < 64
    omega
  case roots =>
    intro pid atRoot
    have cases : pid = 0 ∨ pid = 1 := by omega
    rcases cases with rfl | rfl
    · exact ⟨_, rfl, by simp, Nat.zero_le 1⟩
    · exact ⟨_, rfl, by simp, Nat.zero_le 1⟩
  case rooted => exact fun pid task present => .root (isRoot pid task present).1
  case idle =>
    intro task present op mem
    rw [(isRoot 0 task present).2.2.2] at mem
    cases mem
  case begins =>
    intro pid task present
    rw [(isRoot pid task present).2.2.2]
    exact .inl (by simp [DieFree])
  case grown =>
    intro pid task notRoot present
    have := (isRoot pid task present).1
    omega
  case awake =>
    intro task present
    rw [(isRoot _ task present).2.1]
    decide
  case exits =>
    intro task present dead
    rw [(isRoot _ task present).2.1] at dead
    cases dead

theorem tree_of_reachable {allowed : Kernel → Label → Prop}
    (reached : system.ReachableWithin allowed s) : s.Tree :=
  reached.invariant Tree (by rintro s rfl; exact Tree.boot)
    fun _ _ _ tree _ taken => tree.step taken

/-! ## The process tree -/

/-- Every task other than idle and init has a parent that is present and not dead, and
no dead task has children. -/
structure FamilyTree (s : Kernel) : Prop where
  parent : ∀ pid task, 2 ≤ pid → s.tasks pid = some task →
    ∃ parent, s.tasks task.ppid = some parent ∧ parent.state ≠ .dead
  childless : ∀ dead, s.Dead dead →
    ∀ pid task, 2 ≤ pid → s.tasks pid = some task → task.ppid ≠ dead

theorem Tree.parent_present (tree : s.Tree) (notRoot : 2 ≤ pid)
    (present : s.tasks pid = some task) : ∃ parent, s.tasks task.ppid = some parent := by
  have rooted := tree.forest.rooted pid task present
  have isSome : (s.parent task.ppid).isSome := by
    cases rooted with
    | root isRoot => omega
    | child isParent rooted =>
        unfold Kernel.parent at isParent
        rw [present] at isParent
        cases isParent
        refine rooted.present fun root isRoot => ?_
        obtain ⟨task, found, _⟩ := tree.forest.roots root isRoot
        unfold Kernel.parent
        rw [found]
        rfl
  unfold Kernel.parent at isSome
  rw [Option.isSome_map] at isSome
  exact Option.isSome_iff_exists.mp isSome

theorem Tree.familyTree (tree : s.Tree) (outside : s.pending = []) : s.FamilyTree := by
  have alive := tree.alive_of_outside outside
  refine ⟨?parent, ?childless⟩
  case parent =>
    intro pid task notRoot present
    obtain ⟨parent, found⟩ := tree.parent_present notRoot present
    exact ⟨parent, found, fun dead => tree.grown pid task notRoot present
      (alive.ended ⟨parent, found, dead⟩)⟩
  case childless =>
    rintro dead isDead pid task notRoot present rfl
    exact tree.grown pid task notRoot present (alive.ended isDead)

/-- `task_tell_father` finds the father. -/
theorem Tree.tellFather_ok (tree : s.Tree) (pending : s.pending = .tellFather :: rest) :
    s.step .run = .ok (s.setPending rest) := by
  obtain ⟨task, present, _, presentNext⟩ := present_of_pending pending
  have hasParent : ∃ parent, s.tasks task.ppid = some parent := by
    by_cases isRoot : s.current ≤ 1
    · obtain ⟨root, foundRoot, _, atRoot⟩ := tree.forest.roots s.current isRoot
      rw [present] at foundRoot
      cases foundRoot
      obtain ⟨parent, found, _⟩ := tree.forest.roots task.ppid atRoot
      exact ⟨parent, found⟩
    · exact tree.parent_present (by omega) present
  obtain ⟨parent, found⟩ := hasParent
  have parentNext : ((s.setPending rest).tasks task.ppid).isSome := by
    unfold Kernel.setPending
    rw [modify_tasks]
    split
    · rw [Option.isSome_map, found]
      rfl
    · rw [found]
      rfl
  have small := tree.forest.slots _ parent found
  rw [Kernel.step, pending]
  dsimp only
  rw [Kernel.exec, if_neg]
  rw [show (s.setPending rest).tasks (s.setPending rest).current = _ from presentNext]
  intro orphan
  simp only [Option.any_some, decide_eq_true_eq] at orphan
  rw [orphan.2 small] at parentNext
  cases parentNext

/-- In every run the tasks are in a tree whenever the current one is outside the kernel,
and an exit finds the father of its task. -/
theorem familyTree_of_reachable (s : Kernel) (reached : system.Reachable s) :
    (s.pending = [] → s.FamilyTree) ∧
      ∀ rest, s.pending = .tellFather :: rest → ∃ after, s.step .run = .ok after := by
  have tree := tree_of_reachable reached
  exact ⟨tree.familyTree, fun rest pending => ⟨_, tree.tellFather_ok pending⟩⟩

/-- A child of init forks and exits. -/
def orphanedGrandchild : List Label :=
  does .yield 1 ++ does (.work [.enterUser]) 1 ++ does .fork 1 ++ does .yield 1 ++
    does .fork 1 ++ does (.exit 0 [] []) 5

/-- The grandchild of init has become its child. -/
theorem familyTree_of_reachable_orphan :
    ∃ s, system.Reachable s ∧ s.Dead 2 ∧ s.parent 3 = some 1 ∧ s.FamilyTree := by
  obtain ⟨final, reached, ends⟩ := System.ReachableWithin.extend_run system
    (fun _ _ => True) Kernel.step (fun _ _ _ taken => ⟨trivial, taken⟩) orphanedGrandchild
    (fun final => decide (final.pending = [] ∧ final.parent 3 = some 1) &&
      (final.tasks 2).any fun task : Task => decide (task.state = TaskState.dead))
    (.initial rfl) (by decide +kernel)
  rw [Bool.and_eq_true, Option.any_eq_true] at ends
  obtain ⟨shape, task, found, dead⟩ := ends
  obtain ⟨outside, adopted⟩ := of_decide_eq_true shape
  exact ⟨final, reached, ⟨task, found, of_decide_eq_true dead⟩, adopted,
    (familyTree_of_reachable final reached).1 outside⟩

end Kernel
end Sched
end LightOS
