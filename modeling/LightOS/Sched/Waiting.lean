import LightOS.Sched.Children

/-!
# Waiting for children

`sys_waitpid` looks at the child in the lowest slot, whichever one it was asked for.
It does what it should as long as that is the child that was asked for, or neither of
the two is dead.
-/

namespace LightOS
namespace Sched
namespace Kernel

variable {asked pid : Nat} {rest : List Op} {s after : Kernel} {task : Task}

/-- A task is a child of the current one. -/
def IsChild (s : Kernel) (pid : Nat) : Prop :=
  2 ≤ pid ∧ ∃ task, s.tasks pid = some task ∧ task.ppid = s.current

/-- A round of `sys_waitpid` for a child blocks only while the child is not dead, and
otherwise it reaps the child and returns its `pid` and its status. -/
def RoundRight (s : Kernel) (asked : Nat) : Prop :=
  match s.round with
  | .childless => False
  | .reaps child status =>
      child = asked ∧ ∃ task, s.tasks asked = some task ∧ task.status = status
  | .blocks => ¬s.Dead asked

/-- The child is the one in the lowest slot, or neither of the two is dead. -/
def First (s : Kernel) (asked : Nat) : Prop :=
  s.child = some asked ∨
    ¬s.Dead asked ∧ ∀ first, s.child = some first → ¬s.Dead first

/-- A task with a child finds one. -/
theorem Forest.child_isSome (forest : s.Forest) (isChild : s.IsChild pid) :
    ∃ first, s.child = some first := by
  obtain ⟨notRoot, task, present, ppid⟩ := isChild
  rw [← Option.isSome_iff_exists]
  unfold child
  rw [List.find?_isSome]
  refine ⟨pid, List.mem_range.mpr (forest.slots pid task present), ?_⟩
  rw [present]
  simp [notRoot, ppid]

theorem round_eq {first : Nat} (isFirst : s.child = some first)
    (present : s.tasks first = some task) :
    s.round = if task.state = .dead then .reaps first task.status else .blocks := by
  unfold round
  rw [isFirst, Option.bind_some, present, Option.map_some]

/-- A round for a child is right exactly when the child is the first one, or neither of
the two is dead. -/
theorem Forest.roundRight_iff (forest : s.Forest) (isChild : s.IsChild asked) :
    s.RoundRight asked ↔ s.First asked := by
  obtain ⟨first, isFirst⟩ := forest.child_isSome isChild
  obtain ⟨_, task, present, _⟩ := child_eq isFirst
  unfold RoundRight First
  rw [round_eq isFirst present]
  by_cases dead : task.state = .dead
  · rw [if_pos dead]
    dsimp only
    have isDead : s.Dead first := ⟨task, present, dead⟩
    refine ⟨fun right => .inl (by rw [isFirst, right.1]), fun right => ?_⟩
    rcases right with same | ⟨_, lives⟩
    · rw [isFirst] at same
      cases same
      exact ⟨rfl, task, present, rfl⟩
    · exact absurd isDead (lives first isFirst)
  · rw [if_neg dead]
    dsimp only
    have lives : ¬s.Dead first := by
      rintro ⟨other, found, isDead⟩
      rw [present] at found
      cases found
      exact dead isDead
    refine ⟨fun right => .inr ⟨right, fun other isOther => ?_⟩, fun right => ?_⟩
    · rw [isFirst] at isOther
      cases isOther
      exact lives
    · rcases right with same | ⟨notDead, _⟩
      · rw [isFirst] at same
        cases same
        exact lives
      · exact notDead

/-! ## Parents that wait -/

/-- No task waits for a child of its own that is dead. -/
def NoForgotten (s : Kernel) : Prop :=
  ∀ pid task child, s.tasks pid = some task → task.state = .waiting →
    s.tasks task.waitpid = some child → child.ppid = pid → child.state ≠ .dead

/-- A task that waits does so for a child of its own, which has not ended its exit. -/
def Watched (s : Kernel) : Prop :=
  ∀ pid task, s.tasks pid = some task → task.state = .waiting →
    2 ≤ task.waitpid ∧ (∃ child, s.tasks task.waitpid = some child ∧ child.ppid = pid) ∧
      ¬s.Ended task.waitpid

/-- What a step has to keep of a task that waits. -/
theorem Watched.of (watched : s.Watched)
    (kept : ∀ pid later, after.tasks pid = some later → later.state = .waiting →
      ∃ task, s.tasks pid = some task ∧ task.state = .waiting ∧
        later.waitpid = task.waitpid ∧
        ∀ child, 2 ≤ task.waitpid → s.tasks task.waitpid = some child → child.ppid = pid →
          ¬s.Ended task.waitpid →
            (∃ childLater, after.tasks task.waitpid = some childLater ∧
              childLater.ppid = pid) ∧ ¬after.Ended task.waitpid) : after.Watched := by
  intro pid later found waits
  obtain ⟨task, present, waited, waitpid, keeps⟩ := kept pid later found waits
  obtain ⟨notRoot, ⟨child, isChild, ppid⟩, notEnded⟩ := watched pid task present waited
  rw [waitpid]
  obtain ⟨childAfter, notEndedAfter⟩ := keeps child notRoot isChild ppid notEnded
  exact ⟨notRoot, childAfter, notEndedAfter⟩

/-- A step that is no operation of the current task. -/
theorem Watched.passes {moved : Nat → Prop} (watched : s.Watched) (alive : s.Alive)
    (passes : Passes moved s after) : after.Watched := by
  refine watched.of fun pid later found waits => ?_
  obtain ⟨task, present, resembles⟩ := passes.before found
  refine ⟨task, present, resembles.waits waits, resembles.waitpid,
    fun child _ isChild ppid notEnded => ⟨?child, fun ended => notEnded ?ended⟩⟩
  case child =>
    obtain ⟨childLater, foundChild, childResembles⟩ := passes.kept _ child isChild
    exact ⟨childLater, foundChild, childResembles.ppid.trans ppid⟩
  case ended =>
    obtain ⟨childLater, foundChild, dead⟩ := ended.dead
    obtain ⟨childBefore, presentChild, childResembles⟩ := passes.before foundChild
    exact alive.ended ⟨childBefore, presentChild, childResembles.dies dead⟩

/-- Taking up the next operation. -/
theorem Watched.setPending (watched : s.Watched) (alive : s.Alive) (ops : List Op) :
    (s.setPending ops).Watched := by
  refine watched.of fun pid later found waits => ?_
  obtain ⟨task, present, state, _, waitpid, _⟩ := of_setPending found
  refine ⟨task, present, state ▸ waits, waitpid,
    fun child _ isChild ppid notEnded => ⟨?child, fun ended => notEnded ?ended⟩⟩
  case child =>
    unfold Kernel.setPending
    rw [modify_tasks, isChild]
    split
    · exact ⟨_, rfl, ppid⟩
    · exact ⟨child, rfl, ppid⟩
  case ended =>
    obtain ⟨childLater, foundChild, dead⟩ := ended.dead
    obtain ⟨childBefore, presentChild, sameState, _⟩ := of_setPending foundChild
    exact alive.ended ⟨childBefore, presentChild, sameState ▸ dead⟩

/-- An operation that is not about parents and children. -/
theorem Watched.exec (watched : s.Watched) (tree : s.Tree) {op : Op}
    (pending : s.pending = op :: rest) (unrelated : op.isFamily = false)
    (ran : (s.setPending rest).exec op = .ok after) : after.Watched := by
  refine watched.of fun pid later found waits => ?_
  obtain ⟨task, present, _, waitpid, _, waited⟩ := before_exec unrelated ran found
  refine ⟨task, present, waited waits, waitpid,
    fun child _ isChild ppid notEnded => ⟨?child, fun ended => notEnded ?ended⟩⟩
  case child =>
    have passes := Passes.exec unrelated ran
    have pushed : ∃ next, ((s.setPending rest).push ((s.setPending rest).pushes op)).tasks
        task.waitpid = some next ∧ next.ppid = child.ppid := by
      unfold push Kernel.setPending
      rw [modify_tasks, modify_tasks, isChild]
      split
      · split <;> exact ⟨_, rfl, rfl⟩
      · split <;> exact ⟨_, rfl, rfl⟩
    obtain ⟨next, foundNext, same⟩ := pushed
    obtain ⟨childLater, foundChild, resembles⟩ := passes.kept _ next foundNext
    exact ⟨childLater, foundChild, (resembles.ppid.trans same).trans ppid⟩
  case ended => exact tree.ended_of_exec pending unrelated ran ended

theorem Watched.fork (watched : s.Watched) (alive : s.Alive) (ran : s.fork = .ok after) :
    after.Watched := by
  obtain ⟨tasks, rfl, kept, before⟩ := fork_spec ran
  refine watched.of fun pid later found waits => ?_
  rcases before pid later found with ⟨ready, _⟩ | present
  · rw [ready] at waits
    cases waits
  · refine ⟨later, present, waits, rfl,
      fun child _ isChild ppid notEnded => ⟨⟨child, ?child, ppid⟩, fun ended => notEnded ?ended⟩⟩
    case child => exact kept _ child isChild
    case ended =>
      obtain ⟨childLater, foundChild, dead⟩ := ended.dead
      rcases before _ childLater foundChild with ⟨ready, _⟩ | presentChild
      · rw [ready] at dead
        cases dead
      · exact alive.ended ⟨childLater, presentChild, dead⟩

theorem Watched.reap (watched : s.Watched) (tree : s.Tree) (alive : s.Alive) {status : Nat}
    (round : s.round = .reaps pid status) :
    { s with tasks := Function.update s.tasks pid none }.Watched := by
  obtain ⟨reaped, isChild, presentReaped, _⟩ := reaps_of_round round
  obtain ⟨_, other, presentOther, ppidReaped⟩ := child_eq isChild
  rw [presentReaped] at presentOther
  cases presentOther
  refine watched.of fun parent later found waits => ?_
  have present := (of_update_none found).2
  refine ⟨later, present, waits, rfl,
    fun child _ foundChild ppid notEnded => ⟨⟨child, ?child, ppid⟩, fun ended => notEnded ?ended⟩⟩
  case child =>
    dsimp only
    rw [Function.update_of_ne]
    · exact foundChild
    · intro same
      rw [same, presentReaped] at foundChild
      cases foundChild
      rw [ppid] at ppidReaped
      subst ppidReaped
      exact tree.awake later present waits
  case ended =>
    obtain ⟨childLater, foundLater, dead⟩ := ended.dead
    exact alive.ended ⟨childLater, (of_update_none foundLater).2, dead⟩

/-- The current task waits for a child that is not dead. -/
theorem Watched.waits (watched : s.Watched) (alive : s.Alive) (isChild : s.IsChild asked)
    (notDead : ¬s.Dead asked) : (s.modify s.current (waits asked)).Watched := by
  have before (pid : Nat) (later : Task)
      (found : (s.modify s.current (Kernel.waits asked)).tasks pid = some later) :
      pid = s.current ∧ later.waitpid = asked ∧ later.state = .waiting ∨
        s.tasks pid = some later := by
    rw [modify_tasks] at found
    split at found
    · obtain ⟨task, _, rfl⟩ := Option.map_eq_some_iff.mp found
      exact .inl ⟨‹_›, rfl, rfl⟩
    · exact .inr found
  have ended (pid : Nat) (isEnded : (s.modify s.current (Kernel.waits asked)).Ended pid) :
      s.Dead pid := by
    obtain ⟨later, found, dead⟩ := isEnded.dead
    rcases before pid later found with ⟨_, _, waits⟩ | present
    · rw [waits] at dead
      cases dead
    · exact ⟨later, present, dead⟩
  have kept (pid : Nat) (child : Task) (present : s.tasks pid = some child) :
      ∃ later, (s.modify s.current (Kernel.waits asked)).tasks pid = some later ∧
        later.ppid = child.ppid := by
    rw [modify_tasks, present]
    split
    · exact ⟨_, rfl, rfl⟩
    · exact ⟨child, rfl, rfl⟩
  intro pid later found waits
  rcases before pid later found with ⟨rfl, waitpid, _⟩ | present
  · obtain ⟨notRoot, child, presentChild, ppid⟩ := isChild
    obtain ⟨childLater, foundChild, same⟩ := kept asked child presentChild
    rw [waitpid]
    exact ⟨notRoot, ⟨childLater, foundChild, same.trans ppid⟩,
      fun isEnded => notDead (ended asked isEnded)⟩
  · obtain ⟨notRoot, ⟨child, presentChild, ppid⟩, notEnded⟩ := watched pid later present waits
    obtain ⟨childLater, foundChild, same⟩ := kept _ child presentChild
    exact ⟨notRoot, ⟨childLater, foundChild, same.trans ppid⟩,
      fun isEnded => notEnded (alive.ended (ended _ isEnded))⟩

/-- The child that is asked for is the first one, or neither of the two is dead; a task
that asks for no child of its own has no first child that lives. -/
def Asks (s : Kernel) (asked : Nat) : Prop :=
  (s.IsChild asked → s.First asked) ∧
    (¬s.IsChild asked → ∀ first, s.child = some first → s.Dead first)

/-- A round that blocks has found a child that lives. -/
theorem lives_of_round (round : s.round = .blocks) :
    ∃ first, s.child = some first ∧ ¬s.Dead first := by
  cases isFirst : s.child with
  | none =>
      unfold Kernel.round at round
      rw [isFirst] at round
      cases round
  | some first =>
      obtain ⟨_, task, present, _⟩ := child_eq isFirst
      rw [round_eq isFirst present] at round
      refine ⟨first, rfl, ?_⟩
      rintro ⟨other, found, dead⟩
      rw [present] at found
      cases found
      rw [if_pos dead] at round
      cases round

theorem Watched.wait (watched : s.Watched) (tree : s.Tree) (alive : s.Alive) (asks : s.Asks asked)
    (ran : s.wait asked = .ok after) : after.Watched := by
  cases round : s.round with
  | childless =>
      unfold Kernel.wait at ran
      rw [round] at ran
      cases ran
      exact watched
  | reaps child status =>
      unfold Kernel.wait at ran
      rw [round] at ran
      cases ran
      exact watched.reap tree alive round
  | blocks =>
      have isChild : s.IsChild asked := by
        by_contra notChild
        obtain ⟨first, isFirst, lives⟩ := lives_of_round round
        exact lives (asks.2 notChild first isFirst)
      have right := (tree.forest.roundRight_iff isChild).mpr (asks.1 isChild)
      unfold RoundRight at right
      rw [round] at right
      have waiting := watched.waits alive isChild right
      have scheduled := wait_blocks round ran
      have passes : Passes (fun _ => True) _ after := Passes.schedule scheduled
      refine waiting.passes (fun task found dead => ?_) passes
      rw [modify_current, modify_tasks, if_pos rfl] at found
      obtain ⟨_, _, rfl⟩ := Option.map_eq_some_iff.mp found
      cases dead

/-- A change of the current task that puts at most the task itself into an exit. -/
theorem Watched.modify (watched : s.Watched) (alive : s.Alive) (change : Task → Task)
    (waitpid : ∀ task, (change task).waitpid = task.waitpid)
    (waits : ∀ task, (change task).state = .waiting → task.state = .waiting)
    (ppid : 2 ≤ s.current → ∀ task, (change task).ppid = task.ppid)
    (ended : ∀ task, s.tasks s.current = some task → (change task).state = .dead →
      task.state = .dead ∨ Leaving (change task).pending) :
    (s.modify s.current change).Watched := by
  refine watched.of fun pid later found waitsLater => ?_
  have before : ∃ task, s.tasks pid = some task ∧ task.state = .waiting ∧
      later.waitpid = task.waitpid := by
    rw [modify_tasks] at found
    split at found
    · obtain ⟨task, present, rfl⟩ := Option.map_eq_some_iff.mp found
      exact ⟨task, present, waits task waitsLater, waitpid task⟩
    · exact ⟨later, found, waitsLater, rfl⟩
  obtain ⟨task, present, waited, same⟩ := before
  refine ⟨task, present, waited, same,
    fun child notRoot isChild parent notEnded => ⟨?child, fun isEnded => notEnded ?ended⟩⟩
  case child =>
    rw [modify_tasks, isChild]
    split
    · rename_i isCurrent
      exact ⟨change child, rfl, (ppid (isCurrent ▸ notRoot) child).trans parent⟩
    · exact ⟨child, rfl, parent⟩
  case ended =>
    obtain ⟨childLater, foundChild, dead, notLeaving⟩ := isEnded
    rw [modify_tasks] at foundChild
    split at foundChild
    · rename_i isCurrent
      obtain ⟨childBefore, presentChild, rfl⟩ := Option.map_eq_some_iff.mp foundChild
      rw [isCurrent] at presentChild
      rcases ended childBefore presentChild dead with wasDead | leaving
      · exact absurd wasDead (alive childBefore presentChild)
      · exact absurd ⟨isCurrent, leaving⟩ notLeaving
    · exact alive.ended ⟨childLater, foundChild, dead⟩

/-- The last loop of an exit wakes a parent that waits for the task. -/
theorem Watched.adopt (watched : s.Watched) (tree : s.Tree) (pending : s.pending = .adopt :: rest)
    (ran : (s.setPending rest).exec .adopt = .ok after) : after.Watched := by
  obtain ⟨dying, isDying, _, isNext⟩ := present_of_pending pending
  have forest := tree.forest.next pending
  obtain ⟨_, kept, before⟩ := forest.adopted isNext ran
  refine watched.of fun pid later found waits => ?_
  obtain ⟨next, present, adopted⟩ := before pid later found
  obtain ⟨task, foundTask, state, taskPpid, taskWaitpid, _⟩ := of_setPending present
  obtain ⟨waited, spared⟩ := adopted.waits waits
  have sameWaitpid : later.waitpid = task.waitpid := by
    rw [adopted.waitpid, if_neg]
    · exact taskWaitpid
    · rintro ⟨notChild, isWaited⟩
      rcases spared with isChild | notWaited
      · exact notChild isChild
      · exact notWaited isWaited
  have waitedBefore : task.state = .waiting := state ▸ waited
  have apart : pid ≠ s.current := by
    rintro rfl
    exact tree.awake task foundTask waitedBefore
  refine ⟨task, foundTask, waitedBefore, sameWaitpid,
    fun child notRoot isChild ppid notEnded => ⟨?child, fun ended => ?ended⟩⟩
  case child =>
    have childNext : ∃ next, (s.setPending rest).tasks task.waitpid = some next ∧
        next.ppid = child.ppid := by
      unfold Kernel.setPending
      rw [modify_tasks, isChild]
      split
      · exact ⟨_, rfl, rfl⟩
      · exact ⟨child, rfl, rfl⟩
    obtain ⟨next, foundNext, nextPpid⟩ := childNext
    obtain ⟨childLater, foundChild, childAdopted⟩ := kept _ next foundNext
    refine ⟨childLater, foundChild, ?_⟩
    rw [childAdopted.ppid, nextPpid, ppid]
    exact if_neg apart
  case ended =>
    obtain ⟨childLater, foundChild, dead⟩ := ended.dead
    obtain ⟨childNext, presentNext, childAdopted⟩ := before _ childLater foundChild
    obtain ⟨childBefore, presentChild, childState, _⟩ := of_setPending presentNext
    rw [isChild] at presentChild
    cases presentChild
    have isDead : child.state = .dead := childState ▸ childAdopted.dies dead
    -- A dead child that has not ended its exit is the task itself, which would be the
    -- parent of its parent.
    by_cases same : task.waitpid = s.current
    · have notWaited : ¬next.waitpid ≠ s.current := by
        rw [taskWaitpid, same]
        simp
      have isParent : task.ppid = s.current := by
        rw [← taskPpid]
        exact spared.resolve_right notWaited
      rw [same] at isChild notRoot
      by_cases isRoot : pid ≤ 1
      · obtain ⟨root, foundRoot, _, rootPpid⟩ := tree.forest.roots pid isRoot
        rw [foundTask] at foundRoot
        cases foundRoot
        omega
      · have childParent : s.parent s.current = some pid := by
          unfold Kernel.parent
          rw [isChild, Option.map_some, ppid]
        refine (tree.forest.rooted s.current child isChild).not_mutual (by omega) isRoot
          childParent ?_
        unfold Kernel.parent
        rw [foundTask, Option.map_some, isParent]
    · exact notEnded ⟨child, isChild, isDead, fun departing => same departing.1⟩

/-! ## Runs -/

theorem isChild_setPending (ops : List Op) :
    (s.setPending ops).IsChild pid ↔ s.IsChild pid := by
  have same := any_setPending (s := s) pid ops (fun task => decide (task.ppid = s.current))
    fun _ => rfl
  have any (kernel : Kernel) : kernel.IsChild pid ↔ 2 ≤ pid ∧
      ((kernel.tasks pid).any fun task => decide (task.ppid = kernel.current)) = true := by
    rw [Option.any_eq_true]
    simp [IsChild]
  rw [any, any]
  change _ ∧ ((s.setPending ops).tasks pid).any (fun task => decide (task.ppid = s.current)) =
    true ↔ _
  rw [same]

theorem child_setPending (ops : List Op) : (s.setPending ops).child = s.child := by
  unfold child
  congr 1
  funext pid
  rw [any_setPending pid ops _ fun _ => rfl]
  rfl

theorem asks_setPending (ops : List Op) : (s.setPending ops).Asks asked ↔ s.Asks asked := by
  unfold Asks First
  rw [isChild_setPending, child_setPending, dead_setPending]
  simp only [dead_setPending]

/-- In a round of `sys_waitpid` the child that is asked for is the first one, or neither
of the two is dead; a caller that asks for another task has no first child that lives. -/
def AsksFirst (s : Kernel) : Label → Prop
  | .run => ∀ asked rest, s.pending = .wait asked :: rest → s.Asks asked
  | _ => True

theorem Watched.run (watched : s.Watched) (tree : s.Tree) {op : Op}
    (pending : s.pending = op :: rest) (asks : ∀ asked, op = .wait asked → s.Asks asked)
    (ran : (s.setPending rest).exec op = .ok after) : after.Watched := by
  cases unrelated : op.isFamily with
  | false => exact watched.exec tree pending unrelated ran
  | true =>
      cases op with
      | fork =>
          have alive := tree.alive pending rfl (by simp) (by simp) (by simp)
          exact (watched.setPending alive rest).fork (tree.next alive pending).2 ran
      | wait asked =>
          have alive := tree.alive pending rfl (by simp) (by simp) (by simp)
          obtain ⟨next, aliveNext⟩ := tree.next alive pending
          exact (watched.setPending alive rest).wait next aliveNext
            ((asks_setPending rest).mpr (asks asked rfl)) ran
      | enterUser =>
          have alive := tree.alive pending rfl (by simp) (by simp) (by simp)
          rw [Kernel.exec] at ran
          simp only [bind_eq_ok, check_eq_ok, pure_eq_ok] at ran
          obtain ⟨_, isInit, ran⟩ := ran
          cases ran
          exact (watched.setPending alive rest).modify (tree.next alive pending).2 _
            (fun _ => rfl) (fun _ waits => waits) (fun notRoot _ => by omega)
            fun _ _ dead => .inl dead
      | die status =>
          have alive := tree.alive pending rfl (by simp) (by simp) (by simp)
          obtain ⟨task, present, ops, presentNext⟩ := present_of_pending pending
          have proper := tree.forest.begins s.current task present
          rw [ops] at proper
          rw [Kernel.exec] at ran
          simp only [bind_eq_ok, pure_eq_ok] at ran
          obtain ⟨_, _, _, _, ran⟩ := ran
          cases ran
          refine (watched.setPending alive rest).modify (tree.next alive pending).2 _
            (fun _ => rfl) (fun _ waits => by cases waits) (fun _ _ => rfl)
            fun current found _ => .inr ?_
          rw [show (s.setPending rest).tasks (s.setPending rest).current = _ from
            presentNext] at found
          cases found
          rcases proper with dieFree | ⟨_, _, same, _, leaving⟩
          · exact absurd List.mem_cons_self (dieFree status)
          · cases same
            exact leaving
      | adopt => exact watched.adopt tree pending ran
      | _ => cases unrelated

theorem Watched.step (watched : s.Watched) (tree : s.Tree) {label : Label}
    (asks : s.AsksFirst label) (taken : s.step label = .ok after) : after.Watched := by
  cases taken_of_step taken with
  | call outside enters => exact watched.setPending (tree.alive_of_outside outside) _
  | run pending ran =>
      exact watched.run tree pending (fun asked isWait => asks asked _ (isWait ▸ pending)) ran
  | tick outside ticked =>
      exact watched.passes (tree.alive_of_outside outside) (Passes.clockHandler ticked)
  | interrupt outside roused =>
      exact watched.passes (tree.alive_of_outside outside) (Passes.rouse roused)
  | @strike pid outside =>
      have passes : Passes (fun _ => False) s (s.kill pid sigInt) := Passes.kill s pid sigInt
      exact watched.passes (tree.alive_of_outside outside) passes

theorem Watched.boot : Kernel.boot.Watched := by
  intro pid task present waits
  dsimp only [Kernel.boot] at present
  split at present
  · cases present
    cases waits
  · split at present
    · cases present
      cases waits
    · cases present

theorem Watched.noForgotten (watched : s.Watched) (alive : s.Alive) : s.NoForgotten := by
  intro pid task child present waits found _ dead
  exact (watched pid task present waits).2.2 (alive.ended ⟨child, found, dead⟩)

/-- In a run whose rounds of `sys_waitpid` find the child that they ask for first, no
parent waits for a dead child; and a round for a child is right exactly when it finds
the child first, or neither of the two is dead. -/
theorem waitsRight_of_asksFirst (s : Kernel) (reached : system.ReachableWithin AsksFirst s) :
    (s.pending = [] → s.NoForgotten) ∧
      ∀ asked rest, s.pending = .wait asked :: rest → s.IsChild asked →
        (s.RoundRight asked ↔ s.First asked) := by
  have invariant : s.Tree ∧ s.Watched := reached.invariant (fun s => s.Tree ∧ s.Watched)
    (by rintro s rfl; exact ⟨Tree.boot, Watched.boot⟩)
    fun _ _ _ holds asks taken => ⟨holds.1.step taken, holds.2.step holds.1 asks taken⟩
  obtain ⟨tree, watched⟩ := invariant
  exact ⟨fun outside => watched.noForgotten (tree.alive_of_outside outside),
    fun asked _ _ isChild => tree.forest.roundRight_iff isChild⟩

/-- Two children of init run in turn; the second one exits and init waits for it. -/
def waitsForSecond : List Label :=
  does .yield 1 ++ does (.work [.enterUser]) 1 ++ does .fork 1 ++ does .fork 1 ++
    does .yield 1 ++ does .yield 1 ++ does (.exit 0 [] []) 5 ++ does (.waitpid 3) 1

/-- Init waits for the dead one of its two children. -/
theorem waitsRight_fails : ¬∀ s, system.Reachable s →
    (s.pending = [] → s.NoForgotten) ∧
      ∀ asked rest, s.pending = .wait asked :: rest → s.IsChild asked →
        s.RoundRight asked := by
  intro always
  obtain ⟨final, reached, ends⟩ := System.ReachableWithin.extend_run system
    (fun _ _ => True) Kernel.step (fun _ _ _ taken => ⟨trivial, taken⟩) waitsForSecond
    (fun final => decide (final.pending = []) &&
      ((final.tasks 1).any fun task : Task =>
        decide (task.state = TaskState.waiting ∧ task.waitpid = 3)) &&
      (final.tasks 3).any fun child : Task =>
        decide (child.state = TaskState.dead ∧ child.ppid = 1))
    (.initial rfl) (by decide +kernel)
  simp only [Bool.and_eq_true, Option.any_eq_true] at ends
  obtain ⟨⟨outside, task, present, waits⟩, child, found, isDead⟩ := ends
  obtain ⟨waiting, waitpid⟩ := of_decide_eq_true waits
  obtain ⟨dead, ppid⟩ := of_decide_eq_true isDead
  exact (always final reached).1 (of_decide_eq_true outside) 1 task child present waiting
    (waitpid ▸ found) ppid dead

/-- A step that is no round of `sys_waitpid` for a child other than the first. -/
def asksFirst (s : Kernel) : Label → Bool
  | .run => s.pending.head?.all fun op => match op with
      | .wait asked => s.child = some asked
      | _ => true
  | _ => true

theorem asksFirst_of_asksFirst {label : Label} (asks : s.asksFirst label = true) :
    s.AsksFirst label := by
  cases label with
  | run =>
      intro asked rest pending
      simp only [asksFirst, pending, List.head?_cons, Option.all_some,
        decide_eq_true_eq] at asks
      obtain ⟨notRoot, task, present, ppid⟩ := child_eq asks
      exact ⟨fun _ => .inl asks, fun notChild => absurd ⟨notRoot, task, present, ppid⟩ notChild⟩
  | call call => trivial
  | tick => trivial
  | interrupt slot => trivial
  | strike pid => trivial

/-- Init waits for the first of its two children, which exits while the second one runs, and
the round after that returns it with its status. -/
theorem waitsRight_of_asksFirst_reaps : ∃ s, system.ReachableWithin AsksFirst s ∧
    s.RoundRight 2 ∧ s.round = .reaps 2 7 ∧ ∃ after, s.step .run = .ok after ∧
      after.pending = [] ∧ (after.tasks 3).isSome ∧ after.NoForgotten := by
  obtain ⟨s, reached, ends⟩ := System.ReachableWithin.extend_run system
    AsksFirst (fun s label => if s.asksFirst label then s.step label else .error .misuse)
    (fun before label after taken => by
      split at taken
      · rename_i asks
        exact ⟨asksFirst_of_asksFirst asks, taken⟩
      · cases taken)
    (does .yield 1 ++ does (.work [.enterUser]) 1 ++ does .fork 1 ++ does .fork 1 ++
      does (.waitpid 2) 1 ++ does (.exit 7 [] []) 5 ++ does .yield 1)
    (fun s => decide (s.pending = [.wait 2] ∧ s.child = some 2 ∧ s.round = .reaps 2 7) &&
      s.asksFirst .run && match s.step .run with
        | .ok after => decide (after.pending = [] ∧ (after.tasks 3).isSome)
        | .error _ => false)
    (.initial rfl) (by decide +kernel)
  simp only [Bool.and_eq_true, decide_eq_true_eq] at ends
  obtain ⟨⟨⟨pending, isFirst, reaps⟩, asks⟩, stepped⟩ := ends
  obtain ⟨notRoot, task, present, ppid⟩ := child_eq isFirst
  have right := ((waitsRight_of_asksFirst s reached).2 2 [] pending
    ⟨notRoot, task, present, ppid⟩).mpr (.inl isFirst)
  cases taken : s.step .run with
  | error fault =>
      rw [taken] at stepped
      cases stepped
  | ok after =>
      rw [taken] at stepped
      obtain ⟨outside, alive⟩ := of_decide_eq_true stepped
      exact ⟨s, reached, right, reaps, after, taken, outside, alive,
        (waitsRight_of_asksFirst after (.step reached (asksFirst_of_asksFirst asks) taken)).1
          outside⟩

end Kernel
end Sched
end LightOS
