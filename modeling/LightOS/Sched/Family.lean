import LightOS.Foundation.Ancestry
import LightOS.Sched.Evolution
import LightOS.Sched.Operations

/-!
# Parents and children

The tasks form trees: idle and init are the roots, and every other task has a
parent that is present and lives, or that is in the middle of `sys_exit` and is about
to hand its children to its own parent.
-/

namespace LightOS
namespace Sched

variable {rest : List Op} {op : Op}

/-- Operations of `sys_exit` that do not give up the processor unless they block. -/
def Op.quick : Op → Bool
  | .flush _ _ | .refill | .dropTimers | .tellFather | .request _ | .lock _ => true
  | _ => false

/-- What is left of `sys_exit` before the children are handed over.  Behind a wait for
a disk the task is not marked as dead any more. -/
inductive Leaving : List Op → Prop
  | quick {op : Op} {rest : List Op} : op.quick = true → Leaving rest →
      Leaving (op :: rest)
  | await {slot : Slot} {rest : List Op} : Leaving (.await slot :: rest)
  | last : Leaving [.adopt, .yield]

namespace Leaving

theorem append {ops : List Op} (quick : ∀ op ∈ ops, op.quick = true) (leaving : Leaving rest) :
    Leaving (ops ++ rest) := by
  induction ops with
  | nil => exact leaving
  | cons op more inductionHypothesis =>
      exact .quick (quick op List.mem_cons_self)
        (inductionHypothesis fun other mem => quick other (List.mem_cons_of_mem op mem))

theorem writeOps (buffer : Buffer) (disk ctrl choice : Nat) (rest : List Op) :
    Leaving (writeOps buffer disk ctrl choice ++ rest) :=
  .quick rfl (.quick rfl .await)

theorem release_quick (release : Release) : ∀ op ∈ release.ops, op.quick = true := by
  intro op mem
  unfold Release.ops at mem
  rcases List.mem_cons.mp mem with rfl | inRest
  · rfl
  · split at inRest
    · rw [List.mem_singleton.mp inRest]
      rfl
    · cases inRest

theorem exitTail (inodes files : List Release) : Leaving (exitTail inodes files) := by
  have releases (list : List Release) : ∀ op ∈ list.flatMap Release.ops,
      op.quick = true := by
    intro op mem
    obtain ⟨release, _, inOps⟩ := List.mem_flatMap.mp mem
    exact release_quick release op inOps
  unfold Sched.exitTail
  rw [List.append_assoc, List.append_assoc]
  refine append (releases inodes) (append ?_ (append (releases files) last))
  simp [Op.quick]

end Leaving

theorem Leaving.head (leaving : Leaving (op :: rest)) :
    op.quick = true ∨ (∃ slot, op = .await slot) ∨ op = .adopt := by
  cases leaving with
  | quick quick _ => exact .inl quick
  | @await slot => exact .inr (.inl ⟨slot, rfl⟩)
  | last => exact .inr (.inr rfl)

/-- An exit begins only at the head of what a task has to do. -/
def Proper (ops : List Op) : Prop :=
  DieFree ops ∨ ∃ status rest, ops = .die status :: rest ∧ DieFree rest ∧ Leaving rest

theorem Proper.tail (proper : Proper (op :: rest)) : DieFree rest := by
  rcases proper with dieFree | ⟨status, more, same, dieFree, _⟩
  · exact fun status mem => dieFree status (List.mem_cons_of_mem op mem)
  · cases same
    exact dieFree

namespace Kernel

/-- The parent of a task. -/
def parent (s : Kernel) (pid : Nat) : Option Nat :=
  (s.tasks pid).map Task.ppid

/-- The ancestors of a task lead to idle or init. -/
abbrev Lineage (s : Kernel) : Nat → Prop :=
  Ancestry.Rooted (fun pid => pid ≤ 1) s.parent

/-- The tasks form trees, the current task is one of them, and exits begin as they
should. -/
structure Forest (s : Kernel) : Prop where
  slots : ∀ pid task, s.tasks pid = some task → pid < taskNr
  roots : ∀ pid, pid ≤ 1 →
    ∃ task, s.tasks pid = some task ∧ task.state ≠ .dead ∧ task.ppid ≤ 1
  rooted : ∀ pid task, s.tasks pid = some task → s.Lineage pid
  present : (s.tasks s.current).isSome
  idle : ∀ task, s.tasks 0 = some task → ∀ op ∈ task.pending, op = .yield
  begins : ∀ pid task, s.tasks pid = some task → Proper task.pending

variable {s after : Kernel} {moved : Nat → Prop} {pid : Nat} {task : Task}

/-- What a task was before. -/
theorem Passes.before (passes : Passes moved s after) (found : after.tasks pid = some task) :
    ∃ before, s.tasks pid = some before ∧ Resembles (moved pid) before task := by
  cases present : s.tasks pid with
  | none =>
      rw [passes.empty pid present] at found
      cases found
  | some before =>
      obtain ⟨later, isLater, resembles⟩ := passes.kept pid before present
      rw [found] at isLater
      cases isLater
      exact ⟨before, rfl, resembles⟩

theorem Passes.parent (passes : Passes moved s after) {up : Nat}
    (isParent : s.parent pid = some up) : after.parent pid = some up := by
  obtain ⟨task, present, rfl⟩ := Option.map_eq_some_iff.mp isParent
  obtain ⟨later, found, resembles⟩ := passes.kept pid task present
  unfold Kernel.parent
  rw [found, Option.map_some, resembles.ppid]

theorem Forest.passes (forest : s.Forest) (passes : Passes moved s after) :
    after.Forest := by
  refine ⟨?slots, ?roots, ?rooted, ?present, ?idle, ?begins⟩
  case slots =>
    intro pid task found
    obtain ⟨before, present, _⟩ := passes.before found
    exact forest.slots pid before present
  case roots =>
    intro pid isRoot
    obtain ⟨task, present, lives, atRoot⟩ := forest.roots pid isRoot
    obtain ⟨later, found, resembles⟩ := passes.kept pid task present
    exact ⟨later, found, fun dead => lives (resembles.dies dead), by
      rw [resembles.ppid]
      exact atRoot⟩
  case rooted =>
    intro pid task found
    obtain ⟨before, present, _⟩ := passes.before found
    exact (forest.rooted pid before present).mono fun _ _ _ => passes.parent
  case present =>
    rcases passes.switch with stays | ⟨task, found, _⟩
    · obtain ⟨task, present⟩ := Option.isSome_iff_exists.mp forest.present
      obtain ⟨later, found, _⟩ := passes.kept _ task present
      rw [stays, found]
      rfl
    · rw [found]
      rfl
  case idle =>
    intro task found
    obtain ⟨before, present, resembles⟩ := passes.before found
    rw [resembles.pending]
    exact forest.idle before present
  case begins =>
    intro pid task found
    obtain ⟨before, present, resembles⟩ := passes.before found
    rw [resembles.pending]
    exact forest.begins pid before present

/-- Changing a task. -/
theorem Forest.modify (forest : s.Forest) (pid : Nat) (change : Task → Task)
    (ppid : ∀ task, s.tasks pid = some task →
      (change task).ppid = task.ppid ∨ pid ≤ 1 ∧ (change task).ppid ≤ 1)
    (lives : pid ≤ 1 → ∀ task, task.state ≠ .dead → (change task).state ≠ .dead)
    (idle : pid = 0 → ∀ task, (∀ op ∈ task.pending, op = .yield) →
      ∀ op ∈ (change task).pending, op = .yield)
    (proper : ∀ task, s.tasks pid = some task → Proper task.pending →
      Proper (change task).pending) : (s.modify pid change).Forest := by
  have kept (other : Nat) (task : Task) (found : (s.modify pid change).tasks other = some task) :
      ∃ before, s.tasks other = some before ∧
        task = if other = pid then change before else before := by
    rw [modify_tasks] at found
    split at found
    · rename_i same
      obtain ⟨before, present, rfl⟩ := Option.map_eq_some_iff.mp found
      exact ⟨before, present, by rw [if_pos same]⟩
    · rename_i apart
      exact ⟨task, found, by rw [if_neg apart]⟩
  refine ⟨?slots, ?roots, ?rooted, ?present, ?idle, ?begins⟩
  case slots =>
    intro other task found
    obtain ⟨before, present, _⟩ := kept other task found
    exact forest.slots other before present
  case roots =>
    intro other isRoot
    obtain ⟨task, present, alive, atRoot⟩ := forest.roots other isRoot
    rw [modify_tasks, present]
    split
    · rename_i same
      subst same
      refine ⟨change task, rfl, lives isRoot task alive, ?_⟩
      rcases ppid task present with same | ⟨_, atRootAfter⟩
      · rw [same]
        exact atRoot
      · exact atRootAfter
    · exact ⟨task, rfl, alive, atRoot⟩
  case rooted =>
    intro other task found
    obtain ⟨before, present, _⟩ := kept other task found
    refine (forest.rooted other before present).mono fun node up notRoot isParent => ?_
    obtain ⟨child, foundChild, rfl⟩ := Option.map_eq_some_iff.mp isParent
    unfold Kernel.parent
    rw [modify_tasks]
    split
    · rename_i same
      subst same
      rw [foundChild, Option.map_some, Option.map_some]
      exact congrArg some ((ppid child foundChild).resolve_right fun root =>
        notRoot root.1)
    · rw [foundChild]
      rfl
  case present =>
    obtain ⟨task, present⟩ := Option.isSome_iff_exists.mp forest.present
    rw [modify_current, modify_tasks, present]
    split <;> rfl
  case idle =>
    intro task found
    obtain ⟨before, present, rfl⟩ := kept 0 task found
    split
    · rename_i isIdle
      exact idle isIdle.symm before (forest.idle before present)
    · exact forest.idle before present
  case begins =>
    intro other task found
    obtain ⟨before, present, rfl⟩ := kept other task found
    split
    · rename_i same
      subst same
      exact proper before present (forest.begins other before present)
    · exact forest.begins other before present

/-- Changing what the current task has to do. -/
theorem Forest.repend (forest : s.Forest) (change : List Op → List Op)
    (idle : s.current = 0 → ∀ ops, (∀ op ∈ ops, op = .yield) →
      ∀ op ∈ change ops, op = .yield)
    (proper : ∀ task, s.tasks s.current = some task → Proper (change task.pending)) :
    (s.modify s.current fun task => { task with pending := change task.pending }).Forest :=
  forest.modify s.current _ (fun _ _ => .inl rfl) (fun _ _ alive => alive)
    (fun isIdle task => idle isIdle task.pending) fun task present _ => proper task present

/-! ## Ended exits -/

/-- A task is dead and has handed over its children. -/
def Ended (s : Kernel) (pid : Nat) : Prop :=
  ∃ task, s.tasks pid = some task ∧ task.state = .dead ∧
    ¬(pid = s.current ∧ Leaving task.pending)

/-- The tasks form trees in which no parent has ended its exit, and the current task is
not waiting, nor dead unless it is in its exit. -/
structure Tree (s : Kernel) : Prop where
  forest : s.Forest
  grown : ∀ pid task, 2 ≤ pid → s.tasks pid = some task → ¬s.Ended task.ppid
  awake : ∀ task, s.tasks s.current = some task → task.state ≠ .waiting
  exits : ∀ task, s.tasks s.current = some task → task.state = .dead →
    Leaving task.pending ∨ task.pending = [.yield]

/-- A task that blocks is not dead. -/
theorem block_notDead {state : TaskState} (notDead : state ≠ .dead)
    (ran : s.block state = .ok after) (later : Task)
    (found : after.tasks s.current = some later) : later.state ≠ .dead := by
  intro dead
  have passes : Passes (fun _ => True) (s.setState s.current state) after :=
    Passes.schedule ran
  obtain ⟨before, present, resembles⟩ := passes.before found
  unfold setState at present
  rw [modify_tasks, if_pos rfl] at present
  obtain ⟨task, _, rfl⟩ := Option.map_eq_some_iff.mp present
  exact notDead (resembles.dies dead)

theorem waitIn_notDead {place : Place}
    (ran : (do (← s.pushback place).block .blocked) = .ok after) (later : Task)
    (found : after.tasks s.current = some later) : later.state ≠ .dead := by
  rw [bind_eq_ok] at ran
  obtain ⟨registered, pushed, ran⟩ := ran
  have pushes : Passes (fun _ => True) s registered ∧ registered.current = s.current :=
    Passes.pushback pushed
  exact block_notDead (by decide) ran later (by rw [pushes.2]; exact found)

/-- What the current task has to do behind an operation. -/
theorem exec_pending (unrelated : op.isFamily = false) (present : s.tasks s.current = some task)
    (ran : s.exec op = .ok after) (later : Task) (found : after.tasks s.current = some later) :
    later.pending = s.pushes op ++ task.pending := by
  obtain ⟨before, pushed, resembles⟩ := (Passes.exec unrelated ran).before found
  unfold push at pushed
  rw [modify_tasks, if_pos rfl, present] at pushed
  cases pushed
  exact resembles.pending

theorem pushes_leaving (op : Op) (leaving : Leaving rest) (quick : op.quick = true) :
    Leaving (s.pushes op ++ rest) := by
  cases op with
  | flush buffer choice =>
      rw [pushes]
      split
      · split
        · exact leaving
        · exact Leaving.writeOps buffer _ _ choice rest
      · exact leaving
  | lock lock =>
      rw [pushes]
      split
      · exact .quick rfl leaving
      · exact leaving
  | refill => exact leaving
  | dropTimers => exact leaving
  | tellFather => exact leaving
  | request disk => exact leaving
  | _ => cases quick

/-- A quick operation keeps the processor, unless the task blocks. -/
theorem exec_quick (quick : op.quick = true) (ran : s.exec op = .ok after) (later : Task)
    (found : after.tasks s.current = some later) (dead : later.state = .dead) :
    after.current = s.current := by
  cases op with
  | flush buffer choice =>
      cases ran
      unfold Kernel.flush
      split
      · split <;> rfl
      · rfl
  | lock lock =>
      rw [exec] at ran
      split at ran
      · have notDead := waitIn_notDead (s := s.push [.lock lock]) ran later found
        exact absurd dead notDead
      · cases ran
        rfl
  | refill =>
      rw [exec] at ran
      split at ran
      · cases ran
        rfl
      · cases ran
        exact intrUnblock_current _ _
  | dropTimers =>
      cases ran
      rfl
  | tellFather =>
      rw [exec] at ran
      split at ran
      · cases ran
      · cases ran
        rfl
  | request disk =>
      rw [exec] at ran
      split at ran
      · cases ran
        rfl
      · exact absurd dead (waitIn_notDead ran later found)
  | _ => cases quick

/-- An operation of an exit goes on with the exit, unless it blocks. -/
theorem exec_leaving (leaving : Leaving (op :: rest)) (notAdopt : op ≠ .adopt)
    (notIdle : s.current ≠ 0) (present : s.tasks s.current = some task)
    (pending : task.pending = rest) (ran : s.exec op = .ok after) (later : Task)
    (found : after.tasks s.current = some later) (dead : later.state = .dead) :
    after.current = s.current ∧ Leaving later.pending := by
  cases leaving with
  | quick quick leaving =>
      have unrelated : op.isFamily = false := by
        cases op <;> first | rfl | cases quick
      refine ⟨exec_quick quick ran later found dead, ?_⟩
      rw [exec_pending unrelated present ran later found, pending]
      exact pushes_leaving op leaving quick
  | @await slot =>
      rw [exec, if_neg notIdle] at ran
      exact absurd dead (block_notDead (s := s.setWaiting (.slot slot) [s.current])
        (by decide) ran later found)
  | last => exact absurd rfl notAdopt

/-- A task that is not ready, and not idle, leaves the processor to another one. -/
theorem schedule_leaves (notIdle : s.current ≠ 0) (present : s.tasks s.current = some task)
    (notReady : task.state ≠ .ready) (scheduled : s.schedule = .ok after) :
    after.current ≠ s.current := by
  rcases schedule_cases scheduled with ⟨rfl, same⟩ | ⟨apart, _, _, _, rfl⟩
  · rcases target_cases after with isIdle | ⟨_, next, found, isReady⟩
    · exact absurd (same.symm.trans isIdle) notIdle
    · rw [same, present] at found
      cases found
      exact absurd isReady notReady
  · exact apart

/-! ## Steps -/

/-- The current task, what it has to do, and the state in which its next operation is
run. -/
theorem present_of_pending (pending : s.pending = op :: rest) :
    ∃ task, s.tasks s.current = some task ∧ task.pending = op :: rest ∧
      (s.setPending rest).tasks s.current = some { task with pending := rest } := by
  unfold Kernel.pending at pending
  cases present : s.tasks s.current with
  | none =>
      rw [present] at pending
      cases pending
  | some task =>
      rw [present] at pending
      refine ⟨task, rfl, pending, ?_⟩
      unfold setPending
      rw [modify_tasks, if_pos rfl, present]
      rfl

/-- The tasks before the current one takes up its next operation. -/
theorem of_setPending {ops : List Op} (found : (s.setPending ops).tasks pid = some task) :
    ∃ before, s.tasks pid = some before ∧ task.state = before.state ∧
      task.ppid = before.ppid ∧ task.waitpid = before.waitpid ∧
      (pid ≠ s.current → task.pending = before.pending) := by
  unfold setPending at found
  rw [modify_tasks] at found
  split at found
  · rename_i same
    obtain ⟨before, present, rfl⟩ := Option.map_eq_some_iff.mp found
    exact ⟨before, present, rfl, rfl, rfl, fun apart => absurd same apart⟩
  · exact ⟨task, found, rfl, rfl, rfl, fun _ => rfl⟩

/-- The next operation of the current task. -/
theorem Forest.next (forest : s.Forest) (pending : s.pending = op :: rest) :
    (s.setPending rest).Forest := by
  obtain ⟨task, present, ops, _⟩ := present_of_pending pending
  refine forest.repend (fun _ => rest) ?_ ?_
  · intro isIdle _ _ other mem
    refine forest.idle task (isIdle ▸ present) other ?_
    rw [ops]
    exact List.mem_cons_of_mem op mem
  · intro _ _
    have proper := forest.begins s.current task present
    rw [ops] at proper
    exact .inl proper.tail

theorem pushes_dieFree (op : Op) : DieFree (s.pushes op) := by
  intro status mem
  cases op with
  | flush buffer choice =>
      rw [pushes] at mem
      split at mem
      · split at mem
        · cases mem
        · simp [writeOps] at mem
      · cases mem
  | lock lock =>
      rw [pushes] at mem
      split at mem
      · simp at mem
      · cases mem
  | sleep ms => simp [pushes] at mem
  | _ => cases mem

/-- The order of parents and children behind an operation that is not about them. -/
theorem Forest.exec (forest : s.Forest) (pending : s.pending = op :: rest)
    (unrelated : op.isFamily = false) (ran : (s.setPending rest).exec op = .ok after) :
    after.Forest := by
  obtain ⟨task, present, ops, presentNext⟩ := present_of_pending pending
  have next := forest.next pending
  have pushed : ((s.setPending rest).push ((s.setPending rest).pushes op)).Forest := by
    refine next.repend (fun ops => (s.setPending rest).pushes op ++ ops) ?_ ?_
    · intro isIdle _ yields other mem
      have isYield := forest.idle task ((show s.current = 0 from isIdle) ▸ present) op
        (by rw [ops]; exact List.mem_cons_self)
      subst isYield
      exact yields other mem
    · intro current found
      rw [show (s.setPending rest).tasks (s.setPending rest).current = _ from presentNext]
        at found
      cases found
      have proper := forest.begins s.current task present
      rw [ops] at proper
      refine .inl fun status mem => ?_
      rcases List.mem_append.mp mem with inPushes | inRest
      · exact pushes_dieFree op status inPushes
      · exact proper.tail status inRest
  exact pushed.passes (Passes.exec unrelated ran)

/-- What a task was before an operation that is not about parents and children. -/
theorem before_exec (unrelated : op.isFamily = false)
    (ran : (s.setPending rest).exec op = .ok after) (found : after.tasks pid = some task) :
    ∃ before, s.tasks pid = some before ∧ task.ppid = before.ppid ∧
      task.waitpid = before.waitpid ∧ (task.state = .dead → before.state = .dead) ∧
      (task.state = .waiting → before.state = .waiting) := by
  obtain ⟨pushed, foundPushed, resembles⟩ := (Passes.exec unrelated ran).before found
  unfold push at foundPushed
  rw [modify_tasks] at foundPushed
  have next : ∃ next, (s.setPending rest).tasks pid = some next ∧
      pushed.state = next.state ∧ pushed.ppid = next.ppid ∧
      pushed.waitpid = next.waitpid := by
    split at foundPushed
    · obtain ⟨next, present, rfl⟩ := Option.map_eq_some_iff.mp foundPushed
      exact ⟨next, present, rfl, rfl, rfl⟩
    · exact ⟨pushed, foundPushed, rfl, rfl, rfl⟩
  obtain ⟨next, foundNext, sameState, samePpid, sameWaitpid⟩ := next
  obtain ⟨before, present, state, ppid, waitpid, _⟩ := of_setPending foundNext
  refine ⟨before, present, ?ppid, ?waitpid, fun dead => ?dies, fun waits => ?waits⟩
  case ppid => rw [resembles.ppid, samePpid, ppid]
  case waitpid => rw [resembles.waitpid, sameWaitpid, waitpid]
  case dies => rw [← state, ← sameState]; exact resembles.dies dead
  case waits => rw [← state, ← sameState]; exact resembles.waits waits

/-- The current task is dead and goes on with its exit, or it is done. -/
theorem Tree.dying (tree : s.Tree) (pending : s.pending = op :: rest)
    (present : s.tasks s.current = some task) (dead : task.state = .dead) :
    s.current ≠ 0 ∧ (Leaving (op :: rest) ∨ op = .yield ∧ rest = []) := by
  obtain ⟨current, found, ops, _⟩ := present_of_pending pending
  rw [present] at found
  cases found
  refine ⟨?notIdle, ?left⟩
  case notIdle =>
    intro isIdle
    obtain ⟨idle, foundIdle, lives, _⟩ := tree.forest.roots 0 (by omega)
    rw [← isIdle, present] at foundIdle
    cases foundIdle
    exact lives dead
  case left =>
    rw [← ops]
    refine (tree.exits task present dead).imp_right fun last => ?_
    rw [ops] at last
    cases last
    exact ⟨rfl, rfl⟩

/-- No exit ends in an operation that is not about parents and children. -/
theorem Tree.ended_of_exec (tree : s.Tree) (pending : s.pending = op :: rest)
    (unrelated : op.isFamily = false) (ran : (s.setPending rest).exec op = .ok after)
    (ended : after.Ended pid) : s.Ended pid := by
  obtain ⟨later, found, dead, notLeaving⟩ := ended
  obtain ⟨before, present, _, _, dies, _⟩ := before_exec unrelated ran found
  refine ⟨before, present, dies dead, ?_⟩
  rintro ⟨rfl, leaving⟩
  obtain ⟨task, foundTask, ops, presentNext⟩ := present_of_pending pending
  rw [present] at foundTask
  cases foundTask
  rw [ops] at leaving
  have notAdopt : op ≠ .adopt := by
    rintro rfl
    cases unrelated
  obtain ⟨stays, stillLeaving⟩ := exec_leaving (s := s.setPending rest) leaving notAdopt
    (tree.dying pending present (dies dead)).1 presentNext rfl ran later found dead
  exact notLeaving ⟨stays.symm, stillLeaving⟩

/-- The trees behind an operation that is not about parents and children. -/
theorem Tree.exec (tree : s.Tree) (pending : s.pending = op :: rest)
    (unrelated : op.isFamily = false) (ran : (s.setPending rest).exec op = .ok after) :
    after.Tree := by
  have passes := Passes.exec unrelated ran
  refine ⟨tree.forest.exec pending unrelated ran, ?grown, ?awake, ?exits⟩
  case grown =>
    intro pid task notRoot found ended
    obtain ⟨before, present, ppid, _⟩ := before_exec unrelated ran found
    rw [ppid] at ended
    exact tree.grown pid before notRoot present (tree.ended_of_exec pending unrelated ran ended)
  case awake =>
    intro task found waits
    rcases passes.switch with stays | ⟨next, foundNext, _, notWaiting⟩
    · rw [stays] at found
      obtain ⟨before, present, _, _, _, waited⟩ := before_exec unrelated ran found
      exact tree.awake before present (waited waits)
    · rw [found] at foundNext
      cases foundNext
      exact notWaiting waits
  case exits =>
    intro task found dead
    rcases passes.switch with stays | ⟨next, foundNext, notDead, _⟩
    · change after.current = s.current at stays
      rw [stays] at found
      obtain ⟨before, present, _, _, dies, _⟩ := before_exec unrelated ran found
      obtain ⟨current, _, _, presentNext⟩ := present_of_pending pending
      obtain ⟨notIdle, leaving | ⟨rfl, rfl⟩⟩ := tree.dying pending present (dies dead)
      · have notAdopt : op ≠ .adopt := by
          rintro rfl
          cases unrelated
        exact .inl (exec_leaving (s := s.setPending rest) leaving notAdopt notIdle
          presentNext rfl ran task found dead).2
      · have notReady : before.state ≠ .ready := by
          rw [dies dead]
          decide
        obtain ⟨next, foundNext, state, _⟩ := of_setPending presentNext
        rw [present] at foundNext
        cases foundNext
        exact absurd stays (schedule_leaves (s := s.setPending []) notIdle presentNext
          (by rw [state]; exact notReady) ran)
    · rw [found] at foundNext
      cases foundNext
      exact absurd dead notDead

end Kernel
end Sched
end LightOS
