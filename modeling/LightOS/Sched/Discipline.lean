import LightOS.Sched.Order

/-!
# What the current task may do

The current task runs, or it finishes `sys_exit`, whose last operation gives up
the processor for good.  Every operation restores this and the order among the
waiting tasks, unless `sys_kill` wakes a task that sleeps.
-/

namespace LightOS
namespace Sched

variable {left : List Op → Prop}

/-- Operations that `sys_exit` can get to behind the assignment of the state. -/
def Op.closes : Op → Bool
  | .flush _ _ | .refill | .dropTimers | .tellFather | .adopt | .yield | .request _
  | .lock _ | .await _ | .unlock _ | .complete _ _ | .clean _ => true
  | _ => false

/-- What is left of `sys_exit`: it ends in `schedule`. -/
structure Closing (ops : List Op) : Prop where
  last : ops.getLast? = some .yield
  closes : ∀ op ∈ ops, op.closes = true

/-- No exit begins among operations. -/
def DieFree (ops : List Op) : Prop :=
  ∀ status, Op.die status ∉ ops

theorem Closing.dieFree {ops : List Op} (closing : Closing ops) : DieFree ops :=
  fun status mem => by cases closing.closes _ mem

theorem Closing.append {ops more : List Op} (closing : Closing ops)
    (closes : ∀ op ∈ more, op.closes = true) : Closing (more ++ ops) := by
  have some : ops ≠ [] := by
    rintro rfl
    cases closing.last
  refine ⟨?_, ?_⟩
  · rw [List.getLast?_append, closing.last, Option.some_or]
  · intro op mem
    rcases List.mem_append.mp mem with inMore | inOps
    · exact closes op inMore
    · exact closing.closes op inOps

theorem writeOps_closes (buffer : Buffer) (disk ctrl choice : Nat) :
    ∀ op ∈ writeOps buffer disk ctrl choice, op.closes = true := by
  simp [writeOps, Op.closes]

theorem Release.ops_closes (release : Release) :
    ∀ op ∈ release.ops, op.closes = true := by
  intro op mem
  unfold Release.ops at mem
  rcases List.mem_cons.mp mem with rfl | inRest
  · rfl
  · split at inRest
    · rw [List.mem_singleton.mp inRest]
      rfl
    · cases inRest

theorem exitTail_closing (inodes files : List Release) :
    Closing (exitTail inodes files) := by
  have releases (list : List Release) (op : Op) (mem : op ∈ list.flatMap Release.ops) :
      op.closes = true := by
    obtain ⟨release, _, inOps⟩ := List.mem_flatMap.mp mem
    exact release.ops_closes op inOps
  refine ⟨?_, ?_⟩
  · unfold exitTail
    rw [List.getLast?_append]
    rfl
  · intro op mem
    unfold exitTail at mem
    simp only [List.mem_append, List.mem_cons, List.not_mem_nil, or_false] at mem
    rcases mem with ((inInodes | rfl | rfl) | inFiles) | rfl | rfl
    · exact releases inodes op inInodes
    · rfl
    · rfl
    · exact releases files op inFiles
    · rfl
    · rfl

namespace Kernel

/-- The order holds, the idle task only yields, and nobody is about to begin an
exit. -/
structure Calm (s : Kernel) : Prop where
  orderly : s.Orderly
  idle : ∀ task, s.tasks 0 = some task → ∀ op ∈ task.pending, op = .yield
  dieFree : ∀ pid task, s.tasks pid = some task → DieFree task.pending

/-- What the current task is doing: it runs, it is the idle task, which is not
marked as running at first, or it is in an exit with something left to do. -/
def Acting (s : Kernel) (left : List Op → Prop) : Prop :=
  ∃ task, s.tasks s.current = some task ∧
    (task.state = .running ∨ s.current = 0 ∧ task.state = .ready ∨
      task.state = .dead ∧ s.current ≠ 0 ∧ left task.pending)

variable {s after : Kernel} {pid : Nat} {task : Task}

theorem Acting.free (acting : s.Acting left) (orderly : s.Orderly) : s.Free s.current := by
  obtain ⟨task, present, runs | ⟨_, idle⟩ | ⟨dead, _⟩⟩ := acting
  · exact orderly.free present (by simp [runs]) (by simp [runs])
  · exact orderly.free present (by simp [idle]) (by simp [idle])
  · exact orderly.free present (by simp [dead]) (by simp [dead])

theorem Acting.present (acting : s.Acting left) : (s.tasks s.current).isSome := by
  obtain ⟨task, present, _⟩ := acting
  simp [present]

/-- A task in another state is not the current one. -/
theorem Acting.apart (acting : s.Acting left) (found : s.tasks pid = some task)
    (other : task.state = .blocked ∨ task.state = .waiting ∨ task.state = .sleeping) :
    pid ≠ s.current := by
  rintro rfl
  obtain ⟨current, present, doing⟩ := acting
  rw [found] at present
  cases present
  rcases other with state | state | state <;> simp [state] at doing

theorem Acting.mono {right : List Op → Prop} (acting : s.Acting left)
    (weaker : ∀ ops, left ops → right ops) (tasks : after.tasks s.current = s.tasks s.current)
    (current : after.current = s.current) : after.Acting right := by
  obtain ⟨task, present, doing⟩ := acting
  unfold Acting
  rw [current, tasks]
  exact ⟨task, present, doing.imp_right fun rest => rest.imp_right fun dead =>
    ⟨dead.1, dead.2.1, weaker _ dead.2.2⟩⟩

/-- Calm depends on the order and the tasks alone. -/
theorem Calm.congr (calm : s.Calm) (orderly : after.Orderly)
    (tasks : after.tasks = s.tasks) : after.Calm :=
  ⟨orderly, tasks ▸ calm.idle, tasks ▸ calm.dieFree⟩

/-- Changing a task keeps calm when what it gets to do begins no exit, and the idle
task at most yields. -/
theorem Calm.modify (calm : s.Calm) (pid : Nat) (change : Task → Task)
    (orderly : after.Orderly) (tasks : after.tasks = (s.modify pid change).tasks)
    (pending : ∀ task, ∀ op ∈ (change task).pending,
      op ∈ task.pending ∨ (pid ≠ 0 ∨ op = .yield) ∧ ∀ status, op ≠ .die status) :
    after.Calm := by
  have kept (other : Nat) (task : Task) (present : after.tasks other = some task)
      (op : Op) (mem : op ∈ task.pending) :
      (∃ before, s.tasks other = some before ∧ op ∈ before.pending) ∨
        (other ≠ 0 ∨ op = .yield) ∧ ∀ status, op ≠ .die status := by
    rw [tasks, modify_tasks] at present
    split at present
    · rename_i same
      subst same
      obtain ⟨before, found, rfl⟩ := Option.map_eq_some_iff.mp present
      exact (pending before op mem).imp_left fun inBefore => ⟨before, found, inBefore⟩
    · exact .inl ⟨task, present, mem⟩
  refine ⟨orderly, ?idle, ?dieFree⟩
  case idle =>
    intro task present op mem
    rcases kept 0 task present op mem with ⟨before, found, inBefore⟩ | ⟨harmless, _⟩
    · exact calm.idle before found op inBefore
    · exact harmless.resolve_left fun notIdle => notIdle rfl
  case dieFree =>
    intro other task present status mem
    rcases kept other task present _ mem with ⟨before, found, inBefore⟩ | ⟨_, different⟩
    · exact calm.dieFree other before found status inBefore
    · exact different status rfl

/-! ## The scheduler -/

/-- What `schedule` does: nothing, or switch to a ready task. -/
theorem schedule_cases (scheduled : s.schedule = .ok after) :
    after = s ∧ s.target = s.current ∨
      s.target ≠ s.current ∧ ∃ next, s.tasks s.target = some next ∧
        next.state = .ready ∧
        after = { s.modify s.current pause with current := s.target }.setState
          s.target .running := by
  unfold schedule switchTo at scheduled
  rw [bind_eq_ok] at scheduled
  obtain ⟨_, _, scheduled⟩ := scheduled
  by_cases same : s.current = s.target
  · rw [if_pos same] at scheduled
    cases scheduled
    exact .inl ⟨rfl, same.symm⟩
  · rw [if_neg same] at scheduled
    dsimp only at scheduled
    simp only [bind_eq_ok, check_eq_ok, pure_eq_ok] at scheduled
    obtain ⟨_, isReady, result⟩ := scheduled
    cases result
    rw [modify_tasks, if_neg (Ne.symm same), Option.any_eq_true] at isReady
    obtain ⟨next, found, ready⟩ := isReady
    exact .inr ⟨Ne.symm same, next, found, by simpa using ready, rfl⟩

/-- `schedule` may select only ready tasks other than the idle one. -/
theorem target_cases (s : Kernel) :
    s.target = 0 ∨ s.target ≠ 0 ∧
      ∃ next, s.tasks s.target = some next ∧ next.state = .ready := by
  unfold target
  cases found : ((List.range taskNr).map fun i => (s.current + 1 + i) % taskNr).find?
      s.eligible with
  | none => exact .inl rfl
  | some pid =>
      have eligible := List.find?_some found
      unfold Kernel.eligible at eligible
      simp only [decide_eq_true_eq, Bool.decide_and, Bool.and_eq_true,
        Option.any_eq_true] at eligible
      obtain ⟨notIdle, next, present, _, ready⟩ := eligible
      exact .inr ⟨by simpa using notIdle, next, present, by simpa using ready⟩

/-- A task that stops running stays in order. -/
theorem Orderly.pause (orderly : s.Orderly) :
    (s.modify s.current pause).Orderly := by
  cases present : s.tasks s.current with
  | none =>
      refine orderly.congr ?_ rfl rfl rfl
      funext pid
      rw [modify_tasks]
      split
      · rename_i same
        rw [same, present]
        rfl
      · rfl
  | some task =>
      by_cases runs : task.state = .running
      · have free := orderly.free present (by simp [runs]) (by simp [runs])
        refine orderly.modify free fun task => ?_
        unfold Kernel.pause
        split <;> rfl
      · refine orderly.congr ?_ rfl rfl rfl
        funext pid
        rw [modify_tasks]
        split
        · rename_i same
          rw [same, present, Option.map_some, Kernel.pause, if_neg runs]
        · rfl

/-- After `schedule` a task runs, or the idle task goes on. -/
theorem Calm.schedule (calm : s.Calm) (present : s.tasks s.current = some task)
    (ready : task.state = .ready → s.current = 0)
    (idle : s.current = 0 → task.state = .running ∨ task.state = .ready)
    (scheduled : s.schedule = .ok after) : after.Calm ∧ after.Acting Closing := by
  rcases schedule_cases scheduled with ⟨rfl, same⟩ | ⟨apart, next, found, isReady, rfl⟩
  · refine ⟨calm, task, present, ?_⟩
    rcases target_cases after with isIdle | ⟨notIdle, next, found, isReady⟩
    · rw [same] at isIdle
      exact (idle isIdle).imp_right fun isReady => .inl ⟨isIdle, isReady⟩
    · rw [same, present] at found
      cases found
      exact absurd (ready isReady) (same ▸ notIdle)
  · have paused : { s.modify s.current pause with current := s.target }.Calm := by
      refine calm.modify s.current Kernel.pause
        (calm.orderly.pause.congr rfl rfl rfl rfl) rfl ?_
      intro task op mem
      unfold Kernel.pause at mem
      split at mem <;> exact .inl mem
    have foundStill : { s.modify s.current pause with current := s.target }.tasks
        s.target = some next := by
      change (s.modify s.current pause).tasks s.target = some next
      rw [modify_tasks, if_neg apart]
      exact found
    have free := paused.orderly.free foundStill (by simp [isReady]) (by simp [isReady])
    refine ⟨paused.modify s.target (fun task => { task with state := .running })
      (paused.orderly.modify free fun _ => rfl) rfl fun _ _ mem => .inl mem,
        { next with state := .running }, ?_, .inl rfl⟩
    unfold setState
    rw [modify_current, modify_tasks, if_pos rfl, foundStill]
    rfl

/-! ## Blocking -/

theorem modify_modify (s : Kernel) (pid : Nat) (first second : Task → Task) :
    (s.modify pid first).modify pid second =
      s.modify pid fun task => second (first task) := by
  simp only [modify, Function.update_self, Function.update_idem, Option.map_map]
  rfl

/-- A task that has blocked where it is registered, or with its timer, gives up the
processor. -/
theorem block_calm (notIdle : s.current ≠ 0) (present : (s.tasks s.current).isSome)
    {state : TaskState} (notReady : state ≠ .ready)
    (blocked : (s.setState s.current state).Calm) (ran : s.block state = .ok after) :
    after.Calm ∧ after.Acting Closing := by
  obtain ⟨task, found⟩ := Option.isSome_iff_exists.mp present
  have present : (s.setState s.current state).tasks (s.setState s.current state).current =
      some { task with state := state } := by
    unfold setState
    rw [modify_current, modify_tasks, if_pos rfl, found]
    rfl
  exact blocked.schedule present (fun isReady => absurd isReady notReady)
    (fun isIdle => absurd isIdle notIdle) ran

/-- A task blocks in a list of tasks. -/
def enter (place : Place) (task : Task) : Task :=
  { task with node := if place.byNode then some place else task.node, state := .blocked }

/-- Blocking in a list of tasks. -/
theorem Calm.waitIn (calm : s.Calm) (free : s.Free s.current)
    (present : (s.tasks s.current).isSome) (notIdle : s.current ≠ 0) (place : Place)
    (ran : (do (← s.pushback place).block .blocked) = .ok after) :
    after.Calm ∧ after.Acting Closing := by
  unfold pushback at ran
  simp only [bind_eq_ok, pure_eq_ok] at ran
  obtain ⟨registered, ⟨_, _, pushed⟩, ran⟩ := ran
  cases pushed
  have orderly := calm.orderly.register free present place (enter place)
    (fun _ => rfl) fun _ => rfl
  have entered : ((s.setWaiting place (s.waiting place ++ [s.current])).modify s.current
      (enter place)).Calm :=
    calm.modify s.current (enter place) orderly rfl fun _ _ mem => .inl mem
  refine block_calm (s := (s.setWaiting place (s.waiting place ++ [s.current])).modify
    s.current fun task =>
      { task with node := if place.byNode then some place else task.node })
    notIdle ?_ (by decide) ?_ ran
  · rw [modify_current, setWaiting_current, modify_tasks, if_pos rfl, Option.isSome_map]
    exact present
  · rw [setState, modify_current, setWaiting_current, modify_modify]
    exact entered

/-- Blocking with a pointer left to the task. -/
theorem Calm.waitAt (calm : s.Calm) (free : s.Free s.current)
    (present : (s.tasks s.current).isSome) (notIdle : s.current ≠ 0) (slot : Slot)
    (ran : (s.setWaiting (.slot slot) [s.current]).block .blocked = .ok after) :
    after.Calm ∧ after.Acting Closing := by
  have orderly := calm.orderly.await free present slot
    (fun task => { task with state := .blocked }) (fun _ => rfl) fun _ => rfl
  have blocked : ((s.setWaiting (.slot slot) [s.current]).setState s.current
      .blocked).Calm :=
    calm.modify s.current (fun task => { task with state := .blocked }) orderly rfl
      fun _ _ mem => .inl mem
  exact block_calm (s := s.setWaiting (.slot slot) [s.current]) notIdle present
    (by decide) blocked ran

/-- Something more to do for the current task, which is not the idle one. -/
theorem Calm.push (calm : s.Calm) (free : s.Free s.current) (notIdle : s.current ≠ 0)
    (ops : List Op) (dieFree : DieFree ops) : (s.push ops).Calm :=
  calm.modify s.current (fun task => { task with pending := ops ++ task.pending })
    (calm.orderly.modify free fun _ => rfl) rfl fun _ _ mem =>
      (List.mem_append.mp mem).symm.imp_right fun inOps =>
        ⟨.inl notIdle, fun status same => dieFree status (same ▸ inOps)⟩

/-! ## Waking -/

/-- Waking a task that is registered in a place. -/
theorem Calm.wake (calm : s.Calm) {place : Place} (registered : pid ∈ s.waiting place) :
    ((s.unregister place pid).setState pid .ready).Calm := by
  obtain ⟨orderly, free⟩ := calm.orderly.unregister registered
  have unregistered : (s.unregister place pid).Calm :=
    calm.modify pid (fun task => { task with node := none }) orderly rfl
      fun _ _ mem => .inl mem
  exact unregistered.modify pid (fun task => { task with state := .ready })
    (orderly.modify free fun _ => rfl) rfl fun _ _ mem => .inl mem

/-- The `node` of a task that no list links is left alone. -/
theorem unlist_of_none (present : s.tasks pid = some task) (none : task.node = none) :
    s.unlist pid = s := by
  unfold unlist
  rw [present, Option.bind_some, none]

/-- Waking a free task. -/
theorem Calm.wakeFree (calm : s.Calm) (free : s.Free pid) :
    (s.intrUnblock pid).Calm := by
  have same : s.unlist pid = s := by
    cases present : s.tasks pid with
    | none => simp [unlist, present]
    | some task =>
        exact unlist_of_none present (calm.orderly.node_none present free.unregistered)
  unfold intrUnblock
  rw [same]
  exact calm.modify pid (fun task => { task with state := .ready })
    (calm.orderly.modify free fun _ => rfl) rfl fun _ _ mem => .inl mem

/-- Waking a task leaves the others as they are. -/
theorem intrUnblock_other (s : Kernel) {other : Nat} (apart : other ≠ pid) :
    (s.intrUnblock pid).tasks other = s.tasks other := by
  unfold intrUnblock setState
  rw [modify_tasks, if_neg apart]
  unfold unlist
  split
  · rfl
  · rw [modify_tasks, if_neg apart, setWaiting_tasks]

@[simp] theorem intrUnblock_current (s : Kernel) (pid : Nat) :
    (s.intrUnblock pid).current = s.current := by
  unfold intrUnblock setState unlist
  split <;> rfl

end Kernel
end Sched
end LightOS
