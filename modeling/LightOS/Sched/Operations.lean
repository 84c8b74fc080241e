import LightOS.Sched.Discipline

/-!
# Operations of the current task

Every operation that the current task can get to keeps the kernel calm, with the
current task running or in its exit, unless `sys_kill` wakes a task that sleeps.
-/

namespace LightOS
namespace Sched

variable {left : List Op → Prop} {place : Place} {slot : Slot}

theorem Closing.head {op : Op} {rest : List Op} (closing : Closing (op :: rest)) :
    op.closes = true :=
  closing.closes op (by simp)

theorem Closing.tail {op : Op} {rest : List Op} (closing : Closing (op :: rest))
    (notLast : op ≠ .yield) : Closing rest := by
  refine ⟨?_, fun other mem => closing.closes other (List.mem_cons_of_mem op mem)⟩
  cases rest with
  | nil => exact absurd (Option.some.inj closing.last) notLast
  | cons next more =>
      rw [← List.getLast?_cons_cons (a := op)]
      exact closing.last

namespace Kernel

variable {s after : Kernel} {pid : Nat} {task : Task}

/-- The current task calls `schedule`. -/
theorem Calm.yields (calm : s.Calm) (acting : s.Acting left) (scheduled : s.schedule = .ok after) :
    after.Calm ∧ after.Acting Closing := by
  obtain ⟨task, present, doing⟩ := acting
  refine calm.schedule present ?_ ?_ scheduled
  · intro ready
    rcases doing with running | ⟨isIdle, _⟩ | ⟨dead, _⟩
    · rw [ready] at running
      cases running
    · exact isIdle
    · rw [ready] at dead
      cases dead
  · intro isIdle
    rcases doing with running | ⟨_, ready⟩ | ⟨_, notIdle, _⟩
    · exact .inl running
    · exact .inr ready
    · exact absurd isIdle notIdle

/-- A change leaves a task where there was one. -/
theorem modify_present (present : (s.tasks pid).isSome) (change : Task → Task) :
    ((s.modify pid change).tasks pid).isSome := by
  rw [modify_tasks, if_pos rfl, Option.isSome_map]
  exact present

/-- What is asked about a task, other than what it has to do. -/
theorem any_setPending (pid : Nat) (ops : List Op) (test : Task → Bool)
    (blind : ∀ task, test { task with pending := ops } = test task) :
    ((s.setPending ops).tasks pid).any test = (s.tasks pid).any test := by
  unfold setPending
  rw [modify_tasks]
  split
  · cases s.tasks pid with
    | none => rfl
    | some task => exact blind task
  · rfl

theorem setPending_pending (present : (s.tasks s.current).isSome) (ops : List Op) :
    (s.setPending ops).pending = ops := by
  obtain ⟨task, found⟩ := Option.isSome_iff_exists.mp present
  unfold Kernel.setPending Kernel.pending
  rw [modify_current, modify_tasks, if_pos rfl, found]
  rfl

/-- The current task is about to run an operation: the rest of what it has to do
is kept with it. -/
structure Turn (s : Kernel) (op : Op) : Prop where
  calm : s.Calm
  acting : s.Acting fun rest => Closing (op :: rest)
  idle : s.current = 0 → op = .yield

namespace Turn

variable {op : Op}

theorem free (turn : s.Turn op) : s.Free s.current :=
  turn.acting.free turn.calm.orderly

theorem present (turn : s.Turn op) : (s.tasks s.current).isSome :=
  turn.acting.present

theorem notIdle (turn : s.Turn op) (notYield : op ≠ .yield) : s.current ≠ 0 :=
  fun isIdle => notYield (turn.idle isIdle)

/-- An operation that leaves the current task as it is. -/
theorem stays (turn : s.Turn op) (notYield : op ≠ .yield)
    (tasks : after.tasks s.current = s.tasks s.current)
    (current : after.current = s.current) : after.Acting Closing :=
  turn.acting.mono (fun _ closing => closing.tail notYield) tasks current

/-- An operation outside of `sys_exit` is one of a task that runs. -/
theorem runs (turn : s.Turn op) (notYield : op ≠ .yield)
    (notClosing : op.closes = false) :
    ∃ task, s.tasks s.current = some task ∧ task.state = .running := by
  obtain ⟨task, present, running | ⟨isIdle, _⟩ | ⟨_, _, closing⟩⟩ := turn.acting
  · exact ⟨task, present, running⟩
  · exact absurd isIdle (turn.notIdle notYield)
  · rw [closing.head] at notClosing
    cases notClosing

/-- An operation that leaves the tasks as they are. -/
theorem idles (turn : s.Turn op) (notYield : op ≠ .yield) (orderly : after.Orderly)
    (tasks : after.tasks = s.tasks) (current : after.current = s.current) :
    after.Calm ∧ after.Acting Closing :=
  ⟨turn.calm.congr orderly tasks, turn.stays notYield (by rw [tasks]) current⟩

/-! ## Sleep, signals and children -/

theorem sleep {ms : Nat} (turn : s.Turn (.sleep ms))
    (ran : s.exec (.sleep ms) = .ok after) : after.Calm ∧ after.Acting Closing := by
  have notIdle : s.current ≠ 0 := turn.notIdle (by simp)
  obtain ⟨task, present, running⟩ := turn.runs (by simp) rfl
  unfold exec at ran
  simp only [bind_eq_ok] at ran
  obtain ⟨_, _, ran⟩ := ran
  let fallAsleep : Task → Task := fun task =>
    { task with pending := .slept s.serial :: task.pending, state := .sleeping }
  have orderly := turn.calm.orderly.timerAdd ms .taskWakeup fallAsleep (fun _ => rfl)
    turn.free fun _ => ⟨task, present, rfl, rfl⟩
  have asleep : ((s.timerAdd ms .taskWakeup).modify s.current fallAsleep).Calm := by
    refine turn.calm.modify s.current fallAsleep orderly rfl fun task op mem => ?_
    rcases List.mem_cons.mp mem with rfl | inPending
    · exact .inr ⟨.inl notIdle, by simp⟩
    · exact .inl inPending
  refine block_calm (s := (s.timerAdd ms .taskWakeup).push [.slept s.serial]) notIdle ?_
    (by decide) ?_ ran
  · exact modify_present (s := s.timerAdd ms .taskWakeup) turn.present _
  · unfold push setState
    rw [modify_current, modify_modify]
    exact asleep

end Turn

/-- A signal that spares the sleeping tasks. -/
theorem Calm.kill (calm : s.Calm) (acting : s.Acting left) (sig : Nat)
    (spares : s.killWakes pid sig .sleeping = false) :
    (s.kill pid sig).Calm ∧ (s.kill pid sig).Acting left := by
  unfold Kernel.kill
  rw [spares, Bool.or_false]
  split
  · rename_i wakes
    unfold killWakes at wakes
    simp only [decide_eq_true_eq, Option.any_eq_true, Bool.decide_and,
      Bool.and_eq_true] at wakes
    obtain ⟨_, task, present, _, waiting⟩ := wakes
    have free := calm.orderly.free present (by simp [waiting]) (by simp [waiting])
    have apart := acting.apart present (.inr (.inl waiting))
    exact ⟨calm.wakeFree free, acting.mono (fun _ same => same)
      (intrUnblock_other s apart.symm) (intrUnblock_current s pid)⟩
  · exact ⟨calm, acting⟩

/-- The child that a round reaps. -/
theorem reaps_of_round {child status : Nat} (round : s.round = .reaps child status) :
    ∃ task, s.child = some child ∧ s.tasks child = some task ∧ task.state = .dead ∧
      task.status = status := by
  unfold Kernel.round at round
  split at round
  · cases round
  · rename_i pid task found
    obtain ⟨first, isChild, found⟩ := Option.bind_eq_some_iff.mp found
    obtain ⟨present, isPresent, same⟩ := Option.map_eq_some_iff.mp found
    cases same
    split at round
    · rename_i dead
      cases round
      exact ⟨task, isChild, isPresent, dead, rfl⟩
    · cases round

/-- A task without anything to do takes up an empty slot, or a slot is emptied. -/
theorem Calm.replace (calm : s.Calm) (free : s.Free pid) {new : Option Task}
    (idles : ∀ task, new = some task → task.node = none ∧ task.pending = []) :
    { s with tasks := Function.update s.tasks pid new }.Calm := by
  have kept (other : Nat) (task : Task)
      (found : Function.update s.tasks pid new other = some task) :
      task.pending = [] ∨ s.tasks other = some task := by
    by_cases same : other = pid
    · rw [same, Function.update_self] at found
      exact .inl (idles task found).2
    · rw [Function.update_of_ne same] at found
      exact .inr found
  refine ⟨calm.orderly.replace free fun task isNew => (idles task isNew).1, ?idle,
    ?dieFree⟩
  case idle =>
    intro task found op mem
    rcases kept 0 task found with nothing | before
    · rw [nothing] at mem
      cases mem
    · exact calm.idle task before op mem
  case dieFree =>
    intro other task found status mem
    rcases kept other task found with nothing | before
    · rw [nothing] at mem
      cases mem
    · exact calm.dieFree other task before status mem

namespace Turn

variable {op : Op}

theorem fork (turn : s.Turn .fork) (ran : s.fork = .ok after) :
    after.Calm ∧ after.Acting Closing := by
  unfold Kernel.fork at ran
  simp only [bind_eq_ok, pure_eq_ok] at ran
  obtain ⟨_, _, new, isNew, ran⟩ := ran
  cases ran
  obtain ⟨task, present⟩ := Option.isSome_iff_exists.mp turn.present
  obtain ⟨empty, _⟩ := getFreeTask_eq isNew
  have apart : s.current ≠ new := by
    rintro same
    rw [← same, present] at empty
    cases empty
  have noNode := turn.calm.orderly.node_none present turn.free.unregistered
  refine ⟨turn.calm.replace (turn.calm.orderly.free_of_none empty) ?_,
    turn.stays (by simp) (Function.update_of_ne apart _ _) rfl⟩
  intro child isChild
  rw [present] at isChild
  cases isChild
  exact ⟨noNode, rfl⟩

/-- A round of `sys_waitpid` reaps a child that is dead. -/
theorem reap (turn : s.Turn op) (notYield : op ≠ .yield) (notClosing : op.closes = false)
    (found : s.tasks pid = some task) (dead : task.state = .dead) :
    { s with tasks := Function.update s.tasks pid none }.Calm ∧
      { s with tasks := Function.update s.tasks pid none }.Acting Closing := by
  obtain ⟨current, present, running⟩ := turn.runs notYield notClosing
  have apart : s.current ≠ pid := by
    rintro rfl
    rw [found] at present
    cases present
    rw [dead] at running
    cases running
  have free := turn.calm.orderly.free found (by simp [dead]) (by simp [dead])
  refine ⟨turn.calm.replace free ?_,
    turn.stays notYield (Function.update_of_ne apart _ _) rfl⟩
  rintro _ ⟨⟩

theorem wait {parent : Nat} (turn : s.Turn (.wait parent))
    (ran : s.wait parent = .ok after) : after.Calm ∧ after.Acting Closing := by
  unfold Kernel.wait at ran
  cases round : s.round with
  | childless =>
      rw [round] at ran
      cases ran
      exact turn.idles (by simp) turn.calm.orderly rfl rfl
  | reaps child status =>
      rw [round] at ran
      cases ran
      obtain ⟨task, _, found, dead, _⟩ := reaps_of_round round
      exact turn.reap (by simp) rfl found dead
  | blocks =>
      rw [round] at ran
      have notIdle := turn.notIdle (by simp)
      let waits : Task → Task := fun task =>
        { task with pending := .wait parent :: task.pending, waitpid := parent,
                    state := .waiting }
      have waiting : (s.modify s.current waits).Calm := by
        refine turn.calm.modify s.current waits
          (turn.calm.orderly.modify turn.free fun _ => rfl) rfl fun task op mem => ?_
        rcases List.mem_cons.mp mem with rfl | inPending
        · exact .inr ⟨.inl notIdle, by simp⟩
        · exact .inl inPending
      refine block_calm (s := (s.push [.wait parent]).modify s.current fun task =>
        { task with waitpid := parent }) notIdle ?_ (by decide) ?_ ran
      · exact modify_present (modify_present turn.present _) _
      · unfold push setState
        rw [modify_current, modify_current, modify_modify, modify_modify]
        exact waiting

end Turn

/-! ## Locks, requests and buffers -/

/-- The task that a pointer is left to, or whose request is queued, has no linked
`node`. -/
theorem Orderly.unlisted (orderly : s.Orderly) (registered : pid ∈ s.waiting place)
    (notByNode : place.byNode = false) (present : s.tasks pid = some task) : task.node = none := by
  cases linked : task.node with
  | none => rfl
  | some other =>
      obtain ⟨byNode, alsoRegistered⟩ := orderly.node pid task other present linked
      rw [orderly.single place other pid registered alsoRegistered, byNode] at notByNode
      cases notByNode

/-- Taking a pointer or a request of a task away is unregistering the task. -/
theorem Orderly.unregister_eq (orderly : s.Orderly) (registered : pid ∈ s.waiting place)
    (notByNode : place.byNode = false) :
    s.setWaiting place ((s.waiting place).erase pid) = s.unregister place pid := by
  obtain ⟨task, present, _⟩ := orderly.blocked place pid registered
  have unlisted := orderly.unlisted registered notByNode present
  have same : (s.tasks pid).map (fun task => { task with node := none }) =
      s.tasks pid := by
    rw [present, Option.map_some]
    cases task
    cases unlisted
    rfl
  unfold Kernel.unregister Kernel.modify setWaiting
  dsimp only
  rw [same, Function.update_eq_self]

/-- A task that has been taken out of its place has no linked `node`. -/
theorem intrUnblock_unregister (s : Kernel) (place : Place) (pid : Nat) :
    (s.unregister place pid).intrUnblock pid =
      (s.unregister place pid).setState pid .ready := by
  have unlisted : ((s.unregister place pid).tasks pid).bind Task.node = none := by
    unfold Kernel.unregister
    rw [modify_tasks, if_pos rfl]
    cases (s.setWaiting place ((s.waiting place).erase pid)).tasks pid <;> rfl
  unfold intrUnblock unlist
  rw [unlisted]

/-- Waking the task that a pointer was left to. -/
theorem Calm.wakeAt (calm : s.Calm) (acting : s.Acting left)
    (registered : pid ∈ s.waiting (.slot slot)) :
    ((s.intrUnblock pid).setWaiting (.slot slot) []).Calm ∧
      ((s.intrUnblock pid).setWaiting (.slot slot) []).Acting left := by
  obtain ⟨task, present, blocked⟩ := calm.orderly.blocked _ pid registered
  have unlisted := calm.orderly.unlisted registered rfl present
  have apart := acting.apart present (.inl blocked)
  refine ⟨?_, acting.mono (fun _ same => same) ?_ (intrUnblock_current s pid)⟩
  · unfold intrUnblock
    rw [unlist_of_none present unlisted]
    have orderly : ((s.setWaiting (.slot slot) []).setState pid .ready).Orderly :=
      (calm.orderly.clear slot).modify (calm.orderly.free_of_slot registered) fun _ => rfl
    exact calm.modify pid (fun task => { task with state := .ready }) orderly rfl
      fun _ _ mem => .inl mem
  · rw [setWaiting_tasks]
    exact intrUnblock_other s apart.symm

theorem Calm.rouse (calm : s.Calm) (acting : s.Acting left)
    (ran : s.exec (.rouse slot) = .ok after) : after.Calm ∧ after.Acting left := by
  rw [exec] at ran
  split at ran
  · cases ran
    exact ⟨calm, acting⟩
  · rename_i pid rest queue
    cases ran
    refine calm.wakeAt acting ?_
    rw [queue]
    exact List.mem_cons_self

namespace Turn

variable {op : Op}

/-- Taking a blocked task out of its place and waking it. -/
theorem wake (turn : s.Turn op) (registered : pid ∈ s.waiting place) :
    ((s.unregister place pid).setState pid .ready).Turn op := by
  obtain ⟨task, found, blocked⟩ := turn.calm.orderly.blocked place pid registered
  have apart := turn.acting.apart found (.inl blocked)
  refine ⟨turn.calm.wake registered, ?acting, turn.idle⟩
  case acting =>
    refine turn.acting.mono (fun _ same => same) ?_ rfl
    unfold setState unregister
    rw [modify_tasks, if_neg apart.symm, modify_tasks, if_neg apart.symm,
      setWaiting_tasks]

/-- A change of the rest of the kernel. -/
theorem congr (turn : s.Turn op) (orderly : after.Orderly)
    (tasks : after.tasks = s.tasks) (current : after.current = s.current) :
    after.Turn op :=
  ⟨turn.calm.congr orderly tasks,
    turn.acting.mono (fun _ same => same) (by rw [tasks]) current,
    fun isIdle => turn.idle (current ▸ isIdle)⟩

/-- The operation is done. -/
theorem done (turn : s.Turn op) (notYield : op ≠ .yield) :
    s.Calm ∧ s.Acting Closing :=
  ⟨turn.calm, turn.stays notYield rfl rfl⟩

theorem lock {lock : Lock} (turn : s.Turn (.lock lock))
    (ran : s.exec (.lock lock) = .ok after) : after.Calm ∧ after.Acting Closing := by
  rw [exec] at ran
  split at ran
  · have notIdle := turn.notIdle (by simp)
    refine (turn.calm.push turn.free notIdle [.lock lock] (by simp [DieFree])).waitIn
      ?_ ?_ notIdle (.mutex lock) ran
    · exact ⟨turn.free.unregistered, turn.free.untimed⟩
    · exact modify_present turn.present _
  · cases ran
    exact turn.idles (by simp) (turn.calm.orderly.congr rfl rfl rfl rfl) rfl rfl

theorem unlock {lock : Lock} (turn : s.Turn (.unlock lock))
    (ran : s.exec (.unlock lock) = .ok after) : after.Calm ∧ after.Acting Closing := by
  have released : { s with held := Function.update s.held lock false }.Turn
      (.unlock lock) :=
    turn.congr (turn.calm.orderly.congr rfl rfl rfl rfl) rfl rfl
  rw [exec] at ran
  dsimp only at ran
  split at ran
  · cases ran
    exact released.done (by simp)
  · rename_i pid rest queue
    have registered : pid ∈ s.waiting (.mutex lock) := by
      rw [queue]
      exact List.mem_cons_self
    have woken := released.wake registered
    exact woken.calm.yields woken.acting ran

theorem starve (turn : s.Turn .starve) (ran : s.exec .starve = .ok after) :
    after.Calm ∧ after.Acting Closing := by
  rw [exec] at ran
  exact turn.calm.waitIn turn.free turn.present (turn.notIdle (by simp)) .buffers ran

theorem refill (turn : s.Turn .refill) (ran : s.exec .refill = .ok after) :
    after.Calm ∧ after.Acting Closing := by
  rw [exec] at ran
  split at ran
  · cases ran
    exact turn.done (by simp)
  · rename_i pid last
    cases ran
    rw [intrUnblock_unregister]
    exact (turn.wake (List.mem_of_getLast? last)).done (by simp)

theorem await (turn : s.Turn (.await slot)) (ran : s.exec (.await slot) = .ok after) :
    after.Calm ∧ after.Acting Closing := by
  have notIdle := turn.notIdle (by simp)
  rw [exec, if_neg notIdle] at ran
  exact turn.calm.waitAt turn.free turn.present notIdle slot ran

theorem request {disk : Nat} (turn : s.Turn (.request disk))
    (ran : s.exec (.request disk) = .ok after) : after.Calm ∧ after.Acting Closing := by
  rw [exec] at ran
  split at ran
  · cases ran
    exact turn.idles (by simp) (turn.calm.orderly.congr rfl rfl rfl rfl) rfl rfl
  · exact turn.calm.waitIn turn.free turn.present (turn.notIdle (by simp))
      (.requests disk) ran

theorem complete {disk choice : Nat} (turn : s.Turn (.complete disk choice))
    (ran : s.exec (.complete disk choice) = .ok after) :
    after.Calm ∧ after.Acting Closing := by
  rw [exec] at ran
  dsimp only at ran
  split at ran
  · cases ran
    exact turn.idles (by simp) (turn.calm.orderly.congr rfl rfl rfl rfl) rfl rfl
  · rename_i pid chosen
    cases ran
    let served : Kernel :=
      { s with serving := Function.update (Function.update s.serving disk false) disk true }
    have serves : served.Turn (.complete disk choice) :=
      turn.congr (turn.calm.orderly.congr rfl rfl rfl rfl) rfl rfl
    have registered : pid ∈ served.waiting (.requests disk) :=
      List.mem_of_getElem? chosen
    have woken := (serves.wake registered).done (by simp)
    rw [← intrUnblock_unregister,
      ← serves.calm.orderly.unregister_eq registered rfl] at woken
    exact woken

theorem flush {buffer : Buffer} {choice : Nat} (turn : s.Turn (.flush buffer choice)) :
    (s.flush buffer choice).Calm ∧ (s.flush buffer choice).Acting Closing := by
  unfold Kernel.flush
  split
  · split
    · exact turn.idles (by simp) (turn.calm.orderly.congr rfl rfl rfl rfl) rfl rfl
    · rename_i disk ctrl _
      have notIdle := turn.notIdle (by simp)
      refine ⟨turn.calm.push turn.free notIdle _ (by simp [DieFree, writeOps]), ?_⟩
      obtain ⟨task, present, doing⟩ := turn.acting
      refine ⟨{ task with pending := writeOps buffer disk ctrl choice ++ task.pending },
        ?_, doing.imp_right (Or.imp_right fun dead => ⟨dead.1, dead.2.1, ?_⟩)⟩
      · unfold push
        rw [modify_current, modify_tasks, if_pos rfl, present]
        rfl
      · exact (dead.2.2.tail (by simp)).append (writeOps_closes buffer disk ctrl choice)
  · exact turn.done (by simp)

end Turn

/-! ## Timers and exits -/

/-- A change that concerns neither what a task does nor where it waits. -/
theorem Calm.touch (calm : s.Calm) (acting : s.Acting left) (pid : Nat) (change : Task → Task)
    (node : ∀ task, (change task).node = task.node)
    (state : ∀ task, (change task).state = task.state)
    (pending : ∀ task, (change task).pending = task.pending) :
    (s.modify pid change).Calm ∧ (s.modify pid change).Acting left := by
  refine ⟨calm.modify pid change (calm.orderly.modify_keeps node state pending) rfl
    fun task op mem => .inl (pending task ▸ mem), ?_⟩
  obtain ⟨task, present, doing⟩ := acting
  by_cases same : s.current = pid
  · refine ⟨change task, ?_, ?_⟩
    · rw [modify_current, modify_tasks, if_pos same, present, Option.map_some]
    · rw [state, pending]
      exact doing
  · refine ⟨task, ?_, doing⟩
    rw [modify_current, modify_tasks, if_neg same]
    exact present

theorem Calm.adoptOne (calm : s.Calm) (acting : s.Acting left) (pid : Nat) :
    (s.adoptOne pid).Calm ∧ (s.adoptOne pid).Acting left := by
  unfold Kernel.adoptOne
  split
  · rename_i task dying found present
    split
    · exact calm.touch acting pid _ (fun _ => rfl) (fun _ => rfl) fun _ => rfl
    · split
      · split
        · rename_i waiting
          have free := calm.orderly.free found (by simp [waiting]) (by simp [waiting])
          have apart := acting.apart found (.inr (.inl waiting))
          exact (calm.wakeFree free).touch (acting.mono (fun _ same => same)
            (intrUnblock_other s apart.symm) (intrUnblock_current s pid)) pid _
            (fun _ => rfl) (fun _ => rfl) fun _ => rfl
        · exact calm.touch acting pid _ (fun _ => rfl) (fun _ => rfl) fun _ => rfl
      · exact ⟨calm, acting⟩
  · exact ⟨calm, acting⟩

theorem Calm.adopt (calm : s.Calm) (acting : s.Acting left) (pids : List Nat) :
    (pids.foldl Kernel.adoptOne s).Calm ∧
      (pids.foldl Kernel.adoptOne s).Acting left := by
  induction pids generalizing s with
  | nil => exact ⟨calm, acting⟩
  | cons pid rest inductionHypothesis =>
      obtain ⟨calmAfter, actingAfter⟩ := calm.adoptOne acting pid
      exact inductionHypothesis calmAfter actingAfter

namespace Turn

variable {op : Op}

theorem beep (turn : s.Turn .beep) (ran : s.exec .beep = .ok after) :
    after.Calm ∧ after.Acting Closing := by
  rw [exec] at ran
  split at ran
  · cases ran
    exact turn.done (by simp)
  · cases ran
    have orderly := turn.calm.orderly.timerAdd beepLastMs .stopBeep id (fun _ => rfl)
      turn.free (by rintro ⟨⟩)
    refine turn.idles (by simp) (orderly.congr ?_ rfl rfl rfl) rfl rfl
    funext pid
    rw [modify_tasks]
    split
    · exact (Option.map_id_apply).symm
    · rfl

theorem dropTimers (turn : s.Turn .dropTimers) :
    (s.timerRemove s.current).Calm ∧ (s.timerRemove s.current).Acting Closing :=
  turn.idles (by simp) (turn.calm.orderly.timers_sublist List.filter_sublist) rfl rfl

theorem tellFather (turn : s.Turn .tellFather) (ran : s.exec .tellFather = .ok after) :
    after.Calm ∧ after.Acting Closing := by
  rw [exec] at ran
  split at ran
  · cases ran
  · cases ran
    exact turn.done (by simp)

/-- Every operation but the beginning of an exit, unless a signal wakes a task that
sleeps. -/
theorem exec (turn : s.Turn op) (notExit : ∀ status, op ≠ .die status)
    (spares : ∀ pid sig, op = .kill pid sig → s.killWakes pid sig .sleeping = false)
    (ran : s.exec op = .ok after) : after.Calm ∧ after.Acting Closing := by
  cases op with
  | sleep ms => exact turn.sleep ran
  | slept serial =>
      cases ran
      exact turn.done (by simp)
  | kill pid sig =>
      cases ran
      exact turn.calm.kill (turn.stays (by simp) rfl rfl) sig (spares pid sig rfl)
  | yield => exact turn.calm.yields turn.acting ran
  | fork => exact turn.fork ran
  | wait pid => exact turn.wait ran
  | lock lock => exact turn.lock ran
  | unlock lock => exact turn.unlock ran
  | starve => exact turn.starve ran
  | refill => exact turn.refill ran
  | await slot => exact turn.await ran
  | rouse slot => exact turn.calm.rouse (turn.stays (by simp) rfl rfl) ran
  | request disk => exact turn.request ran
  | complete disk choice => exact turn.complete ran
  | soil buffer =>
      cases ran
      exact turn.idles (by simp) (turn.calm.orderly.congr rfl rfl rfl rfl) rfl rfl
  | clean buffer =>
      cases ran
      exact turn.idles (by simp) (turn.calm.orderly.congr rfl rfl rfl rfl) rfl rfl
  | flush buffer choice =>
      cases ran
      exact turn.flush
  | beep => exact turn.beep ran
  | enterUser =>
      rw [Kernel.exec] at ran
      simp only [bind_eq_ok, pure_eq_ok] at ran
      obtain ⟨_, _, ran⟩ := ran
      cases ran
      exact turn.calm.touch (turn.stays (by simp) rfl rfl) s.current _ (fun _ => rfl)
        (fun _ => rfl) fun _ => rfl
  | die status => exact absurd rfl (notExit status)
  | dropTimers =>
      cases ran
      exact turn.dropTimers
  | tellFather => exact turn.tellFather ran
  | adopt =>
      cases ran
      exact turn.calm.adopt (turn.stays (by simp) rfl rfl) (List.range taskNr)

end Turn
end Kernel
end Sched
end LightOS
