import LightOS.Sched.Operations

/-!
# Timers of sleeping tasks

`sys_sleep` adds a timer for the task, and `sys_kill` wakes a sleeping task and
leaves its timer behind: it fires while the task does something else.  In a run
in which no signal wakes a sleeping task, a timer only wakes the sleep that added
it.
-/

namespace LightOS
namespace Sched
namespace Kernel

variable {left : List Op → Prop} {rest : List Op} {label : Label} {s after : Kernel} {pid : Nat}
  {task : Task}

/-! ## The clock -/

/-- The timers that a call of `timer_wakeup` takes off a list, each with the state
that its handler is called in. -/
def firings (s : Kernel) : List Timer → List (Kernel × Timer)
  | [] => []
  | timer :: rest =>
      if timer.expires ≤ s.jiffies then
        (s, timer) :: firings (s.handle timer) rest
      else
        []

/-- Taking the first timer off the list and running its handler. -/
theorem Orderly.handle {timer : Timer} {rest : List Timer}
    (orderly : { s with timers := timer :: rest }.Orderly) :
    { s.handle timer with timers := rest }.Orderly := by
  have shorter := orderly.timers_sublist (List.sublist_cons_self timer rest)
  cases handler : timer.handler with
  | taskWakeup =>
      have free := orderly.fire rfl handler
      unfold Kernel.handle
      rw [handler]
      have woken : ({ s with timers := rest }.taskWakeup timer.task).Orderly :=
        shorter.modify free fun _ => rfl
      exact woken
  | stopBeep =>
      unfold Kernel.handle
      rw [handler]
      exact shorter.congr rfl rfl rfl rfl

/-- Every timer that fires finds its task in the sleep that added it. -/
theorem Orderly.firings (queue : List Timer)
    (orderly : { s with timers := queue }.Orderly) :
    ∀ fired ∈ s.firings queue, fired.2.handler = .taskWakeup →
      fired.1.Armed fired.2 := by
  induction queue generalizing s with
  | nil => simp [Kernel.firings]
  | cons timer rest inductionHypothesis =>
      intro fired mem wakes
      unfold Kernel.firings at mem
      split at mem
      · rcases List.mem_cons.mp mem with rfl | later
        · exact orderly.armed timer List.mem_cons_self wakes
        · exact inductionHypothesis orderly.handle fired later wakes
      · cases mem

theorem Calm.timerWakeupFrom (queue : List Timer) (calm : { s with timers := queue }.Calm)
    (acting : s.Acting left) (ran : s.timerWakeupFrom queue = .ok after) :
    after.Calm ∧ after.Acting left := by
  induction queue generalizing s with
  | nil =>
      rw [Kernel.timerWakeupFrom] at ran
      simp only [bind_eq_ok, pure_eq_ok] at ran
      obtain ⟨_, _, ran⟩ := ran
      cases ran
      exact ⟨calm, acting⟩
  | cons timer rest inductionHypothesis =>
      rw [Kernel.timerWakeupFrom] at ran
      split at ran
      · have orderly := calm.orderly.handle
        cases handler : timer.handler with
        | taskWakeup =>
            obtain ⟨task, found, sleeping, _⟩ :=
              calm.orderly.armed timer List.mem_cons_self handler
            have apart := acting.apart found (.inr (.inr sleeping))
            unfold Kernel.handle at ran orderly
            rw [handler] at ran orderly
            refine inductionHypothesis (calm.modify timer.task (fun task =>
              { task with ticks := task.priority, state := .ready }) orderly rfl
              fun _ _ mem => .inl mem) ?_ ran
            refine acting.mono (fun _ same => same) ?_ rfl
            unfold taskWakeup
            rw [modify_tasks, if_neg apart.symm]
        | stopBeep =>
            unfold Kernel.handle at ran orderly
            rw [handler] at ran orderly
            exact inductionHypothesis (calm.congr orderly rfl)
              (acting.mono (fun _ same => same) rfl rfl) ran
      · cases ran
        exact ⟨calm, acting⟩

theorem Calm.clockHandler (calm : s.Calm) (acting : s.Acting fun _ => False)
    (ran : s.clockHandler = .ok after) : after.Calm ∧ after.Acting Closing := by
  unfold Kernel.clockHandler timerWakeup at ran
  simp only [bind_eq_ok, pure_eq_ok] at ran
  obtain ⟨woken, wakes, ran⟩ := ran
  have ticking : { s with jiffies := add32 s.jiffies 1 }.Calm :=
    calm.congr (calm.orderly.congr rfl rfl rfl rfl) rfl
  obtain ⟨wokenCalm, wokenActing⟩ := Calm.timerWakeupFrom
    (s := { s with jiffies := add32 s.jiffies 1 }) s.timers ticking
    (acting.mono (fun _ same => same) rfl rfl) wakes
  obtain ⟨usedCalm, usedActing⟩ := wokenCalm.touch wokenActing woken.current
    (fun task => { task with ticks := sub32 task.ticks 1 }) (fun _ => rfl) (fun _ => rfl)
    fun _ => rfl
  split at ran
  · obtain ⟨freshCalm, freshActing⟩ := usedCalm.touch usedActing woken.current
      (fun task => { task with ticks := task.priority }) (fun _ => rfl) (fun _ => rfl)
      fun _ => rfl
    exact freshCalm.yields freshActing ran
  · cases ran
    exact ⟨usedCalm, usedActing.mono (fun _ impossible => impossible.elim) rfl rfl⟩

/-! ## Runs -/

/-- What holds between the steps of a run: the kernel is calm, or the current task
has just entered `sys_exit`. -/
inductive Settled (s : Kernel) : Prop
  | calm : s.Calm → s.Acting Closing → s.Settled
  | exits (before : Kernel) (status : Nat) (rest : List Op) :
      before.Calm → before.Acting (fun _ => False) → before.current ≠ 0 →
      Closing rest → s = before.setPending (.die status :: rest) → s.Settled

/-- A task that is outside the kernel is in no exit. -/
theorem Acting.outside (acting : s.Acting Closing) (outside : s.pending = []) :
    s.Acting fun _ => False := by
  obtain ⟨task, present, doing⟩ := acting
  refine ⟨task, present, doing.imp_right (Or.imp_right fun dead => ?_)⟩
  unfold pending at outside
  rw [present] at outside
  have nothing : task.pending = [] := outside
  have last := dead.2.2.last
  rw [nothing] at last
  cases last

/-- Changing what the current task has to do. -/
theorem Calm.setPending (calm : s.Calm) (acting : s.Acting left) (ops : List Op)
    (idle : s.current = 0 → ∀ op ∈ ops, op = .yield) (dieFree : DieFree ops) :
    (s.setPending ops).Calm := by
  refine calm.modify s.current (fun task => { task with pending := ops })
    (calm.orderly.modify (acting.free calm.orderly) fun _ => rfl) rfl
    fun task op mem => .inr ⟨?_, fun status same => dieFree status (same ▸ mem)⟩
  by_cases isIdle : s.current = 0
  · exact .inr (idle isIdle op mem)
  · exact .inl isIdle

theorem Acting.setPending {right : List Op → Prop} (acting : s.Acting left) (ops : List Op)
    (weaker : ∀ before, left before → right ops) : (s.setPending ops).Acting right := by
  obtain ⟨task, present, doing⟩ := acting
  refine ⟨{ task with pending := ops }, ?_, doing.imp_right (Or.imp_right fun dead =>
    ⟨dead.1, dead.2.1, weaker _ dead.2.2⟩)⟩
  unfold Kernel.setPending
  rw [modify_current, modify_tasks, if_pos rfl, present]
  rfl

theorem killWakes_setPending (ops : List Op) (pid sig : Nat) (state : TaskState) :
    (s.setPending ops).killWakes pid sig state = s.killWakes pid sig state := by
  unfold killWakes
  rw [any_setPending pid ops _ fun _ => rfl]

/-- The current task enters the kernel. -/
theorem Settled.call (calm : s.Calm) (acting : s.Acting fun _ => False) (call : Call)
    (idle : s.current ≠ 0 ∨ call = .yield) : (s.setPending call.ops).Settled := by
  have enters (dieFree : DieFree call.ops) : (s.setPending call.ops).Settled := by
    refine .calm (calm.setPending acting call.ops (fun isIdle op mem => ?_) dieFree)
      (acting.setPending call.ops fun _ impossible => impossible.elim)
    rw [idle.resolve_left fun notIdle => notIdle isIdle] at mem
    exact List.mem_singleton.mp mem
  cases call with
  | exit status inodes files =>
      exact .exits s status (exitTail inodes files) calm acting
        (idle.resolve_right (by simp)) (exitTail_closing inodes files) rfl
  | work ops =>
      refine enters fun status mem => ?_
      obtain ⟨_, isWork⟩ := List.mem_filter.mp mem
      cases isWork
  | sleep ms => exact enters (by simp [DieFree, Call.ops])
  | kill pid sig => exact enters (by simp [DieFree, Call.ops])
  | yield => exact enters (by simp [DieFree, Call.ops])
  | fork => exact enters (by simp [DieFree, Call.ops])
  | waitpid pid => exact enters (by simp [DieFree, Call.ops])

/-- The current task runs its next operation. -/
theorem Settled.run (calm : s.Calm) (acting : s.Acting Closing) {op : Op}
    (pending : s.pending = op :: rest)
    (spares : ∀ pid sig, op = .kill pid sig → s.killWakes pid sig .sleeping = false)
    (ran : (s.setPending rest).exec op = .ok after) : after.Settled := by
  obtain ⟨task, present, doing⟩ := acting
  have ops : task.pending = op :: rest := by
    unfold Kernel.pending at pending
    rw [present] at pending
    exact pending
  have inside (other : Op) (mem : other ∈ rest) : other ∈ task.pending := by
    rw [ops]
    exact List.mem_cons_of_mem op mem
  have turn : (s.setPending rest).Turn op := by
    refine ⟨?calm, ?acting, ?idle⟩
    case calm =>
      refine calm.setPending ⟨task, present, doing⟩ rest (fun isIdle other mem => ?_)
        fun status mem => ?_
      · exact calm.idle task (isIdle ▸ present) other (inside other mem)
      · exact calm.dieFree s.current task present status (inside _ mem)
    case acting =>
      have knows : s.Acting fun before => before = op :: rest ∧ Closing before :=
        ⟨task, present, doing.imp_right (Or.imp_right fun dead =>
          ⟨dead.1, dead.2.1, ops, dead.2.2⟩)⟩
      exact knows.setPending rest fun before closing => closing.1 ▸ closing.2
    case idle =>
      intro isIdle
      exact calm.idle task (isIdle ▸ present) op (by simp [ops])
  have notExit (status : Nat) : op ≠ .die status := by
    rintro rfl
    exact calm.dieFree s.current task present status (by simp [ops])
  obtain ⟨calmAfter, actingAfter⟩ := turn.exec notExit
    (fun pid sig isKill => by rw [killWakes_setPending]; exact spares pid sig isKill) ran
  exact .calm calmAfter actingAfter

theorem setPending_setPending (ops more : List Op) :
    (s.setPending ops).setPending more = s.setPending more :=
  modify_modify s s.current _ _

/-- The beginning of an exit. -/
theorem Calm.die (calm : s.Calm) (acting : s.Acting fun _ => False) (notIdle : s.current ≠ 0)
    {status : Nat} (closing : Closing rest)
    (ran : (s.setPending rest).exec (.die status) = .ok after) :
    after.Calm ∧ after.Acting Closing := by
  rw [exec] at ran
  simp only [bind_eq_ok, pure_eq_ok] at ran
  obtain ⟨_, _, _, _, ran⟩ := ran
  cases ran
  have rests := calm.setPending acting rest (fun isIdle => absurd isIdle notIdle)
    closing.dieFree
  have free := acting.free calm.orderly
  obtain ⟨task, present, _⟩ := acting
  have dies : (s.setPending rest).Free (s.setPending rest).current :=
    ⟨free.unregistered, free.untimed⟩
  refine ⟨rests.modify s.current (fun task => { task with state := .dead, status := status })
    (rests.orderly.modify dies fun _ => rfl) rfl fun _ _ mem => .inl mem,
    { task with pending := rest, state := .dead, status := status }, ?_,
    .inr (.inr ⟨rfl, notIdle, closing⟩)⟩
  unfold Kernel.setPending
  rw [modify_current, modify_current, modify_current, modify_modify, modify_tasks,
    if_pos rfl, present]
  rfl

/-- A task that is inside the kernel runs its next operation before anything else
happens. -/
theorem step_inside {op : Op} (pending : s.pending = op :: rest)
    (taken : s.step label = .ok after) :
    label = .run ∧ (s.setPending rest).exec op = .ok after := by
  cases taken_of_step taken with
  | run others ran =>
      cases pending.symm.trans others
      exact ⟨rfl, ran⟩
  | _ outside => cases pending.symm.trans outside

/-- The signal that a step sends, if it sends one, does not wake a sleeping task. -/
def SparesSleepers (s : Kernel) : Label → Prop
  | .run => ∀ pid sig rest, s.pending = .kill pid sig :: rest →
      s.killWakes pid sig .sleeping = false
  | .strike pid => s.killWakes pid sigInt .sleeping = false
  | _ => True

theorem Settled.boot : boot.Settled := by
  refine .calm ⟨?orderly, ?idle, ?dieFree⟩ ⟨_, rfl, .inr (.inl ⟨rfl, rfl⟩)⟩
  case orderly =>
    refine ⟨?blocked, ?single, ?nodup, ?node, ?armed, ?serials, ?distinct⟩
    case blocked => rintro place pid ⟨⟩
    case single => rintro place other pid ⟨⟩
    case nodup => exact fun place => List.nodup_nil
    case node =>
      intro pid task place present linked
      dsimp only [Kernel.boot] at present
      split at present
      · cases present
        cases linked
      · split at present
        · cases present
          cases linked
        · cases present
    case armed => rintro timer ⟨⟩
    case serials => rintro timer ⟨⟩
    case distinct => exact List.nodup_nil
  case idle =>
    rintro task ⟨⟩ op ⟨⟩
  case dieFree =>
    intro pid task present status mem
    dsimp only [Kernel.boot] at present
    split at present
    · cases present
      cases mem
    · split at present
      · cases present
        cases mem
      · cases present

/-- A step keeps the kernel settled. -/
theorem Settled.step (settled : s.Settled) (spares : s.SparesSleepers label)
    (taken : s.step label = .ok after) : after.Settled := by
  cases settled with
  | exits before status rest calm acting notIdle closing isExit =>
      have pending : s.pending = .die status :: rest := by
        rw [isExit]
        exact setPending_pending acting.present _
      obtain ⟨rfl, ran⟩ := step_inside pending taken
      rw [isExit, setPending_setPending] at ran
      obtain ⟨calmAfter, actingAfter⟩ := calm.die acting notIdle closing ran
      exact .calm calmAfter actingAfter
  | calm calm acting =>
      cases taken_of_step taken with
      | call outside enters => exact .call calm (acting.outside outside) _ enters
      | run pending ran =>
          exact .run calm acting pending
            (fun pid sig isKill => spares pid sig _ (isKill ▸ pending)) ran
      | tick outside ticked =>
          obtain ⟨calmAfter, actingAfter⟩ := calm.clockHandler (acting.outside outside) ticked
          exact .calm calmAfter actingAfter
      | interrupt outside roused =>
          obtain ⟨calmAfter, actingAfter⟩ := calm.rouse acting roused
          exact .calm calmAfter actingAfter
      | strike outside =>
          obtain ⟨calmAfter, actingAfter⟩ := calm.kill acting sigInt spares
          exact .calm calmAfter actingAfter

/-- The order holds between the steps. -/
theorem Settled.orderly (settled : s.Settled) : s.Orderly := by
  cases settled with
  | calm calm acting => exact calm.orderly
  | exits before status rest calm acting notIdle closing isExit =>
      rw [isExit]
      exact calm.orderly.modify (acting.free calm.orderly) fun _ => rfl

/-- `timer_wakeup` and `sys_exit` find the tasks as they expect them. -/
structure TimersFaithful (s : Kernel) : Prop where
  /-- Every timer that the next clock interrupt fires to wake a task finds it in the
  sleep that added the timer. -/
  fires : ∀ fired ∈ { s with jiffies := add32 s.jiffies 1 }.firings s.timers,
    fired.2.handler = .taskWakeup → fired.1.Armed fired.2
  /-- A task that enters `sys_exit` is running. -/
  exits : ∀ status rest, s.pending = .die status :: rest →
    ∃ task, s.tasks s.current = some task ∧ task.state = .running

theorem Settled.timersFaithful (settled : s.Settled) : s.TimersFaithful := by
  refine ⟨?fires, ?exits⟩
  case fires =>
    exact Orderly.firings s.timers (settled.orderly.congr rfl rfl rfl rfl)
  case exits =>
    intro status rest pending
    cases settled with
    | calm calm acting =>
        obtain ⟨task, present, _⟩ := acting
        unfold Kernel.pending at pending
        rw [present] at pending
        refine absurd ?_ (calm.dieFree s.current task present status)
        rw [show task.pending = .die status :: rest from pending]
        exact List.mem_cons_self
    | exits before code tail calm acting notIdle closing isExit =>
        obtain ⟨task, present, doing⟩ := acting
        refine ⟨{ task with pending := .die code :: tail }, ?_, doing.resolve_right ?_⟩
        · rw [isExit]
          unfold Kernel.setPending
          rw [modify_current, modify_tasks, if_pos rfl, present]
          rfl
        · rintro (⟨isIdle, _⟩ | ⟨_, _, impossible⟩)
          · exact notIdle isIdle
          · exact impossible

/-- In a run in which no signal wakes a sleeping task, timers only wake the sleep
that added them. -/
theorem timersFaithful_of_sparesSleepers :
    ∀ s, system.ReachableWithin SparesSleepers s → s.TimersFaithful := by
  intro s reached
  have settled : s.Settled := reached.invariant Settled
    (by rintro s rfl; exact Settled.boot)
    fun before label after settled spares taken => settled.step spares taken
  exact settled.timersFaithful

/-- `init` becomes a user process, forks, and its child sleeps. -/
def childSleeps (ms : Nat) : List Label :=
  does .yield 1 ++ does (.work [.enterUser]) 1 ++ does .fork 1 ++ does .yield 1 ++
    does (.sleep ms) 1

/-- A signal reaches the child in its sleep; the child goes on and waits for a
key. -/
def signalledChild : List Label :=
  childSleeps 10 ++ does (.kill 2 17) 1 ++ does .yield 1 ++ [.run] ++
    does (.work [.await .keyboard]) 1

/-- The next clock interrupt wakes a blocked task. -/
def misfires (s : Kernel) : Bool :=
  ({ s with jiffies := add32 s.jiffies 1 }.firings s.timers).any fun fired =>
    decide (fired.2.handler = Handler.taskWakeup) &&
      (fired.1.tasks fired.2.task).all fun task : Task =>
        decide (task.state = TaskState.blocked)

/-- The timer of a sleep that a signal has ended wakes its task from another
wait. -/
theorem timersFaithful_fails : ¬∀ s, system.Reachable s → s.TimersFaithful := by
  intro always
  obtain ⟨final, reached, fires⟩ := System.ReachableWithin.extend_run system
    (fun _ _ => True) Kernel.step (fun _ _ _ taken => ⟨trivial, taken⟩)
    signalledChild misfires (.initial rfl) (by decide +kernel)
  unfold misfires at fires
  rw [List.any_eq_true] at fires
  obtain ⟨fired, mem, unfaithful⟩ := fires
  rw [Bool.and_eq_true] at unfaithful
  obtain ⟨task, found, sleeping, _⟩ :=
    (always final reached).fires fired mem (of_decide_eq_true unfaithful.1)
  have blocked := unfaithful.2
  rw [found, Option.all_some, sleeping] at blocked
  cases blocked

/-- A step that sends no signal at all. -/
def silent (s : Kernel) : Label → Bool
  | .run => s.pending.head?.all fun op => match op with
      | .kill _ _ => false
      | _ => true
  | .strike _ => false
  | _ => true

theorem sparesSleepers_of_silent (isSilent : s.silent label = true) : s.SparesSleepers label := by
  cases label with
  | run =>
      intro pid sig rest pending
      simp [silent, pending] at isSilent
  | strike pid => cases isSilent
  | call call => trivial
  | tick => trivial
  | interrupt slot => trivial

/-- A silent run in which the child has gone to sleep. -/
theorem timersFaithful_of_sparesSleepers_asleep :
    ∃ s, system.ReachableWithin SparesSleepers s ∧ s.timers ≠ [] ∧
      s.TimersFaithful := by
  obtain ⟨final, reached, asleep⟩ := System.ReachableWithin.extend_run system
    SparesSleepers (fun s label => if s.silent label then s.step label else .error .misuse)
    (fun before label after taken => by
      split at taken
      · rename_i isSilent
        exact ⟨sparesSleepers_of_silent isSilent, taken⟩
      · cases taken)
    (childSleeps 10) (fun final => decide (final.timers ≠ [])) (.initial rfl)
    (by decide +kernel)
  exact ⟨final, reached, of_decide_eq_true asleep,
    timersFaithful_of_sparesSleepers final reached⟩

end Kernel
end Sched
end LightOS
