import LightOS.Sched.Children

/-!
# The end of a task

A task that is dead stays dead until it is reaped: nothing that could bring it back is
left behind when it exits, as long as it was registered nowhere when it began its exit
and the exit writes to no disk.
-/

namespace LightOS
namespace Sched

variable {op : Op} {rest : List Op}

/-- Operations that register the current task somewhere, or mark a buffer as dirty. -/
def Op.adds : Op → Bool
  | .sleep _ | .lock _ | .starve | .await _ | .request _ | .soil _ | .beep => true
  | _ => false

namespace Kernel

variable {s middle after : Kernel} {moved : Nat → Prop} {adds : Prop} {pid : Nat} {task : Task}

/-- Nobody but the current task is newly registered in a place or with a timer, and no
buffer becomes dirty, unless the parameter tells otherwise. -/
structure Registers (adds : Prop) (s after : Kernel) : Prop where
  waiting : ∀ place pid, pid ∈ after.waiting place →
    pid ∈ s.waiting place ∨ pid = s.current ∧ adds
  timers : ∀ timer ∈ after.timers, timer ∈ s.timers ∨ timer.task = s.current ∧ adds
  dirty : ∀ buffer, after.dirty buffer = true → s.dirty buffer = true ∨ adds

namespace Registers

theorem of_eq (waiting : after.waiting = s.waiting) (timers : after.timers = s.timers)
    (dirty : after.dirty = s.dirty) : Registers adds s after := by
  refine ⟨fun place pid mem => .inl ?_, fun timer mem => .inl ?_, fun buffer set => .inl ?_⟩
  · rw [← waiting]
    exact mem
  · rw [← timers]
    exact mem
  · rw [← dirty]
    exact set

theorem refl (s : Kernel) : Registers adds s s :=
  of_eq rfl rfl rfl

theorem trans (first : Registers adds s middle) (second : Registers False middle after) :
    Registers adds s after :=
  ⟨fun place pid mem =>
      first.waiting place pid ((second.waiting place pid mem).resolve_right And.right),
    fun timer mem => first.timers timer ((second.timers timer mem).resolve_right And.right),
    fun buffer set => first.dirty buffer ((second.dirty buffer set).resolve_right id)⟩

theorem modify (s : Kernel) (pid : Nat) (change : Task → Task) :
    Registers adds s (s.modify pid change) :=
  of_eq rfl rfl rfl

theorem push (s : Kernel) (ops : List Op) : Registers adds s (s.push ops) :=
  modify s s.current _

theorem setState (s : Kernel) (pid : Nat) (state : TaskState) :
    Registers adds s (s.setState pid state) :=
  modify s pid _

/-- Tasks leave a place. -/
theorem leave (s : Kernel) (place : Place) {tasks : List Nat}
    (fewer : tasks ⊆ s.waiting place) : Registers adds s (s.setWaiting place tasks) := by
  refine ⟨fun other pid mem => .inl ?_, fun _ mem => .inl mem, fun _ set => .inl set⟩
  rw [setWaiting_waiting] at mem
  split at mem
  · rename_i same
    rw [same]
    exact fewer mem
  · exact mem

/-- The current task enters a place. -/
theorem enter (adding : adds) (s : Kernel) (place : Place) {tasks : List Nat}
    (more : ∀ pid ∈ tasks, pid ∈ s.waiting place ∨ pid = s.current) :
    Registers adds s (s.setWaiting place tasks) := by
  refine ⟨fun other pid mem => ?_, fun _ mem => .inl mem, fun _ set => .inl set⟩
  rw [setWaiting_waiting] at mem
  split at mem
  · rename_i same
    rw [same]
    exact (more pid mem).imp_right fun isCurrent => ⟨isCurrent, adding⟩
  · exact .inl mem

theorem unlist (s : Kernel) (pid : Nat) : Registers adds s (s.unlist pid) := by
  unfold Kernel.unlist
  split
  · exact refl s
  · exact (leave s _ List.erase_subset).trans (modify _ _ _)

theorem intrUnblock (s : Kernel) (pid : Nat) : Registers adds s (s.intrUnblock pid) :=
  (unlist s pid).trans (setState _ _ _)

theorem unregister (s : Kernel) (place : Place) (pid : Nat) :
    Registers adds s (s.unregister place pid) :=
  (leave s place List.erase_subset).trans (modify _ _ _)

theorem schedule (scheduled : s.schedule = .ok after) : Registers adds s after := by
  rcases schedule_cases scheduled with ⟨rfl, _⟩ | ⟨_, _, _, _, rfl⟩
  · exact refl after
  · exact of_eq rfl rfl rfl

theorem block {state : TaskState} (ran : s.block state = .ok after) :
    Registers adds s after :=
  (setState s s.current state).trans (schedule ran)

/-- The current task blocks in a list. -/
theorem waitIn (adding : adds) {place : Place}
    (ran : (do (← s.pushback place).block .blocked) = .ok after) : Registers adds s after := by
  unfold Kernel.pushback at ran
  simp only [bind_eq_ok, pure_eq_ok] at ran
  obtain ⟨registered, ⟨_, _, pushed⟩, ran⟩ := ran
  cases pushed
  refine ((enter adding s place fun pid mem => ?_).trans (modify _ _ _)).trans (block ran)
  exact (List.mem_append.mp mem).imp_right List.mem_singleton.mp

theorem timerAdd (adding : adds) (s : Kernel) (ms : Nat) (handler : Handler) :
    Registers adds s (s.timerAdd ms handler) := by
  refine ⟨fun _ _ mem => .inl mem, fun timer mem => ?_, fun _ set => .inl set⟩
  rcases List.mem_cons.mp ((Orderly.insertTimer_perm _ _).mem_iff.mp mem) with rfl | before
  · exact .inr ⟨rfl, adding⟩
  · exact .inl before

/-- A buffer is written. -/
theorem clears (buffer : Buffer) :
    Registers adds s { s with dirty := Function.update s.dirty buffer false } := by
  refine ⟨fun _ _ mem => .inl mem, fun _ mem => .inl mem, fun other set => .inl ?_⟩
  by_cases same : other = buffer
  · subst same
    dsimp only at set
    rw [Function.update_self] at set
    cases set
  · dsimp only at set
    rw [Function.update_of_ne same] at set
    exact set

theorem kill (s : Kernel) (pid sig : Nat) : Registers adds s (s.kill pid sig) := by
  unfold Kernel.kill
  split
  · exact intrUnblock s pid
  · exact refl s

theorem adoptOne (s : Kernel) (pid : Nat) : Registers adds s (s.adoptOne pid) := by
  unfold Kernel.adoptOne
  split
  · split
    · exact modify _ _ _
    · split
      · split
        · exact (intrUnblock s pid).trans (modify _ _ _)
        · exact modify _ _ _
      · exact refl s
  · exact refl s

theorem adopt (pids : List Nat) : Registers False s (pids.foldl Kernel.adoptOne s) := by
  induction pids generalizing s with
  | nil => exact refl s
  | cons pid rest inductionHypothesis => exact (adoptOne s pid).trans inductionHypothesis

theorem fork (ran : s.fork = .ok after) : Registers adds s after := by
  unfold Kernel.fork at ran
  simp only [bind_eq_ok, pure_eq_ok] at ran
  obtain ⟨_, _, _, _, ran⟩ := ran
  cases ran
  exact of_eq rfl rfl rfl

theorem wait {asked : Nat} (ran : s.wait asked = .ok after) : Registers adds s after := by
  unfold Kernel.wait at ran
  split at ran
  · cases ran
    exact refl s
  · cases ran
    exact of_eq rfl rfl rfl
  · exact ((push s _).trans (modify _ _ _)).trans (block ran)

/-- Fewer tasks are newly registered than the parameter allows. -/
theorem mono {more : Prop} (registers : Registers adds s after) (implies : adds → more) :
    Registers more s after :=
  ⟨fun place pid mem =>
      (registers.waiting place pid mem).imp_right fun added => ⟨added.1, implies added.2⟩,
    fun timer mem => (registers.timers timer mem).imp_right fun added =>
      ⟨added.1, implies added.2⟩,
    fun buffer set => (registers.dirty buffer set).imp_right implies⟩

/-- Every operation. -/
theorem exec (ran : s.exec op = .ok after) : Registers (op.adds = true) s after := by
  cases op with
  | sleep ms =>
      rw [Kernel.exec] at ran
      simp only [bind_eq_ok] at ran
      obtain ⟨_, _, ran⟩ := ran
      exact ((timerAdd rfl s ms .taskWakeup).trans (push _ _)).trans (block ran)
  | slept serial =>
      cases ran
      exact refl s
  | kill pid sig =>
      cases ran
      exact kill s pid sig
  | yield => exact schedule ran
  | fork => exact fork ran
  | wait asked => exact wait ran
  | lock lock =>
      rw [Kernel.exec] at ran
      split at ran
      · have registers : Registers True (s.push [.lock lock]) after := waitIn trivial ran
        exact ⟨(registers.mono fun _ => rfl).waiting, (registers.mono fun _ => rfl).timers,
          (registers.mono fun _ => rfl).dirty⟩
      · cases ran
        exact of_eq rfl rfl rfl
  | unlock lock =>
      rw [Kernel.exec] at ran
      dsimp only at ran
      split at ran
      · cases ran
        exact of_eq rfl rfl rfl
      · have released : Registers False s
            { s with held := Function.update s.held lock false } := of_eq rfl rfl rfl
        exact (((released.trans (unregister _ _ _)).trans (setState _ _ _)).trans
          (schedule ran)).mono False.elim
  | starve =>
      rw [Kernel.exec] at ran
      exact waitIn rfl ran
  | refill =>
      rw [Kernel.exec] at ran
      split at ran
      · cases ran
        exact refl s
      · cases ran
        exact (unregister s _ _).trans (intrUnblock _ _)
  | await slot =>
      rw [Kernel.exec] at ran
      split at ran
      · cases ran
        exact refl s
      · exact (enter rfl s _ fun pid mem => .inr (List.mem_singleton.mp mem)).trans (block ran)
  | rouse slot =>
      rw [Kernel.exec] at ran
      split at ran
      · cases ran
        exact refl s
      · cases ran
        exact (intrUnblock s _).trans (leave _ _ (List.nil_subset _))
  | request disk =>
      rw [Kernel.exec] at ran
      split at ran
      · cases ran
        exact of_eq rfl rfl rfl
      · exact waitIn rfl ran
  | complete disk choice =>
      rw [Kernel.exec] at ran
      dsimp only at ran
      split at ran
      · cases ran
        exact of_eq rfl rfl rfl
      · cases ran
        have served : Registers False s
            { s with serving :=
              Function.update (Function.update s.serving disk false) disk true } :=
          of_eq rfl rfl rfl
        exact ((served.trans (leave _ _ List.erase_subset)).trans (intrUnblock _ _)).mono False.elim
  | soil buffer =>
      cases ran
      exact ⟨fun _ _ mem => .inl mem, fun _ mem => .inl mem, fun _ _ => .inr rfl⟩
  | clean buffer =>
      cases ran
      exact clears buffer
  | flush buffer choice =>
      cases ran
      unfold Kernel.flush
      split
      · split
        · exact clears buffer
        · exact push s _
      · exact refl s
  | beep =>
      rw [Kernel.exec] at ran
      split at ran
      · cases ran
        exact refl s
      · cases ran
        have added : Registers (Op.beep.adds = true) { s with beeping := true } _ :=
          timerAdd rfl _ beepLastMs .stopBeep
        exact ⟨added.waiting, added.timers, added.dirty⟩
  | enterUser =>
      rw [Kernel.exec] at ran
      simp only [bind_eq_ok, pure_eq_ok] at ran
      obtain ⟨_, _, ran⟩ := ran
      cases ran
      exact modify _ _ _
  | die status =>
      rw [Kernel.exec] at ran
      simp only [bind_eq_ok, pure_eq_ok] at ran
      obtain ⟨_, _, _, _, ran⟩ := ran
      cases ran
      exact modify _ _ _
  | dropTimers =>
      cases ran
      exact ⟨fun _ _ mem => .inl mem, fun _ mem => .inl (List.mem_of_mem_filter mem),
        fun _ set => .inl set⟩
  | tellFather =>
      rw [Kernel.exec] at ran
      split at ran
      · cases ran
      · cases ran
        exact refl s
  | adopt =>
      cases ran
      exact (adopt _).mono False.elim

theorem handle (s : Kernel) (timer : Timer) :
    (s.handle timer).waiting = s.waiting ∧ (s.handle timer).dirty = s.dirty := by
  unfold Kernel.handle
  split <;> exact ⟨rfl, rfl⟩

/-- Timers only leave the list when they fire. -/
theorem timerWakeupFrom (queue : List Timer) (ran : s.timerWakeupFrom queue = .ok after) :
    after.waiting = s.waiting ∧ after.dirty = s.dirty ∧ after.timers ⊆ queue := by
  induction queue generalizing s with
  | nil =>
      rw [Kernel.timerWakeupFrom] at ran
      simp only [bind_eq_ok, pure_eq_ok] at ran
      obtain ⟨_, _, ran⟩ := ran
      cases ran
      exact ⟨rfl, rfl, List.nil_subset _⟩
  | cons timer rest inductionHypothesis =>
      rw [Kernel.timerWakeupFrom] at ran
      split at ran
      · obtain ⟨waiting, dirty, timers⟩ := inductionHypothesis ran
        obtain ⟨waitingFirst, dirtyFirst⟩ := handle s timer
        exact ⟨waiting.trans waitingFirst, dirty.trans dirtyFirst,
          List.subset_cons_of_subset timer timers⟩
      · cases ran
        exact ⟨rfl, rfl, List.Subset.refl _⟩

theorem clockHandler (ran : s.clockHandler = .ok after) : Registers False s after := by
  unfold Kernel.clockHandler timerWakeup at ran
  simp only [bind_eq_ok, pure_eq_ok] at ran
  obtain ⟨woken, wakes, ran⟩ := ran
  obtain ⟨waiting, dirty, timers⟩ := timerWakeupFrom _ wakes
  have fired : Registers False s woken := by
    refine ⟨fun place pid mem => .inl ?_, fun timer mem => .inl (timers mem),
      fun buffer set => .inl ?_⟩
    · rw [waiting] at mem
      exact mem
    · rw [dirty] at set
      exact set
  split at ran
  · exact ((fired.trans (modify _ _ _)).trans (modify _ _ _)).trans (schedule ran)
  · cases ran
    exact fired.trans (modify _ _ _)

end Registers

/-! ## Tasks that stay dead -/

/-- Operations of an exit that write to no disk. -/
def Mute (s : Kernel) : Op → Prop
  | .flush buffer _ => s.dirty buffer = true → ∃ number, buffer.device = .ramdisk number
  | .refill | .dropTimers | .tellFather | .adopt | .yield => True
  | _ => False

/-- Nobody is about to begin an exit. -/
def NoExit (s : Kernel) : Prop :=
  ∀ pid task, s.tasks pid = some task → DieFree task.pending

theorem NoExit.pending (noExit : s.NoExit) (status : Nat) (rest : List Op) :
    s.pending ≠ .die status :: rest := by
  intro pending
  obtain ⟨task, present, ops, _⟩ := present_of_pending pending
  refine noExit s.current task present status ?_
  rw [ops]
  exact List.mem_cons_self

/-- Nothing is left behind that could bring back a task that is dead. -/
structure Still (s : Kernel) : Prop where
  unregistered : ∀ pid, s.Dead pid → ∀ place, pid ∉ s.waiting place
  untimed : ∀ timer ∈ s.timers, s.Dead timer.task →
    timer.task = s.current ∧ .dropTimers ∈ s.pending
  mutes : s.Dead s.current → ∀ op ∈ s.pending, s.Mute op
  others : ∀ pid task, s.tasks pid = some task → pid ≠ s.current → DieFree task.pending
  begins : ∀ status rest, s.pending = .die status :: rest →
    (∀ op ∈ rest, s.Mute op) ∧ .dropTimers ∈ rest ∧ ∀ place, s.current ∉ s.waiting place

/-- A dead task stays dead or is reaped, and it does not get the processor. -/
def Keeps (s after : Kernel) : Prop :=
  ∀ pid, s.Dead pid →
    (after.tasks pid = none ∨ after.Dead pid) ∧ (after.current = pid → s.current = pid)

theorem Mute.quiet (mute : s.Mute op) : op.adds = false ∧ op.blocks = false := by
  cases op <;> first | exact ⟨rfl, rfl⟩ | exact mute.elim

theorem Mute.pushes (mute : s.Mute op) : s.pushes op = [] := by
  cases op with
  | flush buffer choice =>
      rw [Kernel.pushes]
      by_cases isDirty : s.dirty buffer = true
      · obtain ⟨number, isRamdisk⟩ := mute isDirty
        rw [if_pos isDirty, isRamdisk]
      · rw [if_neg isDirty]
  | lock lock => exact mute.elim
  | sleep ms => exact mute.elim
  | _ => rfl

/-- An operation that writes to no disk still does so when fewer buffers are dirty. -/
theorem Mute.fewer (mute : s.Mute op)
    (fewer : ∀ buffer, after.dirty buffer = true → s.dirty buffer = true) : after.Mute op := by
  cases op with
  | flush buffer choice => exact fun set => mute (fewer buffer set)
  | _ => exact mute

/-- The task is dead afterwards as well, unless it may come back. -/
theorem Passes.stays (passes : Passes moved s after) (dead : s.Dead pid)
    (notMoved : ¬moved pid) : after.Dead pid := by
  obtain ⟨task, present, isDead⟩ := dead
  obtain ⟨later, found, resembles⟩ := passes.kept pid task present
  exact ⟨later, found, (resembles.rests isDead).resolve_right notMoved⟩

theorem Passes.wasDead (passes : Passes moved s after) (dead : after.Dead pid) :
    s.Dead pid := by
  obtain ⟨later, found, isDead⟩ := dead
  obtain ⟨task, present, resembles⟩ := passes.before found
  exact ⟨task, present, resembles.dies isDead⟩

/-- The current task after a step is dead only if it is the one that was current. -/
theorem Passes.current_of_dead (passes : Passes moved s after)
    (dead : after.Dead after.current) : after.current = s.current := by
  obtain ⟨later, found, isDead⟩ := dead
  rcases passes.switch with stays | ⟨next, foundNext, notDead, _⟩
  · exact stays
  · rw [found] at foundNext
    cases foundNext
    exact absurd isDead notDead

theorem Passes.keeps (passes : Passes moved s after)
    (notMoved : ∀ pid, s.Dead pid → ¬moved pid) : s.Keeps after := by
  intro pid dead
  have still := passes.stays dead (notMoved pid dead)
  refine ⟨.inr still, fun selected => ?_⟩
  rw [← passes.current_of_dead (selected ▸ still)]
  exact selected

theorem Passes.noExit (passes : Passes moved s after) (noExit : s.NoExit) :
    after.NoExit := by
  intro pid later found
  obtain ⟨task, present, resembles⟩ := passes.before found
  rw [resembles.pending]
  exact noExit pid task present

namespace Still

/-- Nobody is about to begin an exit, and the current task is not dead. -/
theorem of_alive (still : s.Still) (alive : ¬s.Dead s.current)
    (registers : Registers adds s after) (dead : ∀ pid, after.Dead pid → s.Dead pid)
    (lives : ¬after.Dead after.current) (noExit : after.NoExit) : after.Still := by
  refine ⟨?unregistered, ?untimed, fun isDead => absurd isDead lives,
    fun pid task found _ => noExit pid task found, ?begins⟩
  case unregistered =>
    intro pid isDead place mem
    rcases registers.waiting place pid mem with before | ⟨rfl, _⟩
    · exact still.unregistered pid (dead pid isDead) place before
    · exact alive (dead _ isDead)
  case untimed =>
    intro timer mem isDead
    rcases registers.timers timer mem with before | ⟨same, _⟩
    · have isCurrent := (still.untimed timer before (dead _ isDead)).1
      exact absurd (isCurrent ▸ dead _ isDead) alive
    · exact absurd (same ▸ dead _ isDead) alive
  case begins =>
    intro status rest pending
    exact absurd pending (noExit.pending status rest)

/-- The current task is dead: it goes on with its exit, or it gives up the processor at
the end. -/
theorem of_dying (still : s.Still) (pending : s.pending = op :: rest) (dying : s.Dead s.current)
    (registers : Registers False s after) (dead : ∀ pid, after.Dead pid → s.Dead pid)
    (goes : after.current = s.current ∧ after.pending = rest ∨
      rest = [] ∧ ¬after.Dead after.current)
    (dropped : op = .dropTimers → ∀ timer ∈ after.timers, timer.task ≠ s.current)
    (noExit : after.NoExit) : after.Still := by
  have mutes := still.mutes dying
  rw [pending] at mutes
  refine ⟨?unregistered, ?untimed, ?mutes, fun pid task found _ => noExit pid task found,
    ?begins⟩
  case unregistered =>
    intro pid isDead place mem
    exact still.unregistered pid (dead pid isDead) place
      ((registers.waiting place pid mem).resolve_right And.right)
  case untimed =>
    intro timer mem isDead
    have before := (registers.timers timer mem).resolve_right And.right
    obtain ⟨isCurrent, drops⟩ := still.untimed timer before (dead _ isDead)
    rw [pending] at drops
    rcases List.mem_cons.mp drops with isOp | inRest
    · exact absurd isCurrent (dropped isOp.symm timer mem)
    · rcases goes with ⟨current, same⟩ | ⟨nothing, _⟩
      · exact ⟨isCurrent.trans current.symm, same ▸ inRest⟩
      · rw [nothing] at inRest
        cases inRest
  case mutes =>
    intro isDead other mem
    rcases goes with ⟨_, same⟩ | ⟨_, lives⟩
    · rw [same] at mem
      exact (mutes other (List.mem_cons_of_mem op mem)).fewer fun buffer set =>
        (registers.dirty buffer set).resolve_right id
    · exact absurd isDead lives
  case begins =>
    intro status more begins
    exact absurd begins (noExit.pending status more)

/-- A step that is no operation of the current task, which is outside the kernel. -/
theorem passes (still : s.Still) (tree : s.Tree) (outside : s.pending = [])
    (passes : Passes moved s after) (registers : Registers False s after)
    (notMoved : ∀ pid, s.Dead pid → ¬moved pid) : s.Keeps after ∧ after.Still := by
  have alive : ¬s.Dead s.current := by
    rintro ⟨task, present, dead⟩
    exact tree.alive_of_outside outside task present dead
  have noExit : s.NoExit := by
    intro pid task present
    by_cases isCurrent : pid = s.current
    · subst isCurrent
      unfold Kernel.pending at outside
      rw [present] at outside
      rw [show task.pending = [] from outside]
      simp [DieFree]
    · exact still.others pid task present isCurrent
  refine ⟨passes.keeps notMoved, still.of_alive alive registers (fun _ => passes.wasDead)
    (fun isDead => ?_) (passes.noExit noExit)⟩
  have same := passes.current_of_dead isDead
  exact alive (same ▸ passes.wasDead isDead)

/-- What the tasks have to do when the current one takes up its next operation. -/
theorem next (still : s.Still) (tree : s.Tree) (pending : s.pending = op :: rest) :
    (s.setPending rest).NoExit := by
  obtain ⟨current, present, ops, presentNext⟩ := present_of_pending pending
  intro pid task found
  by_cases isCurrent : pid = s.current
  · rw [isCurrent, presentNext] at found
    cases found
    have proper := tree.forest.begins s.current current present
    rw [ops] at proper
    exact proper.tail
  · obtain ⟨before, presentBefore, _, _, _, same⟩ := of_setPending found
    rw [same isCurrent]
    exact still.others pid before presentBefore isCurrent

end Still

theorem pushes_noExit (noExit : s.NoExit) (op : Op) : (s.push (s.pushes op)).NoExit := by
  intro pid task found
  unfold push at found
  rw [modify_tasks] at found
  split at found
  · obtain ⟨before, present, rfl⟩ := Option.map_eq_some_iff.mp found
    intro status mem
    rcases List.mem_append.mp mem with inPushes | inPending
    · exact pushes_dieFree op status inPushes
    · exact noExit pid before present status inPending
  · exact noExit pid task found

/-- What is left to do for a dead task behind an operation that writes to no disk. -/
theorem exec_goes (tree : s.Tree) (pending : s.pending = op :: rest)
    (mute : (s.setPending rest).Mute op) (unrelated : op.isFamily = false)
    (dying : s.Dead s.current) (ran : (s.setPending rest).exec op = .ok after)
    (stillDead : after.Dead s.current) :
    after.current = s.current ∧ after.pending = rest ∨
      rest = [] ∧ ¬after.Dead after.current := by
  obtain ⟨task, present, isDead⟩ := dying
  obtain ⟨current, foundCurrent, _, presentNext⟩ := present_of_pending pending
  rw [present] at foundCurrent
  cases foundCurrent
  obtain ⟨later, found, deadLater⟩ := stillDead
  have passes := Passes.exec unrelated ran
  have left := exec_pending unrelated presentNext ran later found
  rw [mute.pushes] at left
  have goesOn (stays : after.current = s.current) : after.pending = rest := by
    unfold Kernel.pending
    rw [stays, found]
    exact left
  obtain ⟨notIdle, leaving | ⟨_, nothing⟩⟩ := tree.dying pending present isDead
  · have notAdopt : op ≠ .adopt := by
      rintro rfl
      cases unrelated
    have stays := (exec_leaving (s := s.setPending rest) leaving notAdopt notIdle
      presentNext rfl ran later found deadLater).1
    exact .inl ⟨stays, goesOn stays⟩
  · by_cases stays : after.current = s.current
    · exact .inl ⟨stays, goesOn stays⟩
    · exact .inr ⟨nothing, fun dead => stays (passes.current_of_dead dead)⟩

namespace Still

/-- An operation that is not about parents and children. -/
theorem exec (still : s.Still) (tree : s.Tree) (pending : s.pending = op :: rest)
    (unrelated : op.isFamily = false) (ran : (s.setPending rest).exec op = .ok after) :
    s.Keeps after ∧ after.Still := by
  have passes := Passes.exec unrelated ran
  have registers : Registers (op.adds = true) s after :=
    ⟨(Registers.exec ran).waiting, (Registers.exec ran).timers, (Registers.exec ran).dirty⟩
  have same (other : Nat) : ((s.setPending rest).push ((s.setPending rest).pushes op)).Dead
      other ↔ s.Dead other :=
    (dead_push _).trans (dead_setPending rest)
  have mute (dying : s.Dead s.current) : s.Mute op :=
    still.mutes dying op (by rw [pending]; exact List.mem_cons_self)
  have notMoved (other : Nat) (dead : s.Dead other) :
      ¬(s.setPending rest).Movable op other := by
    rintro (⟨place, registered⟩ | ⟨rfl, blocks⟩)
    · exact still.unregistered other dead place registered
    · rw [(mute dead).quiet.2] at blocks
      cases blocks
  have keeps : s.Keeps after := fun other dead =>
    passes.keeps (fun pid isDead => notMoved pid ((same pid).mp isDead)) other
      ((same other).mpr dead)
  have noExit := passes.noExit (pushes_noExit (still.next tree pending) op)
  have wasDead (other : Nat) (dead : after.Dead other) : s.Dead other :=
    (same other).mp (passes.wasDead dead)
  refine ⟨keeps, ?_⟩
  by_cases dying : s.Dead s.current
  · have quiet : Registers False s after := by
      refine registers.mono fun adds => ?_
      rw [(mute dying).quiet.1] at adds
      cases adds
    have stillDead := passes.stays ((same _).mpr dying) (notMoved _ dying)
    refine still.of_dying pending dying quiet wasDead
      (exec_goes tree pending (mute dying) unrelated dying ran stillDead) ?_ noExit
    rintro rfl timer mem
    cases ran
    have kept : timer ∈ s.timers.filter fun timer => timer.task ≠ s.current := mem
    exact of_decide_eq_true (List.mem_filter.mp kept).2
  · refine still.of_alive dying registers wasDead (fun dead => dying ?_) noExit
    have stays : after.current = s.current := passes.current_of_dead dead
    exact stays ▸ wasDead _ dead

/-- What the state before the next operation says about the one behind it. -/
theorem of_next (still : s.Still) (alive : ¬s.Dead s.current)
    (registers : Registers adds (s.setPending rest) after)
    (dead : ∀ pid, after.Dead pid → (s.setPending rest).Dead pid)
    (lives : ¬after.Dead after.current) (noExit : after.NoExit) : after.Still :=
  still.of_alive alive ⟨registers.waiting, registers.timers, registers.dirty⟩
    (fun pid isDead => (dead_setPending rest).mp (dead pid isDead)) lives noExit

end Still

theorem Keeps.of_next (keeps : (s.setPending rest).Keeps after) : s.Keeps after :=
  fun pid dead => keeps pid ((dead_setPending rest).mpr dead)

theorem fork_keeps (noExit : s.NoExit) (ran : s.fork = .ok after) :
    s.Keeps after ∧ (∀ pid, after.Dead pid → s.Dead pid) ∧ after.NoExit ∧
      after.current = s.current := by
  obtain ⟨tasks, rfl, kept, before⟩ := fork_spec ran
  refine ⟨fun pid dead => ⟨.inr ?keeps, id⟩, fun pid dead => ?dead, fun pid later found => ?free,
    rfl⟩
  case keeps =>
    obtain ⟨task, present, isDead⟩ := dead
    exact ⟨task, kept pid task present, isDead⟩
  case dead =>
    obtain ⟨later, found, isDead⟩ := dead
    rcases before pid later found with ⟨ready, _⟩ | present
    · rw [ready] at isDead
      cases isDead
    · exact ⟨later, present, isDead⟩
  case free =>
    rcases before pid later found with ⟨_, nothing⟩ | present
    · rw [nothing]
      simp [DieFree]
    · exact noExit pid later present

theorem reap_keeps (noExit : s.NoExit) :
    s.Keeps { s with tasks := Function.update s.tasks pid none } ∧
      (∀ other, { s with tasks := Function.update s.tasks pid none }.Dead other →
        s.Dead other) ∧
      { s with tasks := Function.update s.tasks pid none }.NoExit := by
  refine ⟨fun other dead => ⟨?keeps, id⟩, fun other dead => ?dead,
    fun other later found => noExit other later (of_update_none found).2⟩
  case keeps =>
    by_cases same : other = pid
    · rw [same]
      exact .inl (Function.update_self ..)
    · obtain ⟨task, present, isDead⟩ := dead
      exact .inr ⟨task, (Function.update_of_ne same ..).trans present, isDead⟩
  case dead =>
    obtain ⟨later, found, isDead⟩ := dead
    exact ⟨later, (of_update_none found).2, isDead⟩

/-- A change of the current task, which is not dead. -/
theorem modify_alive (alive : ¬s.Dead s.current) (change : Task → Task)
    (notDead : ∀ task, task.state ≠ .dead → (change task).state ≠ .dead)
    (dieFree : ∀ task, DieFree task.pending → DieFree (change task).pending)
    (noExit : s.NoExit) :
    (∀ pid, (s.modify s.current change).Dead pid ↔ s.Dead pid) ∧
      (s.modify s.current change).NoExit := by
  have lives (task : Task) (present : s.tasks s.current = some task) : task.state ≠ .dead :=
    fun dead => alive ⟨task, present, dead⟩
  refine ⟨fun pid => ?dead, fun pid later found => ?free⟩
  case dead =>
    by_cases isCurrent : pid = s.current
    · subst isCurrent
      refine ⟨fun dead => ?_, fun dead => absurd dead alive⟩
      obtain ⟨later, found, isDead⟩ := dead
      rw [modify_tasks, if_pos rfl] at found
      obtain ⟨task, present, rfl⟩ := Option.map_eq_some_iff.mp found
      exact absurd isDead (notDead task (lives task present))
    · unfold Dead
      rw [modify_tasks, if_neg isCurrent]
  case free =>
    rw [modify_tasks] at found
    split at found
    · obtain ⟨task, present, rfl⟩ := Option.map_eq_some_iff.mp found
      exact dieFree task (noExit pid task present)
    · exact noExit pid later found

theorem wait_keeps (alive : ¬s.Dead s.current) (noExit : s.NoExit) {asked : Nat}
    (ran : s.wait asked = .ok after) :
    s.Keeps after ∧ (∀ pid, after.Dead pid → s.Dead pid) ∧ after.NoExit ∧
      (after.Dead after.current → after.current = s.current) := by
  cases round : s.round with
  | childless =>
      unfold Kernel.wait at ran
      rw [round] at ran
      cases ran
      exact ⟨fun pid dead => ⟨.inr dead, id⟩, fun _ dead => dead, noExit, fun _ => rfl⟩
  | reaps child status =>
      unfold Kernel.wait at ran
      rw [round] at ran
      cases ran
      obtain ⟨keeps, dead, free⟩ := reap_keeps noExit
      exact ⟨keeps, dead, free, fun _ => rfl⟩
  | blocks =>
      have scheduled := wait_blocks round ran
      obtain ⟨same, free⟩ := modify_alive alive (waits asked) (fun _ _ => by simp [waits])
        (fun task dieFree status mem => by
          rcases List.mem_cons.mp mem with same | inPending
          · cases same
          · exact dieFree status inPending) noExit
      have passes : Passes (fun _ => False) _ after := Passes.schedule scheduled
      exact ⟨fun pid dead => passes.keeps (fun _ _ => id) pid ((same pid).mpr dead),
        fun pid dead => (same pid).mp (passes.wasDead dead), passes.noExit free,
        passes.current_of_dead⟩

namespace Still

/-- The current task is marked as dead. -/
theorem buried (alive : ¬s.Dead s.current) (noExit : s.NoExit) (status : Nat)
    (unregistered : ∀ pid, s.Dead pid ∨ pid = s.current → ∀ place, pid ∉ s.waiting place)
    (untimed : ∀ timer ∈ s.timers, ¬s.Dead timer.task)
    (drops : .dropTimers ∈ s.pending) (mutes : ∀ op ∈ s.pending, s.Mute op) :
    s.Keeps (s.modify s.current fun task => { task with state := .dead, status := status }) ∧
      (s.modify s.current fun task =>
        { task with state := .dead, status := status }).Still := by
  let bury : Task → Task := fun task => { task with state := .dead, status := status }
  have other (pid : Nat) (apart : pid ≠ s.current) :
      (s.modify s.current bury).tasks pid = s.tasks pid := by
    rw [modify_tasks, if_neg apart]
  have dead (pid : Nat) (isDead : (s.modify s.current bury).Dead pid) :
      s.Dead pid ∨ pid = s.current := by
    by_cases isCurrent : pid = s.current
    · exact .inr isCurrent
    · unfold Dead at isDead
      rw [other pid isCurrent] at isDead
      exact .inl isDead
  have pending : (s.modify s.current bury).pending = s.pending := by
    unfold Kernel.pending
    rw [modify_current, modify_tasks, if_pos rfl]
    cases s.tasks s.current <;> rfl
  have free : (s.modify s.current bury).NoExit := by
    intro pid task found
    rw [modify_tasks] at found
    split at found
    · obtain ⟨before, present, rfl⟩ := Option.map_eq_some_iff.mp found
      exact noExit pid before present
    · exact noExit pid task found
  refine ⟨fun pid isDead => ⟨.inr ?keeps, id⟩, fun pid isDead => unregistered pid (dead pid isDead),
    fun timer mem isDead => ?untimed, fun _ op mem => ?mutes,
    fun pid task found _ => free pid task found,
    fun status rest begins => absurd begins (free.pending status rest)⟩
  case keeps =>
    have apart : pid ≠ s.current := fun same => alive (same ▸ isDead)
    unfold Dead
    rw [other pid apart]
    exact isDead
  case untimed =>
    rw [pending]
    exact ⟨(dead _ isDead).resolve_left (untimed timer mem), drops⟩
  case mutes =>
    rw [pending] at mem
    exact mutes op mem

/-- The beginning of an exit. -/
theorem die (still : s.Still) (tree : s.Tree) {status : Nat}
    (pending : s.pending = .die status :: rest)
    (ran : (s.setPending rest).exec (.die status) = .ok after) : s.Keeps after ∧ after.Still := by
  obtain ⟨task, present, _, presentNext⟩ := present_of_pending pending
  obtain ⟨mutes, drops, unregistered⟩ := still.begins status rest pending
  rw [Kernel.exec] at ran
  simp only [bind_eq_ok, pure_eq_ok, check_eq_ok] at ran
  obtain ⟨_, running, _, _, ran⟩ := ran
  cases ran
  have alive : ¬(s.setPending rest).Dead s.current := by
    rintro ⟨other, found, dead⟩
    rw [show (s.setPending rest).tasks (s.setPending rest).current = some other from found]
      at running
    simp [dead] at running
  have left := setPending_pending (s := s) (by rw [present]; rfl) rest
  have unregisteredNext (pid : Nat) (dead : (s.setPending rest).Dead pid ∨ pid = s.current)
      (place : Place) : pid ∉ s.waiting place := by
    rcases dead with isDead | isCurrent
    · exact still.unregistered pid ((dead_setPending rest).mp isDead) place
    · rw [isCurrent]
      exact unregistered place
  have untimed (timer : Timer) (mem : timer ∈ s.timers) :
      ¬(s.setPending rest).Dead timer.task := by
    intro dead
    have isCurrent := (still.untimed timer mem ((dead_setPending rest).mp dead)).1
    exact alive (isCurrent ▸ dead)
  obtain ⟨keeps, stillAfter⟩ := buried (s := s.setPending rest) alive (still.next tree pending)
    status unregisteredNext untimed (by rw [left]; exact drops) (by rw [left]; exact mutes)
  exact ⟨keeps.of_next, stillAfter⟩

/-- The end of an exit but for the call of `schedule`. -/
theorem adopt (still : s.Still) (tree : s.Tree) (pending : s.pending = .adopt :: rest)
    (ran : (s.setPending rest).exec .adopt = .ok after) : s.Keeps after ∧ after.Still := by
  obtain ⟨dying, isDying, ops, isNext⟩ := present_of_pending pending
  obtain ⟨current, kept, before⟩ := (tree.forest.next pending).adopted isNext ran
  have quiet : Registers False (s.setPending rest) after :=
    (Registers.exec ran).mono (by simp [Op.adds])
  have registers : Registers False s after := ⟨quiet.waiting, quiet.timers, quiet.dirty⟩
  have dead (pid : Nat) (isDead : after.Dead pid) : s.Dead pid := by
    obtain ⟨later, found, deadLater⟩ := isDead
    obtain ⟨task, present, adopted⟩ := before pid later found
    exact (dead_setPending rest).mp ⟨task, present, adopted.dies deadLater⟩
  have stays (pid : Nat) (isDead : s.Dead pid) : after.Dead pid := by
    obtain ⟨task, present, deadBefore⟩ := (dead_setPending rest).mpr isDead
    obtain ⟨later, found, adopted⟩ := kept pid task present
    exact ⟨later, found, adopted.rests deadBefore⟩
  have noExit : after.NoExit := by
    intro pid later found
    obtain ⟨task, present, adopted⟩ := before pid later found
    rw [adopted.pending]
    exact still.next tree pending pid task present
  refine ⟨fun pid isDead => ⟨.inr (stays pid isDead), fun selected => current ▸ selected⟩, ?_⟩
  by_cases dying : s.Dead s.current
  · refine still.of_dying pending dying registers dead (.inl ⟨current, ?_⟩) (by simp) noExit
    obtain ⟨later, found, adopted⟩ := kept s.current _ isNext
    unfold Kernel.pending
    rw [current, show after.tasks (s.setPending rest).current = _ from found]
    exact adopted.pending
  · exact still.of_alive dying registers dead
      (fun isDead => dying (show s.Dead s.current from current ▸ dead _ isDead)) noExit

/-- The current task runs its next operation. -/
theorem run (still : s.Still) (tree : s.Tree) (pending : s.pending = op :: rest)
    (ran : (s.setPending rest).exec op = .ok after) : s.Keeps after ∧ after.Still := by
  have noExit := still.next tree pending
  have registers : Registers (op.adds = true) (s.setPending rest) after := Registers.exec ran
  have alive (notQuick : op.quick = false) (notAwait : ∀ slot, op ≠ .await slot)
      (notAdopt : op ≠ .adopt) (notYield : op ≠ .yield) :
      ¬(s.setPending rest).Dead s.current := by
    intro dead
    obtain ⟨task, present, isDead⟩ := (dead_setPending rest).mp dead
    exact tree.alive pending notQuick notAwait notAdopt notYield task present isDead
  cases unrelated : op.isFamily with
  | false => exact still.exec tree pending unrelated ran
  | true =>
      cases op with
      | fork =>
          have lives := alive rfl (by simp) (by simp) (by simp)
          obtain ⟨keeps, dead, free, current⟩ := fork_keeps noExit ran
          exact ⟨keeps.of_next, still.of_next (mt (dead_setPending rest).mpr lives) registers
            dead (fun isDead => lives (current ▸ dead _ isDead)) free⟩
      | wait asked =>
          have lives := alive rfl (by simp) (by simp) (by simp)
          obtain ⟨keeps, dead, free, current⟩ := wait_keeps lives noExit ran
          refine ⟨keeps.of_next, still.of_next (mt (dead_setPending rest).mpr lives) registers
            dead (fun isDead => lives ?_) free⟩
          have stays : after.current = s.current := current isDead
          exact stays ▸ dead _ isDead
      | enterUser =>
          have lives := alive rfl (by simp) (by simp) (by simp)
          rw [Kernel.exec] at ran
          simp only [bind_eq_ok, pure_eq_ok] at ran
          obtain ⟨_, _, ran⟩ := ran
          cases ran
          obtain ⟨same, free⟩ := modify_alive (s := s.setPending rest) lives
            (fun task => { task with uid := userRing3, ppid := s.current })
            (fun _ notDead => notDead) (fun _ dieFree => dieFree) noExit
          have keeps : (s.setPending rest).Keeps _ :=
            fun pid dead => ⟨.inr ((same pid).mpr dead), id⟩
          exact ⟨keeps.of_next, still.of_next (mt (dead_setPending rest).mpr lives) registers
            (fun pid => (same pid).mp) (fun isDead => lives ((same _).mp isDead)) free⟩
      | die status => exact still.die tree pending ran
      | adopt => exact still.adopt tree pending ran
      | _ => cases unrelated

end Still

/-- A task that begins an exit is registered nowhere, and the exit releases no dirty
buffer of a disk. -/
def ExitsClean (s : Kernel) : Label → Prop
  | .call (.exit _ inodes files) =>
      (∀ place, s.current ∉ s.waiting place) ∧
        ∀ release ∈ inodes ++ files, s.dirty release.buffer = true →
          ∃ number, release.buffer.device = .ramdisk number
  | _ => True

theorem Still.call (still : s.Still) (tree : s.Tree) (outside : s.pending = [])
    {call : Call} (clean : s.ExitsClean (.call call)) :
    s.Keeps (s.setPending call.ops) ∧ (s.setPending call.ops).Still := by
  have lives : ¬s.Dead s.current := by
    rintro ⟨task, present, dead⟩
    exact tree.alive_of_outside outside task present dead
  have left := setPending_pending (s := s) tree.forest.present call.ops
  refine ⟨fun pid dead => ⟨.inr ((dead_setPending _).mpr dead), id⟩, ?_, ?_, ?_, ?_, ?_⟩
  · exact fun pid dead => still.unregistered pid ((dead_setPending _).mp dead)
  · intro timer mem dead
    have isCurrent := (still.untimed timer mem ((dead_setPending _).mp dead)).1
    exact absurd ((dead_setPending _).mp dead) (isCurrent ▸ lives)
  · exact fun dead => absurd ((dead_setPending _).mp dead) lives
  · intro pid task found apart
    obtain ⟨before, present, _, _, _, same⟩ := of_setPending found
    rw [same apart]
    exact still.others pid before present apart
  · intro status rest begins
    rw [left] at begins
    cases call with
    | exit code inodes files =>
        cases begins
        refine ⟨fun op mem => ?_, by simp [exitTail], clean.1⟩
        have released (release : Release) (inside : release ∈ inodes ++ files)
            (isOp : op ∈ release.ops) : s.Mute op := by
          unfold Release.ops at isOp
          rcases List.mem_cons.mp isOp with rfl | last
          · exact clean.2 release inside
          · split at last
            · rw [List.mem_singleton.mp last]
              trivial
            · cases last
        simp only [exitTail, List.mem_append, List.mem_flatMap, List.mem_cons,
          List.not_mem_nil, or_false] at mem
        rcases mem with ((⟨release, inside, isOp⟩ | rfl | rfl) | ⟨release, inside, isOp⟩) |
          rfl | rfl
        · exact released release (List.mem_append_left _ inside) isOp
        · trivial
        · trivial
        · exact released release (List.mem_append_right _ inside) isOp
        · trivial
        · trivial
    | work ops =>
        have inside : Op.die status ∈ ops.filter Op.isWork := by
          rw [show ops.filter Op.isWork = _ from begins]
          exact List.mem_cons_self
        cases (List.mem_filter.mp inside).2
    | _ => cases begins

/-- A step keeps dead tasks dead. -/
theorem Still.step (still : s.Still) (tree : s.Tree) {label : Label}
    (clean : s.ExitsClean label) (taken : s.step label = .ok after) :
    s.Keeps after ∧ after.Still := by
  cases taken_of_step taken with
  | call outside enters => exact still.call tree outside clean
  | run pending ran => exact still.run tree pending ran
  | tick outside ticked =>
      refine still.passes tree outside (Passes.clockHandler ticked)
        (Registers.clockHandler ticked) ?_
      rintro pid dead ⟨timer, mem, _, rfl⟩
      have drops := (still.untimed timer mem dead).2
      rw [outside] at drops
      cases drops
  | interrupt outside roused =>
      refine still.passes tree outside (Passes.rouse roused)
        ((Registers.exec roused).mono (by simp [Op.adds])) ?_
      rintro pid dead (⟨place, registered⟩ | ⟨_, blocks⟩)
      · exact still.unregistered pid dead place registered
      · cases blocks
  | strike outside =>
      exact still.passes tree outside (Passes.kill s _ sigInt) (Registers.kill s _ sigInt)
        fun _ _ => id

theorem Still.boot : Kernel.boot.Still := by
  have fresh (pid : Nat) (task : Task) (present : Kernel.boot.tasks pid = some task) :
      task.state = .ready ∧ task.pending = [] := by
    dsimp only [Kernel.boot] at present
    split at present
    · cases present
      exact ⟨rfl, rfl⟩
    · split at present
      · cases present
        exact ⟨rfl, rfl⟩
      · cases present
  have lives (pid : Nat) : ¬Kernel.boot.Dead pid := by
    rintro ⟨task, present, dead⟩
    rw [(fresh pid task present).1] at dead
    cases dead
  refine ⟨fun pid dead => absurd dead (lives pid), ?_, fun dead => absurd dead (lives _),
    fun pid task present _ => ?_, ?_⟩
  · rintro timer ⟨⟩
  · rw [(fresh pid task present).2]
    simp [DieFree]
  · rintro status rest ⟨⟩

/-- A dead task that is found by a waiting parent is reaped. -/
theorem round_of_dead (dead : s.Dead pid) (isChild : s.child = some pid) :
    ∃ status, s.round = .reaps pid status := by
  obtain ⟨task, present, isDead⟩ := dead
  refine ⟨task.status, ?_⟩
  unfold round
  rw [isChild, Option.bind_some, present, Option.map_some]
  exact if_pos isDead

/-- In a run whose exits are clean, a dead task stays dead as long as it is in
`task_list`, it does not get the processor again, and its parent reaps it when it looks
at it. -/
theorem deadStays_of_exitsClean (s final : Kernel) (trace : List (Kernel × Label)) (pid : Nat)
    (reached : system.ReachableWithin ExitsClean s) (dead : s.Dead pid)
    (path : system.Path s trace final) (clean : System.Obeys ExitsClean trace)
    (stays : System.Visits (fun visited => (visited.tasks pid).isSome) trace final) :
    final.Dead pid ∧ (s.current ≠ pid → final.current ≠ pid) ∧
      (final.child = some pid → ∃ status, final.round = .reaps pid status) := by
  have start : s.Still ∧ s.Tree := reached.invariant (fun s => s.Still ∧ s.Tree)
    (by rintro s rfl; exact ⟨Still.boot, Tree.boot⟩)
    fun _ _ _ holds clean taken =>
      ⟨(holds.1.step holds.2 clean taken).2, holds.2.step taken⟩
  have kept : final.Still ∧ final.Tree ∧ final.Dead pid ∧
      (s.current ≠ pid → final.current ≠ pid) := by
    induction path with
    | nil => exact ⟨start.1, start.2, dead, id⟩
    | cons path taken inductionHypothesis =>
        rw [System.obeys_cons] at clean
        rw [System.visits_cons] at stays
        obtain ⟨still, tree, isDead, unselected⟩ := inductionHypothesis clean.2 stays.2
        obtain ⟨keeps, stillAfter⟩ := still.step tree clean.1 taken
        obtain ⟨later, switched⟩ := keeps pid isDead
        refine ⟨stillAfter, tree.step taken, later.resolve_left ?_,
          fun apart selected => unselected apart (switched selected)⟩
        intro gone
        rw [gone] at stays
        cases stays.1
  exact ⟨kept.2.2.1, kept.2.2.2, round_of_dead kept.2.2.1⟩

/-- A child of init makes a buffer of a disk dirty and releases it in its exit, up to the
wait for the disk. -/
def exitsDirty : List Label :=
  does .yield 1 ++ does (.work [.enterUser]) 1 ++ does .fork 1 ++ does .yield 1 ++
    does (.work [.soil ⟨.ide 0 0, 5⟩]) 1 ++ does (.exit 0 [⟨⟨.ide 0 0, 5⟩, 0, false⟩] []) 4

/-- The wait for the disk marks the dead task as blocked. -/
theorem deadStays_fails : ¬∀ (s final : Kernel) (trace : List (Kernel × Label)) (pid : Nat),
    system.Reachable s → s.Dead pid → system.Path s trace final →
      System.Visits (fun visited => (visited.tasks pid).isSome) trace final →
        final.Dead pid ∧ (s.current ≠ pid → final.current ≠ pid) ∧
          (final.child = some pid → ∃ status, final.round = .reaps pid status) := by
  intro always
  obtain ⟨s, reached, ends⟩ := System.ReachableWithin.extend_run system
    (fun _ _ => True) Kernel.step (fun _ _ _ taken => ⟨trivial, taken⟩) exitsDirty
    (fun s => ((s.tasks 2).any fun task : Task => decide (task.state = TaskState.dead)) &&
      System.endsIn (fun after => (after.tasks 2).any fun task : Task =>
        decide (task.state = TaskState.blocked)) (s.step .run))
    (.initial rfl) (by decide +kernel)
  rw [Bool.and_eq_true, Option.any_eq_true] at ends
  obtain ⟨⟨task, present, isDead⟩, blocks⟩ := ends
  have dead : s.Dead 2 := ⟨task, present, of_decide_eq_true isDead⟩
  cases taken : s.step .run with
  | error fault =>
      rw [taken] at blocks
      cases blocks
  | ok final =>
      rw [taken] at blocks
      obtain ⟨later, found, blocked⟩ := (Option.any_eq_true _ _).mp blocks
      have path : system.Path s [(s, .run)] final := .cons .nil taken
      have stays : System.Visits (fun visited => (visited.tasks 2).isSome)
          [(s, Label.run)] final := by
        refine ⟨Option.isSome_iff_exists.mpr ⟨later, found⟩, fun visited mem => ?_⟩
        rw [List.mem_singleton.mp mem]
        exact Option.isSome_iff_exists.mpr ⟨task, present⟩
      obtain ⟨⟨last, foundLast, deadLast⟩, _⟩ := always s final _ 2 reached dead path stays
      rw [found] at foundLast
      cases foundLast
      rw [of_decide_eq_true blocked] at deadLast
      cases deadLast

/-- Steps that register nobody, and exits that release nothing. -/
def quiet (s : Kernel) : Label → Bool
  | .run => s.pending.head?.all fun op => !op.adds
  | .call (.exit _ inodes files) => inodes.isEmpty && files.isEmpty
  | _ => true

theorem Registers.step {label : Label} (isQuiet : s.quiet label = true)
    (taken : s.step label = .ok after) : Registers False s after := by
  cases taken_of_step taken with
  | call outside enters => exact modify _ _ _
  | @run op rest _ pending ran =>
      simp only [quiet, pending, List.head?_cons, Option.all_some, Bool.not_eq_true'] at isQuiet
      have registers : Registers False (s.setPending rest) after :=
        (exec ran).mono (by rw [isQuiet]; simp)
      exact ⟨registers.waiting, registers.timers, registers.dirty⟩
  | tick outside ticked => exact clockHandler ticked
  | interrupt outside roused => exact (exec roused).mono (by simp [Op.adds])
  | strike outside => exact kill _ _ _

/-- Nobody is registered in a run of quiet steps, and its exits are clean. -/
theorem exitsClean_of_quiet (reached : system.ReachableWithin (fun s label => s.quiet label) s) :
    system.ReachableWithin ExitsClean s ∧ ∀ place, s.waiting place = [] := by
  induction reached with
  | initial isInitial =>
      cases isInitial
      exact ⟨.initial rfl, fun _ => rfl⟩
  | @step before after label _ isQuiet taken inductionHypothesis =>
      obtain ⟨reached, empty⟩ := inductionHypothesis
      refine ⟨reached.step ?_ taken, fun place => ?_⟩
      · cases label with
        | call call =>
            cases call with
            | exit status inodes files =>
                simp only [quiet, Bool.and_eq_true, List.isEmpty_iff] at isQuiet
                obtain ⟨rfl, rfl⟩ := isQuiet
                exact ⟨fun place => by simp [empty place], by simp⟩
            | _ => trivial
        | _ => trivial
      · refine List.eq_nil_iff_forall_not_mem.mpr fun pid mem => ?_
        have registered := ((Registers.step isQuiet taken).waiting place pid mem).resolve_right
          And.right
        rw [empty place] at registered
        cases registered

/-- A child of init exits, and init calls `sys_waitpid`. -/
theorem deadStays_of_exitsClean_reaped : ∃ s final trace,
    system.ReachableWithin ExitsClean s ∧ s.Dead 2 ∧ system.Path s trace final ∧
      final.Dead 2 ∧ ∃ status, final.round = .reaps 2 status := by
  obtain ⟨s, reached, ends⟩ := System.ReachableWithin.extend_run system
    (fun s label => s.quiet label)
    (fun s label => if s.quiet label then s.step label else .error .misuse)
    (fun before label after taken => by
      split at taken
      · rename_i isQuiet
        exact ⟨isQuiet, taken⟩
      · cases taken)
    (does .yield 1 ++ does (.work [.enterUser]) 1 ++ does .fork 1 ++ does .yield 1 ++
      does (.exit 0 [] []) 5)
    (fun s => ((s.tasks 2).any fun task : Task => decide (task.state = TaskState.dead)) &&
      decide (s.pending = [] ∧ s.current ≠ 0) &&
      decide ((s.setPending [.wait 2]).child = some 2))
    (.initial rfl) (by decide +kernel)
  simp only [Bool.and_eq_true, Option.any_eq_true] at ends
  obtain ⟨⟨⟨task, present, isDead⟩, enters⟩, isChild⟩ := ends
  obtain ⟨outside, notIdle⟩ := of_decide_eq_true enters
  have dead : s.Dead 2 := ⟨task, present, of_decide_eq_true isDead⟩
  have clean := (exitsClean_of_quiet reached).1
  have taken : s.step (.call (.waitpid 2)) = .ok (s.setPending [.wait 2]) :=
    if_pos ⟨outside, .inl notIdle⟩
  have path : system.Path s [(s, .call (.waitpid 2))] (s.setPending [.wait 2]) :=
    .cons .nil taken
  obtain ⟨later, found, _⟩ := (dead_setPending [.wait 2]).mpr dead
  obtain ⟨stillDead, _, reaped⟩ := deadStays_of_exitsClean s _ _ 2 clean dead path
    (fun taken mem => by rw [List.mem_singleton.mp mem]; trivial)
    ⟨Option.isSome_iff_exists.mpr ⟨later, found⟩, fun visited mem => by
      rw [List.mem_singleton.mp mem]
      exact Option.isSome_iff_exists.mpr ⟨task, present⟩⟩
  exact ⟨s, _, _, clean, dead, path, stillDead, reaped (of_decide_eq_true isChild)⟩

end Kernel
end Sched
end LightOS
