import LightOS.Signal.Kill

/-!
# Sessions and process groups

The calls `sys_setsid` and `sys_setpgid` of `task.c`, with `sys_fork` and `sys_exit`.  The
terminal of a session is left out.

The leader of a session leads its group, and the tasks of a group belong to one session, as
long as the calls do not break it: `sys_setsid` lets the leader of a group go that has other
members, `sys_setpgid` takes any number for a group, and `sys_fork` may give a task the
number of the session that it belongs to.
-/

namespace LightOS

variable {task : SignalTask} {pid : Nat}

/-- The tasks and their groups. -/
structure Sessions where
  table : SignalTable
  pgid : Nat → Nat

namespace Sessions

/-- `EPERM`. -/
abbrev eperm : Int := 1

/-- `ESRCH`. -/
abbrev esrch : Int := 3

/-- The session of a task that is alive. -/
def sessionIn (table : SignalTable) (pid : Nat) : Option Nat :=
  (table.tasks pid).bind fun task => if task.dead then none else some task.sid

/-- The session of a task that is alive. -/
def session (s : Sessions) (pid : Nat) : Option Nat :=
  sessionIn s.table pid

/-- `sys_setsid`: the result and the tasks. -/
def sysSetsid (s : Sessions) (pid : Nat) (task : SignalTask) : Int × Sessions :=
  if task.sid = pid then
    (-eperm, s)
  else
    (pid, { s with
      table := s.table.setTask pid { task with sid := pid }
      pgid := Function.update s.pgid pid pid })

/-- The task that `sys_setpgid` is to change. -/
def target (s : Sessions) (current pid : Nat) : Option Nat :=
  if pid = 0 then some current
  else if pid < SignalTable.tableSize ∧ (s.table.tasks pid).isSome then some pid
  else none

/-- `sys_setpgid`: the result and the tasks. -/
def sysSetpgid (s : Sessions) (current : Nat) (currentTask : SignalTask) (pid pgid : Nat) :
    Int × Sessions :=
  let pgid := if pgid = 0 then current else pgid
  match s.target current pid with
  | none => (-esrch, s)
  | some pid =>
      match s.table.tasks pid with
      | none => (-esrch, s)
      | some task =>
          if task.sid = pid then (-eperm, s)
          else if task.sid ≠ currentTask.sid then (-eperm, s)
          else (0, { s with pgid := Function.update s.pgid pid pgid })

/-- `sys_fork`.  The child is a copy of the task. -/
def sysFork (s : Sessions) (pid : Nat) : Except Fault Sessions := do
  let table ← s.table.sysFork pid
  let child ← s.table.getFreeTask
  return ⟨table, Function.update s.pgid child (s.pgid pid)⟩

/-- What happens next. -/
inductive Label
  | setsid (pid : Nat)
  | setpgid (pid target pgid : Nat)
  | fork (pid : Nat)
  | exit (pid : Nat)
  /-- A dead task is removed. -/
  | reap (pid : Nat)

/-- A task that is alive makes a call. -/
def call (s : Sessions) (pid : Nat) (body : SignalTask → Except Fault Sessions) :
    Except Fault Sessions :=
  match s.table.tasks pid with
  | some task => if task.dead then .error .misuse else body task
  | none => .error .misuse

/-- One step. -/
def next (s : Sessions) : Label → Except Fault Sessions
  | .setsid pid => s.call pid fun task => .ok (s.sysSetsid pid task).2
  | .setpgid pid target pgid => s.call pid fun task => .ok (s.sysSetpgid pid task target pgid).2
  | .fork pid => s.sysFork pid
  | .exit pid => s.call pid fun task => do return { s with table := ← s.table.sysExit pid task }
  | .reap pid => do return { s with table := ← s.table.next (.reap pid) }

/-- The runs from tasks as `task_create` makes them. -/
def runs : System Sessions Label where
  initial s := (∀ pid, s.pgid pid = 0) ∧ ∀ pid task, s.table.tasks pid = some task → task.sid = 0
  step before label after := before.next label = .ok after

/-- The leaders of sessions lead their groups, and the tasks of a group belong to one
session.  0, which the tasks from boot have for their group, is no group. -/
structure Orderly (s : Sessions) : Prop where
  leads : ∀ pid, s.session pid = some pid → s.pgid pid = pid
  together : ∀ first second, s.session first ≠ none → s.session second ≠ none →
    s.pgid first = s.pgid second → s.pgid first ≠ 0 → s.session first = s.session second

/-- The call of `sys_setpgid` changes a task. -/
def Moves (s : Sessions) (pid target : Nat) : Prop :=
  s.session target ≠ none ∧ s.session target ≠ some target ∧ s.session target = s.session pid

/-- A task that becomes the leader of a session leaves nobody of another session in its
group, a group that a task goes to is one of its session, and a child that gets the number
of its session is in the group of that number. -/
def KeepsOrder (s : Sessions) : Label → Prop
  | .setsid pid => s.session pid ≠ none → s.session pid ≠ some pid → pid ≠ 0 →
      ∀ other ≠ pid, s.session other ≠ none → s.pgid other = pid → s.session other = some pid
  | .setpgid pid target pgid => ∀ task, s.target pid target = some task → s.Moves pid task →
      ∀ other ≠ task, s.session other ≠ none →
        s.pgid other = (if pgid = 0 then pid else pgid) → s.pgid other ≠ 0 →
          s.session other = s.session task
  | .fork pid => ∀ child, s.table.getFreeTask = .ok child → s.session pid = some child →
      s.pgid pid = child
  | _ => True

variable {s after : Sessions}

/-! ## What the calls do to sessions -/

section Tables

variable (table : SignalTable)

theorem sessionIn_setTask (pid : Nat) (task : SignalTask) (other : Nat) :
    sessionIn (table.setTask pid task) other =
      if other = pid then (if task.dead then none else some task.sid)
      else sessionIn table other := by
  unfold sessionIn SignalTable.setTask
  by_cases same : other = pid
  · subst same
    simp
  · simp [same]

/-- Tasks change in other fields. -/
theorem sessionIn_map {change : Nat → SignalTask → SignalTask}
    (kept : ∀ pid task, (change pid task).dead = task.dead ∧ (change pid task).sid = task.sid)
    (other : Nat) :
    sessionIn ⟨fun pid => (table.tasks pid).map (change pid)⟩ other = sessionIn table other := by
  unfold sessionIn
  dsimp only
  cases table.tasks other with
  | none => rfl
  | some task =>
      obtain ⟨dead, sid⟩ := kept other task
      rw [Option.map_some, Option.bind_some, Option.bind_some, dead, sid]

theorem sessionIn_raise (sig : Nat) (receives : Nat → SignalTask → Bool) (other : Nat) :
    sessionIn (table.raise sig receives) other = sessionIn table other := by
  apply sessionIn_map
  intro pid task
  split
  · exact ⟨rfl, rfl⟩
  · exact ⟨rfl, rfl⟩

/-- A task that exits is in no session any more. -/
theorem sessionIn_sysExit {exited : SignalTable} (exits : table.sysExit pid task = .ok exited)
    (other : Nat) :
    sessionIn exited other = if other = pid then none else sessionIn table other := by
  simp only [SignalTable.sysExit, bind_eq_ok] at exits
  obtain ⟨_, _, told, tells, result⟩ := exits
  have dies : sessionIn told other = if other = pid then none else sessionIn table other := by
    have dying := sessionIn_setTask table pid { task with dead := true } other
    unfold SignalTable.taskTellFather at tells
    split at tells
    · cases tells
      exact dying
    · split at tells
      · cases tells
        exact (sessionIn_raise _ _ _ other).trans dying
      · cases tells
  cases result
  refine (sessionIn_map _ (fun other child => ?_) other).trans ?_
  · split
    · exact ⟨rfl, rfl⟩
    · exact ⟨rfl, rfl⟩
  · split
    · exact (sessionIn_raise _ _ _ other).trans dies
    · exact dies

/-- The slot that a child gets is free. -/
theorem getFreeTask_free {child : Nat} (found : table.getFreeTask = .ok child) :
    sessionIn table child = none := by
  unfold SignalTable.getFreeTask at found
  split at found
  · rename_i free isFree
    cases found
    have none := List.find?_some isFree
    unfold sessionIn
    rw [Option.isNone_iff_eq_none.mp none]
    rfl
  · cases found

/-- A child is in the session of its parent. -/
theorem sessionIn_sysFork {child : Nat} {forked : SignalTable}
    (forks : table.sysFork pid = .ok forked) (found : table.getFreeTask = .ok child) :
    sessionIn table pid ≠ none ∧
      ∀ other, sessionIn forked other =
        if other = child then sessionIn table pid else sessionIn table other := by
  unfold SignalTable.sysFork at forks
  split at forks
  · cases forks
  · rename_i task present
    split at forks
    · cases forks
    · rename_i alive
      obtain ⟨_, _, forks⟩ := (bind_eq_ok _ _ _).mp forks
      obtain ⟨number, again, isForked⟩ := (bind_eq_ok _ _ _).mp forks
      rw [found] at again
      cases again
      cases isForked
      have session : sessionIn table pid = some task.sid := by
        simp [sessionIn, present, alive]
      rw [session]
      refine ⟨Option.some_ne_none _, fun other => (sessionIn_setTask table child _ other).trans ?_⟩
      simp [alive]

theorem sessionIn_reap {reaped : SignalTable} (reaps : table.next (.reap pid) = .ok reaped)
    (other : Nat) : sessionIn reaped other = sessionIn table other := by
  unfold SignalTable.next at reaps
  dsimp only at reaps
  split at reaps
  · rename_i task present
    split at reaps
    · rename_i dead
      cases reaps
      unfold sessionIn
      by_cases same : other = pid
      · subst same
        simp [present, dead]
      · simp [same]
    · cases reaps
  · cases reaps

end Tables

/-- What a step does to sessions and groups. -/
inductive Change (s : Sessions) : Label → Sessions → Prop
  | same {label : Label} {after : Sessions} : s.KeepsOrder label → after.pgid = s.pgid →
      (∀ other, after.session other = s.session other) → Change s label after
  /-- A task becomes the leader of a session. -/
  | leads {pid : Nat} {after : Sessions} : s.session pid ≠ none → s.session pid ≠ some pid →
      after.pgid = Function.update s.pgid pid pid →
      (∀ other, after.session other = if other = pid then some pid else s.session other) →
      Change s (.setsid pid) after
  /-- A task goes to another group.  It may be dead. -/
  | moves {pid target pgid task : Nat} {after : Sessions} : s.target pid target = some task →
      s.session task = none ∨ s.Moves pid task →
      after.pgid = Function.update s.pgid task (if pgid = 0 then pid else pgid) →
      (∀ other, after.session other = s.session other) → Change s (.setpgid pid target pgid) after
  /-- A child is in the session and the group of its parent. -/
  | forks {pid child : Nat} {after : Sessions} : s.table.getFreeTask = .ok child →
      s.session child = none → s.session pid ≠ none →
      after.pgid = Function.update s.pgid child (s.pgid pid) →
      (∀ other, after.session other = if other = child then s.session pid else s.session other) →
      Change s (.fork pid) after
  | exits {pid : Nat} {after : Sessions} : after.pgid = s.pgid →
      (∀ other, after.session other = if other = pid then none else s.session other) →
      Change s (.exit pid) after

theorem session_eq (present : s.table.tasks pid = some task) (alive : task.dead = false) :
    s.session pid = some task.sid := by
  simp [session, sessionIn, present, alive]

theorem call_eq_ok {body : SignalTask → Except Fault Sessions}
    (called : s.call pid body = .ok after) :
    ∃ task, task.dead = false ∧ s.session pid = some task.sid ∧ body task = .ok after := by
  unfold call at called
  split at called
  · rename_i task present
    split at called
    · cases called
    · rename_i alive
      rw [Bool.not_eq_true] at alive
      exact ⟨task, alive, session_eq present alive, called⟩
  · cases called

theorem change_setsid (session : s.session pid = some task.sid) (alive : task.dead = false) :
    Change s (.setsid pid) (s.sysSetsid pid task).2 := by
  unfold sysSetsid
  split
  · rename_i isLeader
    refine .same (fun _ notLeader => ?_) rfl fun _ => rfl
    rw [session, isLeader] at notLeader
    exact absurd rfl notLeader
  · rename_i notLeader
    refine .leads (by rw [session]; nofun) (by simpa [session] using notLeader) rfl fun other => ?_
    exact (sessionIn_setTask _ pid _ other).trans (by simp [alive, Sessions.session])

theorem change_setpgid (session : s.session pid = some task.sid) (target pgid : Nat) :
    Change s (.setpgid pid target pgid) (s.sysSetpgid pid task target pgid).2 := by
  unfold sysSetpgid
  dsimp only
  split
  · rename_i unknown
    refine .same (fun found isTarget => ?_) rfl fun _ => rfl
    rw [unknown] at isTarget
    cases isTarget
  · rename_i found isTarget
    -- the call is refused, and what it would have done is no concern
    have refused (still : ¬s.Moves pid found) : s.KeepsOrder (.setpgid pid target pgid) := by
      intro other isOther moves
      rw [isTarget] at isOther
      cases isOther
      exact absurd moves still
    split
    · rename_i absent
      exact .same (refused fun moves => moves.1 (by simp [Sessions.session, sessionIn, absent])) rfl
        fun _ => rfl
    · rename_i foundTask present
      have alive (some : s.session found ≠ none) : s.session found = .some foundTask.sid := by
        simpa [Sessions.session, sessionIn, present] using some
      split
      · rename_i isLeader
        exact .same (refused fun moves => moves.2.1 (by rw [alive moves.1, isLeader])) rfl
          fun _ => rfl
      · rename_i notLeader
        split
        · rename_i otherSession
          refine .same (refused fun moves => otherSession ?_) rfl fun _ => rfl
          simpa [alive moves.1, session] using moves.2.2
        · rename_i sameSession
          refine .moves isTarget (or_iff_not_imp_left.mpr fun some => ⟨some, ?_, ?_⟩) rfl
            fun _ => rfl
          · simpa [alive some] using notLeader
          · rw [alive some, session, not_not.mp sameSession]

theorem change_of_next {label : Label} (taken : s.next label = .ok after) :
    Change s label after := by
  cases label with
  | setsid pid =>
      obtain ⟨task, alive, session, returned⟩ := call_eq_ok taken
      cases returned
      exact change_setsid session alive
  | setpgid pid target pgid =>
      obtain ⟨task, _, session, returned⟩ := call_eq_ok taken
      cases returned
      exact change_setpgid session target pgid
  | fork pid =>
      obtain ⟨table, forks, rest⟩ := (bind_eq_ok _ _ _).mp taken
      obtain ⟨child, found, returned⟩ := (bind_eq_ok _ _ _).mp rest
      cases returned
      obtain ⟨alive, sessions⟩ := sessionIn_sysFork _ forks found
      exact .forks found (getFreeTask_free _ found) alive rfl sessions
  | exit pid =>
      obtain ⟨task, _, _, exited⟩ := call_eq_ok taken
      obtain ⟨table, exits, returned⟩ := (bind_eq_ok _ _ _).mp exited
      cases returned
      exact .exits rfl (sessionIn_sysExit _ exits)
  | reap pid =>
      obtain ⟨table, reaps, returned⟩ := (bind_eq_ok _ _ _).mp taken
      cases returned
      exact .same trivial rfl (sessionIn_reap _ reaps)

/-! ## Runs -/

/-- When one task changes, the order depends on what it changes to. -/
theorem Orderly.update_iff (orderly : s.Orderly) {task group : Nat} {session : Option Nat}
    (pgid : after.pgid = Function.update s.pgid task group)
    (sessions : ∀ other, after.session other = if other = task then session else s.session other) :
    after.Orderly ↔ (session = some task → group = task) ∧
      (session ≠ none → group ≠ 0 → ∀ other ≠ task, s.session other ≠ none →
        s.pgid other = group → s.session other = session) := by
  have groupOf (other : Nat) :
      after.pgid other = if other = task then group else s.pgid other := by
    rw [pgid, Function.update_apply]
  constructor
  · intro still
    refine ⟨fun isLeader => ?_, fun alive some other apart otherAlive same => ?_⟩
    · simpa [groupOf] using still.leads task (by simpa [sessions] using isLeader)
    · have together := still.together task other
      rw [groupOf, groupOf, sessions, sessions, if_pos rfl, if_pos rfl, if_neg apart,
        if_neg apart] at together
      exact (together alive otherAlive same.symm some).symm
  · rintro ⟨leads, together⟩
    refine ⟨fun pid => ?_, fun first second => ?_⟩
    · rw [groupOf, sessions]
      by_cases isTask : pid = task
      · subst isTask
        simpa using leads
      · simpa [isTask] using orderly.leads pid
    · rw [groupOf, groupOf, sessions, sessions]
      by_cases firstChanged : first = task
      · by_cases secondChanged : second = task
        · simp [firstChanged, secondChanged]
        · simp only [if_pos firstChanged, if_neg secondChanged]
          exact fun alive other same some =>
            (together alive some second secondChanged other same.symm).symm
      · by_cases secondChanged : second = task
        · simp only [if_neg firstChanged, if_pos secondChanged]
          exact fun one alive same some =>
            together alive (by rwa [← same]) first firstChanged one same
        · simp only [if_neg firstChanged, if_neg secondChanged]
          exact orderly.together first second

/-- The order holds after a step exactly when the step is one that keeps it. -/
theorem Orderly.change_iff (orderly : s.Orderly) {label : Label} (change : Change s label after) :
    after.Orderly ↔ s.KeepsOrder label := by
  cases change with
  | same keeps pgid sessions =>
      refine iff_of_true ⟨fun pid => ?_, fun first second => ?_⟩ keeps
      · rw [pgid, sessions]
        exact orderly.leads pid
      · rw [pgid, sessions, sessions]
        exact orderly.together first second
  | leads alive notLeader pgid sessions =>
      rw [orderly.update_iff pgid sessions]
      constructor
      · exact fun both _ _ some => both.2 nofun some
      · exact fun keeps => ⟨fun _ => rfl, fun _ some => keeps alive notLeader some⟩
  | @moves pid target group task _ isTarget effective pgid sessions =>
      have unchanged (other : Nat) : after.session other =
          if other = task then s.session task else s.session other := by
        rw [sessions]
        split
        · rename_i same
          rw [same]
        · rfl
      rw [orderly.update_iff pgid unchanged]
      constructor
      · rintro ⟨_, together⟩ other isOther moves
        rw [isTarget] at isOther
        cases isOther
        exact fun member apart alive same some =>
          together moves.1 (by rwa [← same]) member apart alive same
      · intro keeps
        refine ⟨fun isLeader => ?_, fun alive some other apart otherAlive same => ?_⟩
        · rcases effective with gone | moves
          · rw [gone] at isLeader
            cases isLeader
          · exact absurd isLeader moves.2.1
        · exact keeps task isTarget (effective.resolve_left alive) other apart otherAlive same
            (by rwa [same])
  | forks found free alive pgid sessions =>
      rw [orderly.update_iff pgid sessions]
      constructor
      · rintro ⟨leads, _⟩ other isOther isLeader
        rw [found] at isOther
        cases isOther
        exact leads isLeader
      · intro keeps
        refine ⟨keeps _ found, fun _ some other _ otherAlive same => ?_⟩
        exact orderly.together other _ otherAlive alive same (by rwa [same])
  | @exits pid _ pgid sessions =>
      have same : after.pgid = Function.update s.pgid pid (s.pgid pid) := by
        rw [pgid, Function.update_eq_self]
      rw [orderly.update_iff same sessions]
      exact iff_of_true ⟨nofun, fun alive => absurd rfl alive⟩ trivial

theorem Orderly.initial (isInitial : runs.initial s) : s.Orderly := by
  obtain ⟨groups, sids⟩ := isInitial
  refine ⟨fun pid leads => ?_, fun first _ _ _ _ some => absurd (groups first) some⟩
  unfold session sessionIn at leads
  obtain ⟨task, present, alive⟩ := Option.bind_eq_some_iff.mp leads
  rw [sids pid task present] at alive
  rw [groups pid]
  split at alive
  · cases alive
  · exact Option.some.inj alive

/-- In a run, the leaders of sessions lead their groups and the tasks of a group belong to
one session in every state exactly when every step keeps it so. -/
theorem orderly_iff_keepsOrder {start final : Sessions} {trace : List (Sessions × Label)}
    (isInitial : runs.initial start) (path : runs.Path start trace final) :
    System.Visits Orderly trace final ↔ System.Obeys KeepsOrder trace :=
  path.visits_iff_obeys Orderly (.initial isInitial)
    (fun _ _ _ orderly keeps taken => (orderly.change_iff (change_of_next taken)).mpr keeps)
    (fun _ orderly => orderly)
    fun _ _ _ orderly breaks taken still =>
      breaks ((orderly.change_iff (change_of_next taken)).mp still)

/-- A task of the kernel or of a user, as `task_create` makes it. -/
def created (uid : Nat) : SignalTask :=
  ⟨uid, 0, 0, false, 0, 0, fun _ => ⟨0, 0, 0, 0⟩, ⟨0, 0, 0, 0, 0, 0⟩, ⟨fun _ => 0⟩⟩

/-- The idle task, `init` and a user program. -/
def booted : Sessions where
  table := ⟨fun pid =>
    if pid < 2 then some (created 0) else if pid = 2 then some (created 1000) else none⟩
  pgid := fun _ => 0

theorem booted_initial : runs.initial booted := by
  refine ⟨fun _ => rfl, fun pid task present => ?_⟩
  unfold booted at present
  dsimp only at present
  split at present
  · cases present
    rfl
  · split at present
    · cases present
      rfl
    · cases present

/-- The leader of a group becomes the leader of a session, and its child stays behind in the
group. -/
theorem orderly_iff_keepsOrder_split : ∃ trace final,
    runs.Path booted trace final ∧ final.pgid 2 = final.pgid 3 ∧
      (System.Visits Orderly trace final ↔ System.Obeys KeepsOrder trace) := by
  obtain ⟨trace, final, path, same⟩ := System.Path.of_run runs Sessions.next
    (fun _ _ _ taken => taken) booted [.setpgid 2 0 0, .fork 2, .setsid 2]
    (fun s => s.pgid 2 = s.pgid 3) (by decide +kernel)
  exact ⟨trace, final, path, of_decide_eq_true same,
    orderly_iff_keepsOrder booted_initial path⟩

end Sessions
end LightOS
