import LightOS.Device.State
import Mathlib.Data.List.Nodup

/-!
# One request at a time

Among the requests in the list of a root disk exactly one belongs to a task that is not
blocked: the task inside `do_request`, or the one that is about to get there.  It hands
over to another one of the list when it is done, whatever has been inserted meanwhile.
-/

namespace LightOS
namespace DiskQueues

/-- The requests of a root disk. -/
def list (s : DiskQueues) (root : Nat) : List BlockRequest :=
  (s.devices root).requestList

/-- A task has a request at a root disk. -/
def InCall (s : DiskQueues) (pid root : Nat) (req : BlockRequest) : Prop :=
  s.call pid = .waiting root req ∨ s.call pid = .serving root req

/-- At most one request of a root disk is inside `do_request`, every request is carried
out once before its call returns, and somebody gets on with the requests in a list. -/
structure Scheduled (s : DiskQueues) : Prop where
  alone : ∀ root pid other req otherReq, s.call pid = .serving root req →
    s.call other = .serving root otherReq → pid = other
  atMostOnce : ∀ serial, s.executed.count serial ≤ 1
  once : ∀ serial ∈ s.returned, s.executed.count serial = 1
  moves : ∀ root, s.list root ≠ [] → ∃ req ∈ s.list root, s.blocked req.task = false

/-- One request of a list belongs to a task that is not blocked. -/
def OneAwake (s : DiskQueues) (list : List BlockRequest) : Prop :=
  ∃ req ∈ list, s.blocked req.task = false ∧
    ∀ other ∈ list, s.blocked other.task = false → other = req

/-- The requests in the lists are those of the tasks, and one of each list is awake. -/
structure Queued (s : DiskQueues) : Prop where
  listed : ∀ root req, req ∈ s.list root → s.InCall req.task root req
  queued : ∀ pid root req, s.InCall pid root req → req.task = pid ∧ req ∈ s.list root
  serials : ∀ root, ((s.list root).map BlockRequest.serial).Nodup
  old : ∀ pid root req, s.InCall pid root req → req.serial < s.fresh
  awake : ∀ root, s.list root ≠ [] → s.OneAwake (s.list root)
  serves : ∀ pid root req, s.call pid = .serving root req → s.blocked pid = false
  different : ∀ pid other root otherRoot req otherReq, s.InCall pid root req →
    s.InCall other otherRoot otherReq → req.serial = otherReq.serial → pid = other
  notBegun : ∀ pid root req, s.call pid = .waiting root req → req.serial ∉ s.executed
  begun : ∀ pid root req, s.call pid = .serving root req → req.serial ∈ s.executed
  executed : s.executed.Nodup
  executedOld : ∀ serial ∈ s.executed, serial < s.fresh
  returned : ∀ serial ∈ s.returned, serial ∈ s.executed

variable {s after : DiskQueues} {pid root : Nat} {req : BlockRequest}

/-- A task has one request at a time. -/
theorem InCall.unique {otherRoot : Nat} {otherReq : BlockRequest}
    (inCall : s.InCall pid root req) (also : s.InCall pid otherRoot otherReq) :
    root = otherRoot ∧ req = otherReq := by
  rcases inCall with isCall | isCall
  · rcases also with other | other
    · rw [isCall] at other
      cases other
      exact ⟨rfl, rfl⟩
    · rw [isCall] at other
      cases other
  · rcases also with other | other
    · rw [isCall] at other
      cases other
    · rw [isCall] at other
      cases other
      exact ⟨rfl, rfl⟩

theorem InCall.not_outside (inCall : s.InCall pid root req) : s.call pid ≠ .outside := by
  rcases inCall with isCall | isCall
  · rw [isCall]
    simp
  · rw [isCall]
    simp

theorem queued_of_idle (idle : s.Idle) : s.Queued := by
  have none (pid root : Nat) (req : BlockRequest) : ¬s.InCall pid root req := fun inCall =>
    inCall.not_outside (idle.calls pid)
  have empty (root : Nat) : s.list root = [] := idle.lists root
  refine ⟨?listed, ?queued, ?serials, ?old, ?awake, ?serves, ?different, ?notBegun, ?begun,
    ?executed, ?executedOld, ?returned⟩
  case listed =>
    intro root req present
    rw [empty] at present
    cases present
  case queued =>
    exact fun pid root req inCall => absurd inCall (none pid root req)
  case serials =>
    intro root
    rw [empty]
    exact List.nodup_nil
  case old =>
    exact fun pid root req inCall => absurd inCall (none pid root req)
  case awake =>
    exact fun root some => absurd (empty root) some
  case serves =>
    exact fun pid root req isCall => absurd (.inr isCall) (none pid root req)
  case different =>
    exact fun pid _ root _ req _ inCall => absurd inCall (none pid root req)
  case notBegun =>
    exact fun pid root req isCall => absurd (.inl isCall) (none pid root req)
  case begun =>
    exact fun pid root req isCall => absurd (.inr isCall) (none pid root req)
  case executed =>
    rw [idle.executed]
    exact List.nodup_nil
  case executedOld =>
    rw [idle.executed]
    exact nofun
  case returned =>
    rw [idle.returned]
    exact nofun

/-! ## A new request -/

/-- The type that `device_request` gives a device does not change its root disk. -/
theorem root_setType (s : DiskQueues) (dev : Nat) :
    (s.setDevice dev { s.devices dev with type := devBlock }).root dev = s.root dev := by
  unfold root setDevice
  simp only [Function.update_self]

/-- What `device_request` does up to `do_request`. -/
theorem request_spec {dev buf count idx : Nat} {flags : Int} {type : Nat}
    (requested : s.request pid dev buf count idx flags type = .ok after) :
    ∃ req, req.serial = s.fresh ∧ req.task = pid ∧ req.idx = idx ∧
      (∀ other, after.list other = if other = s.root dev then
        req.insertSort (s.list (s.root dev)) else s.list other) ∧
      (∀ other, (after.devices other).up = (s.devices other).up) ∧
      after.call = Function.update s.call pid (.waiting (s.root dev) req) ∧
      after.blocked = Function.update s.blocked pid (!(s.list (s.root dev)).isEmpty) ∧
      after.fresh = s.fresh + 1 ∧ after.executed = s.executed ∧
      after.returned = s.returned := by
  simp only [request, deviceGet, bind_eq_ok, check_eq_ok, pure_eq_ok, Except.ok.injEq] at requested
  obtain ⟨device, ⟨_, _, _, _, isDevice⟩, rootDevice, ⟨_, _, _, _, isRoot⟩, result⟩ := requested
  subst result
  subst isDevice
  have same (other : Nat) :
      ((s.setDevice dev { s.devices dev with type := devBlock }).devices other).requestList =
        (s.devices other).requestList ∧
      ((s.setDevice dev { s.devices dev with type := devBlock }).devices other).up =
        (s.devices other).up := by
    unfold setDevice
    dsimp only
    by_cases isDev : other = dev
    · rw [isDev, Function.update_self]
      exact ⟨rfl, rfl⟩
    · rw [Function.update_of_ne isDev]
      exact ⟨rfl, rfl⟩
  rw [root_setType] at isRoot ⊢
  generalize s.root dev = root at isRoot ⊢
  subst isRoot
  refine ⟨{ serial := s.fresh, dev, type, idx, count, flags, buf, task := pid }, rfl, rfl, rfl,
    fun other => ?_, fun other => ?_, rfl, ?_, rfl, rfl, rfl⟩
  · change ((Function.update _ root _ : Nat → BlockDevice) other).requestList = _
    by_cases isRootDisk : other = root
    · rw [if_pos isRootDisk, isRootDisk, Function.update_self]
      dsimp only
      rw [(same root).1]
      rfl
    · rw [if_neg isRootDisk, Function.update_of_ne isRootDisk]
      exact (same other).1
  · change ((Function.update _ root _ : Nat → BlockDevice) other).up = _
    by_cases isRootDisk : other = root
    · rw [isRootDisk, Function.update_self]
      exact (same root).2
    · rw [Function.update_of_ne isRootDisk]
      exact (same other).2
  · change Function.update s.blocked pid (!(BlockDevice.requestList _).isEmpty) = _
    rw [(same root).1]
    rfl

/-- The requests of the tasks after one task has got a new one. -/
theorem inCall_update {call : BlockCall}
    (isCall : call = .waiting root req ∨ call = .serving root req)
    (calls : after.call = Function.update s.call pid call) (other otherRoot : Nat)
    (otherReq : BlockRequest) :
    after.InCall other otherRoot otherReq ↔
      (other = pid ∧ otherRoot = root ∧ otherReq = req) ∨
        (other ≠ pid ∧ s.InCall other otherRoot otherReq) := by
  have new : after.call pid = .waiting root req ∨ after.call pid = .serving root req := by
    rw [calls, Function.update_self]
    exact isCall
  by_cases same : other = pid
  · subst same
    constructor
    · intro inCall
      obtain ⟨sameRoot, sameReq⟩ := InCall.unique inCall new
      exact .inl ⟨rfl, sameRoot, sameReq⟩
    · rintro (⟨_, rfl, rfl⟩ | ⟨different, _⟩)
      · exact new
      · exact absurd rfl different
  · have unchanged : after.call other = s.call other := by
      rw [calls, Function.update_of_ne same]
    unfold InCall
    rw [unchanged]
    simp [same]

/-- A request of a list belongs to a task that is not outside. -/
theorem Queued.task_ne (queued : s.Queued) (isOutside : s.call pid = .outside)
    (present : req ∈ s.list root) : req.task ≠ pid := by
  rintro rfl
  exact (queued.listed root req present).not_outside isOutside

theorem Queued.request (queued : s.Queued) {dev buf count idx : Nat} {flags : Int}
    {type : Nat} (isOutside : s.call pid = .outside)
    (requested : s.request pid dev buf count idx flags type = .ok after) : after.Queued := by
  obtain ⟨req, isFresh, isTask, _, lists, _, calls, blocked, fresh, executed, returned⟩ :=
    request_spec requested
  generalize s.root dev = root at lists calls blocked
  have inCall := inCall_update (.inl rfl) calls
  have inList (other : Nat) (item : BlockRequest) : item ∈ after.list other ↔
      (other = root ∧ item = req) ∨ item ∈ s.list other := by
    rw [lists]
    by_cases isRoot : other = root
    · rw [if_pos isRoot, (req.perm_insertSort (s.list root)).mem_iff, List.mem_cons, isRoot]
      simp
    · rw [if_neg isRoot]
      simp [isRoot]
  have old (other : Nat) (item : BlockRequest) (present : item ∈ s.list other) :
      item.serial < s.fresh :=
    queued.old item.task other item (queued.listed other item present)
  have blockedOther (other : Nat) (item : BlockRequest) (present : item ∈ s.list other) :
      after.blocked item.task = s.blocked item.task := by
    rw [blocked, Function.update_of_ne (queued.task_ne isOutside present)]
  have callOther {other : Nat} (different : other ≠ pid) : after.call other = s.call other := by
    rw [calls, Function.update_of_ne different]
  have callSelf : after.call pid = .waiting root req := by
    rw [calls, Function.update_self]
  refine ⟨?listed, ?queued, ?serials, ?old, ?awake, ?serves, ?different, ?notBegun, ?begun,
    ?executed, ?executedOld, ?returned⟩
  case listed =>
    intro other item present
    rw [inCall]
    rcases (inList other item).mp present with ⟨rfl, rfl⟩ | before
    · exact .inl ⟨isTask, rfl, rfl⟩
    · exact .inr ⟨queued.task_ne isOutside before, queued.listed other item before⟩
  case queued =>
    intro other otherRoot item isCall
    rw [inList]
    rcases (inCall other otherRoot item).mp isCall with ⟨rfl, rfl, rfl⟩ | ⟨_, before⟩
    · exact ⟨isTask, .inl ⟨rfl, rfl⟩⟩
    · obtain ⟨itsTask, present⟩ := queued.queued other otherRoot item before
      exact ⟨itsTask, .inr present⟩
  case serials =>
    intro other
    rw [lists]
    split
    · rw [((req.perm_insertSort (s.list root)).map BlockRequest.serial).nodup_iff,
        List.map_cons, List.nodup_cons]
      refine ⟨fun present => ?_, queued.serials root⟩
      obtain ⟨item, isItem, same⟩ := List.mem_map.mp present
      have below := old root item isItem
      omega
    · exact queued.serials other
  case old =>
    intro other otherRoot item isCall
    rw [fresh]
    rcases (inCall other otherRoot item).mp isCall with ⟨_, _, rfl⟩ | ⟨_, before⟩
    · omega
    · exact Nat.lt_succ_of_lt (queued.old other otherRoot item before)
  case awake =>
    intro other some
    by_cases isEmpty : s.list other = []
    · have isRoot : other = root := by
        by_contra different
        rw [lists, if_neg different] at some
        exact some isEmpty
      subst isRoot
      refine ⟨req, (inList other req).mpr (.inl ⟨rfl, rfl⟩), ?_, fun item present _ => ?_⟩
      · rw [blocked, isTask, Function.update_self, isEmpty]
        rfl
      · rcases (inList other item).mp present with ⟨_, rfl⟩ | before
        · rfl
        · rw [isEmpty] at before
          cases before
    · obtain ⟨active, present, isAwake, unique⟩ := queued.awake other isEmpty
      refine ⟨active, (inList other active).mpr (.inr present), ?_, fun item isItem awake => ?_⟩
      · rw [blockedOther other active present]
        exact isAwake
      · rcases (inList other item).mp isItem with ⟨rfl, rfl⟩ | before
        · rw [blocked, isTask, Function.update_self] at awake
          exact absurd (by simpa using awake) isEmpty
        · rw [blockedOther other item before] at awake
          exact unique item before awake
  case serves =>
    intro other otherRoot item isCall
    by_cases same : other = pid
    · rw [same, callSelf] at isCall
      cases isCall
    · rw [callOther same] at isCall
      rw [blocked, Function.update_of_ne same]
      exact queued.serves other otherRoot item isCall
  case different =>
    intro other another otherRoot anotherRoot item anotherItem isCall isAnother same
    rcases (inCall other otherRoot item).mp isCall with ⟨rfl, _, rfl⟩ | ⟨_, before⟩
    · rcases (inCall another anotherRoot anotherItem).mp isAnother with
        ⟨rfl, _, _⟩ | ⟨_, before⟩
      · rfl
      · have below := queued.old another anotherRoot anotherItem before
        omega
    · rcases (inCall another anotherRoot anotherItem).mp isAnother with
        ⟨_, _, rfl⟩ | ⟨_, also⟩
      · have below := queued.old other otherRoot item before
        omega
      · exact queued.different other another otherRoot anotherRoot item anotherItem before also
          same
  case notBegun =>
    intro other otherRoot item isCall
    rw [executed]
    by_cases same : other = pid
    · rw [same, callSelf] at isCall
      cases isCall
      intro begun
      have below := queued.executedOld _ begun
      omega
    · rw [callOther same] at isCall
      exact queued.notBegun other otherRoot item isCall
  case begun =>
    intro other otherRoot item isCall
    rw [executed]
    by_cases same : other = pid
    · rw [same, callSelf] at isCall
      cases isCall
    · rw [callOther same] at isCall
      exact queued.begun other otherRoot item isCall
  case executed =>
    rw [executed]
    exact queued.executed
  case executedOld =>
    intro serial present
    rw [executed] at present
    rw [fresh]
    exact Nat.lt_succ_of_lt (queued.executedOld serial present)
  case returned =>
    intro serial present
    rw [returned] at present
    rw [executed]
    exact queued.returned serial present

/-! ## The beginning of a request -/

theorem Queued.start (queued : s.Queued) (isWaiting : s.call pid = .waiting root req)
    (awake : s.blocked pid = false) (started : s.start pid root req = .ok after) :
    after.Queued := by
  unfold DiskQueues.start at started
  split at started
  · cases started
    have mine : s.InCall pid root req := .inl isWaiting
    have inCall (other otherRoot : Nat) (item : BlockRequest) :
        ({ s with executed := req.serial :: s.executed }.setCall pid
          (.serving root req)).InCall other otherRoot item ↔ s.InCall other otherRoot item := by
      rw [inCall_update (.inr rfl) rfl]
      constructor
      · rintro (⟨rfl, rfl, rfl⟩ | ⟨_, before⟩)
        · exact mine
        · exact before
      · intro before
        by_cases same : other = pid
        · subst same
          exact .inl ⟨rfl, before.unique mine⟩
        · exact .inr ⟨same, before⟩
    have callOther {other : Nat} (different : other ≠ pid) :
        ({ s with executed := req.serial :: s.executed }.setCall pid
          (.serving root req)).call other = s.call other :=
      Function.update_of_ne different _ _
    have callSelf : ({ s with executed := req.serial :: s.executed }.setCall pid
        (.serving root req)).call pid = .serving root req :=
      Function.update_self ..
    refine ⟨?listed, ?queued, queued.serials, ?old, queued.awake, ?serves, ?different, ?notBegun,
      ?begun, ?executed, ?executedOld, ?returned⟩
    case listed =>
      exact fun other item present => (inCall _ _ _).mpr (queued.listed other item present)
    case queued =>
      exact fun other otherRoot item isCall =>
        queued.queued other otherRoot item ((inCall _ _ _).mp isCall)
    case old =>
      exact fun other otherRoot item isCall =>
        queued.old other otherRoot item ((inCall _ _ _).mp isCall)
    case serves =>
      intro other otherRoot item isCall
      by_cases same : other = pid
      · rw [same]
        exact awake
      · rw [callOther same] at isCall
        exact queued.serves other otherRoot item isCall
    case different =>
      exact fun other another otherRoot anotherRoot item anotherItem isCall isAnother =>
        queued.different other another otherRoot anotherRoot item anotherItem
          ((inCall _ _ _).mp isCall) ((inCall _ _ _).mp isAnother)
    case notBegun =>
      intro other otherRoot item isCall present
      by_cases same : other = pid
      · rw [same, callSelf] at isCall
        cases isCall
      · rw [callOther same] at isCall
        rcases List.mem_cons.mp present with isNew | before
        · exact same (queued.different other pid otherRoot root item req (.inl isCall) mine
            isNew)
        · exact queued.notBegun other otherRoot item isCall before
    case begun =>
      intro other otherRoot item isCall
      by_cases same : other = pid
      · rw [same, callSelf] at isCall
        cases isCall
        exact List.mem_cons_self
      · rw [callOther same] at isCall
        exact List.mem_cons_of_mem _ (queued.begun other otherRoot item isCall)
    case executed =>
      exact List.nodup_cons.mpr ⟨queued.notBegun pid root req isWaiting, queued.executed⟩
    case executedOld =>
      intro serial present
      rcases List.mem_cons.mp present with rfl | before
      · exact queued.old pid root req mine
      · exact queued.executedOld serial before
    case returned =>
      exact fun serial present => List.mem_cons_of_mem _ (queued.returned serial present)
  · cases started

/-! ## The end of a request -/

/-- The bitmap of blocked tasks after the next one has been woken. -/
def wake (s : DiskQueues) (nextreq : Option BlockRequest) : Nat → Bool :=
  match nextreq with
  | some nextreq => Function.update s.blocked nextreq.task false
  | none => s.blocked

/-- What `device_request` does after `do_request`. -/
theorem finish_spec (s : DiskQueues) (pid root : Nat) (req : BlockRequest) :
    (∀ other, (s.finish pid root req).list other =
      if other = root then req.remove (s.list root) else s.list other) ∧
    (∀ other, ((s.finish pid root req).devices other).up =
      if other = root then ((s.devices root).nextreq req).2 else (s.devices other).up) ∧
    (s.finish pid root req).call = Function.update s.call pid .outside ∧
    (s.finish pid root req).blocked = s.wake ((s.devices root).nextreq req).1 ∧
    (s.finish pid root req).fresh = s.fresh ∧
    (s.finish pid root req).executed = s.executed ∧
    (s.finish pid root req).returned = req.serial :: s.returned := by
  have changed (other : Nat) : (Function.update s.devices root
      { s.devices root with
        requestList := req.remove (s.devices root).requestList
        up := ((s.devices root).nextreq req).2 } : Nat → BlockDevice) other =
      if other = root then
        { s.devices root with
          requestList := req.remove (s.devices root).requestList
          up := ((s.devices root).nextreq req).2 }
      else s.devices other :=
    Function.update_apply ..
  have lists (other : Nat) := congrArg BlockDevice.requestList (changed other)
  have directions (other : Nat) := congrArg BlockDevice.up (changed other)
  simp only [apply_ite BlockDevice.requestList] at lists
  simp only [apply_ite BlockDevice.up] at directions
  unfold finish
  dsimp only
  cases isNext : ((s.devices root).nextreq req).1 with
  | some nextreq => exact ⟨lists, directions, rfl, rfl, rfl, rfl, rfl⟩
  | none => exact ⟨lists, directions, rfl, rfl, rfl, rfl, rfl⟩

/-- A task is woken or stays as it is. -/
theorem wake_eq_false {nextreq : Option BlockRequest} {task : Nat}
    (awake : s.blocked task = false) : s.wake nextreq task = false := by
  cases nextreq with
  | none => exact awake
  | some nextreq =>
      by_cases same : task = nextreq.task
      · rw [same]
        exact Function.update_self ..
      · exact (Function.update_of_ne same _ _).trans awake

/-- Requests of the same task are the same. -/
theorem Queued.task_inj (queued : s.Queued) {otherRoot : Nat} {otherReq : BlockRequest}
    (present : req ∈ s.list root) (alsoPresent : otherReq ∈ s.list otherRoot)
    (sameTask : req.task = otherReq.task) : root = otherRoot ∧ req = otherReq := by
  have inCall := queued.listed root req present
  rw [sameTask] at inCall
  exact inCall.unique (queued.listed otherRoot otherReq alsoPresent)

/-- Waking a task that waits for another disk changes nothing. -/
theorem Queued.wake_other (queued : s.Queued) {nextreq : Option BlockRequest} {other : Nat}
    {item : BlockRequest} (listed : ∀ next, nextreq = some next → next ∈ s.list root)
    (different : other ≠ root) (isItem : item ∈ s.list other) :
    s.wake nextreq item.task = s.blocked item.task := by
  cases nextreq with
  | none => rfl
  | some next =>
      refine Function.update_of_ne (fun sameTask => different ?_) _ _
      exact (queued.task_inj isItem (listed next rfl) sameTask).1

/-- The request that is picked is one of those that stay in the list, unless none stays. -/
theorem Queued.nextreq_spec (queued : s.Queued) (present : req ∈ s.list root) :
    match ((s.devices root).nextreq req).1 with
    | some next => next ∈ req.remove (s.list root) ∧ next ∈ s.list root
    | none => req.remove (s.list root) = [] ∧ s.list root = [req] := by
  obtain ⟨front, rear, split, notFront, notRear⟩ :=
    BlockRequest.split_of_mem present (queued.serials root)
  have isNext := BlockDevice.nextreq_split split notFront notRear
  rw [split, BlockRequest.remove_split notFront]
  cases isReq : ((s.devices root).nextreq req).1 with
  | some next =>
      rw [isReq] at isNext
      refine ⟨isNext, ?_⟩
      rcases List.mem_append.mp isNext with inFront | inRear
      · exact List.mem_append_left _ inFront
      · exact List.mem_append_right _ (List.mem_cons_of_mem _ inRear)
  | none =>
      rw [isReq] at isNext
      obtain ⟨rfl, rfl⟩ := List.append_eq_nil_iff.mp isNext
      exact ⟨rfl, rfl⟩

theorem Queued.finish (queued : s.Queued) (isServing : s.call pid = .serving root req) :
    (s.finish pid root req).Queued := by
  obtain ⟨lists, _, calls, blocked, fresh, executed, returned⟩ := finish_spec s pid root req
  generalize s.finish pid root req = final at lists calls blocked fresh executed returned
  obtain ⟨itsTask, present⟩ := queued.queued pid root req (.inr isServing)
  obtain ⟨front, rear, split, notFront, notRear⟩ :=
    BlockRequest.split_of_mem present (queued.serials root)
  have isNext := BlockDevice.nextreq_split split notFront notRear
  have removed : req.remove (s.list root) = front ++ rear := by
    rw [split]
    exact BlockRequest.remove_split notFront
  -- The finished request was the only one awake, so the others of its list sleep.
  have others (item : BlockRequest) (isItem : item ∈ front ++ rear) :
      item ∈ s.list root ∧ item.serial ≠ req.serial := by
    rcases List.mem_append.mp isItem with inFront | inRear
    · exact ⟨split ▸ List.mem_append_left _ inFront, notFront item inFront⟩
    · exact ⟨split ▸ List.mem_append_right _ (List.mem_cons_of_mem _ inRear),
        notRear item inRear⟩
  have asleep (item : BlockRequest) (isItem : item ∈ front ++ rear) :
      s.blocked item.task = true := by
    obtain ⟨inList, different⟩ := others item isItem
    obtain ⟨active, _, _, unique⟩ := queued.awake root (List.ne_nil_of_mem present)
    cases isAwake : s.blocked item.task with
    | true => rfl
    | false =>
        have itself : s.blocked req.task = false := by
          rw [itsTask]
          exact queued.serves pid root req isServing
        have same := (unique item inList isAwake).trans (unique req present itself).symm
        exact absurd (congrArg BlockRequest.serial same) different
  have inList (other : Nat) (item : BlockRequest) (isItem : item ∈ final.list other) :
      item ∈ s.list other ∧ (other = root → item ∈ front ++ rear) := by
    rw [lists] at isItem
    split at isItem
    · rename_i isRoot
      rw [removed] at isItem
      exact ⟨isRoot ▸ (others item isItem).1, fun _ => isItem⟩
    · rename_i notRoot
      exact ⟨isItem, fun isRoot => absurd isRoot notRoot⟩
  have notMine (other : Nat) (item : BlockRequest) (isItem : item ∈ final.list other) :
      item.task ≠ pid := by
    obtain ⟨wasItem, ifRoot⟩ := inList other item isItem
    intro isMine
    obtain ⟨isRoot, rfl⟩ := queued.task_inj wasItem present (isMine.trans itsTask.symm)
    exact (others item (ifRoot isRoot)).2 rfl
  have callOther {other : Nat} (different : other ≠ pid) : final.call other = s.call other := by
    rw [calls, Function.update_of_ne different]
  have callSelf : final.call pid = .outside := by
    rw [calls, Function.update_self]
  have inCall {other otherRoot : Nat} {item : BlockRequest}
      (isCall : final.InCall other otherRoot item) :
      other ≠ pid ∧ s.InCall other otherRoot item := by
    have different : other ≠ pid := by
      rintro rfl
      exact isCall.not_outside callSelf
    unfold InCall at isCall
    rw [callOther different] at isCall
    exact ⟨different, isCall⟩
  refine ⟨?listed, ?queued, ?serials, ?old, ?awake, ?serves, ?different, ?notBegun, ?begun,
    ?executed, ?executedOld, ?returned⟩
  case listed =>
    intro other item isItem
    have before := queued.listed other item (inList other item isItem).1
    unfold InCall
    rw [callOther (notMine other item isItem)]
    exact before
  case queued =>
    intro other otherRoot item isCall
    obtain ⟨different, before⟩ := inCall isCall
    obtain ⟨isTask, wasItem⟩ := queued.queued other otherRoot item before
    refine ⟨isTask, ?_⟩
    rw [lists]
    split
    · rename_i isRoot
      subst isRoot
      rw [removed]
      rw [split] at wasItem
      rcases List.mem_append.mp wasItem with inFront | rest
      · exact List.mem_append_left _ inFront
      · rcases List.mem_cons.mp rest with rfl | inRear
        · exact absurd (isTask.symm.trans itsTask) different
        · exact List.mem_append_right _ inRear
    · exact wasItem
  case serials =>
    intro other
    rw [lists]
    split
    · exact (queued.serials root).sublist ((List.eraseP_sublist).map _)
    · exact queued.serials other
  case old =>
    intro other otherRoot item isCall
    rw [fresh]
    exact queued.old other otherRoot item (inCall isCall).2
  case awake =>
    intro other some
    unfold OneAwake
    rw [blocked]
    by_cases isRoot : other = root
    · subst isRoot
      rw [lists, if_pos rfl, removed] at some ⊢
      cases isReq : ((s.devices other).nextreq req).1 with
      | none =>
          rw [isReq] at isNext
          exact absurd isNext some
      | some nextreq =>
          rw [isReq] at isNext
          refine ⟨nextreq, isNext, Function.update_self .., fun item isItem awake => ?_⟩
          by_cases sameTask : item.task = nextreq.task
          · exact (queued.task_inj (others item isItem).1 (others nextreq isNext).1 sameTask).2
          · have before : s.blocked item.task = false :=
              (Function.update_of_ne sameTask _ _).symm.trans awake
            rw [asleep item isItem] at before
            cases before
    · have same : final.list other = s.list other := by rw [lists, if_neg isRoot]
      rw [same] at some ⊢
      obtain ⟨active, isActive, isAwake, unique⟩ := queued.awake other some
      refine ⟨active, isActive, wake_eq_false isAwake, fun item isItem awake => ?_⟩
      apply unique item isItem
      rw [← awake]
      refine (queued.wake_other (fun next isSome => ?_) isRoot isItem).symm
      rw [isSome] at isNext
      exact (others next isNext).1
  case serves =>
    intro other otherRoot item isCall
    obtain ⟨different, _⟩ := inCall (.inr isCall)
    rw [callOther different] at isCall
    rw [blocked]
    exact wake_eq_false (queued.serves other otherRoot item isCall)
  case different =>
    exact fun other another otherRoot anotherRoot item anotherItem isCall isAnother =>
      queued.different other another otherRoot anotherRoot item anotherItem
        (inCall isCall).2 (inCall isAnother).2
  case notBegun =>
    intro other otherRoot item isCall
    obtain ⟨different, _⟩ := inCall (.inl isCall)
    rw [callOther different] at isCall
    rw [executed]
    exact queued.notBegun other otherRoot item isCall
  case begun =>
    intro other otherRoot item isCall
    obtain ⟨different, _⟩ := inCall (.inr isCall)
    rw [callOther different] at isCall
    rw [executed]
    exact queued.begun other otherRoot item isCall
  case executed =>
    rw [executed]
    exact queued.executed
  case executedOld =>
    intro serial isExecuted
    rw [executed] at isExecuted
    rw [fresh]
    exact queued.executedOld serial isExecuted
  case returned =>
    intro serial isReturned
    rw [returned] at isReturned
    rw [executed]
    rcases List.mem_cons.mp isReturned with rfl | before
    · exact queued.begun pid root req isServing
    · exact queued.returned serial before

/-! ## Runs -/

theorem Queued.step (queued : s.Queued) {label : Label}
    (stepped : s.next label = .ok after) : after.Queued := by
  cases label with
  | request pid dev buf count idx flags type =>
      simp only [next] at stepped
      split at stepped
      · rename_i isOutside
        exact queued.request isOutside stepped
      · cases stepped
  | start pid =>
      simp only [next] at stepped
      split at stepped
      · rename_i isWaiting
        split at stepped
        · cases stepped
        · rename_i awake
          exact queued.start isWaiting (by simpa using awake) stepped
      · cases stepped
  | finish pid =>
      simp only [next] at stepped
      split at stepped
      · rename_i isServing
        cases stepped
        exact queued.finish isServing
      · cases stepped

theorem Queued.scheduled (queued : s.Queued) : s.Scheduled where
  alone := by
    intro root pid other req otherReq isServing alsoServing
    obtain ⟨itsTask, present⟩ := queued.queued pid root req (.inr isServing)
    obtain ⟨otherTask, alsoPresent⟩ := queued.queued other root otherReq (.inr alsoServing)
    obtain ⟨active, _, _, unique⟩ := queued.awake root (List.ne_nil_of_mem present)
    have isActive := unique req present (by
      rw [itsTask]
      exact queued.serves pid root req isServing)
    have alsoActive := unique otherReq alsoPresent (by
      rw [otherTask]
      exact queued.serves other root otherReq alsoServing)
    rw [← itsTask, ← otherTask, isActive, alsoActive]
  atMostOnce := List.nodup_iff_count_le_one.mp queued.executed
  once := fun serial isReturned =>
    List.count_eq_one_of_mem queued.executed (queued.returned serial isReturned)
  moves := by
    intro root some
    obtain ⟨active, present, awake, _⟩ := queued.awake root some
    exact ⟨active, present, awake⟩

/-- In every run of tasks that use block devices the requests of each root disk are
carried out one at a time, each one once, and somebody always gets on with them. -/
theorem scheduled_of_reachable {s : DiskQueues} (reached : runs.Reachable s) :
    s.Scheduled := by
  have queued : s.Queued := by
    apply reached.invariant Queued
    · exact fun state idle => queued_of_idle idle
    · exact fun before label after queued _ stepped => queued.step stepped
  exact queued.scheduled

/-- A disk and two partitions. -/
def disks : DiskQueues where
  devices := fun dev => {
    type := if dev < 4 then devBlock else 0
    parent := if dev = 1 then 0 else 1
    requestList := []
    up := true }
  call := fun _ => .outside
  blocked := fun _ => false
  fresh := 0
  executed := []
  returned := []

theorem disks_idle : disks.Idle where
  lists := fun _ => rfl
  calls := fun _ => rfl
  blocked := fun _ => rfl
  executed := rfl
  returned := rfl

/-- Task 3 comes while the disk is busy for task 2, and goes on when that is done. -/
def twoTasks : List Label :=
  [.request 2 2 0 2 80 0 0, .start 2, .request 3 3 0 2 40 0 1, .finish 2, .start 3]

theorem scheduled_of_reachable_twoTasks :
    ∃ s, runs.Reachable s ∧ s.executed = [1, 0] ∧ s.Scheduled := by
  obtain ⟨s, reached, executed⟩ := System.ReachableWithin.extend_run runs
    (fun _ _ => True) next (fun _ _ _ stepped => ⟨trivial, stepped⟩) twoTasks
    (fun s => s.executed = [1, 0]) (.initial disks_idle) (by decide +kernel)
  exact ⟨s, reached, of_decide_eq_true executed, scheduled_of_reachable reached⟩

end DiskQueues
end LightOS
