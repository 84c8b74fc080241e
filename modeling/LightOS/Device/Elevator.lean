import LightOS.Device.Requests
import LightOS.Foundation.StableQueue
import Mathlib.Data.Int.Order.Basic

/-!
# The order in which requests are served

The list of a root disk is sorted by the sector indexes as signed words, and the requests
of a busy disk are served from neighbour to neighbour.  The callers of `device_request` ask
for indexes below the sign bit, so that the indexes of the requests rise and fall with the
direction.
-/

namespace LightOS

variable {pid root : Nat} {req : BlockRequest}

namespace BlockRequest

theorem insertSort_eq (req : BlockRequest) (list : List BlockRequest) :
    req.insertSort list = insertLast key req list := by
  induction list with
  | nil => rfl
  | cons head rest inductionHypothesis =>
      rw [insertSort, insertLast, inductionHypothesis]

/-- An index below the sign bit is its own key. -/
theorem key_eq (small : req.idx < 2 ^ 31) : req.key = req.idx :=
  toSigned_of_lt small

/-- A request lies further in a direction than another one, or equally far. -/
def Onward (up : Bool) (req other : BlockRequest) : Prop :=
  if up then req.idx ≤ other.idx else other.idx ≤ req.idx

end BlockRequest

namespace BlockDevice

/-- The request to wake lies onward in the direction that is taken then, and the direction
turns when every request lies backward. -/
structure Orders (device : BlockDevice) (req : BlockRequest) : Prop where
  order : ∀ next, (device.nextreq req).1 = some next →
    req.Onward (device.nextreq req).2 next
  turn : (device.nextreq req).2 ≠ device.up →
    ∀ other ∈ device.requestList, req.Onward (!device.up) other

variable {device : BlockDevice} {before after : List BlockRequest}

/-- The direction stays, and the neighbour comes next. -/
theorem orders_of_neighbour {neighbour : BlockRequest}
    (isNext : device.nextreq req = (some neighbour, device.up))
    (onward : req.Onward device.up neighbour) : device.Orders req := by
  refine ⟨fun next isSome => ?_, fun turns => ?_⟩
  · rw [isNext] at isSome ⊢
    cases isSome
    exact onward
  · rw [isNext] at turns
    exact absurd rfl turns

/-- The direction turns. -/
theorem orders_of_turn {next : Option BlockRequest}
    (isNext : device.nextreq req = (next, !device.up))
    (listed : ∀ other, next = some other → other ∈ device.requestList)
    (backward : ∀ other ∈ device.requestList, req.Onward (!device.up) other) :
    device.Orders req := by
  refine ⟨fun other isSome => ?_, fun _ => backward⟩
  rw [isNext] at isSome ⊢
  exact backward other (listed other isSome)

/-- In a list that is sorted by its indexes, the next request is in order. -/
theorem orders_of_sorted
    (sorted : device.requestList.Pairwise fun first second => first.idx ≤ second.idx)
    (split : device.requestList = before ++ req :: after)
    (notBefore : ∀ other ∈ before, other.serial ≠ req.serial)
    (notAfter : ∀ other ∈ after, other.serial ≠ req.serial) : device.Orders req := by
  have isNext : req.next device.requestList = after.head? := by
    rw [split]
    exact BlockRequest.next_split notBefore
  have isPrev : req.prev device.requestList = before.reverse.head? := by
    rw [split]
    exact BlockRequest.prev_split notAfter
  have listedAfter (other : BlockRequest) (isSome : after.head? = some other) :
      other ∈ device.requestList := by
    rw [split]
    exact List.mem_append_right _ (List.mem_cons_of_mem _ (List.mem_of_head? isSome))
  have listedBefore (other : BlockRequest) (isSome : before.reverse.head? = some other) :
      other ∈ device.requestList := by
    rw [split]
    exact List.mem_append_left _ (List.mem_reverse.mp (List.mem_of_head? isSome))
  rw [split] at sorted
  obtain ⟨_, sortedRest, across⟩ := List.pairwise_append.mp sorted
  obtain ⟨rear, _⟩ := List.pairwise_cons.mp sortedRest
  have front (other : BlockRequest) (isOther : other ∈ before) : other.idx ≤ req.idx :=
    across other isOther req List.mem_cons_self
  cases direction : device.up with
  | true =>
      cases after with
      | nil =>
          refine orders_of_turn (by simp [nextreq, isNext, isPrev, direction]) listedBefore ?_
          intro other isOther
          rw [direction]
          rw [split] at isOther
          rcases List.mem_append.mp isOther with isBefore | itself
          · exact front other isBefore
          · rw [List.mem_singleton.mp itself]
            exact Nat.le_refl _
      | cons neighbour others =>
          refine @orders_of_neighbour _ _ neighbour ?_ ?_
          · simp [nextreq, isNext, direction]
          · rw [direction]
            exact rear neighbour List.mem_cons_self
  | false =>
      cases isLast : before.reverse.head? with
      | none =>
          refine orders_of_turn (by simp [nextreq, isNext, isPrev, isLast, direction])
            listedAfter ?_
          intro other isOther
          rw [direction]
          have isEmpty : before = [] := by simpa using isLast
          rw [split, isEmpty] at isOther
          rcases List.mem_cons.mp isOther with rfl | isAfter
          · exact Nat.le_refl _
          · exact rear other isAfter
      | some neighbour =>
          refine @orders_of_neighbour _ _ neighbour ?_ ?_
          · simp [nextreq, isPrev, isLast, direction]
          · rw [direction]
            exact front neighbour (List.mem_reverse.mp (List.mem_of_head? isLast))

end BlockDevice

/-! ## Runs -/

/-- The end of a request: the direction and the list before it, and the request that is
woken. -/
structure Finish where
  req : BlockRequest
  up : Bool
  queue : List BlockRequest
  next : Option BlockRequest

/-- The devices and their tasks, with the last request of each root disk that has been
served since the disk was idle. -/
structure Lift where
  queues : DiskQueues
  last : Nat → Option Finish

namespace Lift

variable {done : Finish}

/-- What a step adds to the record.  A request that comes to an idle disk begins anew. -/
def record (x : Lift) : DiskQueues.Label → Nat → Option Finish
  | .request _ dev _ _ _ _ _ =>
      if x.queues.list (x.queues.root dev) = [] then
        Function.update x.last (x.queues.root dev) none
      else
        x.last
  | .start _ => x.last
  | .finish pid =>
      match x.queues.call pid with
      | .serving root req =>
          let device := x.queues.devices root
          Function.update x.last root
            (some ⟨req, device.up, device.requestList, (device.nextreq req).1⟩)
      | _ => x.last

/-- Sector indexes are below the sign bit.  The callers `bread` and `bwrite` ask for two
sectors of a block, and the numbers of blocks are those of zones, which have 16 bits, of the
parts of a file system in front of its zones, or what a file offset is divided to. -/
def Addresses : DiskQueues.Label → Prop
  | .request _ _ _ _ idx _ _ => idx < 2 ^ 31
  | _ => True

/-- The runs from any idle devices. -/
def runs : System Lift DiskQueues.Label where
  initial x := x.queues.Idle ∧ ∀ root, x.last root = none
  step x label y :=
    Addresses label ∧ x.queues.next label = .ok y.queues ∧ y.last = x.record label

/-- What is promised about the last request that a busy disk has served. -/
structure Elevator (x : Lift) (root : Nat) (done : Finish) : Prop where
  order : ∀ next, done.next = some next →
    done.req.Onward (x.queues.devices root).up next
  turn : (x.queues.devices root).up ≠ done.up →
    ∀ other ∈ done.queue, done.req.Onward (!done.up) other
  alone : done.next = none ↔ done.queue = [done.req]
  follows : ∀ pid req, x.queues.call pid = .serving root req → done.next = some req

/-- The promise holds at every root disk. -/
def InOrder (x : Lift) : Prop :=
  ∀ root done, x.last root = some done → x.Elevator root done

/-- The lists are sorted by indexes, and only the request that was picked is awake
at a disk that has served one. -/
structure Steady (x : Lift) : Prop where
  queued : x.queues.Queued
  sorted : ∀ root, (x.queues.list root).Pairwise fun first second => first.key ≤ second.key
  small : ∀ root, ∀ req ∈ x.queues.list root, req.idx < 2 ^ 31
  handed : ∀ root done, x.last root = some done → ∀ req ∈ x.queues.list root,
    x.queues.blocked req.task = false → done.next = some req

variable {x y : Lift} {label : DiskQueues.Label}

theorem steady_of_initial (initial : runs.initial x) : x.Steady := by
  obtain ⟨idle, none⟩ := initial
  have empty (root : Nat) : x.queues.list root = [] := idle.lists root
  refine ⟨DiskQueues.queued_of_idle idle, fun root => ?_, fun root => ?_,
    fun root done isSome => ?_⟩
  · rw [empty]
    exact List.Pairwise.nil
  · rw [empty]
    exact nofun
  · rw [none] at isSome
    cases isSome

/-- A request that comes to a busy disk leaves the record as it is. -/
theorem last_of_record_request {dev buf count idx : Nat} {flags : Int} {type : Nat} {other : Nat}
    (isLast : x.record (.request pid dev buf count idx flags type) other = some done) :
    x.last other = some done ∧
      (other = x.queues.root dev → x.queues.list (x.queues.root dev) ≠ []) := by
  unfold record at isLast
  dsimp only at isLast
  by_cases isIdle : x.queues.list (x.queues.root dev) = []
  · rw [if_pos isIdle] at isLast
    by_cases isRoot : other = x.queues.root dev
    · rw [isRoot, Function.update_self] at isLast
      cases isLast
    · rw [Function.update_of_ne isRoot] at isLast
      exact ⟨isLast, fun same => absurd same isRoot⟩
  · rw [if_neg isIdle] at isLast
    exact ⟨isLast, fun _ => isIdle⟩

theorem record_finish (isServing : x.queues.call pid = .serving root req) :
    x.record (.finish pid) = Function.update x.last root
      (some ⟨req, (x.queues.devices root).up, x.queues.list root,
        ((x.queues.devices root).nextreq req).1⟩) := by
  simp only [record, isServing]
  rfl

namespace Steady

/-- The request inside `do_request` is the one that was picked. -/
theorem follows (steady : x.Steady) (isLast : x.last root = some done)
    (isServing : x.queues.call pid = .serving root req) : done.next = some req := by
  obtain ⟨itsTask, present⟩ := steady.queued.queued pid root req (.inr isServing)
  apply steady.handed root done isLast req present
  rw [itsTask]
  exact steady.queued.serves pid root req isServing

theorem request (steady : x.Steady) {dev buf count idx : Nat} {flags : Int} {type : Nat}
    (small : idx < 2 ^ 31) (isOutside : x.queues.call pid = .outside)
    (requested : x.queues.request pid dev buf count idx flags type = .ok y.queues)
    (recorded : y.last = x.record (.request pid dev buf count idx flags type)) : y.Steady := by
  have queued := steady.queued.request isOutside requested
  obtain ⟨req, _, isTask, isIdx, lists, _, _, blocked, _⟩ :=
    DiskQueues.request_spec requested
  have members (other : Nat) (item : BlockRequest) (present : item ∈ y.queues.list other) :
      (other = x.queues.root dev ∧ item = req) ∨ item ∈ x.queues.list other := by
    rw [lists] at present
    split at present
    · rename_i isRoot
      rcases List.mem_cons.mp ((req.perm_insertSort _).mem_iff.mp present) with same | before
      · exact .inl ⟨isRoot, same⟩
      · exact .inr (isRoot ▸ before)
    · exact .inr present
  refine ⟨queued, fun other => ?_, fun other item present => ?_, ?_⟩
  · rw [lists]
    split
    · rw [BlockRequest.insertSort_eq]
      exact pairwise_insertLast _ req (steady.sorted _)
    · exact steady.sorted other
  · rcases members other item present with ⟨_, rfl⟩ | before
    · rw [isIdx]
      exact small
    · exact steady.small other item before
  · intro other done isLast item present awake
    rw [recorded] at isLast
    obtain ⟨wasLast, busy⟩ := last_of_record_request isLast
    rcases members other item present with ⟨isRoot, rfl⟩ | before
    · -- The new request sleeps, as the list is not empty.
      rw [blocked, isTask, Function.update_self] at awake
      exact absurd (by simpa using awake) (busy isRoot)
    · rw [blocked, Function.update_of_ne (steady.queued.task_ne isOutside before)] at awake
      exact steady.handed other done wasLast item before awake

theorem start (steady : x.Steady) (isWaiting : x.queues.call pid = .waiting root req)
    (isAwake : x.queues.blocked pid = false) (started : x.queues.start pid root req = .ok y.queues)
    (recorded : y.last = x.last) : y.Steady := by
  have queued := steady.queued.start isWaiting isAwake started
  unfold DiskQueues.start at started
  split at started
  · simp only [pure_eq_ok, Except.ok.injEq] at started
    have lists (other : Nat) : y.queues.list other = x.queues.list other := by
      rw [← started]
      rfl
    have blocked : y.queues.blocked = x.queues.blocked := by
      rw [← started]
      rfl
    refine ⟨queued, fun other => ?_, fun other => ?_, fun other done isLast => ?_⟩
    · rw [lists]
      exact steady.sorted other
    · rw [lists]
      exact steady.small other
    · rw [recorded] at isLast
      rw [lists, blocked]
      exact steady.handed other done isLast
  · cases started

theorem finish (steady : x.Steady) (isServing : x.queues.call pid = .serving root req)
    (finished : y.queues = x.queues.finish pid root req)
    (recorded : y.last = x.record (.finish pid)) : y.Steady := by
  have queued : y.queues.Queued := by
    rw [finished]
    exact steady.queued.finish isServing
  obtain ⟨lists, _, _, blocked, _⟩ := DiskQueues.finish_spec x.queues pid root req
  rw [← finished] at lists blocked
  have isReq := (steady.queued.queued pid root req (.inr isServing)).2
  have lists_root : y.queues.list root = req.remove (x.queues.list root) := by
    rw [lists, if_pos rfl]
  have fewer (other : Nat) : (y.queues.list other).Sublist (x.queues.list other) := by
    rw [lists]
    split
    · rename_i isRoot
      rw [isRoot]
      exact List.eraseP_sublist
    · exact List.Sublist.refl _
  refine ⟨queued, fun other => (steady.sorted other).sublist (fewer other),
    fun other item present => steady.small other item ((fewer other).mem present), ?_⟩
  intro other done isLast item present awake
  have wasItem := (fewer other).mem present
  rw [recorded, record_finish isServing] at isLast
  by_cases isRoot : other = root
  · subst isRoot
    rw [Function.update_self] at isLast
    cases isLast
    have picked := steady.queued.nextreq_spec isReq
    rw [← lists_root] at picked
    cases isNext : ((x.queues.devices other).nextreq req).1 with
    | none =>
        rw [isNext] at picked
        rw [picked.1] at present
        cases present
    | some next =>
        rw [isNext] at picked
        -- Only one request of the list is awake afterwards.
        obtain ⟨active, _, _, unique⟩ := queued.awake other (List.ne_nil_of_mem present)
        have isActive := unique next picked.1 (by
          rw [blocked, isNext]
          exact Function.update_self ..)
        rw [isActive, unique item present awake]
  · rw [Function.update_of_ne isRoot] at isLast
    apply steady.handed other done isLast item wasItem
    rw [← awake, blocked]
    refine (steady.queued.wake_other (fun next isSome => ?_) isRoot wasItem).symm
    have picked := steady.queued.nextreq_spec isReq
    rw [isSome] at picked
    exact picked.2

end Steady

/-- A step ends a request, or leaves the directions and the record as they are. -/
theorem step_cases (steady : x.Steady) (taken : runs.step x label y) :
    y.Steady ∧
      ((∃ pid root req, label = .finish pid ∧ x.queues.call pid = .serving root req ∧
          y.queues = x.queues.finish pid root req ∧ y.last = x.record label) ∨
        (∀ root, (y.queues.devices root).up = (x.queues.devices root).up) ∧
          ∀ root done, y.last root = some done → x.last root = some done) := by
  obtain ⟨small, stepped, recorded⟩ := taken
  cases label with
  | request pid dev buf count idx flags type =>
      simp only [DiskQueues.next] at stepped
      split at stepped
      · rename_i isOutside
        obtain ⟨_, _, _, _, _, directions, _⟩ := DiskQueues.request_spec stepped
        refine ⟨steady.request small isOutside stepped recorded, .inr ⟨directions, ?_⟩⟩
        intro root done isLast
        rw [recorded] at isLast
        exact (last_of_record_request isLast).1
      · cases stepped
  | start pid =>
      simp only [DiskQueues.next] at stepped
      split at stepped
      · rename_i root req isWaiting
        split at stepped
        · cases stepped
        · rename_i notBlocked
          refine ⟨steady.start isWaiting (by simpa using notBlocked) stepped recorded,
            .inr ⟨fun root => ?_, fun root done isLast => ?_⟩⟩
          · unfold DiskQueues.start at stepped
            split at stepped
            · simp only [pure_eq_ok, Except.ok.injEq] at stepped
              rw [← stepped]
              rfl
            · cases stepped
          · rw [recorded] at isLast
            exact isLast
      · cases stepped
  | finish pid =>
      simp only [DiskQueues.next] at stepped
      split at stepped
      · rename_i root req isServing
        have finished : y.queues = x.queues.finish pid root req :=
          (Except.ok.inj stepped).symm
        exact ⟨steady.finish isServing finished recorded,
          .inl ⟨pid, root, req, rfl, isServing, finished, recorded⟩⟩
      · cases stepped

/-- The promise about a request that has ended earlier. -/
theorem Elevator.carry (elevator : x.Elevator root done)
    (direction : (y.queues.devices root).up = (x.queues.devices root).up) (steady : y.Steady)
    (isLast : y.last root = some done) : y.Elevator root done := by
  refine ⟨?_, ?_, elevator.alone, fun pid req => steady.follows isLast⟩
  · rw [direction]
    exact elevator.order
  · rw [direction]
    exact elevator.turn

/-- The promise about the request that ends is kept. -/
theorem elevator_finish (steady : x.Steady) (after : y.Steady)
    (isServing : x.queues.call pid = .serving root req)
    (finished : y.queues = x.queues.finish pid root req)
    (recorded : y.last = x.record (.finish pid)) (isDone : y.last root = some done) :
    y.Elevator root done := by
  have isReq := (steady.queued.queued pid root req (.inr isServing)).2
  have sorted : (x.queues.list root).Pairwise fun first second => first.idx ≤ second.idx :=
    (steady.sorted root).imp_of_mem fun {first second} isFirst isSecond keys => by
      rw [BlockRequest.key_eq (steady.small root first isFirst),
        BlockRequest.key_eq (steady.small root second isSecond)] at keys
      exact Int.ofNat_le.mp keys
  obtain ⟨front, rear, split, notFront, notRear⟩ :=
    BlockRequest.split_of_mem isReq (steady.queued.serials root)
  obtain ⟨order, turn⟩ := BlockDevice.orders_of_sorted sorted split notFront notRear
  obtain ⟨_, directions, _⟩ := DiskQueues.finish_spec x.queues pid root req
  have direction : (y.queues.devices root).up = ((x.queues.devices root).nextreq req).2 := by
    rw [finished, directions, if_pos rfl]
  rw [recorded, record_finish isServing, Function.update_self] at isDone
  have isLast : y.last root = some done := by
    rw [recorded, record_finish isServing, Function.update_self, isDone]
  cases isDone
  refine ⟨?_, ?_, ?_, fun pid req => after.follows isLast⟩
  · rw [direction]
    exact order
  · rw [direction]
    exact turn
  · have picked := steady.queued.nextreq_spec isReq
    dsimp only
    cases isNext : ((x.queues.devices root).nextreq req).1 with
    | none =>
        rw [isNext] at picked
        exact ⟨fun _ => picked.2, fun _ => rfl⟩
    | some next =>
        rw [isNext] at picked
        refine ⟨nofun, fun single => ?_⟩
        have nothing : req.remove (x.queues.list root) = [] := by
          rw [single]
          exact @BlockRequest.remove_split req [] [] nofun
        rw [nothing] at picked
        cases picked.1

/-- The promise about the other disks is kept. -/
theorem InOrder.finish_other (inOrder : x.InOrder) (after : y.Steady)
    (isServing : x.queues.call pid = .serving root req)
    (finished : y.queues = x.queues.finish pid root req)
    (recorded : y.last = x.record (.finish pid)) {other : Nat} (different : other ≠ root)
    (isLast : y.last other = some done) : y.Elevator other done := by
  obtain ⟨_, directions, _⟩ := DiskQueues.finish_spec x.queues pid root req
  have wasLast : x.last other = some done := by
    rw [← isLast, recorded, record_finish isServing, Function.update_of_ne different]
  refine (inOrder other done wasLast).carry ?_ after isLast
  rw [finished, directions, if_neg different]

/-- After a step everything is in order. -/
theorem inOrder_step (steady : x.Steady) (inOrder : x.InOrder)
    (taken : runs.step x label y) : y.InOrder := by
  obtain ⟨after, ⟨pid, root, req, rfl, isServing, finished, recorded⟩ |
    ⟨directions, records⟩⟩ := step_cases steady taken
  · intro other done isLast
    by_cases isRoot : other = root
    · subst isRoot
      exact elevator_finish steady after isServing finished recorded isLast
    · exact inOrder.finish_other after isServing finished recorded isRoot isLast
  · intro root done isLast
    exact (inOrder root done (records root done isLast)).carry (directions root) after isLast

/-- Every busy disk is served in the order of the elevator. -/
theorem inOrder_of_reachable (reached : runs.Reachable x) : x.InOrder := by
  suffices both : x.Steady ∧ x.InOrder from both.2
  refine reached.invariant (fun x => x.Steady ∧ x.InOrder) (fun x initial => ?_) ?_
  · refine ⟨steady_of_initial initial, fun root done isLast => ?_⟩
    rw [initial.2] at isLast
    cases isLast
  · rintro before label after ⟨steady, inOrder⟩ _ taken
    exact ⟨(step_cases steady taken).1, inOrder_step steady inOrder taken⟩

instance : DecidablePred Addresses
  | .request _ _ _ _ idx _ _ => inferInstanceAs (Decidable (idx < 2 ^ 31))
  | .start _ => isTrue trivial
  | .finish _ => isTrue trivial

/-- A step as a function. -/
def next (x : Lift) (label : DiskQueues.Label) : Except Fault Lift := do
  bounded (Addresses label)
  let queues ← x.queues.next label
  return ⟨queues, x.record label⟩

theorem step_of_next (stepped : x.next label = .ok y) : runs.step x label y := by
  unfold next at stepped
  simp only [bind_eq_ok, bounded_eq_ok, pure_eq_ok] at stepped
  obtain ⟨_, small, queues, taken, result⟩ := stepped
  cases result
  exact ⟨small, taken, rfl⟩

/-- A disk with two partitions, before any request. -/
def idle : Lift :=
  ⟨DiskQueues.disks, fun _ => none⟩

theorem idle_initial : runs.initial idle :=
  ⟨DiskQueues.disks_idle, fun _ => rfl⟩

/-- While the disk is busy with sector 4, requests for the sectors 8, 6 and 2 come.  It serves
them going up, and turns in front of the last one. -/
def turnsDown (x : Lift) : Bool :=
  !(x.queues.devices 1).up && (x.last 1).any fun done =>
    done.req.idx = 8 ∧ done.up ∧ (done.next.map (·.idx)) = some 2

theorem inOrder_of_reachable_turnsDown : ∃ x, runs.Reachable x ∧ x.turnsDown ∧ x.InOrder := by
  obtain ⟨final, reached, turned⟩ := System.ReachableWithin.extend_run runs (fun _ _ => True) next
    (fun _ _ _ taken => ⟨trivial, step_of_next taken⟩)
    [.request 2 2 0 2 4 0 0, .start 2, .request 3 3 0 2 8 0 1, .request 4 2 0 2 6 0 0,
      .finish 2, .start 4, .request 2 3 0 2 2 0 0, .finish 4, .start 3, .finish 3]
    turnsDown (.initial idle_initial) (by decide +kernel)
  exact ⟨final, reached, turned, inOrder_of_reachable reached⟩

end Lift
end LightOS
