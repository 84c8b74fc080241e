import LightOS.Foundation.Transition
import LightOS.Foundation.Words
import LightOS.Kernel.Fault
import Mathlib.Data.List.Basic
import Mathlib.Logic.Function.Basic

/-!
# Requests to block devices

`device_request` queues a request in the list of the root disk of a device, sorted by
sector.  A request that comes to an empty list is carried out at once; any other one
blocks its task until the task in front of it wakes it.  The neighbour to wake is chosen
while the finished request is still in the list.
-/

namespace LightOS

/-- The structure `request_t`.  The serial number tells requests apart. -/
structure BlockRequest where
  serial : Nat
  dev : Nat
  type : Nat
  idx : Nat
  count : Nat
  flags : Int
  buf : Nat
  task : Nat
  deriving DecidableEq

/-- The structure `device_t`, as far as requests are concerned. -/
structure BlockDevice where
  type : Nat
  parent : Nat
  requestList : List BlockRequest
  /-- `direct` is `DIRECT_UP`. -/
  up : Bool

namespace BlockRequest

/-- The key of `list_insert_sort`, which compares signed integers. -/
def key (req : BlockRequest) : Int :=
  toSigned req.idx

/-- `list_insert_sort`: the place is in front of the first greater key. -/
def insertSort (req : BlockRequest) : List BlockRequest → List BlockRequest
  | [] => [req]
  | head :: rest =>
      if req.key < head.key then req :: head :: rest else head :: insertSort req rest

/-- `list_remove`. -/
def remove (req : BlockRequest) (list : List BlockRequest) : List BlockRequest :=
  list.eraseP fun other => other.serial = req.serial

/-- `node->next`, unless that is the tail. -/
def next (req : BlockRequest) : List BlockRequest → Option BlockRequest
  | [] => none
  | head :: rest => if head.serial = req.serial then rest.head? else req.next rest

/-- `node->prev`, unless that is the head. -/
def prev (req : BlockRequest) (list : List BlockRequest) : Option BlockRequest :=
  req.next list.reverse

end BlockRequest

/-- `request_nextreq`: the next request and the direction. -/
def BlockDevice.nextreq (device : BlockDevice) (req : BlockRequest) :
    Option BlockRequest × Bool :=
  let next := req.next device.requestList
  let prev := req.prev device.requestList
  let up := if device.up then next.isSome else prev.isNone
  (if up then next else prev, up)

/-- What a task is doing in `device_request`, with the root disk of its request. -/
inductive BlockCall
  | outside
  /-- The request is in the list, and `do_request` has not begun. -/
  | waiting (root : Nat) (req : BlockRequest)
  /-- The task is inside `do_request`. -/
  | serving (root : Nat) (req : BlockRequest)

/-- The devices and the tasks that use them. -/
structure DiskQueues where
  /-- `device_list`. -/
  devices : Nat → BlockDevice
  call : Nat → BlockCall
  /-- The tasks that `device_request` has blocked. -/
  blocked : Nat → Bool
  /-- The serial number of the next request. -/
  fresh : Nat
  /-- The serial numbers of the requests for which `do_request` has begun. -/
  executed : List Nat
  /-- The serial numbers of the requests whose call has returned. -/
  returned : List Nat

namespace DiskQueues

/-- `DEVICE_NR`. -/
abbrev deviceNr : Nat := 64

/-- `DEV_BLOCK`. -/
abbrev devBlock : Nat := 2

/-- Replace a device. -/
def setDevice (s : DiskQueues) (dev : Nat) (device : BlockDevice) : DiskQueues :=
  { s with devices := Function.update s.devices dev device }

/-- A task goes on with another call. -/
def setCall (s : DiskQueues) (pid : Nat) (call : BlockCall) : DiskQueues :=
  { s with call := Function.update s.call pid call }

/-- A task blocks or is woken. -/
def setBlocked (s : DiskQueues) (pid : Nat) (blocked : Bool) : DiskQueues :=
  { s with blocked := Function.update s.blocked pid blocked }

/-- `device_get`. -/
def deviceGet (s : DiskQueues) (dev : Nat) : Except Fault BlockDevice := do
  check (dev < deviceNr)
  check ((s.devices dev).type ≠ 0)
  return s.devices dev

/-- The root disk of a device. -/
def root (s : DiskQueues) (dev : Nat) : Nat :=
  if (s.devices dev).parent ≠ 0 then (s.devices dev).parent else dev

/-- What happens next. -/
inductive Label
  /-- A task calls `device_request`. -/
  | request (pid dev buf count idx : Nat) (flags : Int) (type : Nat)
  /-- A task that is not blocked begins with `do_request`. -/
  | start (pid : Nat)
  /-- `do_request` returns, and the task does the rest of its call. -/
  | finish (pid : Nat)

/-- `device_request` up to `do_request`.  The assertion about the type of the device
assigns the type. -/
def request (s : DiskQueues) (pid dev buf count idx : Nat) (flags : Int) (type : Nat) :
    Except Fault DiskQueues := do
  let device ← s.deviceGet dev
  let s := s.setDevice dev { device with type := devBlock }
  let device ← s.deviceGet (s.root dev)
  let req : BlockRequest := {
    serial := s.fresh
    dev := dev
    type := type
    idx := idx
    count := count
    flags := flags
    buf := buf
    task := pid }
  let root := s.root dev
  let s := s.setDevice root { device with requestList := req.insertSort device.requestList }
  return ({ s with fresh := s.fresh + 1 }.setCall pid (.waiting root req)).setBlocked pid
    (!device.requestList.isEmpty)

/-- The beginning of `do_request`. -/
def start (s : DiskQueues) (pid root : Nat) (req : BlockRequest) : Except Fault DiskQueues :=
  if req.type = 0 ∨ req.type = 1 then
    return { s with executed := req.serial :: s.executed }.setCall pid (.serving root req)
  else
    throw .panic

/-- `device_request` after `do_request`. -/
def finish (s : DiskQueues) (pid root : Nat) (req : BlockRequest) : DiskQueues :=
  let device := s.devices root
  let (nextreq, up) := device.nextreq req
  let s := s.setDevice root
    { device with requestList := req.remove device.requestList, up := up }
  let s := { s with returned := req.serial :: s.returned }.setCall pid .outside
  match nextreq with
  | some nextreq => s.setBlocked nextreq.task false
  | none => s

/-- One step of a task. -/
def next (s : DiskQueues) : Label → Except Fault DiskQueues
  | .request pid dev buf count idx flags type =>
      match s.call pid with
      | .outside => s.request pid dev buf count idx flags type
      | _ => .error .misuse
  | .start pid =>
      match s.call pid with
      | .waiting root req =>
          if s.blocked pid then .error .blocked else s.start pid root req
      | _ => .error .misuse
  | .finish pid =>
      match s.call pid with
      | .serving root req => .ok (s.finish pid root req)
      | _ => .error .misuse

/-- No device has a request. -/
structure Idle (s : DiskQueues) : Prop where
  lists : ∀ dev, (s.devices dev).requestList = []
  calls : ∀ pid, s.call pid = .outside
  blocked : ∀ pid, s.blocked pid = false
  executed : s.executed = []
  returned : s.returned = []

/-- The runs from any devices without requests. -/
def runs : System DiskQueues Label where
  initial := Idle
  step before label after := before.next label = .ok after

end DiskQueues

namespace BlockRequest

variable {req other : BlockRequest} {list before after : List BlockRequest}

/-- An insertion adds the request somewhere. -/
theorem perm_insertSort (req : BlockRequest) (list : List BlockRequest) :
    (req.insertSort list).Perm (req :: list) := by
  induction list with
  | nil => exact List.Perm.refl _
  | cons head rest inductionHypothesis =>
      rw [insertSort]
      split
      · exact List.Perm.refl _
      · exact (inductionHypothesis.cons head).trans (List.Perm.swap req head rest)

/-- A request whose serial number occurs nowhere else stands between the requests in
front of it and those after it. -/
theorem split_of_mem (present : req ∈ list) (once : (list.map serial).Nodup) :
    ∃ before after, list = before ++ req :: after ∧
      (∀ other ∈ before, other.serial ≠ req.serial) ∧
      ∀ other ∈ after, other.serial ≠ req.serial := by
  obtain ⟨before, after, rfl⟩ := List.append_of_mem present
  rw [List.map_append, List.map_cons] at once
  have apart := List.perm_middle.nodup_iff.mp once
  have fresh := (List.nodup_cons.mp apart).1
  rw [← List.map_append] at fresh
  refine ⟨before, after, rfl, fun other isBefore same => ?_, fun other isAfter same => ?_⟩
  · exact fresh (List.mem_map.mpr ⟨other, List.mem_append_left _ isBefore, same⟩)
  · exact fresh (List.mem_map.mpr ⟨other, List.mem_append_right _ isAfter, same⟩)

theorem next_split (notBefore : ∀ other ∈ before, other.serial ≠ req.serial) :
    req.next (before ++ req :: after) = after.head? := by
  induction before with
  | nil => simp [next]
  | cons head rest inductionHypothesis =>
      rw [List.cons_append, next, if_neg (notBefore head List.mem_cons_self)]
      exact inductionHypothesis fun other present =>
        notBefore other (List.mem_cons_of_mem _ present)

theorem prev_split (notAfter : ∀ other ∈ after, other.serial ≠ req.serial) :
    req.prev (before ++ req :: after) = before.reverse.head? := by
  unfold prev
  rw [List.reverse_append, List.reverse_cons, List.append_assoc, List.singleton_append]
  apply next_split
  intro other present
  exact notAfter other (List.mem_reverse.mp present)

theorem remove_split (notBefore : ∀ other ∈ before, other.serial ≠ req.serial) :
    req.remove (before ++ req :: after) = before ++ after := by
  unfold remove
  rw [List.eraseP_append_right _ (by simpa using notBefore)]
  simp

end BlockRequest

/-- The request to wake is another one of the list, and there is none exactly when the
list holds no other request. -/
theorem BlockDevice.nextreq_split {device : BlockDevice} {req : BlockRequest}
    {before after : List BlockRequest} (split : device.requestList = before ++ req :: after)
    (notBefore : ∀ other ∈ before, other.serial ≠ req.serial)
    (notAfter : ∀ other ∈ after, other.serial ≠ req.serial) :
    match (device.nextreq req).1 with
    | some nextreq => nextreq ∈ before ++ after
    | none => before ++ after = [] := by
  have isNext : req.next (before ++ req :: after) = after.head? :=
    BlockRequest.next_split notBefore
  have isPrev : req.prev (before ++ req :: after) = before.reverse.head? :=
    BlockRequest.prev_split notAfter
  unfold nextreq
  rw [split, isNext, isPrev]
  rcases List.eq_nil_or_concat before with rfl | ⟨front, last, rfl⟩
  · cases after with
    | nil => cases device.up <;> simp
    | cons first rest => cases device.up <;> simp
  · cases after with
    | nil => cases device.up <;> simp
    | cons first rest => cases device.up <;> simp

end LightOS
