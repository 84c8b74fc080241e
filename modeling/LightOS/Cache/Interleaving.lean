import LightOS.Foundation.Transition
import LightOS.Cache.Layout
import Mathlib.Data.Fintype.Basic

/-!
# Interleaved use of the buffer cache

Any number of tasks call `getblk`, `bread`, `bwrite` and `brelse`, and store into
the buffers they read.  A task gives up the processor inside `device_request`,
`mutex_lock` and the wait of `get_free_cache`; between two such points, and between
two calls, its code runs without interruption and is one step.  A transfer moves
one sector at a time, and any pending transfer may be the next to advance.
-/

namespace LightOS
namespace Cache

/-- Where a task stands with respect to `cache.c`. -/
inductive Pc
  /-- Outside the cache. -/
  | client
  /-- In the loop of `get_free_cache`, called for a block by `getblk`, or by
  `bread` when `reading`.  `ready` once `brelse` has woken the task. -/
  | freeWait (dev : Dev) (block : BlockNo) (reading ready : Bool)
  /-- In `mutex_lock` of a buffer, called by `bread`. -/
  | lockWait (id : Nat) (ready : Bool)
  /-- In the read request of `bread`, with the next sector to move. -/
  | readIo (id : Nat) (dev : Dev) (block : BlockNo) (sector : Nat)
  /-- In the write request of `bwrite`, called by `brelse` when `releasing`. -/
  | writeIo (id : Nat) (dev : Dev) (block : BlockNo) (sector : Nat)
      (releasing : Bool)
  deriving DecidableEq

/-- The cache together with its tasks.  `held` lists the references of each
task, one entry for each `getblk` or `bread` that returned. -/
structure State (taskCount : Nat) where
  cache : PageCache
  pc : Fin taskCount → Pc
  held : Fin taskCount → List Nat
  waitList : List (Fin taskCount)

/-- Steps of a task. -/
inductive Label (taskCount : Nat)
  | getblk (task : Fin taskCount) (dev : Dev) (block : BlockNo)
  | bread (task : Fin taskCount) (dev : Dev) (block : BlockNo)
  /-- A woken task goes on in the loop it was sleeping in. -/
  | resume (task : Fin taskCount)
  /-- The device moves the next sector of the task's request. -/
  | transfer (task : Fin taskCount)
  /-- The task's request is complete and `device_request` returns. -/
  | finish (task : Fin taskCount)
  /-- The task changes the bytes of a block and sets `dirty`. -/
  | store (task : Fin taskCount) (id : Nat) (data : Data)
  | bwrite (task : Fin taskCount) (id : Nat)
  | brelse (task : Fin taskCount) (id : Nat)

namespace State

variable {taskCount : Nat}

/-- Set the position of one task. -/
def setPc (state : State taskCount) (task : Fin taskCount) (pc : Pc) :
    State taskCount :=
  { state with pc := Function.update state.pc task pc }

/-- Replace the cache. -/
def setCache (state : State taskCount) (cache : PageCache) : State taskCount :=
  { state with cache := cache }

/-- A call returns a referenced buffer to the task. -/
def giveBuffer (state : State taskCount) (task : Fin taskCount) (id : Nat) :
    State taskCount :=
  { state.setPc task .client with
    held := Function.update state.held task (id :: state.held task) }

/-- Mark a sleeping task as woken. -/
def wake (state : State taskCount) (task : Fin taskCount) : State taskCount :=
  match state.pc task with
  | .freeWait dev block reading _ =>
      state.setPc task (.freeWait dev block reading true)
  | .lockWait id _ => state.setPc task (.lockWait id true)
  | _ => state

/-- `mutex_lock` on the lock of a buffer that is taken: the task joins the
waiters. -/
def sleepOnLock (state : State taskCount) (task : Fin taskCount) (id : Nat) :
    State taskCount :=
  (state.setCache (state.cache.modify id fun buffer =>
    { buffer with lockWaiters := buffer.lockWaiters ++ [task.val] })).setPc
      task (.lockWait id false)

/-- `mutex_unlock`: free the lock and wake the first waiter. -/
def unlock (state : State taskCount) (id : Nat) : State taskCount :=
  let freed := state.setCache (state.cache.modify id fun buffer =>
    { buffer with
      lockValue := false
      lockWaiters := buffer.lockWaiters.tail })
  match (state.cache.buffer id).lockWaiters.head? with
  | none => freed
  | some waiter =>
      if bound : waiter < taskCount then freed.wake ⟨waiter, bound⟩ else freed

/-- `bread` from its call of `mutex_lock` on. -/
def lockAndRead (state : State taskCount) (task : Fin taskCount) (id : Nat) :
    State taskCount :=
  let buffer := state.cache.buffer id
  if buffer.lockValue then
    state.sleepOnLock task id
  else
    let locked := state.setCache (state.cache.modify id fun buffer =>
      { buffer with lockValue := true })
    if buffer.valid then
      (locked.unlock id).giveBuffer task id
    else
      locked.setPc task (.readIo id buffer.dev buffer.block 0)

/-- `bread` after `getblk` has returned. -/
def breadTail (state : State taskCount) (task : Fin taskCount) (id : Nat) :
    State taskCount :=
  if (state.cache.buffer id).valid then
    state.giveBuffer task id
  else
    state.lockAndRead task id

/-- Go on after `getblk` has ended or gone to sleep, for a caller of `getblk`
itself or, when `reading`, of `bread`. -/
def afterGetblk
    (state : State taskCount) (task : Fin taskCount)
    (dev : Dev) (block : BlockNo) (reading : Bool) :
    Acquired → State taskCount
  | .asleep =>
      { state.setPc task (.freeWait dev block reading false) with
        waitList := state.waitList ++ [task] }
  | .buffer id cache =>
      if reading then
        (state.setCache cache).breadTail task id
      else
        (state.setCache cache).giveBuffer task id

/-- The end of `brelse`: wake one task that waits for a buffer. -/
def wakeWaiter (state : State taskCount) : State taskCount :=
  match state.waitList.getLast? with
  | none => state
  | some waiter =>
      { state with waitList := state.waitList.dropLast }.wake waiter

/-- The task returns to its own code. -/
def toClient (state : State taskCount) (task : Fin taskCount) :
    State taskCount :=
  state.setPc task .client

/-- Move one sector of a transfer. -/
def transferSector
    (state : State taskCount) (task : Fin taskCount) :
    Except Fault (State taskCount) :=
  match state.pc task with
  | .readIo id dev block sector =>
      if bound : sector < blockSecs then
        let offset : Fin blockSecs := ⟨sector, bound⟩
        let content := state.cache.disk dev (sectorIndex block offset)
        .ok ((state.setCache (state.cache.modify id fun buffer =>
          { buffer with
            data := Function.update buffer.data offset content })).setPc
              task (.readIo id dev block (sector + 1)))
      else
        .error .misuse
  | .writeIo id dev block sector releasing =>
      if bound : sector < blockSecs then
        let offset : Fin blockSecs := ⟨sector, bound⟩
        let content := (state.cache.buffer id).data offset
        .ok ((state.setCache { state.cache with
          disk := state.cache.disk.writeSector dev
            (sectorIndex block offset) content }).setPc
              task (.writeIo id dev block (sector + 1) releasing))
      else
        .error .misuse
  | _ => .error .misuse

/-- The rest of `bread` or `bwrite` after `device_request` has returned. -/
def finishTransfer
    (state : State taskCount) (task : Fin taskCount) :
    Except Fault (State taskCount) :=
  let done (id : Nat) := state.setCache (state.cache.modify id fun buffer =>
    { buffer with dirty := false, valid := true })
  match state.pc task with
  | .readIo id _ _ sector =>
      if sector = blockSecs then
        .ok (((done id).unlock id).giveBuffer task id)
      else
        .error .misuse
  | .writeIo id _ _ sector releasing =>
      if sector = blockSecs then
        .ok (if releasing then
          (done id).wakeWaiter.toClient task
        else
          (done id).toClient task)
      else
        .error .misuse
  | _ => .error .misuse

/-- A woken task goes on: in `get_free_cache` it tries again for a free buffer,
in `mutex_lock` for the lock. -/
def resume
    (poolSize : Nat) (state : State taskCount) (task : Fin taskCount) :
    Except Fault (State taskCount) :=
  match state.pc task with
  | .freeWait dev block reading true => do
      let acquired ← acquireFree poolSize state.cache dev block
      return state.afterGetblk task dev block reading acquired
  | .lockWait id true => .ok (state.lockAndRead task id)
  | _ => .error .misuse

/-- One step.  A task that holds no reference to a buffer may not use it, and
stores only into a buffer whose content it has read. -/
def step (poolSize : Nat) (state : State taskCount) :
    Label taskCount → Except Fault (State taskCount)
  | .getblk task dev block =>
      if state.pc task = .client then do
        let acquired ← getblk poolSize state.cache dev block
        return state.afterGetblk task dev block false acquired
      else
        .error .misuse
  | .bread task dev block =>
      if state.pc task = .client then do
        let acquired ← getblk poolSize state.cache dev block
        return state.afterGetblk task dev block true acquired
      else
        .error .misuse
  | .resume task => state.resume poolSize task
  | .transfer task => state.transferSector task
  | .finish task => state.finishTransfer task
  | .store task id data =>
      if state.pc task = .client ∧ id ∈ state.held task ∧
          (state.cache.buffer id).valid then
        .ok (state.setCache (state.cache.modify id fun buffer =>
          { buffer with data := data, dirty := true }))
      else
        .error .misuse
  | .bwrite task id =>
      if state.pc task = .client ∧ id ∈ state.held task then
        let buffer := state.cache.buffer id
        .ok (if buffer.dirty then
          state.setPc task (.writeIo id buffer.dev buffer.block 0 false)
        else
          state)
      else
        .error .misuse
  | .brelse task id =>
      if state.pc task = .client ∧ id ∈ state.held task then do
        let (cache, last) ← release state.cache id
        let released : State taskCount :=
          { state.setCache cache with
            held := Function.update state.held task
              ((state.held task).erase id) }
        let buffer := cache.buffer id
        return (if last = false then
          released
        else if buffer.dirty then
          released.setPc task (.writeIo id buffer.dev buffer.block 0 true)
        else
          released.wakeWaiter)
      else
        .error .misuse

end State

/-- The cache as `page_cache_init` leaves it: nothing carved, all lists empty.  The list nodes
and the padding of the locks, which `get_new_cache` does not store, are 0 in a carved buffer:
this part of the pool's memory is 0 at boot. -/
structure Booted {taskCount : Nat} (state : State taskCount) : Prop where
  cacheCount : state.cache.cacheCount = 0
  freeList : state.cache.freeList = []
  hashTable : ∀ index, state.cache.hashTable index = []
  pc : ∀ task, state.pc task = .client
  held : ∀ task, state.held task = []
  waitList : state.waitList = []

/-- The interleavings of a number of tasks over a pool of some size.  Every
content of the devices and of the data in the pool's memory is possible at boot. -/
def interleavings (taskCount poolSize : Nat) :
    System (State taskCount) (Label taskCount) where
  initial := Booted
  step := fun before label after => before.step poolSize label = .ok after

end Cache
end LightOS
