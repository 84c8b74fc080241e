import LightOS.Cache.Interleaving

/-!
# What one step does to the cache

The safety properties of the cache do not depend on its locks, on the order of
its sleepers or on which of them have been woken.  Erasing these leaves a view of
the state, and every step changes the view in one of a few explicit ways.  The
inversion lemma of this module lists them once; the invariants are proved from
the list.
-/

namespace LightOS
namespace Cache

variable {taskCount poolSize id : Nat} {state before after : State taskCount}
  {label : Label taskCount} {dev : Dev} {block : BlockNo}

/-- Erase the lock of a buffer. -/
def Buffer.forget (buffer : Buffer) : Buffer :=
  { buffer with lockValue := false, lockWaiters := [] }

/-- Erase all locks of the pool. -/
def PageCache.forget (cache : PageCache) : PageCache :=
  { cache with buffer := fun id => (cache.buffer id).forget }

/-- Erase whether a sleeping task has been woken. -/
def Pc.forget : Pc → Pc
  | .freeWait dev block reading _ => .freeWait dev block reading false
  | .lockWait id _ => .lockWait id false
  | pc => pc

namespace PageCache

@[simp] theorem forget_modify
    (cache : PageCache) (id : Nat) (change : Buffer → Buffer) :
    (cache.modify id change).forget =
      cache.forget.modify id fun _ => (change (cache.buffer id)).forget := by
  unfold forget modify
  congr 1
  funext other
  by_cases same : other = id
  · subst same
    simp
  · simp [same]

/-- A change that only touches the lock is erased. -/
theorem forget_modify_lock
    (cache : PageCache) (id : Nat) (change : Buffer → Buffer)
    (onlyLock : (change (cache.buffer id)).forget = (cache.buffer id).forget) :
    (cache.modify id change).forget = cache.forget := by
  rw [forget_modify, onlyLock]
  unfold forget modify
  congr 1
  exact Function.update_eq_self id _

@[simp] theorem forget_setDisk (cache : PageCache) (disk : Disk) :
    ({ cache with disk := disk } : PageCache).forget =
      { cache.forget with disk := disk } := rfl

theorem forget_retain (cache : PageCache) (id : Nat) :
    (retain cache id).forget = retain cache.forget id := by
  rw [retain, forget_modify]
  rfl

theorem forget_carve (cache : PageCache) (dev : Dev) (block : BlockNo) :
    (carve cache dev block).forget = carve cache.forget dev block := by
  unfold forget carve
  congr 1
  funext other
  by_cases same : other = cache.cacheCount
  · subst same
    simp [Buffer.forget]
  · simp [same]

theorem forget_recycle
    (cache : PageCache) (id : Nat) (dev : Dev) (block : BlockNo) :
    (recycle cache id dev block).forget =
      recycle cache.forget id dev block := by
  unfold forget recycle
  congr 1
  funext other
  by_cases same : other = id
  · subst same
    simp [Buffer.forget]
  · simp [same]

end PageCache

theorem Layout.forget {cache : PageCache} (layout : Layout cache) :
    Layout cache.forget :=
  ⟨layout.chainNodup, layout.chained, layout.freeNodup, layout.freeCarved⟩

theorem Layout.of_forget {cache : PageCache} (layout : Layout cache.forget) :
    Layout cache :=
  ⟨layout.chainNodup, layout.chained, layout.freeNodup, layout.freeCarved⟩

namespace State

/-- The part of the state that the invariants speak about. -/
def view (state : State taskCount) : State taskCount where
  cache := state.cache.forget
  pc := fun task => (state.pc task).forget
  held := state.held
  waitList := []

theorem setPc_pc_self (state : State taskCount) (task : Fin taskCount) (pc : Pc) :
    (state.setPc task pc).pc task = pc := by
  simp [setPc]

theorem view_setPc
    (state : State taskCount) (task : Fin taskCount) (pc : Pc) :
    (state.setPc task pc).view = state.view.setPc task pc.forget := by
  unfold view setPc
  congr 1
  funext other
  by_cases same : other = task
  · subst same
    simp
  · simp [same]

theorem view_setCache (state : State taskCount) (cache : PageCache) :
    (state.setCache cache).view = state.view.setCache cache.forget := rfl

theorem view_giveBuffer
    (state : State taskCount) (task : Fin taskCount) (id : Nat) :
    (state.giveBuffer task id).view = state.view.giveBuffer task id := by
  have placed := state.view_setPc task .client
  unfold giveBuffer
  simp only [view, setPc, State.mk.injEq, true_and, and_true] at placed ⊢
  exact placed

@[simp] theorem view_wake (state : State taskCount) (task : Fin taskCount) :
    (state.wake task).view = state.view := by
  have unchanged (pc : Pc) (erased : pc.forget = (state.pc task).forget) :
      (state.setPc task pc).view = state.view := by
    rw [view_setPc, erased]
    unfold setPc
    simp only [view]
    congr 1
    exact Function.update_eq_self task _
  unfold wake
  split
  · rename_i dev block reading ready place
    exact unchanged _ (by rw [place]; rfl)
  · rename_i id ready place
    exact unchanged _ (by rw [place]; rfl)
  · rfl

@[simp] theorem wake_cache (state : State taskCount) (task : Fin taskCount) :
    (state.wake task).cache = state.cache := by
  unfold wake
  split <;> rfl

@[simp] theorem wake_held (state : State taskCount) (task : Fin taskCount) :
    (state.wake task).held = state.held := by
  unfold wake
  split <;> rfl

theorem unlock_cache (state : State taskCount) (id : Nat) :
    (state.unlock id).cache = state.cache.modify id fun buffer =>
      { buffer with
        lockValue := false
        lockWaiters := buffer.lockWaiters.tail } := by
  unfold unlock
  split
  · rfl
  · split
    · rw [wake_cache]
      rfl
    · rfl

@[simp] theorem unlock_held (state : State taskCount) (id : Nat) :
    (state.unlock id).held = state.held := by
  unfold unlock
  split
  · rfl
  · split
    · rw [wake_held]
      rfl
    · rfl

@[simp] theorem view_unlock (state : State taskCount) (id : Nat) :
    (state.unlock id).view = state.view := by
  have freed : (state.setCache (state.cache.modify id fun buffer =>
      { buffer with
        lockValue := false
        lockWaiters := buffer.lockWaiters.tail })).view = state.view := by
    rw [view_setCache, PageCache.forget_modify_lock _ _ _ rfl]
    rfl
  unfold unlock
  split
  · exact freed
  · split
    · rw [view_wake, freed]
    · exact freed

@[simp] theorem view_wakeWaiter (state : State taskCount) :
    state.wakeWaiter.view = state.view := by
  unfold wakeWaiter
  split
  · rfl
  · rw [view_wake]
    rfl

/-- The ways in which `bread` continues with a referenced buffer: it returns, it
sleeps on the lock, or it starts to read a buffer that is not valid. -/
inductive Served (state : State taskCount) (task : Fin taskCount) (id : Nat) :
    State taskCount → Prop
  | given : Served state task id (state.giveBuffer task id)
  | sleeping : Served state task id (state.setPc task (.lockWait id false))
  | reading :
      (state.cache.buffer id).valid = false →
      Served state task id (state.setPc task
        (.readIo id (state.cache.buffer id).dev
          (state.cache.buffer id).block 0))

theorem lockAndRead_served
    (state : State taskCount) (task : Fin taskCount) (id : Nat) :
    Served state.view task id (state.lockAndRead task id).view := by
  have onlyLock (change : Buffer → Buffer)
      (erased : (change (state.cache.buffer id)).forget =
        (state.cache.buffer id).forget) :
      (state.setCache (state.cache.modify id change)).view = state.view := by
    rw [view_setCache, PageCache.forget_modify_lock _ _ _ erased]
    rfl
  unfold lockAndRead
  dsimp only
  split
  · rw [sleepOnLock, view_setPc, onlyLock _ rfl]
    exact .sleeping
  · split
    · rw [view_giveBuffer, view_unlock, onlyLock _ rfl]
      exact .given
    · rename_i notValid
      rw [view_setPc, onlyLock _ rfl]
      exact .reading (by
        simpa [view, PageCache.forget, Buffer.forget] using notValid)

theorem breadTail_served
    (state : State taskCount) (task : Fin taskCount) (id : Nat) :
    Served state.view task id (state.breadTail task id).view := by
  unfold breadTail
  split
  · rw [view_giveBuffer]
    exact .given
  · exact state.lockAndRead_served task id

end State

/-- How `getblk` comes by a buffer for a block. -/
inductive Gain
    (poolSize : Nat) (cache : PageCache) (dev : Dev) (block : BlockNo) :
    Nat → PageCache → Prop
  | hit {id : Nat} :
      findInChain cache dev block = some id →
      Gain poolSize cache dev block id (retain cache id)
  | carved :
      CanCarve poolSize cache →
      Gain poolSize cache dev block cache.cacheCount (carve cache dev block)
  | recycled {id : Nat} :
      cache.freeList.getLast? = some id →
      ¬CanCarve poolSize cache →
      (cache.buffer id).count = 0 →
      (cache.buffer id).dirty = false →
      Gain poolSize cache dev block id (recycle cache id dev block)

/-- Where a task enters or re-enters `getblk`: at a call, which looks the block
up first, or after a sleep in `get_free_cache`, which does not. -/
inductive Enters {taskCount : Nat} (state : State taskCount) :
    Label taskCount → Fin taskCount → Dev → BlockNo → Prop
  | getblk {task : Fin taskCount} {dev : Dev} {block : BlockNo} :
      state.pc task = .client →
      Enters state (.getblk task dev block) task dev block
  | bread {task : Fin taskCount} {dev : Dev} {block : BlockNo} :
      state.pc task = .client →
      Enters state (.bread task dev block) task dev block
  | resume {task : Fin taskCount} {dev : Dev} {block : BlockNo}
      {reading : Bool} :
      state.pc task = .freeWait dev block reading false →
      Enters state (.resume task) task dev block

/-- A step that inserts a block without having looked it up just before. -/
def Label.isResume {taskCount : Nat} : Label taskCount → Prop
  | .resume _ => True
  | _ => False

/-- What a task knows about its block when it is given a buffer: nothing after a
sleep, else that the lookup failed, or that it found this very buffer. -/
inductive Looked {taskCount : Nat} (label : Label taskCount)
    (cache : PageCache) (dev : Dev) (block : BlockNo) :
    Nat → PageCache → Prop
  | woken {id : Nat} {after : PageCache} :
      label.isResume → Looked label cache dev block id after
  | missing {id : Nat} {after : PageCache} :
      findInChain cache dev block = none →
      Looked label cache dev block id after
  | found {id : Nat} :
      findInChain cache dev block = some id →
      Looked label cache dev block id (retain cache id)

/-- A task has dropped a reference, and the buffer is on the free list. -/
def State.published {taskCount : Nat}
    (state : State taskCount) (task : Fin taskCount) (id : Nat) :
    State taskCount :=
  { state.setCache { state.cache.modify id fun buffer =>
        { buffer with count := buffer.count - 1 } with
      freeList := id :: state.cache.freeList } with
    held := Function.update state.held task ((state.held task).erase id) }

theorem State.view_published (state : State taskCount) (task : Fin taskCount) (id : Nat) :
    (state.published task id).view = state.view.published task id := by
  have erased := state.cache.forget_modify id fun buffer =>
    { buffer with count := buffer.count - 1 }
  unfold PageCache.forget PageCache.modify at erased
  injection erased with _ buffers
  unfold published view setCache PageCache.forget PageCache.modify
  simp only [State.mk.injEq, PageCache.mk.injEq, and_true, true_and]
  exact buffers

/-- The effect of one step on the view of a state. -/
inductive Effect {taskCount : Nat} (poolSize : Nat) (state : State taskCount) :
    Label taskCount → State taskCount → Prop
  | asleep {label : Label taskCount} {task : Fin taskCount}
      {dev : Dev} {block : BlockNo} {reading : Bool} :
      Enters state label task dev block →
      Effect poolSize state label
        (state.setPc task (.freeWait dev block reading false))
  | acquired {label : Label taskCount} {task : Fin taskCount}
      {dev : Dev} {block : BlockNo} {id : Nat} {cache : PageCache}
      {after : State taskCount} :
      Enters state label task dev block →
      Gain poolSize state.cache dev block id cache →
      Looked label state.cache dev block id cache →
      State.Served (state.setCache cache) task id after →
      Effect poolSize state label after
  | relock {task : Fin taskCount} {id : Nat} {after : State taskCount} :
      state.pc task = .lockWait id false →
      State.Served state task id after →
      Effect poolSize state (.resume task) after
  | readSector {task : Fin taskCount} {id : Nat} {dev : Dev} {block : BlockNo}
      {offset : Fin blockSecs} :
      state.pc task = .readIo id dev block offset.val →
      Effect poolSize state (.transfer task)
        ((state.setCache (state.cache.modify id fun buffer =>
          { buffer with
            data := Function.update buffer.data offset
              (state.cache.disk dev (sectorIndex block offset)) })).setPc
                task (.readIo id dev block (offset.val + 1)))
  | writeSector {task : Fin taskCount} {id : Nat} {dev : Dev} {block : BlockNo}
      {offset : Fin blockSecs} {releasing : Bool} :
      state.pc task = .writeIo id dev block offset.val releasing →
      Effect poolSize state (.transfer task)
        ((state.setCache { state.cache with
          disk := state.cache.disk.writeSector dev (sectorIndex block offset)
            ((state.cache.buffer id).data offset) }).setPc
              task (.writeIo id dev block (offset.val + 1) releasing))
  | finishRead {task : Fin taskCount} {id : Nat} {dev : Dev} {block : BlockNo} :
      state.pc task = .readIo id dev block blockSecs →
      Effect poolSize state (.finish task)
        ((state.setCache (state.cache.modify id fun buffer =>
          { buffer with dirty := false, valid := true })).giveBuffer task id)
  | finishWrite {task : Fin taskCount} {id : Nat} {dev : Dev} {block : BlockNo}
      {releasing : Bool} :
      state.pc task = .writeIo id dev block blockSecs releasing →
      Effect poolSize state (.finish task)
        ((state.setCache (state.cache.modify id fun buffer =>
          { buffer with dirty := false, valid := true })).toClient task)
  | store {task : Fin taskCount} {id : Nat} {data : Data} :
      state.pc task = .client →
      id ∈ state.held task →
      (state.cache.buffer id).valid = true →
      Effect poolSize state (.store task id data)
        (state.setCache (state.cache.modify id fun buffer =>
          { buffer with data := data, dirty := true }))
  | writeClean {task : Fin taskCount} {id : Nat} :
      (state.cache.buffer id).dirty = false →
      Effect poolSize state (.bwrite task id) state
  | writeDirty {task : Fin taskCount} {id : Nat} :
      state.pc task = .client →
      id ∈ state.held task →
      (state.cache.buffer id).dirty = true →
      Effect poolSize state (.bwrite task id)
        (state.setPc task (.writeIo id (state.cache.buffer id).dev
          (state.cache.buffer id).block 0 false))
  | releaseShared {task : Fin taskCount} {id : Nat} :
      state.pc task = .client →
      id ∈ state.held task →
      1 < (state.cache.buffer id).count →
      Effect poolSize state (.brelse task id)
        { state.setCache (state.cache.modify id fun buffer =>
            { buffer with count := buffer.count - 1 }) with
          held := Function.update state.held task
            ((state.held task).erase id) }
  | releaseClean {task : Fin taskCount} {id : Nat} :
      state.pc task = .client →
      id ∈ state.held task →
      (state.cache.buffer id).count = 1 →
      (state.cache.buffer id).dirty = false →
      id ∉ state.cache.freeList →
      Effect poolSize state (.brelse task id) (state.published task id)
  | releaseDirty {task : Fin taskCount} {id : Nat} :
      state.pc task = .client →
      id ∈ state.held task →
      (state.cache.buffer id).count = 1 →
      (state.cache.buffer id).dirty = true →
      id ∉ state.cache.freeList →
      Effect poolSize state (.brelse task id)
        ((state.published task id).setPc task
          (.writeIo id (state.cache.buffer id).dev
            (state.cache.buffer id).block 0 true))

theorem acquireFree_gain {cache free : PageCache} (layout : Layout cache)
    (acquired : acquireFree poolSize cache dev block = .ok (.buffer id free)) :
    Gain poolSize cache.forget dev block id free.forget := by
  rcases acquireFree_cases layout acquired with
    ⟨asleep, _⟩ | ⟨room, carved⟩ |
      ⟨last, isLast, _, exhausted, unused, clean, recycled⟩
  · cases asleep
  · cases carved
    rw [PageCache.forget_carve]
    exact .carved room
  · cases recycled
    rw [PageCache.forget_recycle]
    exact .recycled isLast exhausted unused clean

namespace State

theorem view_pc_client {task : Fin taskCount} (place : state.pc task = .client) :
    state.view.pc task = .client := by
  simp [view, place, Pc.forget]

/-- The continuation of a call of `getblk` or `bread`, and of a wait inside it,
in terms of the view. -/
theorem afterGetblk_effect {task : Fin taskCount} (enters : Enters state.view label task dev block)
    (reading : Bool) (acquired : Acquired) (gain : ∀ id cache, acquired = .buffer id cache →
      Gain poolSize state.view.cache dev block id cache.forget ∧
        Looked label state.view.cache dev block id cache.forget) :
    Effect poolSize state.view label
      (state.afterGetblk task dev block reading acquired).view := by
  cases acquired with
  | asleep =>
      have slept : Effect poolSize state.view label
          (state.view.setPc task (.freeWait dev block reading false)) :=
        .asleep enters
      have placed := state.view_setPc task
        (.freeWait dev block reading false)
      rw [Pc.forget] at placed
      rw [← placed] at slept
      exact slept
  | buffer id cache =>
      obtain ⟨gained, looked⟩ := gain id cache rfl
      refine .acquired enters gained looked ?_
      rw [← view_setCache]
      unfold afterGetblk
      dsimp only
      split
      · exact breadTail_served _ task id
      · rw [view_giveBuffer]
        exact .given

/-- A call of `getblk` up to its end or its first sleep. -/
theorem getblk_gain (layout : Layout state.cache) (label : Label taskCount) {acquired : Acquired}
    (called : getblk poolSize state.cache dev block = .ok acquired) (id : Nat) (cache : PageCache)
    (isBuffer : acquired = .buffer id cache) :
    Gain poolSize state.view.cache dev block id cache.forget ∧
      Looked label state.view.cache dev block id cache.forget := by
  subst isBuffer
  cases found : findInChain state.cache dev block with
  | none =>
      rw [getblk_miss _ _ found] at called
      exact ⟨acquireFree_gain layout called, .missing found⟩
  | some hit =>
      rw [getblk_hit _ _ found] at called
      cases called
      rw [PageCache.forget_retain]
      exact ⟨.hit found, .found found⟩

end State

open State in
/-- Every step has one of the listed effects on the view. -/
theorem step_effect (layout : Layout before.cache)
    (taken : before.step poolSize label = .ok after) :
    Effect poolSize before.view label after.view := by
  cases label with
  | getblk task dev block =>
      simp only [State.step] at taken
      split at taken
      · rename_i place
        simp only [bind_eq_ok, pure_eq_ok, Except.ok.injEq] at taken
        obtain ⟨acquired, called, rfl⟩ := taken
        exact afterGetblk_effect (.getblk (view_pc_client place)) false
          acquired (getblk_gain layout _ called)
      · cases taken
  | bread task dev block =>
      simp only [State.step] at taken
      split at taken
      · rename_i place
        simp only [bind_eq_ok, pure_eq_ok, Except.ok.injEq] at taken
        obtain ⟨acquired, called, rfl⟩ := taken
        exact afterGetblk_effect (.bread (view_pc_client place)) true
          acquired (getblk_gain layout _ called)
      · cases taken
  | resume task =>
      simp only [State.step, State.resume] at taken
      split at taken
      · rename_i dev block reading place
        simp only [bind_eq_ok, pure_eq_ok, Except.ok.injEq] at taken
        obtain ⟨acquired, called, rfl⟩ := taken
        have placed : before.view.pc task = .freeWait dev block reading false := by
          simp [view, place, Pc.forget]
        refine afterGetblk_effect (.resume placed) reading acquired
          fun id cache isBuffer => ?_
        subst isBuffer
        exact ⟨acquireFree_gain layout called, .woken trivial⟩
      · rename_i id place
        cases taken
        refine .relock ?_ (before.lockAndRead_served task id)
        simp [view, place, Pc.forget]
      · cases taken
  | transfer task =>
      simp only [State.step, State.transferSector] at taken
      split at taken
      · rename_i id dev block sector place
        split at taken
        · rename_i bound
          cases taken
          rw [view_setPc, view_setCache, PageCache.forget_modify]
          have placed : before.view.pc task =
              .readIo id dev block (⟨sector, bound⟩ : Fin blockSecs).val := by
            simp [view, place, Pc.forget]
          exact .readSector placed
        · cases taken
      · rename_i id dev block sector releasing place
        split at taken
        · rename_i bound
          cases taken
          rw [view_setPc, view_setCache, PageCache.forget_setDisk]
          have placed : before.view.pc task = .writeIo id dev block
              (⟨sector, bound⟩ : Fin blockSecs).val releasing := by
            simp [view, place, Pc.forget]
          exact .writeSector placed
        · cases taken
      · cases taken
  | finish task =>
      simp only [State.step, State.finishTransfer] at taken
      split at taken
      · rename_i id dev block sector place
        split at taken
        · rename_i complete
          cases taken
          rw [view_giveBuffer, view_unlock, view_setCache,
            PageCache.forget_modify]
          have placed : before.view.pc task = .readIo id dev block blockSecs := by
            simp [view, place, Pc.forget, complete]
          exact .finishRead placed
        · cases taken
      · rename_i id dev block sector releasing place
        split at taken
        · rename_i complete
          have placed : before.view.pc task =
              .writeIo id dev block blockSecs releasing := by
            simp [view, place, Pc.forget, complete]
          cases taken
          split
          · rw [toClient, view_setPc, view_wakeWaiter, view_setCache,
              PageCache.forget_modify]
            exact .finishWrite placed
          · rw [toClient, view_setPc, view_setCache, PageCache.forget_modify]
            exact .finishWrite placed
        · cases taken
      · cases taken
  | store task id data =>
      simp only [State.step] at taken
      split at taken
      · rename_i permitted
        obtain ⟨place, holds, valid⟩ := permitted
        cases taken
        rw [view_setCache, PageCache.forget_modify]
        exact .store (view_pc_client place) holds valid
      · cases taken
  | bwrite task id =>
      simp only [State.step] at taken
      split at taken
      · rename_i permitted
        obtain ⟨place, holds⟩ := permitted
        cases taken
        split
        · rename_i dirty
          rw [view_setPc]
          exact .writeDirty (view_pc_client place) holds dirty
        · rename_i clean
          exact .writeClean (by simpa [view, PageCache.forget, Buffer.forget]
            using clean)
      · cases taken
  | brelse task id =>
      simp only [State.step] at taken
      split at taken
      · rename_i permitted
        obtain ⟨place, holds⟩ := permitted
        simp only [bind_eq_ok, pure_eq_ok, Except.ok.injEq] at taken
        obtain ⟨⟨cache, last⟩, released, rfl⟩ := taken
        simp only [release, bind_eq_ok, pure_eq_ok, check_eq_ok] at released
        obtain ⟨_, positive, released⟩ := released
        split at released
        · rename_i shared
          cases released
          have many : 1 < (before.cache.buffer id).count := by
            simp at shared
            omega
          have placed : before.view.pc task = .client := view_pc_client place
          convert Effect.releaseShared placed holds many using 1
          simp only [if_true]
          rw [view, State.setCache]
          simp only [PageCache.forget_modify]
          rfl
        · rename_i lastOne
          simp only [bind_eq_ok, check_eq_ok] at released
          obtain ⟨_, unlisted, released⟩ := released
          cases released
          have one : (before.cache.buffer id).count = 1 := by
            simp at lastOne
            omega
          simp only [Bool.true_eq_false, if_false,
            PageCache.modify_buffer_self]
          split
          · rename_i dirty
            change Effect _ _ _ ((before.published task id).setPc task _).view
            rw [view_setPc, view_published]
            exact .releaseDirty (view_pc_client place) holds one dirty unlisted
          · rename_i clean
            change Effect _ _ _ (before.published task id).wakeWaiter.view
            rw [view_wakeWaiter, view_published]
            exact .releaseClean (view_pc_client place) holds one
              (by simpa [view, PageCache.forget, Buffer.forget] using clean)
              unlisted
      · cases taken

namespace State

/-- Serving a buffer does not change the pool. -/
theorem Served.cache_eq {task : Fin taskCount} (served : Served state task id after) :
    after.cache = state.cache := by
  cases served <;> rfl

end State

theorem Layout.gain {cache after : PageCache} (layout : Layout cache)
    (gain : Gain poolSize cache dev block id after) : Layout after := by
  cases gain with
  | hit _ => exact layout.retain id
  | carved _ => exact layout.carve dev block
  | recycled last _ _ _ => exact layout.recycle (layout.of_getLast last) dev block

/-- The buffer that a task inside the cache is busy with. -/
def Pc.buffer? : Pc → Option Nat
  | .client => none
  | .freeWait _ _ _ _ => none
  | .lockWait id _ => some id
  | .readIo id _ _ _ => some id
  | .writeIo id _ _ _ _ => some id

@[simp] theorem Pc.buffer?_forget (pc : Pc) : pc.forget.buffer? = pc.buffer? := by
  cases pc <;> rfl

/-- The pool has its layout, and tasks refer to carved buffers only. -/
structure Shape {taskCount : Nat} (state : State taskCount) : Prop where
  layout : Layout state.cache
  held : ∀ task, ∀ id ∈ state.held task, id < state.cache.cacheCount
  busy : ∀ task id, (state.pc task).buffer? = some id →
    id < state.cache.cacheCount

namespace Shape

theorem view (shape : Shape state) : Shape state.view where
  layout := shape.layout.forget
  held := shape.held
  busy := fun task id busy => shape.busy task id (by
    simpa [State.view] using busy)

theorem of_view (shape : Shape state.view) : Shape state where
  layout := shape.layout.of_forget
  held := shape.held
  busy := fun task id busy => shape.busy task id (by
    simpa [State.view] using busy)

theorem setPc
    (shape : Shape state) (task : Fin taskCount) (pc : Pc)
    (carved : ∀ id, pc.buffer? = some id → id < state.cache.cacheCount) :
    Shape (state.setPc task pc) where
  layout := shape.layout
  held := shape.held
  busy := by
    intro other id busy
    by_cases same : other = task
    · subst same
      exact carved id (by simpa [State.setPc] using busy)
    · exact shape.busy other id (by simpa [State.setPc, same] using busy)

/-- A larger pool with its layout keeps the shape. -/
theorem setCache
    (shape : Shape state) {cache : PageCache}
    (layout : Layout cache)
    (grows : state.cache.cacheCount ≤ cache.cacheCount) :
    Shape (state.setCache cache) where
  layout := layout
  held := fun task id holds => (shape.held task id holds).trans_le grows
  busy := fun task id busy => (shape.busy task id busy).trans_le grows

theorem giveBuffer (shape : Shape state) (task : Fin taskCount)
    (carved : id < state.cache.cacheCount) :
    Shape (state.giveBuffer task id) where
  layout := shape.layout
  held := by
    intro other held present
    by_cases same : other = task
    · subst same
      simp only [State.giveBuffer, Function.update_self] at present
      rcases List.mem_cons.mp present with rfl | before
      · exact carved
      · exact shape.held other held before
    · simp only [State.giveBuffer, State.setPc, Function.update_of_ne same] at present
      exact shape.held other held present
  busy := (shape.setPc task .client (by simp [Pc.buffer?])).busy

theorem served (shape : Shape state) {task : Fin taskCount} (carved : id < state.cache.cacheCount)
    (served : State.Served state task id after) : Shape after := by
  cases served with
  | given => exact shape.giveBuffer task carved
  | sleeping =>
      exact shape.setPc task _ (by simpa [Pc.buffer?] using carved)
  | reading _ =>
      exact shape.setPc task _ (by simpa [Pc.buffer?] using carved)

theorem modify
    (shape : Shape state) (id : Nat) (change : Buffer → Buffer)
    (sameDev : (change (state.cache.buffer id)).dev =
      (state.cache.buffer id).dev)
    (sameBlock : (change (state.cache.buffer id)).block =
      (state.cache.buffer id).block) :
    Shape (state.setCache (state.cache.modify id change)) :=
  shape.setCache (shape.layout.modify id change sameDev sameBlock) le_rfl

theorem published (shape : Shape state) {task : Fin taskCount} (holds : id ∈ state.held task)
    (unlisted : id ∉ state.cache.freeList) :
    Shape (state.published task id) where
  layout := (shape.modify id _ (by rfl) (by rfl)).layout.publish
    (shape.held task id holds) unlisted
  held := by
    intro other kept present
    by_cases same : other = task
    · subst same
      simp only [State.published, Function.update_self] at present
      exact shape.held other kept (List.mem_of_mem_erase present)
    · simp only [State.published, Function.update_of_ne same] at present
      exact shape.held other kept present
  busy := shape.busy

end Shape

theorem Gain.carved_after {cache after : PageCache} (layout : Layout cache)
    (gain : Gain poolSize cache dev block id after) :
    id < after.cacheCount ∧ cache.cacheCount ≤ after.cacheCount := by
  cases gain with
  | hit found => exact ⟨(layout.of_findInChain found).1, le_rfl⟩
  | carved _ => exact ⟨Nat.lt_succ_self _, Nat.le_succ _⟩
  | recycled last _ _ _ => exact ⟨layout.of_getLast last, le_rfl⟩

/-- Every step keeps the shape. -/
theorem Shape.effect (shape : Shape before) (effect : Effect poolSize before label after) :
    Shape after := by
  cases effect with
  | asleep _ => exact shape.setPc _ _ (by simp [Pc.buffer?])
  | acquired _ gain _ served =>
      obtain ⟨carved, grows⟩ := gain.carved_after shape.layout
      exact (shape.setCache (shape.layout.gain gain) grows).served carved served
  | relock place served =>
      exact shape.served (shape.busy _ _ (by rw [place]; rfl)) served
  | readSector place =>
      have carved := shape.busy _ _ (by rw [place]; rfl)
      refine (shape.modify _ _ (by rfl) (by rfl)).setPc _ _ ?_
      intro other busy
      cases busy
      exact carved
  | @writeSector task id dev block offset releasing place =>
      have carved := shape.busy _ _ (by rw [place]; rfl)
      refine Shape.setPc (shape.setCache (shape.layout.setDisk
        (before.cache.disk.writeSector dev (sectorIndex block offset)
          ((before.cache.buffer id).data offset))) le_rfl) _ _ ?_
      intro other busy
      cases busy
      exact carved
  | finishRead place =>
      have carved := shape.busy _ _ (by rw [place]; rfl)
      exact (shape.modify _ _ (by rfl) (by rfl)).giveBuffer _ carved
  | finishWrite _ =>
      exact (shape.modify _ _ (by rfl) (by rfl)).setPc _ _ (by simp [Pc.buffer?])
  | store _ _ _ => exact shape.modify _ _ (by rfl) (by rfl)
  | writeClean _ => exact shape
  | writeDirty _ holds _ =>
      have carved := shape.held _ _ holds
      exact shape.setPc _ _ (by simpa [Pc.buffer?] using carved)
  | @releaseShared task id _ holds _ =>
      have modified := shape.modify id
        (fun buffer => { buffer with count := buffer.count - 1 })
        (by rfl) (by rfl)
      refine ⟨modified.layout, ?_, modified.busy⟩
      intro other kept present
      by_cases same : other = task
      · subst same
        simp only [Function.update_self] at present
        exact shape.held other kept (List.mem_of_mem_erase present)
      · simp only [Function.update_of_ne same] at present
        exact shape.held other kept present
  | releaseClean _ holds _ _ unlisted => exact shape.published holds unlisted
  | releaseDirty _ holds _ _ unlisted =>
      have carved := shape.held _ _ holds
      exact (shape.published holds unlisted).setPc _ _
        (by simpa [Pc.buffer?, State.published, State.setCache] using carved)

/-- The booted cache has its shape. -/
theorem Booted.shape (booted : Booted state) : Shape state where
  layout :=
    { chainNodup := by simp [booted.hashTable]
      chained := by simp [booted.hashTable, booted.cacheCount]
      freeNodup := by simp [booted.freeList]
      freeCarved := by simp [booted.freeList] }
  held := by simp [booted.held]
  busy := by simp [booted.pc, Pc.buffer?]

end Cache
end LightOS
