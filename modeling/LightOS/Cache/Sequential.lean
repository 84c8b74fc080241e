import LightOS.Cache.FlatDisk

/-!
# Sequential use of the cache

One task calls `bread`, stores into the buffers it was given, and calls `bwrite`
and `brelse`, each call running to its end before the next begins.  Whatever is
evicted in between, `bread` returns what was last stored in the block, and the
blocks that were never stored to stay as they are on the disk.
-/

namespace LightOS
namespace Cache

/-- A buffer as its user knows it: the one that `bread` returned for a block. -/
structure Handle where
  id : Nat
  dev : Dev
  block : BlockNo
  deriving DecidableEq

variable {poolSize id : Nat} {state before after : State 1} {dev : Dev} {block : BlockNo}
  {handle : Handle} {handles : List Handle}

/-- What a task may do with the cache. -/
inductive Call
  | bread (dev : Dev) (block : BlockNo)
  /-- Change the bytes of a block in place and set `dirty`. -/
  | store (handle : Handle) (data : Data)
  | bwrite (handle : Handle)
  | brelse (handle : Handle)

/-- The cache with its only task, and the references that the task holds. -/
structure Session where
  state : State 1
  handles : List Handle

/-- Move the remaining sectors of the task's request and let the request
return. -/
def finishRequest (poolSize : Nat) : Nat → State 1 → Except Fault (State 1)
  | 0, state => state.step poolSize (.finish 0)
  | remaining + 1, state => do
      finishRequest poolSize remaining (← state.step poolSize (.transfer 0))

/-- Run the call that the task is inside of to its end.  Nobody wakes the only
task when it sleeps. -/
def complete (poolSize : Nat) (state : State 1) : Except Fault (State 1) :=
  match state.pc 0 with
  | .client => .ok state
  | .readIo _ _ _ sector =>
      finishRequest poolSize (blockSecs - sector) state
  | .writeIo _ _ _ sector _ =>
      finishRequest poolSize (blockSecs - sector) state
  | .freeWait _ _ _ _ => .error .blocked
  | .lockWait _ _ => .error .blocked

/-- Make a call and run it to its end. -/
def call (poolSize : Nat) (state : State 1) (label : Label 1) :
    Except Fault (State 1) := do
  complete poolSize (← state.step poolSize label)

/-- One call of a session.  A buffer may be used only while it is referenced. -/
def Session.invoke (poolSize : Nat) (session : Session) :
    Call → Except Fault Session
  | .bread dev block => do
      let after ← call poolSize session.state (.bread 0 dev block)
      match after.held 0 with
      | [] => .error .misuse
      | id :: _ =>
          return { state := after, handles := ⟨id, dev, block⟩ :: session.handles }
  | .store handle data =>
      if handle ∈ session.handles then do
        let after ← call poolSize session.state (.store 0 handle.id data)
        return { session with state := after }
      else
        .error .misuse
  | .bwrite handle =>
      if handle ∈ session.handles then do
        let after ← call poolSize session.state (.bwrite 0 handle.id)
        return { session with state := after }
      else
        .error .misuse
  | .brelse handle =>
      if handle ∈ session.handles then do
        let after ← call poolSize session.state (.brelse 0 handle.id)
        return { state := after, handles := session.handles.erase handle }
      else
        .error .misuse

/-- What a call does to a flat disk. -/
def Content.apply (content : Content) : Call → Content
  | .store handle data => content.write handle.dev handle.block data
  | _ => content

/-- A call stores into a block. -/
def Call.StoresTo (dev : Dev) (block : BlockNo) : Call → Prop
  | .store handle _ => handle.dev = dev ∧ handle.block = block
  | _ => False

/-- Two states differ at most in bytes and in the position of the task. -/
structure SameButData (before after : State 1) : Prop where
  held : after.held = before.held
  cacheCount : after.cache.cacheCount = before.cache.cacheCount
  freeList : after.cache.freeList = before.cache.freeList
  flags : ∀ id,
    { after.cache.buffer id with data := (before.cache.buffer id).data } =
      before.cache.buffer id

namespace SameButData

theorem trans {first second third : State 1}
    (left : SameButData first second) (right : SameButData second third) :
    SameButData first third where
  held := right.held.trans left.held
  cacheCount := right.cacheCount.trans left.cacheCount
  freeList := right.freeList.trans left.freeList
  flags := by
    intro id
    calc { third.cache.buffer id with data := (first.cache.buffer id).data }
        = { { third.cache.buffer id with
              data := (second.cache.buffer id).data } with
            data := (first.cache.buffer id).data } := rfl
      _ = { second.cache.buffer id with
            data := (first.cache.buffer id).data } := by rw [right.flags id]
      _ = first.cache.buffer id := left.flags id

end SameButData

/-- A store, a `bread` or a look-up by the only task finds no request pending. -/
theorem undisturbed_of_client {label : Label 1} (place : state.pc 0 = .client)
    (notResume : ∀ task, label ≠ .resume task) : Undisturbed poolSize state label := by
  have quiet (id : Nat) : Quiet state id := by
    intro task dev block
    rw [Subsingleton.elim task 0, place]
    simp [Pc.transfer?]
  refine ⟨fun _ id _ _ => quiet id, fun id _ => quiet id, ?_⟩
  cases label with
  | resume task => exact absurd rfl (notResume task)
  | _ => trivial

/-- The progress of a request disturbs nothing. -/
theorem undisturbed_transfer (poolSize : Nat) (state : State 1) :
    Undisturbed poolSize state (.transfer 0) := by
  refine ⟨?_, ?_, trivial⟩
  · intro _ _ _ impossible
    cases impossible
  · intro _ takes
    cases takes

theorem undisturbed_finish (poolSize : Nat) (state : State 1) :
    Undisturbed poolSize state (.finish 0) := by
  refine ⟨?_, ?_, trivial⟩
  · intro _ _ _ impossible
    cases impossible
  · intro _ takes
    cases takes

/-- What holds between the calls of a session that began with `initial` on the
devices, when the flat disk has the given content and only the touched blocks
have been stored to. -/
structure Steady
    (initial : Disk) (touched : Dev → BlockNo → Prop) (content : Content)
    (session : Session) : Prop where
  pool : CoherentPool session.state
  client : session.state.pc 0 = .client
  unlocked : ∀ id, id < session.state.cache.cacheCount →
    (session.state.cache.buffer id).lockValue = false
  clean : ∀ id ∈ session.state.cache.freeList,
    (session.state.cache.buffer id).dirty = false
  held : session.state.held 0 = session.handles.map Handle.id
  valid : ∀ handle ∈ session.handles,
    Carries session.state.cache handle.id handle.dev handle.block ∧
      (session.state.cache.buffer handle.id).valid = true
  shows : session.state.cache.content = content
  untouched : ∀ dev block, ¬touched dev block →
    content dev block = initial.readBlock dev block ∧
      session.state.cache.disk.readBlock dev block =
        initial.readBlock dev block

/-- A state follows another without a store: the pool is coherent again, the
content is the same, and the devices were written with content only. -/
structure Follows (before after : State 1) : Prop where
  pool : CoherentPool after
  content : after.cache.content = before.cache.content
  disk : ∀ dev block offset,
    after.cache.disk dev (sectorIndex block offset) =
        before.cache.disk dev (sectorIndex block offset) ∨
      after.cache.disk dev (sectorIndex block offset) =
        before.cache.content dev block offset

namespace Follows

theorem refl (pool : CoherentPool state) : Follows state state :=
  ⟨pool, rfl, fun _ _ _ => .inl rfl⟩

theorem trans {first second third : State 1}
    (left : Follows first second) (right : Follows second third) :
    Follows first third where
  pool := right.pool
  content := right.content.trans left.content
  disk := by
    intro dev block offset
    rcases right.disk dev block offset with same | written
    · rw [same]
      exact left.disk dev block offset
    · exact .inr (by rw [written, left.content])

/-- A step that is undisturbed and no store. -/
theorem of_step {label : Label 1} (pool : CoherentPool before)
    (undisturbed : Undisturbed poolSize before label)
    (noStore : ∀ content, before.flatStep label content = content)
    (taken : before.step poolSize label = .ok after) : Follows before after := by
  obtain ⟨poolAfter, content⟩ := pool.content_step undisturbed taken
  have disk := pool.view.disk_effect
    (step_effect pool.counted.shape.layout taken)
  exact ⟨poolAfter, content.trans (noStore _), disk⟩

/-- A block that shows its initial data, here and on the device, still does. -/
theorem untouched (follows : Follows before after) {data : Data}
    (shown : before.cache.content dev block = data)
    (onDisk : before.cache.disk.readBlock dev block = data) :
    after.cache.disk.readBlock dev block = data := by
  funext offset
  rcases follows.disk dev block offset with same | written
  · rw [← onDisk]
    exact same
  · rw [← shown]
    exact written

end Follows

/-- The position of a task whose request has come to a sector. -/
def Pc.atSector : Pc → Nat → Pc
  | .readIo id dev block _, sector => .readIo id dev block sector
  | .writeIo id dev block _ releasing, sector =>
      .writeIo id dev block sector releasing
  | pc, _ => pc

/-- One transfer moves one sector and changes bytes only. -/
theorem transfer_spec (poolSize : Nat) {sector : Nat} (pool : CoherentPool state)
    (progress : (state.pc 0).progress? = some (id, sector)) (bound : sector < blockSecs) :
    ∃ after, state.step poolSize (.transfer 0) = .ok after ∧
      after.pc 0 = (state.pc 0).atSector (sector + 1) ∧
      SameButData state after ∧ Follows state after := by
  have follows {after : State 1}
      (taken : state.step poolSize (.transfer 0) = .ok after) :
      Follows state after :=
    .of_step pool (undisturbed_transfer poolSize state) (fun _ => rfl) taken
  cases place : state.pc 0 with
  | readIo reads dev block position =>
      rw [place] at progress
      cases progress
      have taken : state.step poolSize (.transfer 0) =
          .ok ((state.setCache (state.cache.modify id fun buffer =>
            { buffer with
              data := Function.update buffer.data ⟨sector, bound⟩
                (state.cache.disk dev
                  (sectorIndex block ⟨sector, bound⟩)) })).setPc 0
                    (.readIo id dev block (sector + 1))) := by
        simp only [State.step, State.transferSector, place, bound, dif_pos]
      refine ⟨_, taken, by simp [State.setPc, Pc.atSector], ?_, follows taken⟩
      refine ⟨rfl, rfl, rfl, fun other => ?_⟩
      by_cases same : other = id
      · subst same
        simp [State.setPc, State.setCache]
      · simp [State.setPc, State.setCache, PageCache.modify, same]
  | writeIo writes dev block position releasing =>
      rw [place] at progress
      cases progress
      have taken : state.step poolSize (.transfer 0) =
          .ok ((state.setCache { state.cache with
            disk := state.cache.disk.writeSector dev
              (sectorIndex block ⟨sector, bound⟩)
              ((state.cache.buffer id).data ⟨sector, bound⟩) }).setPc 0
                (.writeIo id dev block (sector + 1) releasing)) := by
        simp only [State.step, State.transferSector, place, bound, dif_pos]
      refine ⟨_, taken, by simp [State.setPc, Pc.atSector], ?_, follows taken⟩
      exact ⟨rfl, rfl, rfl, fun _ => rfl⟩
  | _ => simp [place, Pc.progress?] at progress

/-- The transfers of a request change bytes only and leave it complete. -/
theorem finishRequest_spec (poolSize remaining : Nat) {sector : Nat} (pool : CoherentPool state)
    (progress : (state.pc 0).progress? = some (id, sector))
    (rest : sector + remaining = blockSecs) :
    ∃ moved, moved.pc 0 = (state.pc 0).atSector blockSecs ∧
      SameButData state moved ∧ Follows state moved ∧
      finishRequest poolSize remaining state =
        moved.step poolSize (.finish 0) := by
  induction remaining generalizing state sector with
  | zero =>
      refine ⟨state, ?_, ⟨rfl, rfl, rfl, fun _ => rfl⟩, .refl pool, rfl⟩
      cases place : state.pc 0 <;>
        simp_all [Pc.progress?, Pc.atSector]
  | succ remaining inductionHypothesis =>
      obtain ⟨next, taken, position, same, follows⟩ :=
        transfer_spec poolSize pool progress (by omega)
      have progressNext : (next.pc 0).progress? = some (id, sector + 1) := by
        rw [position]
        cases place : state.pc 0 <;> simp_all [Pc.progress?, Pc.atSector]
      obtain ⟨moved, movedPosition, movedSame, movedFollows, finished⟩ :=
        inductionHypothesis follows.pool progressNext (by omega)
      refine ⟨moved, ?_, same.trans movedSame, follows.trans movedFollows, ?_⟩
      · rw [movedPosition, position]
        cases state.pc 0 <;> rfl
      · simp only [finishRequest, taken, ok_bind]
        exact finished

namespace State

variable {taskCount : Nat} (state : State taskCount)

@[simp] theorem wakeWaiter_cache : state.wakeWaiter.cache = state.cache := by
  unfold wakeWaiter
  split
  · rfl
  · rw [wake_cache]

@[simp] theorem wakeWaiter_held : state.wakeWaiter.held = state.held := by
  unfold wakeWaiter
  split
  · rfl
  · rw [wake_held]

/-- Waking a task leaves a running task running. -/
theorem wake_client {task waiter : Fin taskCount}
    (place : state.pc task = .client) :
    (state.wake waiter).pc task = .client := by
  by_cases same : task = waiter
  · subst same
    simp [wake, place]
  · unfold wake
    split <;> simp [setPc, same, place]

theorem wakeWaiter_client {task : Fin taskCount}
    (place : state.pc task = .client) :
    state.wakeWaiter.pc task = .client := by
  unfold wakeWaiter
  split
  · exact place
  · exact wake_client _ place

end State

/-- A request for a buffer has run to its end: the buffer is valid and clean,
and nothing else about the pool has changed but bytes. -/
structure Ended (before after : State 1) (id : Nat) : Prop where
  follows : Follows before after
  client : after.pc 0 = .client
  cacheCount : after.cache.cacheCount = before.cache.cacheCount
  freeList : after.cache.freeList = before.cache.freeList
  block : ∀ other,
    (after.cache.buffer other).dev = (before.cache.buffer other).dev ∧
      (after.cache.buffer other).block = (before.cache.buffer other).block
  others : ∀ other, other ≠ id →
    (after.cache.buffer other).dirty = (before.cache.buffer other).dirty ∧
      (after.cache.buffer other).valid = (before.cache.buffer other).valid
  self : (after.cache.buffer id).dirty = false ∧
    (after.cache.buffer id).valid = true
  unlocked : ∀ other, (before.cache.buffer other).lockValue = false →
    (after.cache.buffer other).lockValue = false

/-- The end of a request, after its transfers. -/
theorem Ended.of_finish {moved : State 1} (follows : Follows before moved)
    (same : SameButData before moved) (taken : moved.step poolSize (.finish 0) = .ok after)
    (client : after.pc 0 = .client) (cacheCount : after.cache.cacheCount = moved.cache.cacheCount)
    (freeList : after.cache.freeList = moved.cache.freeList) (new : Buffer)
    (updated : after.cache.buffer = Function.update moved.cache.buffer id new)
    (sameDev : new.dev = (moved.cache.buffer id).dev)
    (sameBlock : new.block = (moved.cache.buffer id).block) (notDirty : new.dirty = false)
    (valid : new.valid = true)
    (unlocked : (moved.cache.buffer id).lockValue = false → new.lockValue = false) :
    Ended before after id := by
  have flag {Flag : Type} (field : Buffer → Flag)
      (ignores : ∀ buffer data,
        field { buffer with data := data } = field buffer)
      (other : Nat) :
      field (moved.cache.buffer other) = field (before.cache.buffer other) :=
    (ignores _ _).symm.trans (congrArg field (same.flags other))
  have self : after.cache.buffer id = new := by
    rw [updated, Function.update_self]
  have others (other : Nat) (different : other ≠ id) :
      after.cache.buffer other = moved.cache.buffer other := by
    rw [updated, Function.update_of_ne different]
  constructor
  case follows =>
    exact follows.trans (.of_step follows.pool
      (undisturbed_finish poolSize moved) (fun _ => rfl) taken)
  case client => exact client
  case cacheCount => exact cacheCount.trans same.cacheCount
  case freeList => exact freeList.trans same.freeList
  case block =>
    intro other
    rw [← flag Buffer.dev (fun _ _ => rfl) other,
      ← flag Buffer.block (fun _ _ => rfl) other]
    by_cases isSelf : other = id
    · rw [isSelf, self]
      exact ⟨sameDev, sameBlock⟩
    · rw [others other isSelf]
      exact ⟨rfl, rfl⟩
  case others =>
    intro other different
    rw [others other different]
    exact ⟨flag Buffer.dirty (fun _ _ => rfl) other,
      flag Buffer.valid (fun _ _ => rfl) other⟩
  case self =>
    rw [self]
    exact ⟨notDirty, valid⟩
  case unlocked =>
    intro other
    rw [← flag Buffer.lockValue (fun _ _ => rfl) other]
    by_cases isSelf : other = id
    · rw [isSelf, self]
      exact unlocked
    · rw [others other isSelf]
      exact fun free => free

/-- A read request runs to its end and gives the task its buffer. -/
theorem complete_read (poolSize : Nat) (pool : CoherentPool state)
    (place : state.pc 0 = .readIo id dev block 0) :
    ∃ after, complete poolSize state = .ok after ∧
      Ended state after id ∧
      after.held 0 = id :: state.held 0 ∧
      (after.cache.buffer id).lockValue = false := by
  have progress : (state.pc 0).progress? = some (id, 0) := by
    simp [place, Pc.progress?]
  obtain ⟨moved, position, same, follows, finished⟩ :=
    finishRequest_spec poolSize blockSecs pool progress rfl
  rw [place, Pc.atSector] at position
  obtain ⟨after, taken, cache, client, held⟩ : ∃ after,
      moved.step poolSize (.finish 0) = .ok after ∧
      after.cache = (moved.cache.modify id fun buffer =>
        { buffer with dirty := false, valid := true }).modify id (fun buffer =>
          { buffer with
            lockValue := false
            lockWaiters := buffer.lockWaiters.tail }) ∧
      after.pc 0 = .client ∧ after.held 0 = id :: moved.held 0 := by
    refine ⟨((moved.setCache (moved.cache.modify id fun buffer =>
      { buffer with dirty := false, valid := true })).unlock id).giveBuffer 0 id,
      ?_, ?_, ?_, ?_⟩
    · simp only [State.step, State.finishTransfer, position, if_true]
    · exact State.unlock_cache _ id
    · simp [State.giveBuffer, State.setPc]
    · simp [State.giveBuffer, State.setCache]
  refine ⟨after, ?_, ?_, ?_, ?_⟩
  · simp only [complete, place]
    exact finished.trans taken
  · refine Ended.of_finish follows same taken client (by rw [cache]; rfl)
      (by rw [cache]; rfl)
      { moved.cache.buffer id with
        dirty := false
        valid := true
        lockValue := false
        lockWaiters := (moved.cache.buffer id).lockWaiters.tail }
      ?_ rfl rfl rfl rfl (fun _ => rfl)
    rw [cache]
    simp [PageCache.modify]
  · rw [held, same.held]
  · rw [cache]
    simp

/-- A write request runs to its end. -/
theorem complete_write (poolSize : Nat) {releasing : Bool} (pool : CoherentPool state)
    (place : state.pc 0 = .writeIo id dev block 0 releasing) :
    ∃ after, complete poolSize state = .ok after ∧
      Ended state after id ∧ after.held = state.held := by
  have progress : (state.pc 0).progress? = some (id, 0) := by
    simp [place, Pc.progress?]
  obtain ⟨moved, position, same, follows, finished⟩ :=
    finishRequest_spec poolSize blockSecs pool progress rfl
  rw [place, Pc.atSector] at position
  obtain ⟨after, taken, cache, client, held⟩ : ∃ after,
      moved.step poolSize (.finish 0) = .ok after ∧
      after.cache = moved.cache.modify id (fun buffer =>
        { buffer with dirty := false, valid := true }) ∧
      after.pc 0 = .client ∧ after.held = moved.held := by
    cases releasing with
    | false =>
        refine ⟨(moved.setCache (moved.cache.modify id fun buffer =>
          { buffer with dirty := false, valid := true })).toClient 0,
          ?_, rfl, ?_, rfl⟩
        · simp [State.step, State.finishTransfer, position]
        · simp [State.toClient, State.setPc]
    | true =>
        refine ⟨(moved.setCache (moved.cache.modify id fun buffer =>
          { buffer with dirty := false, valid := true })).wakeWaiter.toClient 0,
          ?_, ?_, ?_, ?_⟩
        · simp [State.step, State.finishTransfer, position]
        · exact State.wakeWaiter_cache _
        · simp [State.toClient, State.setPc]
        · exact State.wakeWaiter_held _
  refine ⟨after, ?_, ?_, held.trans same.held⟩
  · simp only [complete, place]
    exact finished.trans taken
  · refine Ended.of_finish follows same taken client (by rw [cache]; rfl)
      (by rw [cache]; rfl)
      { moved.cache.buffer id with dirty := false, valid := true }
      ?_ rfl rfl rfl rfl (fun free => free)
    rw [cache]
    rfl

/-- What holds while a request for the busy buffer runs, or may begin. -/
structure Paused
    (initial : Disk) (touched : Dev → BlockNo → Prop) (content : Content)
    (state : State 1) (handles : List Handle) (busy : Nat) : Prop where
  pool : CoherentPool state
  unlocked : ∀ id, id < state.cache.cacheCount → id ≠ busy →
    (state.cache.buffer id).lockValue = false
  clean : ∀ id ∈ state.cache.freeList, id ≠ busy →
    (state.cache.buffer id).dirty = false
  valid : ∀ handle ∈ handles,
    Carries state.cache handle.id handle.dev handle.block ∧
      (handle.id ≠ busy → (state.cache.buffer handle.id).valid = true)
  shows : state.cache.content = content
  untouched : ∀ dev block, ¬touched dev block →
    content dev block = initial.readBlock dev block ∧
      state.cache.disk.readBlock dev block = initial.readBlock dev block

section Calls

variable {initial : Disk} {touched : Dev → BlockNo → Prop} {content : Content}

/-- When the request ends, the session is steady. -/
theorem Paused.ended {busy : Nat} (paused : Paused initial touched content state handles busy)
    (ended : Ended state after busy) (held : after.held 0 = handles.map Handle.id)
    (unlocked : (after.cache.buffer busy).lockValue = false) :
    Steady initial touched content ⟨after, handles⟩ where
  pool := ended.follows.pool
  client := ended.client
  unlocked := by
    intro id carved
    by_cases same : id = busy
    · rw [same, unlocked]
    · exact ended.unlocked id
        (paused.unlocked id (ended.cacheCount ▸ carved) same)
  clean := by
    intro id listed
    by_cases same : id = busy
    · rw [same]
      exact ended.self.1
    · change (after.cache.buffer id).dirty = false
      rw [(ended.others id same).1]
      exact paused.clean id (ended.freeList ▸ listed) same
  held := held
  valid := by
    intro handle present
    obtain ⟨carries, valid⟩ := paused.valid handle present
    constructor
    · exact ⟨(ended.block handle.id).1.trans carries.1,
        (ended.block handle.id).2.trans carries.2⟩
    · by_cases same : handle.id = busy
      · rw [same]
        exact ended.self.2
      · exact (ended.others handle.id same).2.trans (valid same)
  shows := ended.follows.content.trans paused.shows
  untouched := by
    intro dev block notTouched
    obtain ⟨shown, onDisk⟩ := paused.untouched dev block notTouched
    refine ⟨shown, ended.follows.untouched ?_ onDisk⟩
    rw [paused.shows, shown]

/-- When no request begins, the session is steady at once. -/
theorem Paused.steady {busy : Nat} (paused : Paused initial touched content state handles busy)
    (client : state.pc 0 = .client) (held : state.held 0 = handles.map Handle.id)
    (unlocked : (state.cache.buffer busy).lockValue = false)
    (clean : busy ∈ state.cache.freeList → (state.cache.buffer busy).dirty = false)
    (valid : (state.cache.buffer busy).valid = true) :
    Steady initial touched content ⟨state, handles⟩ where
  pool := paused.pool
  client := client
  unlocked := by
    intro id carved
    by_cases same : id = busy
    · rw [same, unlocked]
    · exact paused.unlocked id carved same
  clean := by
    intro id listed
    by_cases same : id = busy
    · subst same
      exact clean listed
    · exact paused.clean id listed same
  held := held
  valid := by
    intro handle present
    obtain ⟨carries, isValid⟩ := paused.valid handle present
    refine ⟨carries, ?_⟩
    by_cases same : handle.id = busy
    · rw [same, valid]
    · exact isValid same
  shows := paused.shows
  untouched := paused.untouched

/-- Erasing a handle erases its buffer from the references. -/
theorem map_erase_handle (only : ∀ other ∈ handles, other.id = handle.id → other = handle) :
    (handles.map Handle.id).erase handle.id =
      (handles.erase handle).map Handle.id := by
  induction handles with
  | nil => rfl
  | cons first rest inductionHypothesis =>
      by_cases same : first = handle
      · subst same
        simp
      · have differs : first.id ≠ handle.id := fun equal =>
          same (only first (by simp) equal)
        rw [List.map_cons, List.erase_cons_tail (by simpa using differs),
          List.erase_cons_tail (by simpa using same), List.map_cons,
          inductionHypothesis fun other present =>
            only other (List.mem_cons_of_mem _ present)]

namespace Steady

variable {session : Session}

/-- A referenced buffer is carved and not on the free list. -/
theorem referenced (steady : Steady initial touched content session)
    (present : handle ∈ session.handles) :
    handle.id ∈ session.state.held 0 ∧
      handle.id < session.state.cache.cacheCount ∧
      0 < (session.state.cache.buffer handle.id).count := by
  have holds : handle.id ∈ session.state.held 0 := by
    rw [steady.held]
    exact List.mem_map_of_mem present
  have carved := steady.pool.counted.shape.held 0 _ holds
  have positive := State.references_pos_of_held holds
  rw [← steady.pool.counted.counted _ carved] at positive
  exact ⟨holds, carved, positive⟩

/-- A handle shows its buffer the content of its block. -/
theorem data_eq (steady : Steady initial touched content session)
    (present : handle ∈ session.handles) :
    (session.state.cache.buffer handle.id).data =
      content handle.dev handle.block := by
  obtain ⟨carries, valid⟩ := steady.valid handle present
  rw [← steady.shows, PageCache.content_of_carries
    steady.pool.counted.shape.layout steady.pool.unique
    (steady.referenced present).2.1 carries, if_pos valid]

/-- Between calls the session is paused at any buffer. -/
theorem paused
    (steady : Steady initial touched content session) (busy : Nat) :
    Paused initial touched content session.state session.handles busy where
  pool := steady.pool
  unlocked := fun id carved _ => steady.unlocked id carved
  clean := fun id listed _ => steady.clean id listed
  valid := fun handle present =>
    ⟨(steady.valid handle present).1, fun _ => (steady.valid handle present).2⟩
  shows := steady.shows
  untouched := steady.untouched

/-- `bwrite` always returns, and the session is steady again. -/
theorem bwrite (poolSize : Nat) (steady : Steady initial touched content session)
    (present : handle ∈ session.handles) :
    ∃ after, session.invoke poolSize (.bwrite handle) = .ok after ∧
      Steady initial touched content after := by
  obtain ⟨holds, carved, _⟩ := steady.referenced present
  cases dirty : (session.state.cache.buffer handle.id).dirty with
  | false =>
      have taken : session.state.step poolSize (.bwrite 0 handle.id) =
          .ok session.state := by
        simp [State.step, steady.client, holds, dirty]
      refine ⟨session, ?_, steady⟩
      simp [Session.invoke, present, call, taken, complete, steady.client]
  | true =>
      have taken : session.state.step poolSize (.bwrite 0 handle.id) =
          .ok (session.state.setPc 0 (.writeIo handle.id
            (session.state.cache.buffer handle.id).dev
            (session.state.cache.buffer handle.id).block 0 false)) := by
        simp [State.step, steady.client, holds, dirty]
      have follows := Follows.of_step steady.pool
        (undisturbed_of_client steady.client (by simp)) (fun _ => rfl) taken
      have paused : Paused initial touched content
          (session.state.setPc 0 (.writeIo handle.id
            (session.state.cache.buffer handle.id).dev
            (session.state.cache.buffer handle.id).block 0 false))
          session.handles handle.id :=
        { steady.paused handle.id with pool := follows.pool }
      obtain ⟨after, completed, ended, held⟩ := complete_write
        poolSize follows.pool (State.setPc_pc_self _ _ _)
      refine ⟨⟨after, session.handles⟩, ?_, paused.ended ended ?_ ?_⟩
      · simp [Session.invoke, present, call, taken, completed]
      · rw [held]
        exact steady.held
      · exact ended.unlocked _ (steady.unlocked _ carved)

/-- A store always succeeds, and writes the block of its handle. -/
theorem store (poolSize : Nat) (steady : Steady initial touched content session)
    (present : handle ∈ session.handles) (data : Data) :
    ∃ after, session.invoke poolSize (.store handle data) = .ok after ∧
      Steady initial
        (fun dev block => touched dev block ∨
          (handle.dev = dev ∧ handle.block = block))
        (content.write handle.dev handle.block data) after := by
  obtain ⟨holds, carved, positive⟩ := steady.referenced present
  obtain ⟨carries, valid⟩ := steady.valid handle present
  have taken : session.state.step poolSize (.store 0 handle.id data) =
      .ok (session.state.setCache (session.state.cache.modify handle.id
        fun buffer => { buffer with data := data, dirty := true })) := by
    simp [State.step, steady.client, holds, valid]
  obtain ⟨pool, shows⟩ := steady.pool.content_step
    (undisturbed_of_client steady.client (by simp)) taken
  have unlisted : handle.id ∉ session.state.cache.freeList := by
    intro listed
    have unused := steady.pool.counted.listed _ listed
    omega
  have buffers (other : Nat) (different : other ≠ handle.id) :
      (session.state.cache.modify handle.id fun buffer =>
        { buffer with data := data, dirty := true }).buffer other =
          session.state.cache.buffer other :=
    PageCache.modify_buffer_other _ _ different
  refine ⟨{ session with state :=
    session.state.setCache (session.state.cache.modify handle.id
      fun buffer => { buffer with data := data, dirty := true }) }, ?_, ?_⟩
  · simp [Session.invoke, present, call, taken, complete, steady.client,
      State.setCache]
  · constructor
    · exact pool
    · exact steady.client
    · intro id carvedId
      by_cases same : id = handle.id
      · subst same
        simp [State.setCache, steady.unlocked _ carved]
      · exact (congrArg Buffer.lockValue (buffers id same)).trans
          (steady.unlocked id carvedId)
    · intro id listed
      have different : id ≠ handle.id := fun same => unlisted (same ▸ listed)
      exact (congrArg Buffer.dirty (buffers id different)).trans
        (steady.clean id listed)
    · exact steady.held
    · intro other present
      obtain ⟨otherCarries, otherValid⟩ := steady.valid other present
      by_cases same : other.id = handle.id
      · simp only [State.setCache, Carries, same,
          PageCache.modify_buffer_self]
        rw [same] at otherCarries otherValid
        exact ⟨otherCarries, otherValid⟩
      · simp only [State.setCache, Carries, buffers other.id same]
        exact ⟨otherCarries, otherValid⟩
    · rw [shows, steady.shows]
      simp [State.flatStep, carries.1, carries.2]
    · intro dev block notTouched
      obtain ⟨shown, onDisk⟩ := steady.untouched dev block
        fun before => notTouched (.inl before)
      refine ⟨?_, onDisk⟩
      rw [Content.write_other _ _ fun own =>
        notTouched (.inr ⟨own.1.symm, own.2.symm⟩)]
      exact shown

/-- Two handles of one buffer are the same. -/
theorem handle_unique
    (steady : Steady initial touched content session)
    {left right : Handle}
    (leftPresent : left ∈ session.handles)
    (rightPresent : right ∈ session.handles)
    (same : left.id = right.id) : left = right := by
  have leftCarries := (steady.valid left leftPresent).1
  have rightCarries := (steady.valid right rightPresent).1
  rw [same] at leftCarries
  cases left
  cases right
  simp only [Handle.mk.injEq]
  exact ⟨same, leftCarries.1.symm.trans rightCarries.1,
    leftCarries.2.symm.trans rightCarries.2⟩

/-- After a reference was dropped, the session is paused at the buffer. -/
theorem dropped (steady : Steady initial touched content session) (handle : Handle)
    (follows : Follows session.state state) (buffers : state.cache.buffer =
      Function.update session.state.cache.buffer handle.id
        { session.state.cache.buffer handle.id with
          count := (session.state.cache.buffer handle.id).count - 1 })
    (cacheCount : state.cache.cacheCount = session.state.cache.cacheCount)
    (freeList : ∀ id ∈ state.cache.freeList, id ≠ handle.id → id ∈ session.state.cache.freeList) :
    Paused initial touched content state (session.handles.erase handle)
      handle.id := by
  have others (other : Nat) (different : other ≠ handle.id) :
      state.cache.buffer other = session.state.cache.buffer other := by
    rw [buffers, Function.update_of_ne different]
  have carries (other : Nat) (dev : Dev) (block : BlockNo) :
      Carries state.cache other dev block ↔
        Carries session.state.cache other dev block :=
    carries_of_update buffers rfl rfl other dev block
  constructor
  case pool => exact follows.pool
  case unlocked =>
    intro id carved different
    rw [others id different]
    exact steady.unlocked id (cacheCount ▸ carved)
  case clean =>
    intro id listed different
    rw [others id different]
    exact steady.clean id (freeList id listed different)
  case valid =>
    intro other present
    obtain ⟨otherCarries, valid⟩ :=
      steady.valid other (List.mem_of_mem_erase present)
    refine ⟨(carries _ _ _).mpr otherCarries, fun different => ?_⟩
    rw [others _ different]
    exact valid
  case shows => exact follows.content.trans steady.shows
  case untouched =>
    intro dev block notTouched
    obtain ⟨shown, onDisk⟩ := steady.untouched dev block notTouched
    refine ⟨shown, follows.untouched ?_ onDisk⟩
    rw [steady.shows, shown]

/-- `brelse` always returns, and the session is steady again. -/
theorem brelse (poolSize : Nat) (steady : Steady initial touched content session)
    (present : handle ∈ session.handles) :
    ∃ after, session.invoke poolSize (.brelse handle) = .ok after ∧
      Steady initial touched content after := by
  obtain ⟨holds, carved, positive⟩ := steady.referenced present
  have valid := (steady.valid handle present).2
  have undisturbed : Undisturbed poolSize session.state (.brelse 0 handle.id) :=
    undisturbed_of_client steady.client (by simp)
  have held : ((session.state.held 0).erase handle.id) =
      (session.handles.erase handle).map Handle.id := by
    rw [steady.held]
    exact map_erase_handle fun other otherPresent =>
      steady.handle_unique otherPresent present
  -- The three ways `brelse` ends differ in the free list and the request only.
  have settle {state : State 1}
      (taken : session.state.step poolSize (.brelse 0 handle.id) = .ok state)
      (buffers : state.cache.buffer =
        Function.update session.state.cache.buffer handle.id
          { session.state.cache.buffer handle.id with
            count := (session.state.cache.buffer handle.id).count - 1 })
      (cacheCount : state.cache.cacheCount = session.state.cache.cacheCount)
      (freeList : ∀ id ∈ state.cache.freeList, id ≠ handle.id →
        id ∈ session.state.cache.freeList)
      (heldAfter : state.held 0 = (session.state.held 0).erase handle.id)
      (client : state.pc 0 = .client)
      (clean : handle.id ∈ state.cache.freeList →
        (session.state.cache.buffer handle.id).dirty = false) :
      ∃ after, session.invoke poolSize (.brelse handle) = .ok after ∧
        Steady initial touched content after := by
    have paused := steady.dropped handle
      (.of_step steady.pool undisturbed (fun _ => rfl) taken)
      buffers cacheCount freeList
    refine ⟨⟨state, session.handles.erase handle⟩, ?_, ?_⟩
    · simp [Session.invoke, present, call, taken, complete, client]
    · refine paused.steady client (heldAfter.trans held) ?_ ?_ ?_
      · rw [buffers, Function.update_self]
        exact steady.unlocked _ carved
      · rw [buffers, Function.update_self]
        exact clean
      · rw [buffers, Function.update_self]
        exact valid
  have unlisted : handle.id ∉ session.state.cache.freeList := by
    intro listed
    have unused := steady.pool.counted.listed _ listed
    omega
  by_cases many : 1 < (session.state.cache.buffer handle.id).count
  · have notLast : (session.state.cache.buffer handle.id).count - 1 ≠ 0 := by
      omega
    have taken : session.state.step poolSize (.brelse 0 handle.id) =
        .ok { session.state.setCache (session.state.cache.modify handle.id
          fun buffer => { buffer with count := buffer.count - 1 }) with
            held := Function.update session.state.held 0
              ((session.state.held 0).erase handle.id) } := by
      simp [State.step, steady.client, holds, release, check, positive, notLast]
    exact settle taken rfl rfl (fun _ listed _ => listed)
      (by simp) steady.client fun listed => absurd listed unlisted
  · have last : (session.state.cache.buffer handle.id).count - 1 = 0 := by
      omega
    cases dirty : (session.state.cache.buffer handle.id).dirty with
    | false =>
        have taken : session.state.step poolSize (.brelse 0 handle.id) =
            .ok (session.state.published 0 handle.id).wakeWaiter := by
          simp [State.step, steady.client, holds, release, check, positive,
            last, unlisted, dirty, State.published]
        refine settle taken (by simp [State.published, State.setCache]; rfl)
          (by simp [State.published, State.setCache]) ?_ ?_ ?_ fun _ => dirty
        · simp +contextual [State.published, State.setCache]
        · simp [State.published, State.setCache]
        · exact State.wakeWaiter_client _ steady.client
    | true =>
        have taken : session.state.step poolSize (.brelse 0 handle.id) =
            .ok ((session.state.published 0 handle.id).setPc 0
              (.writeIo handle.id (session.state.cache.buffer handle.id).dev
                (session.state.cache.buffer handle.id).block 0 true)) := by
          simp [State.step, steady.client, holds, release, check, positive,
            last, unlisted, dirty, State.published]
        have follows := Follows.of_step steady.pool undisturbed
          (fun _ => rfl) taken
        have paused := steady.dropped handle follows rfl rfl
          (by simp +contextual [State.published, State.setCache, State.setPc])
        obtain ⟨after, completed, ended, heldAfter⟩ := complete_write
          poolSize follows.pool (State.setPc_pc_self _ _ _)
        refine ⟨⟨after, session.handles.erase handle⟩, ?_,
          paused.ended ended ?_ ?_⟩
        · simp [Session.invoke, present, call, taken, completed]
        · rw [heldAfter, ← held]
          simp [State.published, State.setPc]
        · refine ended.unlocked _ ?_
          simp [State.published, State.setCache, State.setPc,
            steady.unlocked _ carved]

/-- What `getblk` does between the calls of a session: it obtains a buffer, or
sleeps because no buffer can be had. -/
theorem getblk_cases
    (poolSize : Nat)
    (steady : Steady initial touched content session)
    (dev : Dev) (block : BlockNo) :
    (∃ id cache,
      getblk poolSize session.state.cache dev block = .ok (.buffer id cache) ∧
      Gain poolSize session.state.cache dev block id cache) ∨
    (getblk poolSize session.state.cache dev block = .ok .asleep ∧
      ¬CanCarve poolSize session.state.cache ∧
      session.state.cache.freeList = []) := by
  have layout := steady.pool.counted.shape.layout
  cases found : findInChain session.state.cache dev block with
  | some id =>
      exact .inl ⟨id, _, getblk_hit _ _ found, .hit found⟩
  | none =>
      rw [getblk_miss _ _ found]
      by_cases room : CanCarve poolSize session.state.cache
      · exact .inl ⟨_, _, acquireFree_carve layout room dev block, .carved room⟩
      · cases last : session.state.cache.freeList.getLast? with
        | none =>
            exact .inr ⟨acquireFree_asleep room last dev block, room,
              List.getLast?_eq_none_iff.mp last⟩
        | some id =>
            have listed := List.mem_of_getLast? last
            have unused := steady.pool.counted.listed id listed
            have clean := steady.clean id listed
            refine .inl ⟨id, recycle session.state.cache id dev block, ?_,
              .recycled last room unused clean⟩
            rw [acquireFree_recycle layout room last, if_pos ⟨unused, clean⟩]

/-- A buffer that is gained is not locked. -/
theorem gain_unlocked (steady : Steady initial touched content session) {cache : PageCache}
    (gain : Gain poolSize session.state.cache dev block id cache) :
    (cache.buffer id).lockValue = false := by
  have layout := steady.pool.counted.shape.layout
  cases gain with
  | hit found =>
      simp [retain, steady.unlocked id (layout.of_findInChain found).1]
  | carved _ => simp [carve]
  | recycled last _ _ _ =>
      simp [recycle, steady.unlocked id (layout.of_getLast last)]

/-- A referenced buffer is gained by a lookup only. -/
theorem gain_referenced (steady : Steady initial touched content session) {cache : PageCache}
    (gain : Gain poolSize session.state.cache dev block id cache)
    (present : handle ∈ session.handles) (same : handle.id = id) :
    findInChain session.state.cache dev block = some id := by
  obtain ⟨_, carved, positive⟩ := steady.referenced present
  rw [same] at carved positive
  cases gain with
  | hit found => exact found
  | carved _ => exact absurd carved (Nat.lt_irrefl _)
  | recycled _ _ unused _ => omega

/-- After `getblk` obtained a buffer, the session is paused at it, with the new
handle. -/
theorem gained (steady : Steady initial touched content session) {cache : PageCache}
    (gain : Gain poolSize session.state.cache dev block id cache)
    (follows : Follows session.state state) (cacheCount : state.cache.cacheCount = cache.cacheCount)
    (freeList : state.cache.freeList = cache.freeList)
    (others : ∀ other, other ≠ id → state.cache.buffer other = cache.buffer other)
    (carries : Carries state.cache id dev block) :
    Paused initial touched content state
      (⟨id, dev, block⟩ :: session.handles) id := by
  have layout := steady.pool.counted.shape.layout
  have before (other : Nat) (different : other ≠ id) :
      state.cache.buffer other = session.state.cache.buffer other :=
    (others other different).trans (gain.buffer_other different)
  constructor
  case pool => exact follows.pool
  case unlocked =>
    intro other carved different
    rw [before other different]
    exact steady.unlocked other
      (gain.carved_before different (cacheCount ▸ carved))
  case clean =>
    intro other listed different
    rw [before other different]
    exact steady.clean other (gain.freeList_other layout (freeList ▸ listed)).2
  case valid =>
    intro handle present
    rcases List.mem_cons.mp present with rfl | old
    · exact ⟨carries, fun different => absurd rfl different⟩
    · obtain ⟨oldCarries, valid⟩ := steady.valid handle old
      by_cases same : handle.id = id
      · refine ⟨?_, fun different => absurd same different⟩
        have found := steady.gain_referenced gain old same
        have foundCarries := (layout.of_findInChain found).2
        rw [same] at oldCarries ⊢
        exact ⟨carries.1.trans (foundCarries.1.symm.trans oldCarries.1),
          carries.2.trans (foundCarries.2.symm.trans oldCarries.2)⟩
      · unfold Carries
        rw [before _ same]
        exact ⟨oldCarries, fun _ => valid⟩
  case shows => exact follows.content.trans steady.shows
  case untouched =>
    intro otherDev otherBlock notTouched
    obtain ⟨shown, onDisk⟩ := steady.untouched otherDev otherBlock notTouched
    refine ⟨shown, follows.untouched ?_ onDisk⟩
    rw [steady.shows, shown]

/-- `bread` returns a buffer with the content of the block, or sleeps because
every buffer of the pool is referenced. -/
theorem bread
    (poolSize : Nat)
    (steady : Steady initial touched content session)
    (dev : Dev) (block : BlockNo) :
    (∃ after id,
      session.invoke poolSize (.bread dev block) = .ok after ∧
      after.handles = ⟨id, dev, block⟩ :: session.handles ∧
      Steady initial touched content after) ∨
    (session.invoke poolSize (.bread dev block) = .error .blocked ∧
      ¬CanCarve poolSize session.state.cache ∧
      ∀ id, id < session.state.cache.cacheCount →
        ∃ handle ∈ session.handles, handle.id = id) := by
  have layout := steady.pool.counted.shape.layout
  have undisturbed : Undisturbed poolSize session.state (.bread 0 dev block) :=
    undisturbed_of_client steady.client (by simp)
  rcases steady.getblk_cases poolSize dev block with
    ⟨id, cache, called, gain⟩ | ⟨called, exhausted, noFree⟩
  · refine .inl ?_
    have carries := gain.carries layout
    have unlocked := steady.gain_unlocked gain
    cases valid : (cache.buffer id).valid with
    | true =>
        have taken : session.state.step poolSize (.bread 0 dev block) =
            .ok ((session.state.setCache cache).giveBuffer 0 id) := by
          simp [State.step, steady.client, called, State.afterGetblk,
            State.breadTail, State.setCache, valid]
        have paused := steady.gained gain
          (.of_step steady.pool undisturbed (fun _ => rfl) taken)
          rfl rfl (fun _ _ => rfl) carries
        have client : ((session.state.setCache cache).giveBuffer 0 id).pc 0 =
            .client := by
          simp [State.giveBuffer, State.setPc]
        have heldAfter :
            ((session.state.setCache cache).giveBuffer 0 id).held 0 =
              id :: session.state.held 0 := by
          simp [State.giveBuffer, State.setCache]
        refine ⟨⟨_, ⟨id, dev, block⟩ :: session.handles⟩, id, ?_, rfl,
          paused.steady client ?_ unlocked ?_ valid⟩
        · simp [Session.invoke, call, taken, complete, client, heldAfter]
        · rw [heldAfter, steady.held, List.map_cons]
        · intro listed
          exact absurd rfl (gain.freeList_other layout listed).1
    | false =>
        let locked := cache.modify id fun buffer =>
          { buffer with lockValue := true }
        have taken : session.state.step poolSize (.bread 0 dev block) =
            .ok ((session.state.setCache locked).setPc 0
              (.readIo id (cache.buffer id).dev (cache.buffer id).block 0)) := by
          simp [State.step, steady.client, called, State.afterGetblk,
            State.breadTail, State.lockAndRead, State.setCache, valid, unlocked,
            locked]
        have follows := Follows.of_step steady.pool undisturbed
          (fun _ => rfl) taken
        have paused := steady.gained gain follows rfl rfl
          (fun other different => by
            simp [State.setPc, State.setCache, locked, PageCache.modify,
              different])
          (by
            unfold Carries
            simp only [State.setPc, State.setCache, locked,
              PageCache.modify_buffer_self]
            exact carries)
        obtain ⟨after, completed, ended, heldAfter, free⟩ := complete_read
          poolSize follows.pool (State.setPc_pc_self _ _ _)
        have heldAll : after.held 0 = id :: session.state.held 0 := heldAfter
        refine ⟨⟨after, ⟨id, dev, block⟩ :: session.handles⟩, id, ?_, rfl,
          paused.ended ended ?_ free⟩
        · simp [Session.invoke, call, taken, completed, heldAll]
        · rw [heldAll, steady.held, List.map_cons]
  · refine .inr ⟨?_, exhausted, ?_⟩
    · simp [Session.invoke, call, State.step, steady.client, called,
        State.afterGetblk, complete, State.setPc]
    · intro id carved
      have referenced : (session.state.cache.buffer id).count ≠ 0 := by
        intro unreferenced
        have listed := steady.pool.counted.unused id carved unreferenced
        simp [noFree] at listed
      rw [steady.pool.counted.counted id carved] at referenced
      have holds : id ∈ session.state.held 0 := by
        by_contra absent
        refine referenced ?_
        simp [State.references, State.refsOf, steady.client, Pc.promised,
          List.count_eq_zero.mpr absent]
      rw [steady.held] at holds
      obtain ⟨handle, present, same⟩ := List.mem_map.mp holds
      exact ⟨handle, present, same⟩

end Steady

/-- A call that returns leaves the session steady, with the content of the flat
disk after the call. -/
theorem Steady.invoke
    {session after : Session}
    (steady : Steady initial touched content session)
    {call : Call}
    (returned : session.invoke poolSize call = .ok after) :
    Steady initial
      (fun dev block => touched dev block ∨ call.StoresTo dev block)
      (content.apply call) after := by
  have noStore {dev : Dev} {block : BlockNo} :
      (touched dev block ∨ False) = touched dev block := by simp
  cases call with
  | bread dev block =>
      simp only [Call.StoresTo, noStore]
      rcases steady.bread poolSize dev block with
        ⟨result, _, called, _, steadyAfter⟩ | ⟨blocked, _⟩
      · rw [called] at returned
        cases returned
        exact steadyAfter
      · simp [blocked] at returned
  | store handle data =>
      by_cases present : handle ∈ session.handles
      · obtain ⟨result, called, steadyAfter⟩ :=
          steady.store poolSize present data
        rw [called] at returned
        cases returned
        exact steadyAfter
      · simp [Session.invoke, present] at returned
  | bwrite handle =>
      simp only [Call.StoresTo, noStore]
      by_cases present : handle ∈ session.handles
      · obtain ⟨result, called, steadyAfter⟩ :=
          steady.bwrite poolSize present
        rw [called] at returned
        cases returned
        exact steadyAfter
      · simp [Session.invoke, present] at returned
  | brelse handle =>
      simp only [Call.StoresTo, noStore]
      by_cases present : handle ∈ session.handles
      · obtain ⟨result, called, steadyAfter⟩ :=
          steady.brelse poolSize present
        rw [called] at returned
        cases returned
        exact steadyAfter
      · simp [Session.invoke, present] at returned

/-- A session that runs to its end is steady, with the content of the flat disk
after the same calls. -/
theorem Steady.run
    {session final : Session}
    (steady : Steady initial touched content session)
    (calls : List Call)
    (ran : System.run (Session.invoke poolSize) session calls = .ok final) :
    Steady initial
      (fun dev block => touched dev block ∨
        ∃ call ∈ calls, call.StoresTo dev block)
      (calls.foldl Content.apply content) final := by
  induction calls generalizing session touched content with
  | nil =>
      cases ran
      simpa using steady
  | cons call rest inductionHypothesis =>
      rw [System.run] at ran
      cases returned : session.invoke poolSize call with
      | ok after =>
          rw [returned] at ran
          have steadyAfter := inductionHypothesis (steady.invoke returned) ran
          simpa [or_assoc] using steadyAfter
      | error fault =>
          rw [returned] at ran
          cases ran

end Calls

/-- A session begins steady. -/
theorem Booted.steady (booted : Booted state) :
    Steady state.cache.disk (fun _ _ => False)
      state.cache.disk.readBlock ⟨state, []⟩ where
  pool := booted.coherentPool
  client := booted.pc 0
  unlocked := by simp [booted.cacheCount]
  clean := by simp [booted.freeList]
  held := by simp [booted.held]
  valid := by simp
  shows := by
    funext dev block
    exact PageCache.content_eq_disk booted.shape.layout
      (by simp [booted.cacheCount])
  untouched := fun _ _ _ => ⟨rfl, rfl⟩

/-- After any session from boot, for any pool and any disk, `bread` returns the
data last stored in the block, or the initial data if there was no store; it
sleeps only if the pool is exhausted and every buffer is referenced.  The other
calls return on any referenced buffer, every referenced buffer shows the content
of its block, and a block without a store is unchanged on the disk. -/
theorem session_refines_flatDisk
    {poolSize : Nat} {start : State 1} (booted : Booted start)
    {calls : List Call} {session : Session}
    (ran : System.run (Session.invoke poolSize) ⟨start, []⟩ calls =
      .ok session) :
    let content := calls.foldl Content.apply start.cache.disk.readBlock
    (∀ dev block,
      (∃ after id,
        session.invoke poolSize (.bread dev block) = .ok after ∧
        after.handles = ⟨id, dev, block⟩ :: session.handles ∧
        (after.state.cache.buffer id).data = content dev block) ∨
      (session.invoke poolSize (.bread dev block) = .error .blocked ∧
        ¬CanCarve poolSize session.state.cache ∧
        ∀ id, id < session.state.cache.cacheCount →
          ∃ handle ∈ session.handles, handle.id = id)) ∧
    (∀ handle ∈ session.handles,
      (session.state.cache.buffer handle.id).data =
        content handle.dev handle.block ∧
      (∀ data, (session.invoke poolSize (.store handle data)).isOk) ∧
      (session.invoke poolSize (.bwrite handle)).isOk ∧
      (session.invoke poolSize (.brelse handle)).isOk) ∧
    ∀ dev block, (∀ call ∈ calls, ¬call.StoresTo dev block) →
      session.state.cache.disk.readBlock dev block =
        start.cache.disk.readBlock dev block := by
  have steady := booted.steady.run calls ran
  have isOk {result : Except Fault Session} {after : Session}
      (returned : result = .ok after) : result.isOk := by
    rw [returned]
    rfl
  refine ⟨?_, ?_, ?_⟩
  · intro dev block
    rcases steady.bread poolSize dev block with
      ⟨after, id, called, handles, steadyAfter⟩ | blocked
    · refine .inl ⟨after, id, called, handles, ?_⟩
      exact steadyAfter.data_eq (by rw [handles]; exact List.mem_cons_self)
    · exact .inr blocked
  · intro handle present
    obtain ⟨_, written, _⟩ := steady.bwrite poolSize present
    obtain ⟨_, released, _⟩ := steady.brelse poolSize present
    refine ⟨steady.data_eq present, fun data => ?_, isOk written, isOk released⟩
    obtain ⟨_, stored, _⟩ := steady.store poolSize present data
    exact isOk stored
  · intro dev block untouched
    refine (steady.untouched dev block ?_).2
    rintro (impossible | ⟨call, present, stores⟩)
    · exact impossible
    · exact untouched call present stores

/-- Calls that change a block and have it evicted from a pool of two. -/
def evictChangedBlock : List Call :=
  [.bread 1 10, .store ⟨0, 1, 10⟩ (fun _ _ => 7), .brelse ⟨0, 1, 10⟩,
   .bread 1 11, .bread 1 12, .brelse ⟨1, 1, 11⟩]

/-- After the eviction, reading the changed block again returns the change. -/
theorem session_refines_flatDisk_evicted :
    ∃ session after : Session, ∃ id,
      System.run (Session.invoke twoBuffers) ⟨blankBoot 1, []⟩
        evictChangedBlock = .ok session ∧
      findInChain session.state.cache 1 10 = none ∧
      session.invoke twoBuffers (.bread 1 10) = .ok after ∧
      (after.state.cache.buffer id).data = fun _ _ => 7 := by
  have ran : System.endsIn (fun session =>
      decide (findInChain session.state.cache 1 10 = none) &&
        (session.invoke twoBuffers (.bread 1 10)).isOk)
      (System.run (Session.invoke twoBuffers) ⟨blankBoot 1, []⟩
        evictChangedBlock) = true := by
    decide +kernel
  cases outcome : System.run (Session.invoke twoBuffers) ⟨blankBoot 1, []⟩
      evictChangedBlock with
  | error fault =>
      rw [outcome] at ran
      cases ran
  | ok session =>
      rw [outcome, System.endsIn, Bool.and_eq_true] at ran
      obtain ⟨evicted, isOk⟩ := ran
      rcases (session_refines_flatDisk (blankBoot_booted 1) outcome).1 1 10 with
        ⟨after, id, called, _, data⟩ | ⟨blocked, _⟩
      · exact ⟨session, after, id, rfl, of_decide_eq_true evicted, called, data⟩
      · rw [blocked] at isOk
        cases isOk

end Cache
end LightOS
