import LightOS.Cache.Recycling

/-!
# Buffers and the disk

A buffer that is valid and clean agrees with the disk.  This holds on every run
in which a buffer is changed only while no request for it is pending, no buffer
with a request pending is taken for another block, and no block gets a second
buffer.  A change made during another task's write is lost: the write clears
`dirty` when it ends.
-/

namespace LightOS
namespace Cache

variable {taskCount poolSize id : Nat} {state before after : State taskCount}
  {label : Label taskCount} {dev : Dev} {block : BlockNo}

/-- A sector of a buffer agrees with the disk. -/
def Agrees (cache : PageCache) (id : Nat) (offset : Fin blockSecs) : Prop :=
  (cache.buffer id).data offset =
    cache.disk (cache.buffer id).dev
      (sectorIndex (cache.buffer id).block offset)

/-- A valid and clean buffer without a pending request holds what the disk
holds. -/
def NoLostUpdate {taskCount : Nat} (state : State taskCount) : Prop :=
  ∀ id, id < state.cache.cacheCount →
    (state.cache.buffer id).valid = true →
    (state.cache.buffer id).dirty = false →
    Quiet state id →
    (state.cache.buffer id).data =
      state.cache.disk.readBlock (state.cache.buffer id).dev
        (state.cache.buffer id).block

/-- A step changes no buffer with a request pending, takes no such buffer for
another block, and inserts no stale block. -/
structure Undisturbed {taskCount : Nat}
    (poolSize : Nat) (state : State taskCount) (label : Label taskCount) :
    Prop where
  store : ∀ task id data, label = .store task id data → Quiet state id
  taken : ∀ id, Takes poolSize state label id → Quiet state id
  fresh : FreshInsert poolSize state label

/-- The buffer that a task is reading into. -/
def Pc.reads? : Pc → Option Nat
  | .readIo id _ _ _ => some id
  | _ => none

/-- The buffer that a task is writing from. -/
def Pc.writes? : Pc → Option Nat
  | .writeIo id _ _ _ _ => some id
  | _ => none

/-- How far a request has come. -/
def Pc.progress? : Pc → Option (Nat × Nat)
  | .readIo id _ _ sector => some (id, sector)
  | .writeIo id _ _ sector _ => some (id, sector)
  | _ => none

/-- The position of a task that is transferring nothing, or has just begun. -/
inductive Pc.Starts (cache : PageCache) : Pc → Prop
  | idle {pc : Pc} : pc.transfer? = none → Starts cache pc
  | reading {id : Nat} {dev : Dev} {block : BlockNo} :
      id < cache.cacheCount →
      (cache.buffer id).valid = false →
      Starts cache (.readIo id dev block 0)
  | writing {id : Nat} {dev : Dev} {block : BlockNo} {releasing : Bool} :
      id < cache.cacheCount →
      (cache.buffer id).dirty = true →
      Starts cache (.writeIo id dev block 0 releasing)

/-- The pool agrees with the disk as far as its flags and the progress of the
requests say. -/
structure Coherent {taskCount : Nat} (state : State taskCount) : Prop where
  dirtyValid : ∀ id, id < state.cache.cacheCount →
    (state.cache.buffer id).dirty = true → (state.cache.buffer id).valid = true
  reading : ∀ task id, (state.pc task).reads? = some id →
    (state.cache.buffer id).dirty = false
  exclusive : ∀ reader writer id, (state.pc reader).reads? = some id →
    (state.pc writer).writes? ≠ some id
  writing : ∀ task id, (state.pc task).writes? = some id →
    (state.cache.buffer id).valid = true
  moved : ∀ task id sector, (state.pc task).progress? = some (id, sector) →
    ∀ offset : Fin blockSecs, offset.val < sector →
      Agrees state.cache id offset
  clean : ∀ id, id < state.cache.cacheCount →
    (state.cache.buffer id).valid = true →
    (state.cache.buffer id).dirty = false →
    ∀ offset, Agrees state.cache id offset

/-- Two buffers have the same content and flags. -/
structure SameContent (before after : Buffer) : Prop where
  data : after.data = before.data
  dev : after.dev = before.dev
  block : after.block = before.block
  dirty : after.dirty = before.dirty
  valid : after.valid = before.valid

section Positions

variable {pc : Pc}

theorem Pc.transfer?_of_reads? (reads : pc.reads? = some id) :
    ∃ dev block, pc.transfer? = some (id, dev, block) := by
  cases pc <;> simp_all [Pc.reads?, Pc.transfer?]

theorem Pc.transfer?_of_writes? (writes : pc.writes? = some id) :
    ∃ dev block, pc.transfer? = some (id, dev, block) := by
  cases pc <;> simp_all [Pc.writes?, Pc.transfer?]

theorem Pc.transfer?_of_progress? {sector : Nat}
    (progress : pc.progress? = some (id, sector)) :
    ∃ dev block, pc.transfer? = some (id, dev, block) := by
  cases pc <;> simp_all [Pc.progress?, Pc.transfer?]

theorem Pc.idle_of_transfer? (idle : pc.transfer? = none) :
    pc.reads? = none ∧ pc.writes? = none ∧ pc.progress? = none := by
  cases pc <;> simp_all [Pc.reads?, Pc.writes?, Pc.progress?, Pc.transfer?]

end Positions

namespace Coherent

/-- Coherence speaks about the content of the buffers and the requests of the
tasks only. -/
theorem congr (coherent : Coherent before)
    (sameCarved : after.cache.cacheCount = before.cache.cacheCount)
    (sameDisk : after.cache.disk = before.cache.disk)
    (content : ∀ id, SameContent (before.cache.buffer id) (after.cache.buffer id))
    (sameReads : ∀ task, (after.pc task).reads? = (before.pc task).reads?)
    (sameWrites : ∀ task, (after.pc task).writes? = (before.pc task).writes?)
    (sameProgress : ∀ task, (after.pc task).progress? = (before.pc task).progress?) :
    Coherent after := by
  have agrees (id : Nat) (offset : Fin blockSecs) :
      Agrees after.cache id offset ↔ Agrees before.cache id offset := by
    unfold Agrees
    rw [(content id).data, (content id).dev, (content id).block, sameDisk]
  constructor
  case dirtyValid =>
    intro id carved
    rw [(content id).dirty, (content id).valid]
    exact coherent.dirtyValid id (sameCarved ▸ carved)
  case reading =>
    intro task id
    rw [sameReads, (content id).dirty]
    exact coherent.reading task id
  case exclusive =>
    intro reader writer id
    rw [sameReads, sameWrites]
    exact coherent.exclusive reader writer id
  case writing =>
    intro task id
    rw [sameWrites, (content id).valid]
    exact coherent.writing task id
  case moved =>
    intro task id sector
    rw [sameProgress]
    intro progress offset below
    exact (agrees id offset).mpr
      (coherent.moved task id sector progress offset below)
  case clean =>
    intro id carved
    rw [(content id).valid, (content id).dirty]
    intro valid notDirty offset
    exact (agrees id offset).mpr
      (coherent.clean id (sameCarved ▸ carved) valid notDirty offset)

/-- A task that leaves the pool alone may start a read of a buffer that is not
valid, or a write of a dirty one. -/
theorem start (coherent : Coherent before) (sameCache : after.cache = before.cache)
    (task : Fin taskCount) (others : ∀ other, other ≠ task → after.pc other = before.pc other)
    (starts : (after.pc task).Starts before.cache) : Coherent after := by
  have reading (other : Fin taskCount) (id : Nat)
      (reads : (after.pc other).reads? = some id) :
      (before.pc other).reads? = some id ∨
        id < before.cache.cacheCount ∧
          (before.cache.buffer id).valid = false := by
    by_cases same : other = task
    · subst same
      generalize after.pc other = pc at starts reads
      cases starts with
      | idle idle => simp [(Pc.idle_of_transfer? idle).1] at reads
      | reading carved invalid =>
          cases reads
          exact .inr ⟨carved, invalid⟩
      | writing _ _ => cases reads
    · exact .inl (others other same ▸ reads)
  have writing (other : Fin taskCount) (id : Nat)
      (writes : (after.pc other).writes? = some id) :
      (before.pc other).writes? = some id ∨
        id < before.cache.cacheCount ∧
          (before.cache.buffer id).dirty = true := by
    by_cases same : other = task
    · subst same
      generalize after.pc other = pc at starts writes
      cases starts with
      | idle idle => simp [(Pc.idle_of_transfer? idle).2.1] at writes
      | reading _ _ => cases writes
      | writing carved dirty =>
          cases writes
          exact .inr ⟨carved, dirty⟩
    · exact .inl (others other same ▸ writes)
  have cleanRead (other : Fin taskCount) (id : Nat)
      (reads : (after.pc other).reads? = some id) :
      (before.cache.buffer id).dirty = false := by
    rcases reading other id reads with old | ⟨carved, invalid⟩
    · exact coherent.reading other id old
    · by_contra dirty
      have valid := coherent.dirtyValid id carved (by simpa using dirty)
      simp [invalid] at valid
  have validWrite (other : Fin taskCount) (id : Nat)
      (writes : (after.pc other).writes? = some id) :
      (before.cache.buffer id).valid = true := by
    rcases writing other id writes with old | ⟨carved, dirty⟩
    · exact coherent.writing other id old
    · exact coherent.dirtyValid id carved dirty
  constructor
  case dirtyValid =>
    rw [sameCache]
    exact coherent.dirtyValid
  case reading =>
    rw [sameCache]
    exact cleanRead
  case exclusive =>
    intro reader writer id reads writes
    rcases reading reader id reads with oldReads | ⟨_, invalid⟩
    · rcases writing writer id writes with oldWrites | ⟨_, dirty⟩
      · exact coherent.exclusive reader writer id oldReads oldWrites
      · simp [cleanRead reader id reads] at dirty
    · simp [validWrite writer id writes] at invalid
  case writing =>
    rw [sameCache]
    exact validWrite
  case moved =>
    rw [sameCache]
    intro other id sector progress offset below
    by_cases same : other = task
    · subst same
      generalize after.pc other = pc at starts progress
      cases starts with
      | idle idle => simp [(Pc.idle_of_transfer? idle).2.2] at progress
      | reading _ _ =>
          cases progress
          exact absurd below (Nat.not_lt_zero _)
      | writing _ _ =>
          cases progress
          exact absurd below (Nat.not_lt_zero _)
    · rw [others other same] at progress
      exact coherent.moved other id sector progress offset below
  case clean =>
    rw [sameCache]
    exact coherent.clean

/-- Replacing buffers keeps coherence when each is replaced by one of the same
content, or by one that is neither valid nor dirty and has no request. -/
theorem exchange {cache : PageCache} (coherent : Coherent state) (shape : Shape state)
    (sameDisk : cache.disk = state.cache.disk) (each : ∀ id, id < cache.cacheCount →
      (id < state.cache.cacheCount ∧
        SameContent (state.cache.buffer id) (cache.buffer id)) ∨
      (Quiet state id ∧ (cache.buffer id).valid = false ∧
        (cache.buffer id).dirty = false)) (grows : state.cache.cacheCount ≤ cache.cacheCount) :
    Coherent (state.setCache cache) := by
  have busy {task : Fin taskCount} {id : Nat}
      (transfers : ∃ dev block,
        (state.pc task).transfer? = some (id, dev, block)) :
      SameContent (state.cache.buffer id) (cache.buffer id) := by
    obtain ⟨dev, block, transfers⟩ := transfers
    have carved := shape.busy task id (Pc.buffer?_of_transfer? transfers)
    rcases each id (carved.trans_le grows) with ⟨_, same⟩ | ⟨quiet, _⟩
    · exact same
    · exact absurd transfers (quiet task dev block)
  have agrees {id : Nat} {offset : Fin blockSecs}
      (same : SameContent (state.cache.buffer id) (cache.buffer id))
      (agreed : Agrees state.cache id offset) : Agrees cache id offset := by
    unfold Agrees
    rw [same.data, same.dev, same.block, sameDisk]
    exact agreed
  constructor
  case dirtyValid =>
    intro id carved dirty
    change (cache.buffer id).dirty = true at dirty
    rcases each id carved with ⟨old, same⟩ | ⟨_, _, notDirty⟩
    · rw [same.dirty] at dirty
      change (cache.buffer id).valid = true
      rw [same.valid]
      exact coherent.dirtyValid id old dirty
    · simp [notDirty] at dirty
  case reading =>
    intro task id reads
    change (cache.buffer id).dirty = false
    rw [(busy (Pc.transfer?_of_reads? reads)).dirty]
    exact coherent.reading task id reads
  case exclusive => exact coherent.exclusive
  case writing =>
    intro task id writes
    change (cache.buffer id).valid = true
    rw [(busy (Pc.transfer?_of_writes? writes)).valid]
    exact coherent.writing task id writes
  case moved =>
    intro task id sector progress offset below
    exact agrees (busy (Pc.transfer?_of_progress? progress))
      (coherent.moved task id sector progress offset below)
  case clean =>
    intro id carved valid notDirty offset
    change (cache.buffer id).valid = true at valid
    change (cache.buffer id).dirty = false at notDirty
    rcases each id carved with ⟨old, same⟩ | ⟨_, invalid, _⟩
    · rw [same.valid] at valid
      rw [same.dirty] at notDirty
      exact agrees same (coherent.clean id old valid notDirty offset)
    · simp [invalid] at valid

/-- Moving a sector keeps coherence when the flags stay, what agreed still
agrees, and the sector moved agrees. -/
theorem advance (coherent : Coherent before) (shape : Shape before) (task : Fin taskCount)
    (others : ∀ other, other ≠ task → after.pc other = before.pc other)
    (sameReads : (after.pc task).reads? = (before.pc task).reads?)
    (sameWrites : (after.pc task).writes? = (before.pc task).writes?) (id : Nat)
    (moving : Fin blockSecs) (progressBefore : (before.pc task).progress? = some (id, moving.val))
    (progressAfter : (after.pc task).progress? = some (id, moving.val + 1))
    (sameCarved : after.cache.cacheCount = before.cache.cacheCount)
    (sameDirty : ∀ id, (after.cache.buffer id).dirty = (before.cache.buffer id).dirty)
    (sameValid : ∀ id, (after.cache.buffer id).valid = (before.cache.buffer id).valid)
    (kept : ∀ id offset, id < before.cache.cacheCount →
      Agrees before.cache id offset → Agrees after.cache id offset)
    (new : Agrees after.cache id moving) : Coherent after := by
  have readsBefore (other : Fin taskCount) :
      (after.pc other).reads? = (before.pc other).reads? := by
    by_cases same : other = task
    · rw [same, sameReads]
    · rw [others other same]
  have writesBefore (other : Fin taskCount) :
      (after.pc other).writes? = (before.pc other).writes? := by
    by_cases same : other = task
    · rw [same, sameWrites]
    · rw [others other same]
  have carvedOf (other : Fin taskCount) (kept sector : Nat)
      (progress : (before.pc other).progress? = some (kept, sector)) :
      kept < before.cache.cacheCount := by
    obtain ⟨_, _, transfers⟩ := Pc.transfer?_of_progress? progress
    exact shape.busy other kept (Pc.buffer?_of_transfer? transfers)
  constructor
  case dirtyValid =>
    intro other carved
    rw [sameDirty, sameValid]
    exact coherent.dirtyValid other (sameCarved ▸ carved)
  case reading =>
    intro other kept
    rw [sameDirty, readsBefore]
    exact coherent.reading other kept
  case exclusive =>
    intro reader writer kept
    rw [readsBefore, writesBefore]
    exact coherent.exclusive reader writer kept
  case writing =>
    intro other kept
    rw [sameValid, writesBefore]
    exact coherent.writing other kept
  case moved =>
    intro other found sector progress offset below
    by_cases same : other = task
    · subst same
      rw [progressAfter, Option.some.injEq, Prod.mk.injEq] at progress
      obtain ⟨rfl, rfl⟩ := progress
      by_cases last : offset = moving
      · subst last
        exact new
      · have earlier : offset.val < moving.val := by
          have differs : offset.val ≠ moving.val := fun equal =>
            last (Fin.ext equal)
          omega
        exact kept id offset (carvedOf other id _ progressBefore)
          (coherent.moved other id _ progressBefore offset earlier)
    · rw [others other same] at progress
      exact kept found offset (carvedOf other found _ progress)
        (coherent.moved other found sector progress offset below)
  case clean =>
    intro other carved
    rw [sameDirty, sameValid]
    intro valid notDirty offset
    rw [sameCarved] at carved
    exact kept other offset carved
      (coherent.clean other carved valid notDirty offset)

/-- A request that has moved every sector may end by marking its buffer valid
and clean. -/
theorem finish (coherent : Coherent before) (task : Fin taskCount)
    (others : ∀ other, other ≠ task → after.pc other = before.pc other)
    (idle : (after.pc task).transfer? = none) (id : Nat)
    (progress : (before.pc task).progress? = some (id, blockSecs))
    (sameCarved : after.cache.cacheCount = before.cache.cacheCount)
    (sameDisk : after.cache.disk = before.cache.disk)
    (updated : after.cache.buffer = Function.update before.cache.buffer id
      { before.cache.buffer id with dirty := false, valid := true }) : Coherent after := by
  have agrees (other : Nat) (offset : Fin blockSecs) :
      Agrees after.cache other offset ↔ Agrees before.cache other offset := by
    unfold Agrees
    rw [updated, sameDisk]
    by_cases same : other = id
    · subst same
      simp
    · simp [same]
  have flags (other : Nat) :
      (other = id ∧ (after.cache.buffer other).dirty = false ∧
        (after.cache.buffer other).valid = true) ∨
      (other ≠ id ∧
        after.cache.buffer other = before.cache.buffer other) := by
    rw [updated]
    by_cases same : other = id
    · subst same
      simp
    · simp [same]
  obtain ⟨noReads, noWrites, noProgress⟩ := Pc.idle_of_transfer? idle
  have readsOld (other : Fin taskCount) (kept : Nat)
      (reads : (after.pc other).reads? = some kept) :
      (before.pc other).reads? = some kept := by
    by_cases same : other = task
    · simp [same, noReads] at reads
    · exact others other same ▸ reads
  have writesOld (other : Fin taskCount) (kept : Nat)
      (writes : (after.pc other).writes? = some kept) :
      (before.pc other).writes? = some kept := by
    by_cases same : other = task
    · simp [same, noWrites] at writes
    · exact others other same ▸ writes
  constructor
  case dirtyValid =>
    intro other carved dirty
    rcases flags other with ⟨_, notDirty, _⟩ | ⟨_, same⟩
    · simp [notDirty] at dirty
    · rw [same] at dirty ⊢
      exact coherent.dirtyValid other (sameCarved ▸ carved) dirty
  case reading =>
    intro other kept reads
    rcases flags kept with ⟨_, notDirty, _⟩ | ⟨_, same⟩
    · exact notDirty
    · rw [same]
      exact coherent.reading other kept (readsOld other kept reads)
  case exclusive =>
    intro reader writer kept reads writes
    exact coherent.exclusive reader writer kept (readsOld reader kept reads)
      (writesOld writer kept writes)
  case writing =>
    intro other kept writes
    rcases flags kept with ⟨_, _, valid⟩ | ⟨_, same⟩
    · exact valid
    · rw [same]
      exact coherent.writing other kept (writesOld other kept writes)
  case moved =>
    intro other kept sector reached offset below
    rw [agrees]
    by_cases same : other = task
    · simp [same, noProgress] at reached
    · rw [others other same] at reached
      exact coherent.moved other kept sector reached offset below
  case clean =>
    intro other carved valid notDirty offset
    rw [agrees]
    rcases flags other with ⟨rfl, _, _⟩ | ⟨_, same⟩
    · exact coherent.moved task other blockSecs progress offset offset.isLt
    · rw [same] at valid notDirty
      exact coherent.clean other (sameCarved ▸ carved) valid notDirty offset

/-- A valid buffer without a pending request may be changed and marked dirty. -/
theorem store (coherent : Coherent state) (quiet : Quiet state id)
    (valid : (state.cache.buffer id).valid = true) (data : Data) :
    Coherent (state.setCache (state.cache.modify id fun buffer =>
      { buffer with data := data, dirty := true })) := by
  have busy {task : Fin taskCount} {kept : Nat}
      (transfers : ∃ dev block,
        (state.pc task).transfer? = some (kept, dev, block)) :
      kept ≠ id := by
    rintro rfl
    obtain ⟨dev, block, transfers⟩ := transfers
    exact quiet task dev block transfers
  have buffers (other : Nat) (different : other ≠ id) :
      (state.setCache (state.cache.modify id fun buffer =>
        { buffer with data := data, dirty := true })).cache.buffer other =
          state.cache.buffer other := by
    simp [State.setCache, PageCache.modify, different]
  have agrees (other : Nat) (offset : Fin blockSecs) (different : other ≠ id)
      (agreed : Agrees state.cache other offset) :
      Agrees (state.setCache (state.cache.modify id fun buffer =>
        { buffer with data := data, dirty := true })).cache other offset := by
    unfold Agrees
    rw [buffers other different]
    exact agreed
  constructor
  case dirtyValid =>
    intro other carved dirty
    by_cases same : other = id
    · subst same
      simp [State.setCache, valid]
    · rw [buffers other same] at dirty ⊢
      exact coherent.dirtyValid other carved dirty
  case reading =>
    intro task kept reads
    rw [buffers kept (busy (Pc.transfer?_of_reads? reads))]
    exact coherent.reading task kept reads
  case exclusive => exact coherent.exclusive
  case writing =>
    intro task kept writes
    rw [buffers kept (busy (Pc.transfer?_of_writes? writes))]
    exact coherent.writing task kept writes
  case moved =>
    intro task kept sector progress offset below
    exact agrees kept offset (busy (Pc.transfer?_of_progress? progress))
      (coherent.moved task kept sector progress offset below)
  case clean =>
    intro other carved isValid notDirty offset
    by_cases same : other = id
    · subst same
      simp [State.setCache] at notDirty
    · rw [buffers other same] at isValid notDirty
      exact agrees other offset same
        (coherent.clean other carved isValid notDirty offset)

end Coherent

/-- Sectors of blocks are numbered apart. -/
theorem sectorIndex_inj
    {left right : BlockNo} {leftOffset rightOffset : Fin blockSecs}
    (same : sectorIndex left leftOffset = sectorIndex right rightOffset) :
    left = right ∧ leftOffset = rightOffset := by
  have leftBound : leftOffset.val < 2 := leftOffset.isLt
  have rightBound : rightOffset.val < 2 := rightOffset.isLt
  have sum : left.val * 2 + leftOffset.val = right.val * 2 + rightOffset.val :=
    same
  exact ⟨Fin.ext (by omega), Fin.ext (by omega)⟩

@[simp] theorem Disk.writeSector_self
    (disk : Disk) (dev : Dev) (index : Nat) (sector : Sector) :
    disk.writeSector dev index sector dev index = sector := by
  simp [Disk.writeSector]

theorem Disk.writeSector_other (disk : Disk) {otherDev : Dev} {index otherIndex : Nat}
    (sector : Sector) (different : ¬(otherDev = dev ∧ otherIndex = index)) :
    disk.writeSector dev index sector otherDev otherIndex =
      disk otherDev otherIndex := by
  unfold Disk.writeSector
  by_cases sameDev : otherDev = dev
  · subst sameDev
    have differs : otherIndex ≠ index := fun same => different ⟨rfl, same⟩
    simp [differs]
  · simp [sameDev]

/-- Writing a sector of a buffer to its block makes it agree. -/
theorem agrees_writeSector {cache : PageCache} (unique : Unique cache)
    (carved : id < cache.cacheCount) (offset : Fin blockSecs) {other : Nat}
    (otherCarved : other < cache.cacheCount) (otherOffset : Fin blockSecs)
    (agreed : Agrees cache other otherOffset ∨ other = id ∧ otherOffset = offset) :
    Agrees { cache with
      disk := cache.disk.writeSector (cache.buffer id).dev
        (sectorIndex (cache.buffer id).block offset)
        ((cache.buffer id).data offset) } other otherOffset := by
  unfold Agrees
  dsimp only
  by_cases written : (cache.buffer other).dev = (cache.buffer id).dev ∧
      sectorIndex (cache.buffer other).block otherOffset =
        sectorIndex (cache.buffer id).block offset
  · obtain ⟨sameDev, sameIndex⟩ := written
    obtain ⟨sameBlock, rfl⟩ := sectorIndex_inj sameIndex
    have same : other = id := unique other id otherCarved carved sameDev sameBlock
    subst same
    simp
  · rw [Disk.writeSector_other _ _ written]
    rcases agreed with agreed | ⟨rfl, rfl⟩
    · exact agreed
    · exact absurd ⟨rfl, rfl⟩ written

/-- Reading a sector of its block into a buffer makes it agree. -/
theorem agrees_readSector {cache : PageCache} (carries : Carries cache id dev block)
    (offset : Fin blockSecs) (other : Nat) (otherOffset : Fin blockSecs)
    (agreed : Agrees cache other otherOffset ∨ other = id ∧ otherOffset = offset) :
    Agrees (cache.modify id fun buffer =>
      { buffer with
        data := Function.update buffer.data offset
          (cache.disk dev (sectorIndex block offset)) }) other otherOffset := by
  unfold Agrees
  by_cases same : other = id
  · subst same
    rw [PageCache.modify_buffer_self]
    dsimp only
    by_cases sameOffset : otherOffset = offset
    · subst sameOffset
      rw [Function.update_self, carries.1, carries.2]
      rfl
    · rw [Function.update_of_ne sameOffset]
      exact agreed.resolve_right fun both => sameOffset both.2
  · rw [cache.modify_buffer_other _ same]
    exact agreed.resolve_right fun both => same both.1

/-- Gaining a buffer leaves the disk alone. -/
theorem Gain.sameDisk {cache after : PageCache} (gain : Gain poolSize cache dev block id after) :
    after.disk = cache.disk := by
  cases gain <;> rfl

/-- A gained buffer keeps its content, or is neither valid nor dirty. -/
theorem Gain.content {cache after : PageCache} (gain : Gain poolSize cache dev block id after) :
    after = retain cache id ∨
      (after.buffer id).valid = false ∧ (after.buffer id).dirty = false := by
  cases gain with
  | hit _ => exact .inl rfl
  | carved _ => exact .inr (by simp [carve])
  | recycled _ _ _ notDirty => exact .inr (by simp [recycle, notDirty])

/-- Coherence, the books of the pool, distinct blocks and matched requests
together carry over any undisturbed step. -/
structure CoherentPool {taskCount : Nat} (state : State taskCount) : Prop where
  counted : Counted state
  unique : Unique state.cache
  matched : Matched state
  coherent : Coherent state

namespace CoherentPool

/-- Gaining a buffer keeps the pool coherent. -/
theorem gain {task : Fin taskCount} {cache : PageCache} (pool : CoherentPool state)
    (quiet : ∀ id, Takes poolSize state label id → Quiet state id)
    (enters : Enters state label task dev block)
    (gain : Gain poolSize state.cache dev block id cache)
    (looked : Looked label state.cache dev block id cache) : Coherent (state.setCache cache) := by
  have shape := pool.counted.shape
  have grows := (gain.carved_after shape.layout).2
  refine pool.coherent.exchange shape gain.sameDisk ?_ grows
  intro other carved
  by_cases same : other = id
  · subst same
    rcases gain.content with rfl | ⟨invalid, notDirty⟩
    · refine .inl ⟨carved, ?_⟩
      rw [retain, PageCache.modify_buffer_self]
      exact ⟨rfl, rfl, rfl, rfl, rfl⟩
    · rcases enters.found_or_takes gain looked with ⟨_, rfl⟩ | takes
      · refine .inl ⟨carved, ?_⟩
        rw [retain, PageCache.modify_buffer_self]
        exact ⟨rfl, rfl, rfl, rfl, rfl⟩
      · exact .inr ⟨quiet other takes, invalid, notDirty⟩
  · refine .inl ⟨gain.carved_before same carved, ?_⟩
    rw [gain.buffer_other same]
    exact ⟨rfl, rfl, rfl, rfl, rfl⟩

/-- Serving a buffer at most starts to read it. -/
theorem served_starts {task : Fin taskCount} (carved : id < state.cache.cacheCount)
    (served : State.Served state task id after) : (after.pc task).Starts state.cache := by
  cases served with
  | given => exact .idle (by simp [State.giveBuffer, State.setPc, Pc.transfer?])
  | sleeping => exact .idle (by simp [State.setPc, Pc.transfer?])
  | reading invalid =>
      simpa [State.setPc] using Pc.Starts.reading carved invalid

/-- Changing the count of a buffer keeps the pool coherent. -/
theorem recount (pool : CoherentPool state) (id count : Nat) :
    Coherent (state.setCache (state.cache.modify id fun buffer =>
      { buffer with count := count })) := by
  refine pool.coherent.exchange pool.counted.shape rfl ?_ le_rfl
  intro other carved
  refine .inl ⟨carved, ?_⟩
  by_cases same : other = id
  · subst same
    rw [PageCache.modify_buffer_self]
    exact ⟨rfl, rfl, rfl, rfl, rfl⟩
  · rw [PageCache.modify_buffer_other _ _ same]
    exact ⟨rfl, rfl, rfl, rfl, rfl⟩

/-- Publishing a buffer on the free list keeps the pool coherent. -/
theorem published (pool : CoherentPool state) (task : Fin taskCount) (id : Nat) :
    Coherent (state.published task id) := by
  have recounted := pool.recount id ((state.cache.buffer id).count - 1)
  exact ⟨recounted.dirtyValid, recounted.reading, recounted.exclusive,
    recounted.writing, recounted.moved, recounted.clean⟩

/-- Every undisturbed step keeps the pool coherent. -/
theorem coherent_effect (pool : CoherentPool before)
    (undisturbed : Undisturbed poolSize before label)
    (effect : Effect poolSize before label after) : Coherent after := by
  have shape := pool.counted.shape
  have coherent := pool.coherent
  cases effect with
  | @asleep _ task _ _ _ _ =>
      refine coherent.start rfl task (by simp +contextual [State.setPc]) ?_
      exact .idle (by simp [State.setPc, Pc.transfer?])
  | @acquired _ task dev block id cache _ enters gain looked served =>
      have gained := pool.gain undisturbed.taken enters gain looked
      have carved := (gain.carved_after shape.layout).1
      exact gained.start served.cache_eq task
        (fun other different => (served.others other different).2)
        (served_starts carved served)
  | @relock task id _ place served =>
      have carved := shape.busy task id (by simp [place, Pc.buffer?])
      exact coherent.start served.cache_eq task
        (fun other different => (served.others other different).2)
        (served_starts carved served)
  | @readSector task id dev block offset place =>
      have carries := pool.matched task id dev block (by simp [place, Pc.transfer?])
      refine coherent.advance shape task
        (by simp +contextual [State.setPc, State.setCache])
        (by simp [State.setPc, place, Pc.reads?])
        (by simp [State.setPc, place, Pc.writes?]) id offset
        (by simp [place, Pc.progress?])
        (by simp [State.setPc, Pc.progress?]) rfl ?_ ?_ ?_ ?_
      · intro other
        by_cases same : other = id
        · subst same
          simp [State.setPc, State.setCache]
        · simp [State.setPc, State.setCache, PageCache.modify, same]
      · intro other
        by_cases same : other = id
        · subst same
          simp [State.setPc, State.setCache]
        · simp [State.setPc, State.setCache, PageCache.modify, same]
      · intro other otherOffset _ agreed
        exact agrees_readSector carries offset other otherOffset (.inl agreed)
      · exact agrees_readSector carries offset id offset (.inr ⟨rfl, rfl⟩)
  | @writeSector task id dev block offset releasing place =>
      have carries := pool.matched task id dev block (by simp [place, Pc.transfer?])
      have carved := shape.busy task id (by simp [place, Pc.buffer?])
      obtain ⟨rfl, rfl⟩ := carries
      refine coherent.advance shape task
        (by simp +contextual [State.setPc, State.setCache])
        (by simp [State.setPc, place, Pc.reads?])
        (by simp [State.setPc, place, Pc.writes?]) id offset
        (by simp [place, Pc.progress?])
        (by simp [State.setPc, Pc.progress?]) rfl
        (fun _ => rfl) (fun _ => rfl) ?_ ?_
      · intro other otherOffset otherCarved agreed
        exact agrees_writeSector pool.unique carved offset otherCarved
          otherOffset (.inl agreed)
      · exact agrees_writeSector pool.unique carved offset carved offset
          (.inr ⟨rfl, rfl⟩)
  | @finishRead task id dev block place =>
      refine coherent.finish task ?_ ?_ id
        (by simp [place, Pc.progress?]) rfl rfl rfl
      · simp +contextual [State.giveBuffer, State.setPc, State.setCache]
      · simp [State.giveBuffer, State.setPc, Pc.transfer?]
  | @finishWrite task id dev block releasing place =>
      refine coherent.finish task ?_ ?_ id
        (by simp [place, Pc.progress?]) rfl rfl rfl
      · simp +contextual [State.toClient, State.setPc, State.setCache]
      · simp [State.toClient, State.setPc, Pc.transfer?]
  | @store task id data _ _ valid =>
      exact coherent.store (undisturbed.store task id data rfl) valid data
  | writeClean _ => exact coherent
  | @writeDirty task id _ holds dirty =>
      refine coherent.start rfl task (by simp +contextual [State.setPc]) ?_
      have carved := shape.held task id holds
      simpa [State.setPc] using Pc.Starts.writing carved dirty
  | @releaseShared task id _ _ _ =>
      have recounted := pool.recount id ((before.cache.buffer id).count - 1)
      exact ⟨recounted.dirtyValid, recounted.reading, recounted.exclusive,
        recounted.writing, recounted.moved, recounted.clean⟩
  | @releaseClean task id _ _ _ _ _ => exact pool.published task id
  | @releaseDirty task id _ holds _ dirty _ =>
      have carved := shape.held task id holds
      refine (pool.published task id).start rfl task
        (by simp +contextual [State.published, State.setPc]) ?_
      have stillDirty :
          ((before.published task id).cache.buffer id).dirty = true := by
        simp [State.published, State.setCache, dirty]
      have carvedAfter : id < (before.published task id).cache.cacheCount := carved
      simpa [State.setPc] using Pc.Starts.writing carvedAfter stillDirty

/-- An undisturbed step keeps the coherent pool. -/
theorem effect (pool : CoherentPool before) (undisturbed : Undisturbed poolSize before label)
    (effect : Effect poolSize before label after) :
    CoherentPool after where
  counted := pool.counted.effect effect
  unique := pool.unique.effect pool.counted.shape.layout undisturbed.fresh effect
  matched := pool.matched.effect pool.counted.shape.layout undisturbed.taken effect
  coherent := pool.coherent_effect undisturbed effect

/-- A coherent pool loses no update. -/
theorem noLostUpdate (pool : CoherentPool state) : NoLostUpdate state := by
  intro id carved valid notDirty _
  funext offset
  exact pool.coherent.clean id carved valid notDirty offset

end CoherentPool

section View

@[simp] theorem Pc.reads?_forget (pc : Pc) : pc.forget.reads? = pc.reads? := by
  cases pc <;> rfl

@[simp] theorem Pc.writes?_forget (pc : Pc) :
    pc.forget.writes? = pc.writes? := by
  cases pc <;> rfl

@[simp] theorem Pc.progress?_forget (pc : Pc) :
    pc.forget.progress? = pc.progress? := by
  cases pc <;> rfl

theorem Coherent.view (coherent : Coherent state) : Coherent state.view :=
  coherent.congr rfl rfl (fun _ => ⟨rfl, rfl, rfl, rfl, rfl⟩)
    (fun task => (state.pc task).reads?_forget)
    (fun task => (state.pc task).writes?_forget)
    (fun task => (state.pc task).progress?_forget)

theorem Coherent.of_view (coherent : Coherent state.view) : Coherent state :=
  coherent.congr rfl rfl (fun _ => ⟨rfl, rfl, rfl, rfl, rfl⟩)
    (fun task => (state.pc task).reads?_forget.symm)
    (fun task => (state.pc task).writes?_forget.symm)
    (fun task => (state.pc task).progress?_forget.symm)

theorem CoherentPool.view (pool : CoherentPool state) :
    CoherentPool state.view :=
  ⟨pool.counted.view, pool.unique, pool.matched.view, pool.coherent.view⟩

theorem CoherentPool.of_view (pool : CoherentPool state.view) :
    CoherentPool state :=
  ⟨pool.counted.of_view, pool.unique, pool.matched.of_view,
    pool.coherent.of_view⟩

theorem Undisturbed.view (undisturbed : Undisturbed poolSize state label) :
    Undisturbed poolSize state.view label where
  store := fun task id data isStore =>
    (undisturbed.store task id data isStore).view
  taken := fun id takes => (undisturbed.taken id takes.of_view).view
  fresh := freshInsert_view undisturbed.fresh

theorem Booted.coherentPool (booted : Booted state) : CoherentPool state where
  counted := booted.counted
  unique := booted.unique
  matched := by simp [Matched, booted.pc, Pc.transfer?]
  coherent := by
    constructor <;>
      simp [booted.cacheCount, booted.pc, Pc.reads?, Pc.writes?, Pc.progress?]

end View

/-- On every run from boot whose steps are all undisturbed, no state has lost
an update. -/
theorem noLostUpdate_of_undisturbed
    {taskCount poolSize : Nat}
    {start final : State taskCount}
    {trace : List (State taskCount × Label taskCount)}
    (booted : Booted start)
    (path : (interleavings taskCount poolSize).Path start trace final)
    (obeys : System.Obeys (Undisturbed poolSize) trace) :
    System.Visits NoLostUpdate trace final := by
  refine path.visits_of_obeys CoherentPool
    booted.coherentPool ?_ (fun _ pool => pool.noLostUpdate) obeys
  intro before label after pool undisturbed taken
  exact (pool.view.effect undisturbed.view
    (step_effect pool.counted.shape.layout taken)).of_view

/-- Two tasks hold a buffer; one writes it, and the other changes it while the
first waits for the disk. -/
def storeDuringWrite : List (Label 2) :=
  [.bread 0 1 10, .transfer 0, .transfer 0, .finish 0, .bread 1 1 10,
   .store 0 0 (fun _ _ => 7), .bwrite 0 0, .transfer 0, .transfer 0,
   .store 1 0 (fun _ _ => 9), .finish 0]

/-- A change made while another task's write is waiting for the disk is left
unwritten, and the buffer is marked clean. -/
theorem noLostUpdate_fails :
    ¬∀ (taskCount poolSize : Nat) (start final : State taskCount)
      (trace : List (State taskCount × Label taskCount)),
      Booted start →
      (interleavings taskCount poolSize).Path start trace final →
      NoLostUpdate final := by
  intro always
  obtain ⟨trace, final, path, lost⟩ := System.Path.of_run
    (interleavings 2 twoBuffers) (State.step twoBuffers)
    (fun _ _ _ taken => taken) (blankBoot 2) storeDuringWrite
    (fun final =>
      decide (final.cache.cacheCount = 1 ∧
        (final.cache.buffer 0).valid = true ∧
        (final.cache.buffer 0).dirty = false ∧
        (∀ task, (final.pc task).transfer? = none) ∧
        (final.cache.buffer 0).data 0 0 = 9 ∧
        final.cache.disk.readBlock (final.cache.buffer 0).dev
          (final.cache.buffer 0).block 0 0 = 7))
    (by decide +kernel)
  obtain ⟨carved, valid, notDirty, idle, changed, onDisk⟩ :=
    of_decide_eq_true lost
  have quiet : Quiet final 0 := by
    intro task dev block
    simp [idle task]
  have same := always 2 twoBuffers _ _ _ (blankBoot_booted 2) path 0
    (by omega) valid notDirty quiet
  rw [same, onDisk] at changed
  exact absurd changed (by decide)

/-- Steps that are undisturbed because no request at all is pending when a
buffer is changed or a block looked up. -/
def calm {taskCount : Nat} (state : State taskCount) :
    Label taskCount → Bool
  | .store _ _ _ => decide (∀ task, (state.pc task).transfer? = none)
  | .getblk _ _ _ => decide (∀ task, (state.pc task).transfer? = none)
  | .bread _ _ _ => decide (∀ task, (state.pc task).transfer? = none)
  | .resume _ => false
  | _ => true

theorem undisturbed_of_calm (isCalm : calm state label = true) :
    Undisturbed poolSize state label := by
  have quiet (id : Nat) (idle : ∀ task, (state.pc task).transfer? = none) :
      Quiet state id := by
    intro task dev block
    simp [idle task]
  constructor
  · rintro task id data rfl
    exact quiet id (of_decide_eq_true isCalm)
  · intro id takes
    cases takes with
    | getblk _ _ => exact quiet id (of_decide_eq_true isCalm)
    | bread _ _ => exact quiet id (of_decide_eq_true isCalm)
    | resume _ _ => cases isCalm
  · cases label with
    | resume task => cases isCalm
    | _ => trivial

/-- Two tasks change a buffer in turn, each before it writes the buffer. -/
theorem noLostUpdate_of_undisturbed_turns :
    ∃ trace final,
      (interleavings 2 twoBuffers).Path (blankBoot 2) trace final ∧
      final.cache.disk 1 (sectorIndex 10 0) 0 = 9 ∧
      System.Visits NoLostUpdate trace final := by
  obtain ⟨trace, final, path, obeys, written⟩ := System.Path.of_run_within
    (interleavings 2 twoBuffers) (Undisturbed twoBuffers)
    (fun state label =>
      if calm state label then state.step twoBuffers label
      else .error .misuse)
    (by
      intro before label after taken
      split at taken
      · rename_i isCalm
        exact ⟨undisturbed_of_calm isCalm, taken⟩
      · cases taken)
    (blankBoot 2)
    [.bread 0 1 10, .transfer 0, .transfer 0, .finish 0,
      .bread 1 1 10, .store 0 0 (fun _ _ => 7), .bwrite 0 0, .transfer 0,
      .transfer 0, .finish 0, .store 1 0 (fun _ _ => 9), .bwrite 1 0,
      .transfer 1, .transfer 1, .finish 1]
    (fun final =>
      decide (final.cache.disk 1 (sectorIndex 10 0) 0 = 9))
    (by decide +kernel)
  exact ⟨trace, final, path, of_decide_eq_true written,
    noLostUpdate_of_undisturbed (blankBoot_booted 2) path obeys⟩

end Cache
end LightOS
