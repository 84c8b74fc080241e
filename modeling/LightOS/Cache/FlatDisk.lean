import LightOS.Cache.Coherence

/-!
# The cache as a flat disk

What the pool and the devices hold together is one block of data for each
device and block number: the data of the buffer that carries the block, or what
is on the device.  No undisturbed step changes this content except a store,
which changes the one block that its buffer carries.
-/

namespace LightOS
namespace Cache

variable {taskCount poolSize id : Nat} {state before after : State taskCount}
  {label : Label taskCount} {dev : Dev} {block : BlockNo}

/-- Content of a flat disk: one block of data for each device and number. -/
abbrev Content := Dev → BlockNo → Data

/-- Replace one block of a flat disk. -/
def Content.write
    (content : Content) (dev : Dev) (block : BlockNo) (data : Data) : Content :=
  Function.update content dev (Function.update (content dev) block data)

/-- The flat disk that the pool and the devices represent. -/
def PageCache.content (cache : PageCache) : Content := fun dev block =>
  match findInChain cache dev block with
  | some id =>
      if (cache.buffer id).valid then
        (cache.buffer id).data
      else
        cache.disk.readBlock dev block
  | none => cache.disk.readBlock dev block

@[simp] theorem Content.write_self
    (content : Content) (dev : Dev) (block : BlockNo) (data : Data) :
    content.write dev block data dev block = data := by
  simp [Content.write]

theorem Content.write_other (content : Content) {otherDev : Dev} {otherBlock : BlockNo}
    (data : Data) (different : ¬(otherDev = dev ∧ otherBlock = block)) :
    content.write dev block data otherDev otherBlock =
      content otherDev otherBlock := by
  unfold Content.write
  by_cases sameDev : otherDev = dev
  · subst sameDev
    have differs : otherBlock ≠ block := fun same => different ⟨rfl, same⟩
    simp [differs]
  · simp [sameDev]

namespace PageCache

variable {cache before after : PageCache}

/-- The content of a block that a buffer carries. -/
theorem content_of_carries (layout : Layout cache) (unique : Unique cache)
    (carved : id < cache.cacheCount) (carries : Carries cache id dev block) :
    cache.content dev block =
      if (cache.buffer id).valid then
        (cache.buffer id).data
      else
        cache.disk.readBlock dev block := by
  simp [content, layout.findInChain_eq_some unique carved carries]

/-- The content of a block is on the device when no buffer carries the block,
or one that is not valid or agrees with the device. -/
theorem content_eq_disk
    (layout : Layout cache)
    (agrees : ∀ id, id < cache.cacheCount → Carries cache id dev block →
      (cache.buffer id).valid = true → ∀ offset, Agrees cache id offset) :
    cache.content dev block = cache.disk.readBlock dev block := by
  unfold content
  split
  · rename_i id found
    obtain ⟨carved, carries⟩ := layout.of_findInChain found
    split
    · rename_i valid
      funext offset
      have agreed := agrees id carved carries valid offset
      unfold Agrees at agreed
      rw [agreed, carries.1, carries.2]
      rfl
    · rfl
  · rfl

/-- Two pools with the same lookups have the same content of a block, when the
buffer found and the device show the same. -/
theorem content_congr
    (sameFound : findInChain after dev block = findInChain before dev block)
    (sameShown : ∀ id, findInChain before dev block = some id →
      (after.buffer id).valid = (before.buffer id).valid ∧
        ((before.buffer id).valid = true →
          (after.buffer id).data = (before.buffer id).data))
    (sameDisk : after.disk.readBlock dev block =
      before.disk.readBlock dev block) :
    after.content dev block = before.content dev block := by
  unfold content
  rw [sameFound, sameDisk]
  split
  · rename_i id found
    obtain ⟨sameValid, sameData⟩ := sameShown id found
    rw [sameValid]
    split
    · rename_i valid
      exact sameData valid
    · rfl
  · rfl

/-- Changing a buffer without its block keeps all lookups. -/
theorem findInChain_modify
    (cache : PageCache) (id : Nat) (change : Buffer → Buffer)
    (sameDev : (change (cache.buffer id)).dev = (cache.buffer id).dev)
    (sameBlock : (change (cache.buffer id)).block = (cache.buffer id).block)
    (dev : Dev) (block : BlockNo) :
    findInChain (cache.modify id change) dev block =
      findInChain cache dev block := by
  unfold findInChain
  rw [modify_hashTable]
  congr 1
  funext other
  have updated : (cache.modify id change).buffer =
      Function.update cache.buffer id (change (cache.buffer id)) := rfl
  have carries := carries_of_update updated sameDev sameBlock other dev block
  unfold Carries at carries
  simp [carries]

/-- Changing a buffer without its block keeps the content of the blocks that it
does not carry, and of its own when it shows the same there. -/
theorem content_modify (layout : Layout cache) (id : Nat) (change : Buffer → Buffer)
    (sameDev : (change (cache.buffer id)).dev = (cache.buffer id).dev)
    (sameBlock : (change (cache.buffer id)).block = (cache.buffer id).block)
    (shown : Carries cache id dev block →
      (change (cache.buffer id)).valid = (cache.buffer id).valid ∧
        ((cache.buffer id).valid = true →
          (change (cache.buffer id)).data = (cache.buffer id).data)) :
    (cache.modify id change).content dev block = cache.content dev block := by
  refine content_congr
    (findInChain_modify cache id change sameDev sameBlock dev block) ?_ rfl
  intro found isFound
  by_cases same : found = id
  · subst same
    rw [modify_buffer_self]
    exact shown (layout.of_findInChain isFound).2
  · rw [cache.modify_buffer_other _ same]
    exact ⟨rfl, fun _ => rfl⟩

end PageCache

section Steps

/-- A buffer taken for another block was clean. -/
theorem Gain.retained_or_clean {cache after : PageCache}
    (gain : Gain poolSize cache dev block id after) :
    after = retain cache id ∨
      (after.buffer id).valid = false ∧
        (id < cache.cacheCount → (cache.buffer id).dirty = false) := by
  cases gain with
  | hit _ => exact .inl rfl
  | carved _ =>
      exact .inr ⟨by simp [carve], fun below => absurd below (Nat.lt_irrefl _)⟩
  | recycled _ _ _ clean => exact .inr ⟨by simp [recycle], fun _ => clean⟩

/-- Gaining a buffer changes no content. -/
theorem CoherentPool.content_gain {cache : PageCache} (pool : CoherentPool state)
    (gain : Gain poolSize state.cache dev block id cache)
    (fresh : findInChain state.cache dev block = none ∨
      findInChain state.cache dev block = some id) :
    cache.content = state.cache.content := by
  have layout := pool.counted.shape.layout
  have layoutAfter := layout.gain gain
  have uniqueAfter := pool.unique.gain layout gain fresh
  have grows := (gain.carved_after layout).2
  funext otherDev otherBlock
  rcases gain.retained_or_clean with rfl | ⟨invalid, clean⟩
  · have erased : Layout { state.cache with
        freeList := state.cache.freeList.erase id } :=
      ⟨layout.chainNodup, layout.chained, layout.freeNodup.erase id,
        fun other present =>
          layout.freeCarved other (List.mem_of_mem_erase present)⟩
    exact PageCache.content_modify erased id _ rfl rfl
      fun _ => ⟨rfl, fun _ => rfl⟩
  · by_cases elsewhere : ∃ other, other < state.cache.cacheCount ∧
        other ≠ id ∧ Carries state.cache other otherDev otherBlock
    · obtain ⟨other, carved, different, carries⟩ := elsewhere
      have sameBuffer := gain.buffer_other different
      have carriesAfter : Carries cache other otherDev otherBlock := by
        unfold Carries
        rw [sameBuffer]
        exact carries
      rw [PageCache.content_of_carries layoutAfter uniqueAfter
          (carved.trans_le grows) carriesAfter,
        PageCache.content_of_carries layout pool.unique carved carries,
        sameBuffer, gain.sameDisk]
    · have onDisk : state.cache.content otherDev otherBlock =
          state.cache.disk.readBlock otherDev otherBlock := by
        refine PageCache.content_eq_disk layout ?_
        intro other carved carries valid
        by_cases same : other = id
        · subst same
          exact pool.coherent.clean other carved valid (clean carved)
        · exact absurd ⟨other, carved, same, carries⟩ elsewhere
      have onDiskAfter : cache.content otherDev otherBlock =
          cache.disk.readBlock otherDev otherBlock := by
        refine PageCache.content_eq_disk layoutAfter ?_
        intro other carved carries valid
        by_cases same : other = id
        · subst same
          simp [invalid] at valid
        · unfold Carries at carries
          rw [gain.buffer_other same] at carries
          exact absurd ⟨other, gain.carved_before same carved, same, carries⟩
            elsewhere
      rw [onDisk, onDiskAfter, gain.sameDisk]

namespace CoherentPool

/-- Reading a sector into a buffer changes no content. -/
theorem content_readSector {task : Fin taskCount} {offset : Fin blockSecs}
    (pool : CoherentPool state) (place : state.pc task = .readIo id dev block offset.val) :
    (state.cache.modify id fun buffer =>
      { buffer with
        data := Function.update buffer.data offset
          (state.cache.disk dev (sectorIndex block offset)) }).content =
      state.cache.content := by
  have carries := pool.matched task id dev block (by simp [place, Pc.transfer?])
  have carved := pool.counted.shape.busy task id (by simp [place, Pc.buffer?])
  have notDirty := pool.coherent.reading task id (by simp [place, Pc.reads?])
  funext otherDev otherBlock
  refine PageCache.content_modify pool.counted.shape.layout id _ rfl rfl ?_
  intro _
  refine ⟨rfl, fun valid => ?_⟩
  have agrees := pool.coherent.clean id carved valid notDirty offset
  unfold Agrees at agrees
  rw [carries.1, carries.2] at agrees
  dsimp only
  rw [← agrees, Function.update_eq_self]

/-- Writing a sector of a buffer to its block changes no content. -/
theorem content_writeSector {task : Fin taskCount} {offset : Fin blockSecs} {releasing : Bool}
    (pool : CoherentPool state)
    (place : state.pc task = .writeIo id dev block offset.val releasing) :
    ({ state.cache with
      disk := state.cache.disk.writeSector dev (sectorIndex block offset)
        ((state.cache.buffer id).data offset) } : PageCache).content =
      state.cache.content := by
  have layout := pool.counted.shape.layout
  have carries := pool.matched task id dev block (by simp [place, Pc.transfer?])
  have carved := pool.counted.shape.busy task id (by simp [place, Pc.buffer?])
  have valid := pool.coherent.writing task id (by simp [place, Pc.writes?])
  funext otherDev otherBlock
  by_cases own : otherDev = dev ∧ otherBlock = block
  · obtain ⟨rfl, rfl⟩ := own
    rw [PageCache.content_of_carries layout pool.unique carved carries]
    have shown := PageCache.content_of_carries
      (layout.setDisk (state.cache.disk.writeSector otherDev
        (sectorIndex otherBlock offset) ((state.cache.buffer id).data offset)))
      pool.unique carved carries
    rw [shown]
    simp [valid]
  · refine PageCache.content_congr rfl (fun _ _ => ⟨rfl, fun _ => rfl⟩) ?_
    funext otherOffset
    refine Disk.writeSector_other _ _ ?_
    rintro ⟨sameDev, sameIndex⟩
    exact own ⟨sameDev, (sectorIndex_inj sameIndex).1⟩

/-- A finished read changes no content. -/
theorem content_finishRead {task : Fin taskCount} (pool : CoherentPool state)
    (place : state.pc task = .readIo id dev block blockSecs) :
    (state.cache.modify id fun buffer =>
      { buffer with dirty := false, valid := true }).content =
      state.cache.content := by
  have layout := pool.counted.shape.layout
  have carries := pool.matched task id dev block (by simp [place, Pc.transfer?])
  have carved := pool.counted.shape.busy task id (by simp [place, Pc.buffer?])
  have agrees (offset : Fin blockSecs) : Agrees state.cache id offset :=
    pool.coherent.moved task id blockSecs (by simp [place, Pc.progress?])
      offset offset.isLt
  funext otherDev otherBlock
  by_cases own : otherDev = dev ∧ otherBlock = block
  · obtain ⟨rfl, rfl⟩ := own
    have onDisk : state.cache.content otherDev otherBlock =
        state.cache.disk.readBlock otherDev otherBlock := by
      refine PageCache.content_eq_disk layout ?_
      intro other otherCarved otherCarries _
      have same : other = id := pool.unique other id otherCarved carved
        (otherCarries.1.trans carries.1.symm)
        (otherCarries.2.trans carries.2.symm)
      subst same
      exact agrees
    have carriesAfter : Carries (state.cache.modify id fun buffer =>
        { buffer with dirty := false, valid := true }) id
          otherDev otherBlock := by
      unfold Carries
      rw [PageCache.modify_buffer_self]
      exact carries
    rw [onDisk, PageCache.content_of_carries (layout.modify id _ rfl rfl)
      (pool.unique.modify id _ rfl rfl) carved carriesAfter,
      PageCache.modify_buffer_self]
    funext offset
    have agreed := agrees offset
    unfold Agrees at agreed
    simp only [if_true]
    rw [agreed, carries.1, carries.2]
    rfl
  · refine PageCache.content_modify layout id _ rfl rfl ?_
    intro otherCarries
    exact absurd ⟨otherCarries.1.symm.trans carries.1,
      otherCarries.2.symm.trans carries.2⟩ own

/-- A finished write changes no content. -/
theorem content_finishWrite {task : Fin taskCount} {releasing : Bool} (pool : CoherentPool state)
    (place : state.pc task = .writeIo id dev block blockSecs releasing) :
    (state.cache.modify id fun buffer =>
      { buffer with dirty := false, valid := true }).content =
      state.cache.content := by
  have valid := pool.coherent.writing task id (by simp [place, Pc.writes?])
  funext otherDev otherBlock
  refine PageCache.content_modify pool.counted.shape.layout id _ rfl rfl ?_
  exact fun _ => ⟨valid.symm, fun _ => rfl⟩

/-- A store writes the block that its buffer carries. -/
theorem content_store (pool : CoherentPool state) (carved : id < state.cache.cacheCount)
    (valid : (state.cache.buffer id).valid = true) (data : Data) :
    (state.cache.modify id fun buffer =>
      { buffer with data := data, dirty := true }).content =
      state.cache.content.write (state.cache.buffer id).dev
        (state.cache.buffer id).block data := by
  have layout := pool.counted.shape.layout
  funext dev block
  by_cases own : dev = (state.cache.buffer id).dev ∧
      block = (state.cache.buffer id).block
  · obtain ⟨rfl, rfl⟩ := own
    have carriesAfter : Carries (state.cache.modify id fun buffer =>
        { buffer with data := data, dirty := true }) id
          (state.cache.buffer id).dev (state.cache.buffer id).block := by
      unfold Carries
      rw [PageCache.modify_buffer_self]
      exact ⟨rfl, rfl⟩
    rw [PageCache.content_of_carries (layout.modify id _ rfl rfl)
      (pool.unique.modify id _ rfl rfl) carved carriesAfter,
      PageCache.modify_buffer_self, Content.write_self]
    simp [valid]
  · rw [Content.write_other _ _ own]
    refine PageCache.content_modify layout id _ rfl rfl ?_
    rintro ⟨rfl, rfl⟩
    exact absurd ⟨rfl, rfl⟩ own

/-- Changing the count of a buffer changes no content. -/
theorem content_recount
    (pool : CoherentPool state) (id count : Nat) :
    (state.cache.modify id fun buffer =>
      { buffer with count := count }).content = state.cache.content := by
  funext dev block
  exact PageCache.content_modify pool.counted.shape.layout id _ rfl rfl
    fun _ => ⟨rfl, fun _ => rfl⟩

end CoherentPool

/-- What a step does to the flat disk: a store replaces one block. -/
def State.flatStep (state : State taskCount) :
    Label taskCount → Content → Content
  | .store _ id data, content =>
      content.write (state.cache.buffer id).dev
        (state.cache.buffer id).block data
  | _, content => content

/-- Every undisturbed step changes the content as it changes a flat disk. -/
theorem CoherentPool.content_effect (pool : CoherentPool before)
    (undisturbed : Undisturbed poolSize before label)
    (effect : Effect poolSize before label after) :
    after.cache.content = before.flatStep label before.cache.content := by
  cases effect with
  | asleep enters => cases enters <;> rfl
  | acquired enters gain looked served =>
      rw [served.cache_eq]
      refine (pool.content_gain gain
        (looked.fresh enters gain undisturbed.fresh)).trans ?_
      cases enters <;> rfl
  | relock _ served =>
      rw [served.cache_eq]
      rfl
  | readSector place => exact pool.content_readSector place
  | writeSector place => exact pool.content_writeSector place
  | finishRead place => exact pool.content_finishRead place
  | finishWrite place => exact pool.content_finishWrite place
  | @store task id data _ holds valid =>
      exact pool.content_store (pool.counted.shape.held task id holds) valid data
  | writeClean _ => rfl
  | writeDirty _ _ _ => rfl
  | releaseShared _ _ _ => exact pool.content_recount _ _
  | releaseClean _ _ _ _ _ => exact pool.content_recount _ _
  | releaseDirty _ _ _ _ _ => exact pool.content_recount _ _

/-- On undisturbed steps the cache refines the flat disk. -/
theorem CoherentPool.content_step (pool : CoherentPool before)
    (undisturbed : Undisturbed poolSize before label)
    (taken : before.step poolSize label = .ok after) :
    CoherentPool after ∧
      after.cache.content = before.flatStep label before.cache.content := by
  have effect := step_effect pool.counted.shape.layout taken
  refine ⟨(pool.view.effect undisturbed.view effect).of_view, ?_⟩
  have viewed := pool.view.content_effect undisturbed.view effect
  have forget (cache : PageCache) : cache.forget.content = cache.content := rfl
  have sameFlat : before.view.flatStep label = before.flatStep label := by
    cases label <;> rfl
  rw [sameFlat] at viewed
  exact viewed

/-- A step writes nothing to the devices but the content. -/
theorem CoherentPool.disk_effect (pool : CoherentPool before)
    (effect : Effect poolSize before label after) (dev : Dev) (block : BlockNo)
    (offset : Fin blockSecs) :
    after.cache.disk dev (sectorIndex block offset) =
        before.cache.disk dev (sectorIndex block offset) ∨
      after.cache.disk dev (sectorIndex block offset) =
        before.cache.content dev block offset := by
  cases effect with
  | acquired _ gain _ served =>
      rw [served.cache_eq]
      exact .inl (by rw [State.setCache, gain.sameDisk])
  | relock _ served =>
      rw [served.cache_eq]
      exact .inl rfl
  | @writeSector task id dev' block' offset' releasing place =>
      by_cases written : dev = dev' ∧
          sectorIndex block offset = sectorIndex block' offset'
      · obtain ⟨rfl, sameIndex⟩ := written
        obtain ⟨rfl, rfl⟩ := sectorIndex_inj sameIndex
        have carries := pool.matched task id dev block
          (by simp [place, Pc.transfer?])
        have carved := pool.counted.shape.busy task id
          (by simp [place, Pc.buffer?])
        have valid := pool.coherent.writing task id (by simp [place, Pc.writes?])
        refine .inr ?_
        rw [PageCache.content_of_carries pool.counted.shape.layout pool.unique
          carved carries, if_pos valid]
        exact Disk.writeSector_self _ _ _ _
      · exact .inl (Disk.writeSector_other _ _ written)
  | _ => exact .inl rfl

end Steps

end Cache
end LightOS
