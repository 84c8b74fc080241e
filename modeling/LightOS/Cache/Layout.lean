import LightOS.Cache.Buffer

/-!
# Layout of the buffer pool

Every carved buffer is linked into exactly one hash chain, the one its block
hashes to, and the free list names carved buffers only, each once.  Under this
invariant the assertions of the hash functions hold, and `getblk` is described
by three plain updates of the pool: a hit, a carved buffer and a recycled one.
-/

namespace LightOS
namespace Cache

variable {id : Nat} {dev : Dev} {block : BlockNo} {poolSize : Nat}

namespace PageCache

variable (cache : PageCache) (change : Buffer → Buffer)

@[simp] theorem modify_buffer_self (id : Nat) :
    (cache.modify id change).buffer id = change (cache.buffer id) := by
  simp [modify]

theorem modify_buffer_other {other : Nat} (different : other ≠ id) :
    (cache.modify id change).buffer other = cache.buffer other := by
  simp [modify, different]

@[simp] theorem modify_freeList (id : Nat) :
    (cache.modify id change).freeList = cache.freeList := rfl

@[simp] theorem modify_hashTable (id : Nat) :
    (cache.modify id change).hashTable = cache.hashTable := rfl

@[simp] theorem modify_disk (id : Nat) :
    (cache.modify id change).disk = cache.disk := rfl

@[simp] theorem modify_cacheCount (id : Nat) :
    (cache.modify id change).cacheCount = cache.cacheCount := rfl

end PageCache

/-- A buffer carries a block. -/
def Carries (cache : PageCache) (id : Nat) (dev : Dev) (block : BlockNo) : Prop :=
  (cache.buffer id).dev = dev ∧ (cache.buffer id).block = block

/-- Every carved buffer is in exactly the chain of its block, and the free list
names carved buffers without repetition. -/
structure Layout (cache : PageCache) : Prop where
  chainNodup : ∀ index, (cache.hashTable index).Nodup
  chained : ∀ index id, id ∈ cache.hashTable index ↔
    id < cache.cacheCount ∧
      hash (cache.buffer id).dev (cache.buffer id).block = index
  freeNodup : cache.freeList.Nodup
  freeCarved : ∀ id ∈ cache.freeList, id < cache.cacheCount

/-- No two carved buffers carry the same block. -/
def Unique (cache : PageCache) : Prop :=
  ∀ left right, left < cache.cacheCount → right < cache.cacheCount →
    (cache.buffer left).dev = (cache.buffer right).dev →
    (cache.buffer left).block = (cache.buffer right).block → left = right

/-- The pool still has room for a structure and its data area. -/
def CanCarve (poolSize : Nat) (cache : PageCache) : Prop :=
  cache.cacheCount * sizeofCache + sizeofCache <
    poolSize - blockSize - cache.cacheCount * blockSize

instance (poolSize : Nat) (cache : PageCache) :
    Decidable (CanCarve poolSize cache) :=
  inferInstanceAs (Decidable (_ < _))

/-- The pool after a hit on a buffer. -/
def retain (cache : PageCache) (id : Nat) : PageCache :=
  ({ cache with freeList := cache.freeList.erase id }).modify id fun buffer =>
    { buffer with count := buffer.count + 1 }

/-- The pool after a block was put into a newly carved buffer. -/
def carve (cache : PageCache) (dev : Dev) (block : BlockNo) : PageCache :=
  let id := cache.cacheCount
  { cache with
    cacheCount := cache.cacheCount + 1
    buffer := Function.update cache.buffer id
      { data := (cache.buffer id).data
        dev := dev
        block := block
        count := 1
        lockValue := false
        lockWaiters := []
        dirty := false
        valid := false }
    hashTable := Function.update cache.hashTable (hash dev block)
      (id :: cache.hashTable (hash dev block)) }

/-- The pool after a block was put into a buffer taken from the end of the free
list. -/
def recycle
    (cache : PageCache) (id : Nat) (dev : Dev) (block : BlockNo) : PageCache :=
  let old := hash (cache.buffer id).dev (cache.buffer id).block
  let removed :=
    Function.update cache.hashTable old ((cache.hashTable old).erase id)
  { cache with
    freeList := cache.freeList.dropLast
    buffer := Function.update cache.buffer id
      { cache.buffer id with
        valid := false
        count := 1
        dev := dev
        block := block }
    hashTable := Function.update removed (hash dev block)
      (id :: removed (hash dev block)) }

namespace Layout

variable {cache : PageCache}

/-- A lookup succeeds only with a carved buffer that carries the block. -/
theorem of_findInChain (layout : Layout cache) (found : findInChain cache dev block = some id) :
    id < cache.cacheCount ∧ Carries cache id dev block := by
  have present := List.mem_of_find?_eq_some found
  have matching := List.find?_some found
  exact ⟨((layout.chained _ _).mp present).1, by simpa [Carries] using matching⟩

/-- A lookup fails only when no carved buffer carries the block. -/
theorem findInChain_eq_none (layout : Layout cache) (missing : findInChain cache dev block = none)
    (carved : id < cache.cacheCount) : ¬Carries cache id dev block := by
  rintro ⟨sameDev, sameBlock⟩
  have present : id ∈ cache.hashTable (hash dev block) :=
    (layout.chained _ _).mpr ⟨carved, by rw [sameDev, sameBlock]⟩
  have := List.find?_eq_none.mp missing id present
  simp [sameDev, sameBlock] at this

/-- With at most one buffer for each block, a lookup finds the buffer that
carries the block. -/
theorem findInChain_eq_some (layout : Layout cache) (unique : Unique cache)
    (carved : id < cache.cacheCount) (carries : Carries cache id dev block) :
    findInChain cache dev block = some id := by
  cases found : findInChain cache dev block with
  | none => exact absurd carries (layout.findInChain_eq_none found carved)
  | some other =>
      obtain ⟨otherCarved, otherCarries⟩ := layout.of_findInChain found
      have same : other = id :=
        unique other id otherCarved carved
          (otherCarries.1.trans carries.1.symm)
          (otherCarries.2.trans carries.2.symm)
      rw [same]

/-- The last buffer of the free list is carved. -/
theorem of_getLast (layout : Layout cache) (last : cache.freeList.getLast? = some id) :
    id < cache.cacheCount :=
  layout.freeCarved id (List.mem_of_getLast? last)

/-- Changing a buffer without its block keeps the layout. -/
theorem modify
    (layout : Layout cache)
    (id : Nat)
    (change : Buffer → Buffer)
    (sameDev : (change (cache.buffer id)).dev = (cache.buffer id).dev)
    (sameBlock : (change (cache.buffer id)).block = (cache.buffer id).block) :
    Layout (cache.modify id change) where
  chainNodup := layout.chainNodup
  chained := by
    intro index other
    rw [PageCache.modify_hashTable, layout.chained]
    by_cases same : other = id
    · subst same
      simp [sameDev, sameBlock]
    · rw [cache.modify_buffer_other change same]
      rfl
  freeNodup := layout.freeNodup
  freeCarved := layout.freeCarved

/-- Changing the devices keeps the layout. -/
theorem setDisk
    (layout : Layout cache) (disk : Disk) :
    Layout { cache with disk := disk } :=
  ⟨layout.chainNodup, layout.chained, layout.freeNodup, layout.freeCarved⟩

/-- Publishing a carved buffer keeps the layout. -/
theorem publish (layout : Layout cache) (carved : id < cache.cacheCount)
    (unlisted : id ∉ cache.freeList) : Layout { cache with freeList := id :: cache.freeList } where
  chainNodup := layout.chainNodup
  chained := layout.chained
  freeNodup := List.nodup_cons.mpr ⟨unlisted, layout.freeNodup⟩
  freeCarved := by
    intro other present
    rcases List.mem_cons.mp present with rfl | listed
    · exact carved
    · exact layout.freeCarved other listed

theorem retain
    (layout : Layout cache) (id : Nat) :
    Layout (retain cache id) := by
  have erased : Layout { cache with freeList := cache.freeList.erase id } :=
    ⟨layout.chainNodup, layout.chained, layout.freeNodup.erase id,
      fun other present => layout.freeCarved other (List.mem_of_mem_erase present)⟩
  exact erased.modify id _ rfl rfl

theorem carve
    (layout : Layout cache) (dev : Dev) (block : BlockNo) :
    Layout (carve cache dev block) where
  chainNodup := by
    intro index
    by_cases same : index = hash dev block
    · subst same
      simp only [Cache.carve, Function.update_self, List.nodup_cons]
      refine ⟨fun present => ?_, layout.chainNodup _⟩
      exact absurd ((layout.chained _ _).mp present).1 (Nat.lt_irrefl _)
    · simp only [Cache.carve, Function.update_of_ne same]
      exact layout.chainNodup _
  chained := by
    intro index other
    have present := layout.chained index other
    simp only [Cache.carve, Function.update_apply]
    by_cases same : other = cache.cacheCount
    · subst same
      by_cases sameIndex : index = hash dev block
      · simp [sameIndex]
      · simp [sameIndex, Ne.symm sameIndex, present]
    · by_cases sameIndex : index = hash dev block
      · subst sameIndex
        simp only [if_true, List.mem_cons, same, false_or, present, if_false]
        omega
      · simp only [sameIndex, if_false, present, same]
        omega
  freeNodup := layout.freeNodup
  freeCarved := fun id present => Nat.lt_succ_of_lt (layout.freeCarved id present)

theorem recycle (layout : Layout cache) (carved : id < cache.cacheCount) (dev : Dev)
    (block : BlockNo) :
    Layout (recycle cache id dev block) where
  chainNodup := by
    intro index
    have erasedNodup := (layout.chainNodup
      (hash (cache.buffer id).dev (cache.buffer id).block)).erase id
    have absent : id ∉ (cache.hashTable (hash (cache.buffer id).dev
        (cache.buffer id).block)).erase id :=
      (layout.chainNodup _).not_mem_erase
    simp only [Cache.recycle, Function.update_apply]
    by_cases same : index = hash dev block
    · subst same
      simp only [if_true, List.nodup_cons]
      by_cases old : hash dev block =
          hash (cache.buffer id).dev (cache.buffer id).block
      · simp only [old, if_true]
        exact ⟨absent, erasedNodup⟩
      · simp only [old, if_false]
        refine ⟨fun present => ?_, layout.chainNodup _⟩
        exact old ((layout.chained _ _).mp present).2.symm
    · simp only [same, if_false]
      split
      · exact erasedNodup
      · exact layout.chainNodup _
  chained := by
    intro index other
    have present := layout.chained index other
    have nodup := layout.chainNodup
      (hash (cache.buffer id).dev (cache.buffer id).block)
    simp only [Cache.recycle, Function.update_apply]
    by_cases same : other = id
    · subst same
      by_cases sameIndex : index = hash dev block
      · simp [sameIndex, carved]
      · simp only [sameIndex, if_false, if_true, carved, true_and]
        constructor
        · intro member
          split at member
          · exact absurd member (List.Nodup.not_mem_erase nodup)
          · rename_i notOld
            exact absurd (present.mp member).2.symm notOld
        · exact fun equal => absurd equal.symm sameIndex
    · by_cases sameIndex : index = hash dev block
      · subst sameIndex
        simp only [if_true, List.mem_cons, same, false_or, if_false]
        split
        · rename_i old
          rw [List.mem_erase_of_ne same, ← old, present]
        · rw [present]
      · simp only [sameIndex, if_false, same]
        split
        · rename_i old
          rw [List.mem_erase_of_ne same, ← old, present]
        · rw [present]
  freeNodup := layout.freeNodup.sublist (List.dropLast_sublist _)
  freeCarved := fun other present =>
    layout.freeCarved other ((List.dropLast_sublist _).subset present)

end Layout

/-- `getblk` on a block that is in the hash table. -/
theorem getblk_hit (poolSize : Nat) (cache : PageCache)
    (found : findInChain cache dev block = some id) :
    getblk poolSize cache dev block = .ok (.buffer id (retain cache id)) := by
  simp [getblk, getFromHashTable, found, retain]

/-- `getblk` on a block that is not in the hash table. -/
theorem getblk_miss (poolSize : Nat) (cache : PageCache)
    (missing : findInChain cache dev block = none) :
    getblk poolSize cache dev block =
      acquireFree poolSize cache dev block := by
  simp [getblk, getFromHashTable, missing]

/-- While the pool has room, a free buffer is carved from it. -/
theorem acquireFree_carve {cache : PageCache} (layout : Layout cache)
    (room : CanCarve poolSize cache) (dev : Dev) (block : BlockNo) :
    acquireFree poolSize cache dev block =
      .ok (.buffer cache.cacheCount (carve cache dev block)) := by
  have absent : cache.cacheCount ∉ cache.hashTable (hash dev block) := by
    intro present
    exact absurd ((layout.chained _ _).mp present).1 (Nat.lt_irrefl _)
  unfold CanCarve at room
  simp [acquireFree, getFreeCache, getNewCache, room, claim, hashLocate,
    PageCache.modify, PageCache.setChain, check, absent, carve]

/-- With the pool exhausted and no buffer released, the caller sleeps. -/
theorem acquireFree_asleep {cache : PageCache} (exhausted : ¬CanCarve poolSize cache)
    (noFree : cache.freeList.getLast? = none) (dev : Dev) (block : BlockNo) :
    acquireFree poolSize cache dev block = .ok .asleep := by
  unfold CanCarve at exhausted
  simp [acquireFree, getFreeCache, getNewCache, exhausted, noFree]

/-- With the pool exhausted, the buffer released longest ago is recycled,
provided that the assertions of `getblk` hold of it. -/
theorem acquireFree_recycle {cache : PageCache} (layout : Layout cache)
    (exhausted : ¬CanCarve poolSize cache) (last : cache.freeList.getLast? = some id) (dev : Dev)
    (block : BlockNo) :
    acquireFree poolSize cache dev block =
      if (cache.buffer id).count = 0 ∧ (cache.buffer id).dirty = false then
        .ok (.buffer id (recycle cache id dev block))
      else
        .error .assertion := by
  have carved := layout.of_getLast last
  have present : id ∈ cache.hashTable
      (hash (cache.buffer id).dev (cache.buffer id).block) :=
    (layout.chained _ _).mpr ⟨carved, rfl⟩
  have absent : id ∉ Function.update cache.hashTable
      (hash (cache.buffer id).dev (cache.buffer id).block)
      ((cache.hashTable
        (hash (cache.buffer id).dev (cache.buffer id).block)).erase id)
      (hash dev block) := by
    rw [Function.update_apply]
    split
    · exact List.Nodup.not_mem_erase (layout.chainNodup _)
    · rename_i notOld
      exact fun member => notOld ((layout.chained _ _).mp member).2.symm
  unfold CanCarve at exhausted
  by_cases unused : (cache.buffer id).count = 0
  · by_cases clean : (cache.buffer id).dirty = false
    · simp [acquireFree, getFreeCache, getNewCache, exhausted, last,
        hashRemove, check, present, claim, hashLocate, PageCache.modify,
        PageCache.setChain, unused, clean, absent, recycle]
    · simp [acquireFree, getFreeCache, getNewCache, exhausted, last,
        hashRemove, check, present, claim, PageCache.modify,
        PageCache.setChain, unused, clean]
  · simp [acquireFree, getFreeCache, getNewCache, exhausted, last,
      hashRemove, check, present, claim, PageCache.modify,
      PageCache.setChain, unused]

/-- The ways in which `getblk` obtains a buffer after a failed lookup, or goes
to sleep. -/
theorem acquireFree_cases {cache : PageCache} (layout : Layout cache) {result : Acquired}
    (acquired : acquireFree poolSize cache dev block = .ok result) :
    (result = .asleep ∧ cache.freeList.getLast? = none) ∨
    (CanCarve poolSize cache ∧
      result = .buffer cache.cacheCount (carve cache dev block)) ∨
    (∃ id, cache.freeList.getLast? = some id ∧ id < cache.cacheCount ∧
      ¬CanCarve poolSize cache ∧
      (cache.buffer id).count = 0 ∧ (cache.buffer id).dirty = false ∧
      result = .buffer id (recycle cache id dev block)) := by
  by_cases room : CanCarve poolSize cache
  · rw [acquireFree_carve layout room, Except.ok.injEq] at acquired
    exact .inr (.inl ⟨room, acquired.symm⟩)
  · cases last : cache.freeList.getLast? with
    | none =>
        rw [acquireFree_asleep room last, Except.ok.injEq] at acquired
        exact .inl ⟨acquired.symm, rfl⟩
    | some id =>
        rw [acquireFree_recycle layout room last] at acquired
        split at acquired
        · rename_i idle
          rw [Except.ok.injEq] at acquired
          exact .inr (.inr ⟨id, rfl, layout.of_getLast last, room, idle.1,
            idle.2, acquired.symm⟩)
        · simp at acquired

end Cache
end LightOS
