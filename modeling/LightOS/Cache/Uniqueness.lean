import LightOS.Cache.Effects

/-!
# At most one buffer for a block

`getblk` looks a block up before it sleeps for a free buffer and inserts it
afterwards without another look.  The buffers of the hash table carry distinct
blocks on exactly those runs in which no woken task takes a buffer for a block
that meanwhile came into another one.
-/

namespace LightOS
namespace Cache

variable {cache : PageCache} {taskCount poolSize id : Nat} {state before after : State taskCount}
  {label : Label taskCount} {dev : Dev} {block : BlockNo}

/-- At most one buffer of the hash table carries a given block. -/
def HashUnique (cache : PageCache) : Prop :=
  ∀ left right leftIndex rightIndex,
    left ∈ cache.hashTable leftIndex →
    right ∈ cache.hashTable rightIndex →
    (cache.buffer left).dev = (cache.buffer right).dev →
    (cache.buffer left).block = (cache.buffer right).block →
    left = right

/-- The buffer that the next turn of `get_free_cache` takes. -/
def freeTarget (poolSize : Nat) (cache : PageCache) : Option Nat :=
  if CanCarve poolSize cache then
    some cache.cacheCount
  else
    cache.freeList.getLast?

/-- A task that goes on in `get_free_cache` takes no buffer for a block that
another buffer of the hash table carries. -/
def FreshInsert {taskCount : Nat}
    (poolSize : Nat) (state : State taskCount) : Label taskCount → Prop
  | .resume task =>
      ∀ dev block reading ready,
        state.pc task = .freeWait dev block reading ready →
        ∀ id, freeTarget poolSize state.cache = some id →
          findInChain state.cache dev block = none ∨
            findInChain state.cache dev block = some id
  | _ => True

theorem Layout.hashUnique_iff (layout : Layout cache) : HashUnique cache ↔ Unique cache := by
  constructor
  · intro hashUnique left right leftCarved rightCarved
    exact hashUnique left right _ _
      ((layout.chained _ _).mpr ⟨leftCarved, rfl⟩)
      ((layout.chained _ _).mpr ⟨rightCarved, rfl⟩)
  · intro unique left right _ _ leftPresent rightPresent
    exact unique left right
      ((layout.chained _ _).mp leftPresent).1
      ((layout.chained _ _).mp rightPresent).1

@[simp] theorem unique_forget (cache : PageCache) :
    Unique cache.forget ↔ Unique cache := Iff.rfl

/-- Changing a buffer without its block keeps the blocks distinct. -/
theorem Unique.modify (unique : Unique cache) (id : Nat) (change : Buffer → Buffer)
    (sameDev : (change (cache.buffer id)).dev = (cache.buffer id).dev)
    (sameBlock : (change (cache.buffer id)).block = (cache.buffer id).block) :
    Unique (cache.modify id change) := by
  have devEq (other : Nat) :
      ((cache.modify id change).buffer other).dev = (cache.buffer other).dev := by
    by_cases same : other = id
    · subst same
      simp [sameDev]
    · rw [cache.modify_buffer_other change same]
  have blockEq (other : Nat) :
      ((cache.modify id change).buffer other).block =
        (cache.buffer other).block := by
    by_cases same : other = id
    · subst same
      simp [sameBlock]
    · rw [cache.modify_buffer_other change same]
  intro left right leftCarved rightCarved
  rw [devEq, devEq, blockEq, blockEq]
  exact unique left right leftCarved rightCarved

/-- Putting a block into a buffer keeps the blocks distinct when no other
buffer carries it. -/
theorem Unique.gain {after : PageCache} (unique : Unique cache) (layout : Layout cache)
    (gain : Gain poolSize cache dev block id after)
    (fresh : findInChain cache dev block = none ∨ findInChain cache dev block = some id) :
    Unique after := by
  have absent {other : Nat} (carved : other < cache.cacheCount)
      (different : other ≠ id) : ¬Carries cache other dev block := by
    intro carries
    have found := layout.findInChain_eq_some unique carved carries
    rcases fresh with missing | same
    · simp [found] at missing
    · exact different (by simpa [found] using same)
  cases gain with
  | hit _ =>
      have erased :
          Unique { cache with freeList := cache.freeList.erase id } := unique
      exact erased.modify id _ rfl rfl
  | carved _ =>
      intro left right leftCarved rightCarved sameDev sameBlock
      simp only [carve, Function.update_apply] at *
      by_cases leftNew : left = cache.cacheCount
      · by_cases rightNew : right = cache.cacheCount
        · rw [leftNew, rightNew]
        · simp only [leftNew, if_true, rightNew, if_false] at sameDev sameBlock
          exact absurd ⟨sameDev.symm, sameBlock.symm⟩
            (absent (by omega) rightNew)
      · by_cases rightNew : right = cache.cacheCount
        · simp only [leftNew, if_false, rightNew, if_true] at sameDev sameBlock
          exact absurd ⟨sameDev, sameBlock⟩ (absent (by omega) leftNew)
        · simp only [leftNew, rightNew, if_false] at sameDev sameBlock
          exact unique left right (by omega) (by omega) sameDev sameBlock
  | recycled _ _ _ _ =>
      intro left right leftCarved rightCarved sameDev sameBlock
      simp only [recycle, Function.update_apply] at *
      by_cases leftNew : left = id
      · by_cases rightNew : right = id
        · rw [leftNew, rightNew]
        · simp only [leftNew, if_true, rightNew, if_false] at sameDev sameBlock
          exact absurd ⟨sameDev.symm, sameBlock.symm⟩
            (absent rightCarved rightNew)
      · by_cases rightNew : right = id
        · simp only [leftNew, if_false, rightNew, if_true] at sameDev sameBlock
          exact absurd ⟨sameDev, sameBlock⟩ (absent leftCarved leftNew)
        · simp only [leftNew, rightNew, if_false] at sameDev sameBlock
          exact unique left right leftCarved rightCarved sameDev sameBlock

/-- A buffer that was gained carries its block. -/
theorem Gain.carries {after : PageCache} (layout : Layout cache)
    (gain : Gain poolSize cache dev block id after) : Carries after id dev block := by
  cases gain with
  | hit found =>
      have carries := (layout.of_findInChain found).2
      simpa [Carries, retain, PageCache.modify] using carries
  | carved _ => simp [Carries, carve]
  | recycled _ _ _ _ => simp [Carries, recycle]

/-- Gaining a buffer leaves the other buffers alone. -/
theorem Gain.buffer_other {after : PageCache} {other : Nat}
    (gain : Gain poolSize cache dev block id after) (different : other ≠ id) :
    after.buffer other = cache.buffer other := by
  cases gain with
  | hit _ => simp [retain, PageCache.modify, different]
  | carved _ => simp [carve, different]
  | recycled _ _ _ _ => simp [recycle, different]

/-- A buffer that was gained was found by the lookup, or taken as a free one. -/
theorem Gain.found_or_target {after : PageCache} (gain : Gain poolSize cache dev block id after) :
    (findInChain cache dev block = some id ∧ after = retain cache id) ∨
      freeTarget poolSize cache = some id := by
  cases gain with
  | hit found => exact .inl ⟨found, rfl⟩
  | carved room => exact .inr (by simp [freeTarget, room])
  | recycled last exhausted _ _ => exact .inr (by simp [freeTarget, exhausted, last])

/-- After a failed lookup the target of `get_free_cache` is what is gained. -/
theorem acquireFree_target (layout : Layout cache) {result : Acquired}
    (target : freeTarget poolSize cache = some id)
    (acquired : acquireFree poolSize cache dev block = .ok result) :
    ∃ after, result = .buffer id after ∧
      Gain poolSize cache dev block id after := by
  unfold freeTarget at target
  by_cases room : CanCarve poolSize cache
  · rw [if_pos room, Option.some.injEq] at target
    subst target
    rw [acquireFree_carve layout room, Except.ok.injEq] at acquired
    exact ⟨_, acquired.symm, .carved room⟩
  · rw [if_neg room] at target
    rcases acquireFree_cases layout acquired with
      ⟨_, noFree⟩ | ⟨canCarve, _⟩ |
        ⟨last, isLast, _, _, unused, clean, recycled⟩
    · simp [noFree] at target
    · exact absurd canCarve room
    · have same : last = id := by simpa [isLast] using target
      subst same
      exact ⟨_, recycled, .recycled isLast room unused clean⟩

theorem freshInsert_view (fresh : FreshInsert poolSize state label) :
    FreshInsert poolSize state.view label := by
  cases label with
  | resume task =>
      intro dev block reading ready place
      cases position : state.pc task with
      | freeWait dev' block' reading' ready' =>
          simp only [State.view, position, Pc.forget, Pc.freeWait.injEq] at place
          obtain ⟨rfl, rfl, rfl, rfl⟩ := place
          exact fresh _ _ _ _ position
      | _ => simp [State.view, position, Pc.forget] at place
  | _ => trivial

theorem Unique.published (unique : Unique state.cache) (task : Fin taskCount) (id : Nat) :
    Unique (state.published task id).cache :=
  unique.modify id (fun buffer => { buffer with count := buffer.count - 1 })
    rfl rfl

/-- A task that is given a buffer for a block by a step that inserts no stale
block is given the only buffer for it. -/
theorem Looked.fresh {task : Fin taskCount} (looked : Looked label state.cache dev block id cache)
    (enters : Enters state label task dev block)
    (gain : Gain poolSize state.cache dev block id cache)
    (fresh : FreshInsert poolSize state label) :
    findInChain state.cache dev block = none ∨
      findInChain state.cache dev block = some id := by
  cases looked with
  | missing missing => exact .inl missing
  | found found => exact .inr found
  | woken isResume =>
      rcases gain.found_or_target with ⟨found, _⟩ | target
      · exact .inr found
      · cases enters with
        | resume place => exact fresh _ _ _ _ place id target
        | getblk _ => cases isResume
        | bread _ => cases isResume

/-- A step that inserts no stale block keeps the blocks distinct. -/
theorem Unique.effect (unique : Unique before.cache) (layout : Layout before.cache)
    (fresh : FreshInsert poolSize before label) (effect : Effect poolSize before label after) :
    Unique after.cache := by
  cases effect with
  | asleep _ => exact unique
  | @acquired _ task dev block id cache _ enters gain looked served =>
      rw [served.cache_eq]
      exact unique.gain layout gain (looked.fresh enters gain fresh)
  | relock _ served =>
      rw [served.cache_eq]
      exact unique
  | readSector _ => exact unique.modify _ _ (by rfl) (by rfl)
  | writeSector _ => exact unique
  | finishRead _ => exact unique.modify _ _ (by rfl) (by rfl)
  | finishWrite _ => exact unique.modify _ _ (by rfl) (by rfl)
  | store _ _ _ => exact unique.modify _ _ (by rfl) (by rfl)
  | writeClean _ => exact unique
  | writeDirty _ _ _ => exact unique
  | releaseShared _ _ _ => exact unique.modify _ _ (by rfl) (by rfl)
  | releaseClean _ _ _ _ _ => exact unique.published _ _
  | @releaseDirty task id _ _ _ _ _ => exact unique.published task id

/-- Going on after `getblk` keeps the pool that `getblk` left. -/
theorem State.afterGetblk_cache (state : State taskCount) (task : Fin taskCount) (dev : Dev)
    (block : BlockNo) (reading : Bool) (id : Nat) (cache : PageCache) :
    (state.afterGetblk task dev block reading (.buffer id cache)).view.cache =
      cache.forget := by
  unfold afterGetblk
  dsimp only
  split
  · exact ((state.setCache cache).breadTail_served task id).cache_eq
  · rw [view_giveBuffer]
    rfl

/-- A woken task that inserts a stale block gives it a second buffer. -/
theorem stale_insert (layout : Layout before.cache) (stale : ¬FreshInsert poolSize before label)
    (taken : before.step poolSize label = .ok after) : ¬Unique after.cache := by
  cases label with
  | resume task =>
      simp only [FreshInsert, not_forall, not_or] at stale
      obtain ⟨dev, block, reading, ready, place, id, target, present, differs⟩ :=
        stale
      obtain ⟨other, found⟩ := Option.ne_none_iff_exists'.mp present
      have different : other ≠ id := fun same => differs (by rw [found, same])
      obtain ⟨otherCarved, otherCarries⟩ := layout.of_findInChain found
      cases ready with
      | false => simp [State.step, State.resume, place] at taken
      | true =>
          simp only [State.step, State.resume, place, bind_eq_ok, pure_eq_ok,
            Except.ok.injEq] at taken
          obtain ⟨acquired, called, rfl⟩ := taken
          obtain ⟨cache, rfl, gain⟩ := acquireFree_target layout target called
          have carries := gain.carries layout
          have kept := gain.buffer_other different
          obtain ⟨carved, grows⟩ := gain.carved_after layout
          have cacheEq := before.afterGetblk_cache task dev block reading id cache
          intro unique
          have viewed : Unique cache := by
            rw [← unique_forget, ← cacheEq]
            exact unique
          refine different (viewed other id (by omega) carved ?_ ?_)
          · rw [kept, otherCarries.1, carries.1]
          · rw [kept, otherCarries.2, carries.2]
  | _ => exact absurd trivial stale

/-- The shape of the pool and the distinctness of its blocks are kept by every
step that inserts no stale block. -/
theorem uniqueShape_step (invariant : Shape before ∧ Unique before.cache)
    (fresh : FreshInsert poolSize before label) (taken : before.step poolSize label = .ok after) :
    Shape after ∧ Unique after.cache := by
  obtain ⟨shape, unique⟩ := invariant
  have effect := step_effect shape.layout taken
  have uniqueView : Unique before.view.cache := unique
  have uniqueAfter : Unique after.view.cache :=
    uniqueView.effect shape.view.layout (freshInsert_view fresh) effect
  exact ⟨(shape.view.effect effect).of_view, uniqueAfter⟩

theorem Booted.unique (booted : Booted state) : Unique state.cache := by
  intro left right leftCarved
  rw [booted.cacheCount] at leftCarved
  exact absurd leftCarved (Nat.not_lt_zero left)

/-- From boot on, the hash table holds at most one buffer for each block in
every state of a run exactly when no step of the run inserts a stale block. -/
theorem hashUnique_iff_freshInsert
    {taskCount poolSize : Nat}
    {start final : State taskCount}
    {trace : List (State taskCount × Label taskCount)}
    (booted : Booted start)
    (path : (interleavings taskCount poolSize).Path start trace final) :
    System.Visits (fun state => HashUnique state.cache) trace final ↔
      System.Obeys (FreshInsert poolSize) trace := by
  refine path.visits_iff_obeys (fun state =>
    Shape state ∧ Unique state.cache) ⟨booted.shape, booted.unique⟩ ?_ ?_ ?_
  · intro before label after invariant fresh taken
    exact uniqueShape_step invariant fresh taken
  · intro state invariant
    exact invariant.1.layout.hashUnique_iff.mpr invariant.2
  · intro before label after invariant stale taken unique
    have shape : Shape after :=
      ((invariant.1.view.effect
        (step_effect invariant.1.layout taken)).of_view)
    exact stale_insert invariant.1.layout stale taken
      (shape.layout.hashUnique_iff.mp unique)

/-- The cache at boot with blank memory and blank devices. -/
def blankBoot (taskCount : Nat) : State taskCount where
  cache :=
    { cacheCount := 0
      buffer := fun _ =>
        { data := fun _ _ => 0
          dev := 0
          block := 0
          count := 0
          lockValue := false
          lockWaiters := []
          dirty := false
          valid := false }
      freeList := []
      hashTable := fun _ => []
      disk := fun _ _ _ => 0 }
  pc := fun _ => .client
  held := fun _ => []
  waitList := []

theorem blankBoot_booted (taskCount : Nat) : Booted (blankBoot taskCount) := by
  constructor <;> simp [blankBoot]

/-- A pool with room for two buffers. -/
def twoBuffers : Nat := 3 * blockSize

/-- One task holds both buffers, two others come for one more block, and both
get a buffer of their own for it once the first task releases. -/
def raceForBlock : List (Label 3) :=
  [.getblk 0 1 10, .getblk 0 1 11,
   .getblk 1 1 12, .getblk 2 1 12,
   .brelse 0 0, .brelse 0 1,
   .resume 1, .resume 2]

/-- The hash table can hold two buffers for one block. -/
theorem hashUnique_fails :
    ¬∀ (taskCount poolSize : Nat) (start final : State taskCount)
      (trace : List (State taskCount × Label taskCount)),
      Booted start →
      (interleavings taskCount poolSize).Path start trace final →
      HashUnique final.cache := by
  intro always
  obtain ⟨trace, final, path, duplicated⟩ := System.Path.of_run
    (interleavings 3 twoBuffers) (State.step twoBuffers)
    (fun _ _ _ taken => taken) (blankBoot 3) raceForBlock
    (fun final =>
      decide (final.cache.hashTable (hash 1 12) = [1, 0] ∧
        (final.cache.buffer 0).dev = (final.cache.buffer 1).dev ∧
        (final.cache.buffer 0).block = (final.cache.buffer 1).block))
    (by decide)
  obtain ⟨chain, sameDev, sameBlock⟩ := of_decide_eq_true duplicated
  have unique := always 3 twoBuffers _ _ _ (blankBoot_booted 3) path
  have same := unique 0 1 (hash 1 12) (hash 1 12)
    (by simp [chain]) (by simp [chain]) sameDev sameBlock
  exact absurd same (by decide)

/-- A run in which one task takes, releases and recycles a buffer. -/
theorem hashUnique_iff_freshInsert_recycling :
    ∃ trace final,
      (interleavings 1 twoBuffers).Path (blankBoot 1) trace final ∧
      final.cache.hashTable (hash 1 12) = [0] ∧
      (System.Visits (fun state => HashUnique state.cache) trace final ↔
        System.Obeys (FreshInsert twoBuffers) trace) := by
  obtain ⟨trace, final, path, chained⟩ := System.Path.of_run
    (interleavings 1 twoBuffers) (State.step twoBuffers)
    (fun _ _ _ taken => taken) (blankBoot 1)
    [.getblk 0 1 10, .getblk 0 1 11, .brelse 0 0, .getblk 0 1 12]
    (fun final => decide (final.cache.hashTable (hash 1 12) = [0]))
    (by decide)
  exact ⟨trace, final, path, of_decide_eq_true chained,
    hashUnique_iff_freshInsert (blankBoot_booted 1) path⟩

end Cache
end LightOS
