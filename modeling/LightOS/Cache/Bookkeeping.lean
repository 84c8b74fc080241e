import LightOS.Cache.Recycling

/-!
# The order of the free list

The free list names the buffers without references in the order in which their last
references were dropped, so that the buffer at its end is the one that was released
longest ago.  With one task every listed buffer is clean when a call begins, and no
assertion of the calls fails.
-/

namespace LightOS
namespace Cache

/-- The cache with its tasks, and for every buffer the time of its last release, counted
in steps. -/
structure Timed (taskCount : Nat) where
  state : State taskCount
  clock : Nat
  releasedAt : Nat → Nat

/-- Steps of the tasks, and changes of buffers whose content was not read. -/
inductive TimedLabel (taskCount : Nat)
  | step (label : Label taskCount)
  /-- The task fills a buffer that it holds and sets `dirty`. -/
  | fill (task : Fin taskCount) (id : Nat) (data : Data)

/-- The release times after a step. -/
def Label.stamp {taskCount : Nat} (label : Label taskCount) (clock : Nat)
    (releasedAt : Nat → Nat) : Nat → Nat :=
  match label with
  | .brelse _ id => Function.update releasedAt id clock
  | _ => releasedAt

namespace Timed

variable {taskCount poolSize : Nat}

/-- The state after a task has filled a buffer. -/
def filled (state : State taskCount) (id : Nat) (data : Data) : State taskCount :=
  state.setCache (state.cache.modify id fun buffer =>
    { buffer with data := data, dirty := true })

/-- One step. -/
def next (poolSize : Nat) (x : Timed taskCount) :
    TimedLabel taskCount → Except Fault (Timed taskCount)
  | .step label => do
      let after ← x.state.step poolSize label
      return ⟨after, x.clock + 1, label.stamp x.clock x.releasedAt⟩
  | .fill task id data =>
      if x.state.pc task = .client ∧ id ∈ x.state.held task then
        .ok ⟨filled x.state id data, x.clock + 1, x.releasedAt⟩
      else
        .error .misuse

/-- The runs over a pool of some size. -/
def runs (taskCount poolSize : Nat) : System (Timed taskCount) (TimedLabel taskCount) where
  initial x := Booted x.state
  step before label after := before.next poolSize label = .ok after

/-- The books are kept, and the free list is in the order of the last releases. -/
structure Ordered (x : Timed taskCount) : Prop where
  counted : Counted x.state
  past : ∀ id ∈ x.state.cache.freeList, x.releasedAt id < x.clock
  latest : x.state.cache.freeList.Pairwise fun newer older =>
    x.releasedAt older < x.releasedAt newer

end Timed

variable {taskCount poolSize : Nat} {before after : State taskCount}
  {label : Label taskCount}

/-- A held buffer is not on the free list. -/
theorem Counted.unlisted_of_held {state : State taskCount} (counted : Counted state)
    {task : Fin taskCount} {id : Nat} (holds : id ∈ state.held task) :
    id ∉ state.cache.freeList := by
  intro listed
  have positive := State.references_pos_of_held holds
  have unused := counted.listed id listed
  rw [counted.counted id (counted.shape.held task id holds)] at unused
  exact Nat.ne_of_gt positive unused

/-- The free list after gaining a buffer. -/
theorem Gain.freeList_sublist {cache found : PageCache} {dev : Dev} {block : BlockNo}
    {id : Nat} (gain : Gain poolSize cache dev block id found) :
    found.freeList.Sublist cache.freeList := by
  cases gain with
  | hit _ => exact List.erase_sublist
  | carved _ => exact List.Sublist.refl _
  | recycled _ _ _ _ => exact List.dropLast_sublist _

/-- A step takes buffers off the free list, or `brelse` puts one at its head. -/
theorem freeList_effect (counted : Counted before)
    (effect : Effect poolSize before label after) :
    (after.cache.freeList.Sublist before.cache.freeList ∧
        ∀ task id, label = .brelse task id → id ∉ after.cache.freeList) ∨
      ∃ task id, label = .brelse task id ∧ id ∉ before.cache.freeList ∧
        after.cache.freeList = id :: before.cache.freeList := by
  cases effect with
  | asleep enters =>
      refine .inl ⟨List.Sublist.refl _, fun task id isRelease => ?_⟩
      rw [isRelease] at enters
      cases enters
  | acquired enters gain _ served =>
      rw [served.cache_eq]
      refine .inl ⟨gain.freeList_sublist, fun task id isRelease => ?_⟩
      rw [isRelease] at enters
      cases enters
  | relock _ served =>
      rw [served.cache_eq]
      exact .inl ⟨List.Sublist.refl _, nofun⟩
  | readSector _ => exact .inl ⟨List.Sublist.refl _, nofun⟩
  | writeSector _ => exact .inl ⟨List.Sublist.refl _, nofun⟩
  | finishRead _ => exact .inl ⟨List.Sublist.refl _, nofun⟩
  | finishWrite _ => exact .inl ⟨List.Sublist.refl _, nofun⟩
  | store _ _ _ => exact .inl ⟨List.Sublist.refl _, nofun⟩
  | writeClean _ => exact .inl ⟨List.Sublist.refl _, nofun⟩
  | writeDirty _ _ _ => exact .inl ⟨List.Sublist.refl _, nofun⟩
  | releaseShared _ holds _ =>
      refine .inl ⟨List.Sublist.refl _, ?_⟩
      rintro task id ⟨⟩
      exact counted.unlisted_of_held holds
  | releaseClean _ _ _ _ unlisted => exact .inr ⟨_, _, rfl, unlisted, rfl⟩
  | releaseDirty _ _ _ _ unlisted => exact .inr ⟨_, _, rfl, unlisted, rfl⟩

/-- Filling a held buffer keeps the books. -/
theorem Counted.fill {state : State taskCount} (counted : Counted state) (id : Nat)
    (data : Data) : Counted (Timed.filled state id data) := by
  have count (other : Nat) : ((Timed.filled state id data).cache.buffer other).count =
      (state.cache.buffer other).count := by
    unfold Timed.filled State.setCache
    by_cases same : other = id
    · rw [same, PageCache.modify_buffer_self]
    · rw [PageCache.modify_buffer_other _ _ same]
  refine ⟨counted.shape.modify id _ rfl rfl, ?_, ?_, ?_, counted.writing⟩
  · intro other carved
    rw [count]
    exact counted.counted other carved
  · intro other listed
    rw [count]
    exact counted.listed other listed
  · intro other carved unused
    rw [count] at unused
    exact counted.unused other carved unused

namespace Timed

variable {x y : Timed taskCount}

theorem Ordered.step {label : TimedLabel taskCount} (ordered : x.Ordered)
    (taken : x.next poolSize label = .ok y) : y.Ordered := by
  obtain ⟨counted, past, latest⟩ := ordered
  cases label with
  | fill task id data =>
      simp only [next] at taken
      split at taken
      · cases taken
        exact ⟨counted.fill id data, fun other listed => Nat.lt_succ_of_lt (past other listed),
          latest⟩
      · cases taken
  | step label =>
      simp only [next, bind_eq_ok, pure_eq_ok, Except.ok.injEq] at taken
      obtain ⟨after, ran, rfl⟩ := taken
      have effect := step_effect counted.shape.layout ran
      rcases freeList_effect counted.view effect with ⟨fewer, kept⟩ | ⟨task, id, rfl, new, list⟩
      · have same (other : Nat) (listed : other ∈ after.cache.freeList) :
            label.stamp x.clock x.releasedAt other = x.releasedAt other := by
          cases label with
          | brelse task id =>
              refine Function.update_of_ne (fun isReleased => ?_) _ _
              exact kept task id rfl (isReleased ▸ listed)
          | _ => rfl
        refine ⟨counted.step ran, fun id listed => ?_, ?_⟩
        · change label.stamp x.clock x.releasedAt id < x.clock + 1
          rw [same id listed]
          exact Nat.lt_succ_of_lt (past id (fewer.subset listed))
        · refine (latest.sublist fewer).imp_of_mem fun {newer older} isNewer isOlder before => ?_
          change label.stamp _ _ _ < label.stamp _ _ _
          rw [same older isOlder, same newer isNewer]
          exact before
      · have listed : after.cache.freeList = id :: x.state.cache.freeList := list
        have other (one : Nat) (isOld : one ∈ x.state.cache.freeList) :
            Function.update x.releasedAt id x.clock one = x.releasedAt one := by
          refine Function.update_of_ne (fun same => ?_) _ _
          exact new (same ▸ isOld)
        refine ⟨counted.step ran, fun one isListed => ?_, ?_⟩
        · change Function.update x.releasedAt id x.clock one < x.clock + 1
          change one ∈ after.cache.freeList at isListed
          rw [listed] at isListed
          rcases List.mem_cons.mp isListed with rfl | isOld
          · rw [Function.update_self]
            exact Nat.lt_succ_self _
          · rw [other one isOld]
            exact Nat.lt_succ_of_lt (past one isOld)
        · change after.cache.freeList.Pairwise _
          rw [listed]
          refine List.pairwise_cons.mpr ⟨fun one isOld => ?_, ?_⟩
          · change Function.update x.releasedAt id x.clock one <
              Function.update x.releasedAt id x.clock id
            rw [other one isOld, Function.update_self]
            exact past one isOld
          · refine latest.imp_of_mem fun {newer older} isNewer isOlder before => ?_
            change Function.update x.releasedAt id x.clock older <
              Function.update x.releasedAt id x.clock newer
            rw [other older isOlder, other newer isNewer]
            exact before

theorem Ordered.of_booted (booted : Booted x.state) : x.Ordered := by
  refine ⟨Booted.counted booted, ?_, ?_⟩
  · rw [booted.freeList]
    exact nofun
  · rw [booted.freeList]
    exact List.Pairwise.nil

end Timed

/-! ## One task -/

/-- The buffer that `brelse` is writing back. -/
def Pc.releasing? : Pc → Option Nat
  | .writeIo id _ _ _ true => some id
  | _ => none

/-- A listed buffer is clean, unless `brelse` is writing it back. -/
def Tidy (state : State 1) : Prop :=
  ∀ id ∈ state.cache.freeList, (state.cache.buffer id).dirty = true →
    (state.pc 0).releasing? = some id

theorem Enters.releasing? {state : State taskCount} {label : Label taskCount}
    {task : Fin taskCount} {dev : Dev} {block : BlockNo}
    (enters : Enters state label task dev block) : (state.pc task).releasing? = none := by
  cases enters with
  | getblk place => rw [place]; rfl
  | bread place => rw [place]; rfl
  | resume place => rw [place]; rfl

theorem Tidy.clean {state : State 1} (tidy : Tidy state) {task : Fin 1}
    (idle : (state.pc task).releasing? = none) {id : Nat}
    (listed : id ∈ state.cache.freeList) : (state.cache.buffer id).dirty = false := by
  rw [Subsingleton.elim task 0] at idle
  by_contra dirty
  have writing := tidy id listed (by simpa using dirty)
  rw [idle] at writing
  cases writing

theorem Tidy.effect {before after : State 1} {label : Label 1} (tidy : Tidy before)
    (counted : Counted before) (effect : Effect poolSize before label after) :
    Tidy after := by
  intro id listed dirty
  -- Outside of `brelse` every listed buffer is clean, before and after.
  have settled {task : Fin 1} (idle : (before.pc task).releasing? = none)
      (clean : (before.cache.buffer id).dirty = false →
        (after.cache.buffer id).dirty = false)
      (wasListed : id ∈ before.cache.freeList) : (after.pc 0).releasing? = some id := by
    rw [clean (tidy.clean idle wasListed)] at dirty
    cases dirty
  cases effect with
  | asleep enters => exact settled enters.releasing? (fun clean => clean) listed
  | @acquired _ task _ _ _ cache _ enters gain _ served =>
      rw [served.cache_eq] at listed dirty
      obtain ⟨different, wasListed⟩ := gain.freeList_other counted.shape.layout listed
      have same : cache.buffer id = before.cache.buffer id := gain.buffer_other different
      change (cache.buffer id).dirty = true at dirty
      rw [same, tidy.clean enters.releasing? wasListed] at dirty
      cases dirty
  | relock place served =>
      rw [served.cache_eq] at listed dirty
      rw [tidy.clean (by rw [place]; rfl) listed] at dirty
      cases dirty
  | readSector place =>
      refine settled (by rw [place]; rfl) (fun clean => ?_) listed
      exact IdleFree.clean_of_update rfl (fun same => same ▸ clean) fun _ => clean
  | @writeSector task writes _ _ offset releasing place =>
      have writing := tidy id listed dirty
      rw [← Subsingleton.elim task 0] at writing ⊢
      rw [place] at writing
      rw [State.setPc_pc_self]
      cases releasing with
      | true => exact writing
      | false => cases writing
  | finishRead place =>
      refine settled (by rw [place]; rfl) (fun clean => ?_) listed
      exact IdleFree.clean_of_update rfl (fun _ => rfl) fun _ => clean
  | @finishWrite task writes _ _ releasing place =>
      have different : id ≠ writes := by
        rintro rfl
        simp [State.toClient, State.setPc, State.setCache] at dirty
      have wasDirty : (before.cache.buffer id).dirty = true := by
        simpa [State.toClient, State.setPc, State.setCache, PageCache.modify, different]
          using dirty
      have writing := tidy id listed wasDirty
      rw [← Subsingleton.elim task 0, place] at writing
      cases releasing with
      | true => exact absurd (Option.some.inj writing).symm different
      | false => cases writing
  | store place holds _ =>
      refine settled (by rw [place]; rfl) (fun clean => ?_) listed
      refine IdleFree.clean_of_update rfl (fun same => ?_) fun _ => clean
      exact absurd (same ▸ listed) (counted.unlisted_of_held holds)
  | writeClean _ => exact tidy id listed dirty
  | writeDirty place _ _ => exact settled (by rw [place]; rfl) (fun clean => clean) listed
  | releaseShared place _ _ =>
      refine settled (by rw [place]; rfl) (fun clean => ?_) listed
      exact IdleFree.clean_of_update rfl (fun same => same ▸ clean) fun _ => clean
  | @releaseClean task freed place holds _ clean _ =>
      have isClean : ((before.published task freed).cache.buffer id).dirty = false := by
        refine IdleFree.clean_of_update rfl (fun _ => clean) fun different => ?_
        exact tidy.clean (by rw [place]; rfl)
          ((List.mem_cons.mp listed).resolve_left different)
      rw [isClean] at dirty
      cases dirty
  | @releaseDirty task freed place holds _ _ _ =>
      rw [← Subsingleton.elim task 0, State.setPc_pc_self]
      by_contra different
      have isClean : ((before.published task freed).cache.buffer id).dirty = false := by
        refine IdleFree.clean_of_update rfl (fun same => ?_) fun other => ?_
        · exact absurd (congrArg some same).symm different
        · exact tidy.clean (by rw [place]; rfl)
            ((List.mem_cons.mp listed).resolve_left other)
      change ((before.published task freed).cache.buffer id).dirty = true at dirty
      rw [isClean] at dirty
      cases dirty

theorem Pc.releasing?_forget (pc : Pc) : pc.forget.releasing? = pc.releasing? := by
  cases pc <;> rfl

theorem Tidy.view_iff (state : State 1) : Tidy state.view ↔ Tidy state := by
  have same : (state.view.pc 0).releasing? = (state.pc 0).releasing? :=
    Pc.releasing?_forget _
  unfold Tidy
  rw [same]
  exact Iff.rfl

theorem Tidy.fill {state : State 1} (tidy : Tidy state) (counted : Counted state)
    {task : Fin 1} {id : Nat} (holds : id ∈ state.held task) (data : Data) :
    Tidy (Timed.filled state id data) := by
  intro other listed dirty
  have different : other ≠ id := by
    rintro rfl
    exact counted.unlisted_of_held holds listed
  unfold Timed.filled State.setCache at dirty
  rw [PageCache.modify_buffer_other _ _ different] at dirty
  exact tidy other listed dirty

namespace Timed

/-- What holds whenever the only task is outside the cache. -/
structure Bookkept (poolSize : Nat) (x : Timed 1) : Prop where
  /-- A used buffer is in the chain of its block and in no other one, once. -/
  chained : ∀ id index, id ∈ x.state.cache.hashTable index ↔
    id < x.state.cache.cacheCount ∧
      index = hash (x.state.cache.buffer id).dev (x.state.cache.buffer id).block
  chainNodup : ∀ index, (x.state.cache.hashTable index).Nodup
  /-- The free list names the used buffers with count 0, each once. -/
  free : ∀ id, id ∈ x.state.cache.freeList ↔
    id < x.state.cache.cacheCount ∧ (x.state.cache.buffer id).count = 0
  freeNodup : x.state.cache.freeList.Nodup
  /-- From the tail to the head the last releases become more recent. -/
  ordered : x.state.cache.freeList.Pairwise fun newer older =>
    x.releasedAt older < x.releasedAt newer
  /-- The count of a used buffer is the number of references that the task has been given
  and has not released. -/
  counted : ∀ id < x.state.cache.cacheCount,
    (x.state.cache.buffer id).count = (x.state.held 0).count id
  /-- `get_free_cache` carves a new buffer, or takes the one that was released longest
  ago, or finds none and sleeps. -/
  recycles : match getFreeCache poolSize x.state.cache with
    | .ok (some (id, _)) =>
        CanCarve poolSize x.state.cache ∧ id = x.state.cache.cacheCount ∨
          ¬CanCarve poolSize x.state.cache ∧ id ∈ x.state.cache.freeList ∧
            ∀ other ∈ x.state.cache.freeList, other ≠ id →
              x.releasedAt id < x.releasedAt other
    | .ok none => ¬CanCarve poolSize x.state.cache ∧ x.state.cache.freeList = []
    | .error _ => False
  /-- No assertion of `getblk` fails. -/
  gets : ∀ dev block, ∃ acquired, getblk poolSize x.state.cache dev block = .ok acquired
  /-- No assertion of `brelse` fails. -/
  releases : ∀ id ∈ x.state.held 0, ∃ released,
    release x.state.cache id = .ok released

end Timed

/-- One turn of `get_free_cache` over a pool with its layout. -/
theorem getFreeCache_spec (poolSize : Nat) {cache : PageCache} (layout : Layout cache) :
    (CanCarve poolSize cache ∧ ∃ free,
      getFreeCache poolSize cache = .ok (some (cache.cacheCount, free))) ∨
    (¬CanCarve poolSize cache ∧ cache.freeList = [] ∧
      getFreeCache poolSize cache = .ok none) ∨
    ∃ id free, ¬CanCarve poolSize cache ∧ cache.freeList.getLast? = some id ∧
      getFreeCache poolSize cache = .ok (some (id, free)) := by
  unfold getFreeCache getNewCache
  by_cases room : CanCarve poolSize cache
  · refine .inl ⟨room, ?_⟩
    unfold CanCarve at room
    simp only [room, if_true]
    exact ⟨_, rfl⟩
  · have exhausted := room
    unfold CanCarve at room
    simp only [room, if_false]
    cases last : cache.freeList.getLast? with
    | none => exact .inr (.inl ⟨exhausted, List.getLast?_eq_none_iff.mp last, rfl⟩)
    | some id =>
        have present : id ∈ cache.hashTable
            (hash (cache.buffer id).dev (cache.buffer id).block) :=
          (layout.chained _ _).mpr ⟨layout.of_getLast last, rfl⟩
        simp only [hashRemove, check_true present, ok_bind, pure_eq_ok]
        exact .inr (.inr ⟨id, _, exhausted, rfl, rfl⟩)

namespace Timed

variable {x : Timed 1}

/-- In a list in the order of the last releases, the last buffer was released first. -/
theorem Ordered.last_released (ordered : x.Ordered) {id : Nat}
    (last : x.state.cache.freeList.getLast? = some id) :
    ∀ other ∈ x.state.cache.freeList, other ≠ id →
      x.releasedAt id < x.releasedAt other := by
  intro other listed different
  have latest := ordered.latest
  rw [← List.dropLast_append_getLast? id last] at latest listed
  have inFront := (List.mem_append.mp listed).resolve_right (by simpa using different)
  exact (List.pairwise_append.mp latest).2.2 other inFront id (List.mem_singleton_self id)

theorem Ordered.bookkept (ordered : x.Ordered) (tidy : Tidy x.state)
    (idle : x.state.pc 0 = .client) : x.Bookkept poolSize := by
  have counted := ordered.counted
  have layout := counted.shape.layout
  have count (id : Nat) (carved : id < x.state.cache.cacheCount) :
      (x.state.cache.buffer id).count = (x.state.held 0).count id := by
    rw [counted.counted id carved]
    simp [State.references, State.refsOf, idle, Pc.promised]
  have clean (id : Nat) (listed : id ∈ x.state.cache.freeList) :
      (x.state.cache.buffer id).dirty = false :=
    tidy.clean (by rw [idle]; rfl) listed
  refine ⟨fun id index => ?_, layout.chainNodup, fun id => ?_, layout.freeNodup,
    ordered.latest, count, ?_, fun dev block => ?_, fun id holds => ?_⟩
  · rw [layout.chained, eq_comm]
  · exact ⟨fun listed => ⟨layout.freeCarved id listed, counted.listed id listed⟩,
      fun used => counted.unused id used.1 used.2⟩
  · rcases getFreeCache_spec poolSize layout with
      ⟨room, free, isOk⟩ | ⟨exhausted, empty, isOk⟩ | ⟨id, free, exhausted, last, isOk⟩
    · rw [isOk]
      exact .inl ⟨room, rfl⟩
    · rw [isOk]
      exact ⟨exhausted, empty⟩
    · rw [isOk]
      exact .inr ⟨exhausted, List.mem_of_getLast? last, ordered.last_released last⟩
  · cases found : findInChain x.state.cache dev block with
    | some id => exact ⟨_, getblk_hit _ _ found⟩
    | none =>
        rw [getblk_miss _ _ found]
        by_cases room : CanCarve poolSize x.state.cache
        · exact ⟨_, acquireFree_carve layout room dev block⟩
        · cases last : x.state.cache.freeList.getLast? with
          | none => exact ⟨_, acquireFree_asleep room last dev block⟩
          | some id =>
              have listed := List.mem_of_getLast? last
              rw [acquireFree_recycle layout room last,
                if_pos ⟨counted.listed id listed, clean id listed⟩]
              exact ⟨_, rfl⟩
  · have positive : 0 < (x.state.cache.buffer id).count := by
      rw [count id (counted.shape.held 0 id holds)]
      exact List.count_pos_iff.mpr holds
    have unlisted : id ∉ (x.state.cache.modify id fun buffer =>
        { buffer with count := buffer.count - 1 }).freeList :=
      counted.unlisted_of_held holds
    unfold release
    simp only [check_true positive, ok_bind, check_true unlisted, pure_eq_ok]
    split
    · exact ⟨_, rfl⟩
    · exact ⟨_, rfl⟩

theorem tidy_step {y : Timed 1} {label : TimedLabel 1} (ordered : x.Ordered)
    (tidy : Tidy x.state) (taken : x.next poolSize label = .ok y) : Tidy y.state := by
  have counted := ordered.counted
  cases label with
  | fill task id data =>
      simp only [next] at taken
      split at taken
      · rename_i holds
        cases taken
        exact tidy.fill counted holds.2 data
      · cases taken
  | step label =>
      simp only [next, bind_eq_ok, pure_eq_ok, Except.ok.injEq] at taken
      obtain ⟨after, ran, rfl⟩ := taken
      rw [← Tidy.view_iff]
      exact ((Tidy.view_iff x.state).mpr tidy).effect counted.view
        (step_effect counted.shape.layout ran)

/-- Whenever the only task is outside the cache, the books are kept, the free list is in
the order of the last releases, and the buffer released longest ago is recycled only when
no new one can be carved. -/
theorem bookkept_of_reachable (reached : (runs 1 poolSize).Reachable x)
    (idle : x.state.pc 0 = .client) : x.Bookkept poolSize := by
  obtain ⟨ordered, tidy⟩ : x.Ordered ∧ Tidy x.state := by
    refine reached.invariant (fun x => x.Ordered ∧ Tidy x.state) ?_ ?_
    · intro start booted
      refine ⟨Ordered.of_booted booted, fun id listed => ?_⟩
      rw [booted.freeList] at listed
      cases listed
    · rintro before label after ⟨ordered, tidy⟩ _ taken
      exact ⟨ordered.step taken, tidy_step ordered tidy taken⟩
  exact ordered.bookkept tidy idle

/-- A pool of two buffers: two blocks are used and released, and a third one takes the
buffer of the first. -/
def evictFirst : List (TimedLabel 1) :=
  [.step (.getblk 0 1 10), .fill 0 0 (fun _ _ => 0), .step (.getblk 0 1 20), .step (.brelse 0 0),
    .step (.transfer 0), .step (.transfer 0), .step (.finish 0), .step (.brelse 0 1),
    .step (.getblk 0 1 30)]

theorem bookkept_of_reachable_evictFirst :
    ∃ x, (runs 1 twoBuffers).Reachable x ∧ x.state.held 0 = [0] ∧
      x.Bookkept twoBuffers := by
  have start : (runs 1 twoBuffers).initial ⟨blankBoot 1, 0, fun _ => 0⟩ :=
    blankBoot_booted 1
  obtain ⟨x, reached, final⟩ := System.ReachableWithin.extend_run (runs 1 twoBuffers)
    (fun _ _ => True) (next twoBuffers) (fun _ _ _ taken => ⟨trivial, taken⟩) evictFirst
    (fun x => x.state.pc 0 = .client ∧ x.state.held 0 = [0]) (.initial start)
    (by decide +kernel)
  obtain ⟨idle, held⟩ := of_decide_eq_true final
  exact ⟨x, reached, held, bookkept_of_reachable reached idle⟩

end Timed

end Cache
end LightOS
