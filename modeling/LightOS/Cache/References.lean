import LightOS.Cache.Uniqueness
import LightOS.Foundation.Ledger
import Mathlib.Algebra.Order.BigOperators.Group.Finset

/-!
# References to buffers

The field `count` of a buffer is the number of references that tasks hold or are
about to be given, in every state of every run.  In particular a buffer on the
free list has no user, and the only task that can be busy with it is one that
writes it back on behalf of `brelse`.
-/

namespace LightOS
namespace Cache

variable {taskCount poolSize : Nat} {state before after : State taskCount}
  {label : Label taskCount} {id : Nat} {dev : Dev} {block : BlockNo}

/-- The buffer that a task inside `bread` is going to be given. -/
def Pc.promised : Pc → Option Nat
  | .lockWait id _ => some id
  | .readIo id _ _ _ => some id
  | _ => none

/-- The request that a task waits for: a buffer, and the block that the device
moves from or to. -/
def Pc.transfer? : Pc → Option (Nat × Dev × BlockNo)
  | .readIo id dev block _ => some (id, dev, block)
  | .writeIo id dev block _ _ => some (id, dev, block)
  | _ => none

@[simp] theorem Pc.promised_forget (pc : Pc) :
    pc.forget.promised = pc.promised := by
  cases pc <;> rfl

@[simp] theorem Pc.transfer?_forget (pc : Pc) :
    pc.forget.transfer? = pc.transfer? := by
  cases pc <;> rfl

/-- A task busy with a transfer is busy with its buffer. -/
theorem Pc.buffer?_of_transfer? {pc : Pc} (transfers : pc.transfer? = some (id, dev, block)) :
    pc.buffer? = some id := by
  cases pc <;> simp_all [Pc.transfer?, Pc.buffer?]

namespace State

variable {task : Fin taskCount}

/-- The references of one task to one buffer. -/
def refsOf (state : State taskCount) (id : Nat) (task : Fin taskCount) : Nat :=
  (state.held task).count id +
    if (state.pc task).promised = some id then 1 else 0

/-- The references of all tasks to one buffer. -/
def references (state : State taskCount) (id : Nat) : Nat :=
  ∑ task, state.refsOf id task

theorem refsOf_le_references
    (state : State taskCount) (id : Nat) (task : Fin taskCount) :
    state.refsOf id task ≤ state.references id :=
  Finset.single_le_sum (fun _ _ => Nat.zero_le _) (Finset.mem_univ task)

/-- A step of one task changes the references by what that task's change. -/
theorem references_step (id : Nat) (others : ∀ other, other ≠ task →
      after.held other = before.held other ∧ after.pc other = before.pc other) :
    after.references id + before.refsOf id task =
      before.references id + after.refsOf id task := by
  refine sum_change_one (Finset.mem_univ task) fun other different => ?_
  obtain ⟨sameHeld, samePc⟩ := others other different
  rw [refsOf, refsOf, sameHeld, samePc]

/-- A buffer that some task holds is referenced. -/
theorem references_pos_of_held (holds : id ∈ state.held task) : 0 < state.references id := by
  have own := state.refsOf_le_references id task
  have positive := List.count_pos_iff.mpr holds
  unfold refsOf at own
  omega

/-- A buffer that some task waits to be given is referenced. -/
theorem references_pos_of_promised (promised : (state.pc task).promised = some id) :
    0 < state.references id := by
  have own := state.refsOf_le_references id task
  simp only [refsOf, promised, if_true] at own
  omega

theorem Served.others (served : Served state task id after) (other : Fin taskCount)
    (different : other ≠ task) :
    after.held other = state.held other ∧ after.pc other = state.pc other := by
  cases served <;> simp [giveBuffer, setPc, different]

/-- Serving a buffer leaves the task with one reference to it, beside those it
held. -/
theorem Served.refsOf_self (served : Served state task id after) (other : Nat) :
    after.refsOf other task =
      (state.held task).count other + if other = id then 1 else 0 := by
  by_cases same : other = id
  · subst same
    cases served <;> simp [refsOf, giveBuffer, setPc, Pc.promised]
  · cases served <;>
      simp [refsOf, giveBuffer, setPc, Pc.promised, same, Ne.symm same]

/-- The references before and after a buffer is served. -/
theorem Served.references (served : Served state task id after) (other : Nat) :
    after.references other +
        (if (state.pc task).promised = some other then 1 else 0) =
      state.references other + if other = id then 1 else 0 := by
  have changed := references_step other served.others
  rw [served.refsOf_self, refsOf] at changed
  omega

end State

/-- The pool keeps its books: the field `count` is the number of references, and
the free list names the buffers without one. -/
structure Booked {taskCount : Nat} (state : State taskCount) : Prop where
  shape : Shape state
  counted : ∀ id, id < state.cache.cacheCount →
    (state.cache.buffer id).count = state.references id
  listed : ∀ id ∈ state.cache.freeList, (state.cache.buffer id).count = 0
  unused : ∀ id, id < state.cache.cacheCount →
    (state.cache.buffer id).count = 0 → id ∈ state.cache.freeList

theorem references_view (state : State taskCount) (id : Nat) :
    state.view.references id = state.references id := by
  simp [State.references, State.refsOf, State.view]

theorem Booked.view (booked : Booked state) : Booked state.view where
  shape := booked.shape.view
  counted := by
    intro id carved
    rw [references_view]
    exact booked.counted id carved
  listed := booked.listed
  unused := booked.unused

theorem Booked.of_view (booked : Booked state.view) : Booked state where
  shape := booked.shape.of_view
  counted := by
    intro id carved
    rw [← references_view]
    exact booked.counted id carved
  listed := booked.listed
  unused := booked.unused

/-- The books are kept, and a task that writes a buffer outside `brelse` holds
it. -/
structure Counted {taskCount : Nat} (state : State taskCount) : Prop where
  shape : Shape state
  counted : ∀ id, id < state.cache.cacheCount →
    (state.cache.buffer id).count = state.references id
  listed : ∀ id ∈ state.cache.freeList, (state.cache.buffer id).count = 0
  unused : ∀ id, id < state.cache.cacheCount →
    (state.cache.buffer id).count = 0 → id ∈ state.cache.freeList
  writing : ∀ task id dev block sector,
    state.pc task = .writeIo id dev block sector false → id ∈ state.held task

theorem Counted.booked (counted : Counted state) : Booked state :=
  ⟨counted.shape, counted.counted, counted.listed, counted.unused⟩

/-- The books, and who writes, make up the whole. -/
theorem Booked.counts (booked : Booked state) (writing : ∀ task id dev block sector,
      state.pc task = .writeIo id dev block sector false → id ∈ state.held task) : Counted state :=
  ⟨booked.shape, booked.counted, booked.listed, booked.unused, writing⟩

theorem Counted.view (counted : Counted state) : Counted state.view := by
  refine counted.booked.view.counts fun task id dev block sector place => ?_
  refine counted.writing task id dev block sector ?_
  cases position : state.pc task <;>
    simp_all [State.view, Pc.forget]

theorem Counted.of_view (counted : Counted state.view) : Counted state := by
  refine counted.booked.of_view.counts fun task id dev block sector place => ?_
  refine counted.writing task id dev block sector ?_
  simp [State.view, place, Pc.forget]

namespace Booked

/-- A step that changes neither counts nor references keeps the books. -/
theorem keep (booked : Booked before) (shape : Shape after) (task : Fin taskCount)
    (others : ∀ other, other ≠ task →
      after.held other = before.held other ∧ after.pc other = before.pc other)
    (sameCarved : after.cache.cacheCount = before.cache.cacheCount)
    (sameFree : after.cache.freeList = before.cache.freeList)
    (sameCount : ∀ id, (after.cache.buffer id).count = (before.cache.buffer id).count)
    (sameRefs : ∀ id, after.refsOf id task = before.refsOf id task) :
    Booked after where
  shape := shape
  counted := by
    intro id carved
    have changed := State.references_step id others
    rw [sameRefs] at changed
    rw [sameCount, booked.counted id (sameCarved ▸ carved)]
    omega
  listed := by
    intro id present
    rw [sameCount]
    exact booked.listed id (sameFree ▸ present)
  unused := by
    intro id carved
    rw [sameCount, sameFree]
    exact booked.unused id (sameCarved ▸ carved)

/-- No task refers to a buffer that has not been carved. -/
theorem references_uncarved (shape : Shape state) (uncarved : state.cache.cacheCount ≤ id) :
    state.references id = 0 := by
  refine Finset.sum_eq_zero fun task _ => ?_
  have notHeld : id ∉ state.held task := fun holds =>
    absurd (shape.held task id holds) (by omega)
  have notPromised : (state.pc task).promised ≠ some id := by
    intro promised
    have busy : (state.pc task).buffer? = some id := by
      cases place : state.pc task <;>
        simp_all [Pc.promised, Pc.buffer?]
    exact absurd (shape.busy task id busy) (by omega)
  simp [State.refsOf, List.count_eq_zero.mpr notHeld, notPromised]

/-- A buffer that is gained has one reference more than the tasks know of. -/
theorem count_gain {after : PageCache} (booked : Booked state)
    (gain : Gain poolSize state.cache dev block id after) :
    (after.buffer id).count = state.references id + 1 := by
  have layout := booked.shape.layout
  cases gain with
  | hit found =>
      rw [← booked.counted id (layout.of_findInChain found).1]
      simp [retain, PageCache.modify]
  | carved _ =>
      rw [references_uncarved booked.shape le_rfl]
      simp [carve]
  | recycled last _ unused _ =>
      rw [← booked.counted id (layout.of_getLast last), unused]
      simp [recycle]

end Booked

/-- The buffers that stay on the free list when a buffer is gained are other
buffers. -/
theorem Gain.freeList_other {cache after : PageCache} {other : Nat} (layout : Layout cache)
    (gain : Gain poolSize cache dev block id after) (present : other ∈ after.freeList) :
    other ≠ id ∧ other ∈ cache.freeList := by
  cases gain with
  | hit _ =>
      simp only [retain, PageCache.modify_freeList] at present
      exact (layout.freeNodup.mem_erase_iff).mp present
  | carved _ =>
      exact ⟨(layout.freeCarved other present).ne, present⟩
  | recycled last _ _ _ =>
      have split := List.dropLast_append_getLast? id last
      have nodup := layout.freeNodup
      rw [← split, List.nodup_append] at nodup
      simp only [recycle] at present
      refine ⟨fun same => ?_, (List.dropLast_sublist _).subset present⟩
      exact nodup.2.2 other present id (by simp) same

/-- A buffer on the free list that is not gained stays there. -/
theorem Gain.freeList_kept {cache after : PageCache} {other : Nat}
    (gain : Gain poolSize cache dev block id after) (different : other ≠ id)
    (listed : other ∈ cache.freeList) : other ∈ after.freeList := by
  cases gain with
  | hit _ => exact (List.mem_erase_of_ne different).mpr listed
  | carved _ => exact listed
  | recycled last _ _ _ =>
      rw [← List.dropLast_append_getLast? id last] at listed
      exact (List.mem_append.mp listed).resolve_right (by simpa using different)

/-- A gained buffer is new or was there before, and no other buffer appears. -/
theorem Gain.carved_before {cache after : PageCache} {other : Nat}
    (gain : Gain poolSize cache dev block id after) (different : other ≠ id)
    (carved : other < after.cacheCount) : other < cache.cacheCount := by
  cases gain with
  | hit _ => exact carved
  | carved _ =>
      simp only [carve] at carved
      omega
  | recycled _ _ _ _ => exact carved

/-- A task that enters `getblk` has been promised nothing. -/
theorem Enters.promised {task : Fin taskCount} (enters : Enters state label task dev block) :
    (state.pc task).promised = none := by
  cases enters with
  | getblk place => simp [place, Pc.promised]
  | bread place => simp [place, Pc.promised]
  | resume place => simp [place, Pc.promised]

namespace Booked

/-- Obtaining a buffer keeps the books. -/
theorem acquired {task : Fin taskCount} {cache : PageCache} (booked : Booked before)
    (shape : Shape after) (enters : Enters before label task dev block)
    (gain : Gain poolSize before.cache dev block id cache)
    (served : State.Served (before.setCache cache) task id after) :
    Booked after where
  shape := shape
  counted := by
    intro other carved
    have changed := served.references other
    have idle : ((before.setCache cache).pc task).promised = none :=
      enters.promised
    have sameRefs : (before.setCache cache).references other =
        before.references other := rfl
    rw [idle, sameRefs] at changed
    rw [served.cache_eq] at carved ⊢
    change (cache.buffer other).count = _
    by_cases same : other = id
    · subst same
      rw [booked.count_gain gain]
      simpa using changed.symm
    · rw [gain.buffer_other same,
        booked.counted other (gain.carved_before same carved)]
      simpa [same] using changed.symm
  listed := by
    intro other present
    rw [served.cache_eq] at present ⊢
    obtain ⟨different, listed⟩ := gain.freeList_other booked.shape.layout present
    change (cache.buffer other).count = 0
    rw [gain.buffer_other different]
    exact booked.listed other listed
  unused := by
    intro other carved
    rw [served.cache_eq] at carved ⊢
    change (cache.buffer other).count = 0 → other ∈ cache.freeList
    by_cases same : other = id
    · subst same
      rw [booked.count_gain gain]
      exact fun impossible => absurd impossible (Nat.succ_ne_zero _)
    · rw [gain.buffer_other same]
      intro unreferenced
      exact gain.freeList_kept same
        (booked.unused other (gain.carved_before same carved) unreferenced)

/-- Dropping a reference keeps the books, when a buffer that loses its last one
may be listed and no other buffer is. -/
theorem released {task : Fin taskCount} (booked : Booked before) (shape : Shape after)
    (holds : id ∈ before.held task) (place : before.pc task = .client)
    (others : ∀ other, other ≠ task →
      after.held other = before.held other ∧ after.pc other = before.pc other)
    (own : after.held task = (before.held task).erase id)
    (notPromised : (after.pc task).promised = none)
    (sameCarved : after.cache.cacheCount = before.cache.cacheCount)
    (dropped : (after.cache.buffer id).count = (before.cache.buffer id).count - 1)
    (sameCount : ∀ other, other ≠ id →
      (after.cache.buffer other).count = (before.cache.buffer other).count)
    (free : ∀ other, other ∈ after.cache.freeList ↔
      other ∈ before.cache.freeList ∨
        other = id ∧ (before.cache.buffer id).count = 1) :
    Booked after where
  shape := shape
  counted := by
    intro other carved
    rw [sameCarved] at carved
    have changed := State.references_step other others
    have refsBefore : before.refsOf other task =
        (before.held task).count other := by
      simp [State.refsOf, place, Pc.promised]
    have refsAfter : after.refsOf other task =
        ((before.held task).erase id).count other := by
      simp [State.refsOf, own, notPromised]
    rw [refsBefore, refsAfter, List.count_erase] at changed
    by_cases same : other = id
    · subst same
      have positive := List.count_pos_iff.mpr holds
      rw [dropped, booked.counted other carved]
      simp only [beq_self_eq_true, if_true] at changed
      omega
    · rw [sameCount other same, booked.counted other carved]
      simp only [beq_iff_eq, Ne.symm same, if_false] at changed
      omega
  listed := by
    intro other present
    rcases (free other).mp present with listed | ⟨rfl, last⟩
    · by_cases same : other = id
      · subst same
        rw [dropped, booked.listed other listed]
      · rw [sameCount other same]
        exact booked.listed other listed
    · rw [dropped, last]
  unused := by
    intro other carved
    rw [sameCarved] at carved
    by_cases same : other = id
    · subst same
      rw [dropped]
      intro unreferenced
      have referenced := State.references_pos_of_held holds
      rw [← booked.counted other carved] at referenced
      exact (free other).mpr (.inr ⟨rfl, by omega⟩)
    · rw [sameCount other same]
      intro unreferenced
      exact (free other).mpr (.inl (booked.unused other carved unreferenced))

end Booked

/-- Replacing a buffer by one with the same count keeps all counts. -/
theorem PageCache.count_of_update
    {before after : PageCache} (id : Nat) {new : Buffer}
    (updated : after.buffer = Function.update before.buffer id new)
    (sameCount : new.count = (before.buffer id).count)
    (other : Nat) :
    (after.buffer other).count = (before.buffer other).count := by
  rw [updated]
  by_cases same : other = id
  · subst same
    simp [sameCount]
  · simp [same]

/-- Every step keeps the books. -/
theorem Booked.effect (booked : Booked before) (effect : Effect poolSize before label after) :
    Booked after := by
  have shape := booked.shape.effect effect
  cases effect with
  | @asleep _ task dev block reading enters =>
      refine booked.keep shape task ?_ rfl rfl (fun _ => rfl) ?_
      · simp +contextual [State.setPc]
      · intro id
        have idle := enters.promised
        simp [State.refsOf, State.setPc, idle, Pc.promised.eq_def (.freeWait ..)]
  | acquired enters gain _ served => exact booked.acquired shape enters gain served
  | @relock task id _ place served =>
      refine booked.keep shape task served.others
        (by rw [served.cache_eq]) (by rw [served.cache_eq])
        (fun _ => by rw [served.cache_eq]) ?_
      intro other
      rw [served.refsOf_self]
      simp [State.refsOf, place, Pc.promised, eq_comm]
  | @readSector task id dev block offset place =>
      refine booked.keep shape task ?_ rfl rfl
        (PageCache.count_of_update id rfl rfl) ?_
      · simp +contextual [State.setPc, State.setCache]
      · simp [State.refsOf, State.setPc, State.setCache, place, Pc.promised]
  | @writeSector task id dev block offset releasing place =>
      refine booked.keep shape task ?_ rfl rfl (fun _ => rfl) ?_
      · simp +contextual [State.setPc, State.setCache]
      · simp [State.refsOf, State.setPc, State.setCache, place, Pc.promised]
  | @finishRead task id dev block place =>
      refine booked.keep shape task ?_ rfl rfl
        (PageCache.count_of_update id rfl rfl) ?_
      · simp +contextual [State.giveBuffer, State.setPc, State.setCache]
      · intro other
        simp [State.refsOf, State.giveBuffer, State.setPc, State.setCache,
          place, Pc.promised, List.count_cons]
  | @finishWrite task id dev block releasing place =>
      refine booked.keep shape task ?_ rfl rfl
        (PageCache.count_of_update id rfl rfl) ?_
      · simp +contextual [State.toClient, State.setPc, State.setCache]
      · simp [State.refsOf, State.toClient, State.setPc, State.setCache,
          place, Pc.promised]
  | @store task id data place _ _ =>
      exact booked.keep shape task (fun _ _ => ⟨rfl, rfl⟩) rfl rfl
        (PageCache.count_of_update id rfl rfl) (fun _ => rfl)
  | writeClean _ => exact booked
  | @writeDirty task id place holds _ =>
      refine booked.keep shape task ?_ rfl rfl (fun _ => rfl) ?_
      · simp +contextual [State.setPc]
      · simp [State.refsOf, State.setPc, place, Pc.promised]
  | @releaseShared task id place holds many =>
      refine booked.released shape holds place ?_ ?_ ?_ rfl ?_ ?_ ?_
      · simp +contextual [State.setCache]
      · simp
      · simp [State.setCache, place, Pc.promised]
      · simp [State.setCache]
      · intro other different
        simp [State.setCache, PageCache.modify, different]
      · simp [State.setCache, many.ne']
  | @releaseClean task id place holds one _ _ =>
      refine booked.released shape holds place ?_ ?_ ?_ rfl ?_ ?_ ?_
      · simp +contextual [State.published, State.setCache]
      · simp [State.published]
      · simp [State.published, State.setCache, place, Pc.promised]
      · simp [State.published, State.setCache]
      · intro other different
        simp [State.published, State.setCache, PageCache.modify, different]
      · simp [State.published, State.setCache, one, or_comm]
  | @releaseDirty task id place holds one _ _ =>
      refine booked.released shape holds place ?_ ?_ ?_ rfl ?_ ?_ ?_
      · simp +contextual [State.published, State.setCache, State.setPc]
      · simp [State.published, State.setPc]
      · simp [State.setPc, Pc.promised]
      · simp [State.published, State.setCache, State.setPc]
      · intro other different
        simp [State.published, State.setCache, State.setPc, PageCache.modify,
          different]
      · simp [State.published, State.setCache, State.setPc, one, or_comm]

/-- The task that a step belongs to. -/
def Label.task {taskCount : Nat} : Label taskCount → Fin taskCount
  | .getblk task _ _ => task
  | .bread task _ _ => task
  | .resume task => task
  | .transfer task => task
  | .finish task => task
  | .store task _ _ => task
  | .bwrite task _ => task
  | .brelse task _ => task

theorem Enters.task {task : Fin taskCount} (enters : Enters state label task dev block) :
    label.task = task := by
  cases enters <;> rfl

/-- A step leaves the other tasks where they are. -/
theorem Effect.others (effect : Effect poolSize before label after) {other : Fin taskCount}
    (different : other ≠ label.task) :
    after.held other = before.held other ∧ after.pc other = before.pc other := by
  cases effect with
  | asleep enters =>
      rw [enters.task] at different
      simp [State.setPc, different]
  | acquired enters _ _ served =>
      rw [enters.task] at different
      exact served.others other different
  | relock _ served => exact served.others other different
  | writeClean _ => exact ⟨rfl, rfl⟩
  | store _ _ _ => exact ⟨rfl, rfl⟩
  | _ =>
      simp only [Label.task] at different
      simp [State.giveBuffer, State.toClient, State.published, State.setPc,
        State.setCache, different]

/-- A task that writes a buffer outside `brelse` holds it, after every step. -/
theorem Effect.writing (effect : Effect poolSize before label after)
    (holds : ∀ task id dev block sector,
      before.pc task = .writeIo id dev block sector false → id ∈ before.held task)
    {task : Fin taskCount} {sector : Nat}
    (place : after.pc task = .writeIo id dev block sector false) : id ∈ after.held task := by
  by_cases other : task = label.task
  case neg =>
    obtain ⟨sameHeld, samePc⟩ := effect.others other
    rw [sameHeld]
    exact holds task id dev block sector (samePc ▸ place)
  subst other
  cases effect with
  | asleep enters =>
      rw [enters.task] at place
      simp [State.setPc] at place
  | acquired enters _ _ served =>
      rw [enters.task] at place
      cases served <;> simp [State.giveBuffer, State.setPc] at place
  | relock _ served =>
      cases served <;> simp [Label.task, State.giveBuffer, State.setPc] at place
  | readSector _ => simp [Label.task, State.setPc] at place
  | @writeSector task kept _ _ offset releasing position =>
      simp only [Label.task, State.setPc, Function.update_self, Pc.writeIo.injEq]
        at place
      obtain ⟨rfl, rfl, rfl, -, rfl⟩ := place
      exact holds task _ _ _ _ position
  | finishRead _ => simp [Label.task, State.giveBuffer, State.setPc] at place
  | finishWrite _ => simp [Label.task, State.toClient, State.setPc] at place
  | store position _ _ =>
      simp [Label.task, State.setCache, position] at place
  | writeClean _ => exact holds _ _ _ _ _ place
  | writeDirty _ held _ =>
      simp only [Label.task, State.setPc, Function.update_self, Pc.writeIo.injEq]
        at place
      obtain ⟨rfl, -⟩ := place
      exact held
  | releaseShared position _ _ =>
      simp [Label.task, State.setCache, position] at place
  | releaseClean position _ _ _ _ =>
      simp [Label.task, State.published, State.setCache, position] at place
  | releaseDirty _ _ _ _ _ => simp [Label.task, State.setPc] at place

theorem Counted.effect (counted : Counted before) (effect : Effect poolSize before label after) :
    Counted after :=
  (counted.booked.effect effect).counts fun _ _ _ _ _ place =>
    effect.writing counted.writing place

theorem Booked.step (booked : Booked before) (taken : before.step poolSize label = .ok after) :
    Booked after :=
  (booked.view.effect (step_effect booked.shape.layout taken)).of_view

/-- Every step of a task keeps the books. -/
theorem Counted.step (counted : Counted before) (taken : before.step poolSize label = .ok after) :
    Counted after :=
  (counted.view.effect (step_effect counted.shape.layout taken)).of_view

theorem Booted.counted (booted : Booted state) : Counted state where
  shape := booted.shape
  counted := by simp [booted.cacheCount]
  listed := by simp [booted.freeList]
  unused := by simp [booted.cacheCount]
  writing := by simp [booted.pc]

/-- In every reachable state the field `count` of each buffer is the number of
references to it. -/
theorem count_eq_references (reached : (interleavings taskCount poolSize).Reachable state)
    (carved : id < state.cache.cacheCount) :
    (state.cache.buffer id).count = state.references id := by
  have counted : Counted state := by
    refine reached.invariant Counted ?_ ?_
    · intro start booted
      exact Booted.counted booted
    · intro before label after counted _ taken
      exact counted.step taken
  exact counted.counted id carved

end Cache
end LightOS
