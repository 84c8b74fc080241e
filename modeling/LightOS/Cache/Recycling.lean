import LightOS.Cache.References

/-!
# What is on the free list

`brelse` publishes a buffer on the free list before it writes it back.  As long
as every buffer is clean when its last reference is dropped, the buffers of the
free list are idle: unreferenced, clean and without a request pending, so that
one taken from it can be given another block.  A dirty last release breaks this
at once.
-/

namespace LightOS
namespace Cache

variable {taskCount poolSize id : Nat} {state before after : State taskCount}
  {label : Label taskCount} {dev : Dev} {block : BlockNo}

/-- No request of any task concerns the buffer. -/
def Quiet {taskCount : Nat} (state : State taskCount) (id : Nat) : Prop :=
  ∀ task dev block, (state.pc task).transfer? ≠ some (id, dev, block)

/-- Every pending request moves data between a buffer and the block that the
buffer carries. -/
def Matched {taskCount : Nat} (state : State taskCount) : Prop :=
  ∀ task id dev block,
    (state.pc task).transfer? = some (id, dev, block) →
      Carries state.cache id dev block

/-- A step takes a free buffer for a block. -/
inductive Takes {taskCount : Nat} (poolSize : Nat) (state : State taskCount) :
    Label taskCount → Nat → Prop
  | getblk {task : Fin taskCount} {dev : Dev} {block : BlockNo} {id : Nat} :
      findInChain state.cache dev block = none →
      freeTarget poolSize state.cache = some id →
      Takes poolSize state (.getblk task dev block) id
  | bread {task : Fin taskCount} {dev : Dev} {block : BlockNo} {id : Nat} :
      findInChain state.cache dev block = none →
      freeTarget poolSize state.cache = some id →
      Takes poolSize state (.bread task dev block) id
  | resume {task : Fin taskCount} {dev : Dev} {block : BlockNo}
      {reading ready : Bool} {id : Nat} :
      state.pc task = .freeWait dev block reading ready →
      freeTarget poolSize state.cache = some id →
      Takes poolSize state (.resume task) id

/-- What the buffers of the free list have to be so that `getblk` may take
them. -/
structure RecyclableIdle {taskCount : Nat}
    (poolSize : Nat) (state : State taskCount) : Prop where
  unused : ∀ id ∈ state.cache.freeList, (state.cache.buffer id).count = 0
  clean : ∀ id ∈ state.cache.freeList, (state.cache.buffer id).dirty = false
  quiet : ∀ id ∈ state.cache.freeList, Quiet state id
  asserted : ∀ dev block,
    getblk poolSize state.cache dev block ≠ .error .assertion ∧
      acquireFree poolSize state.cache dev block ≠ .error .assertion
  matched : Matched state

/-- The last reference to a buffer is dropped only when the buffer is clean. -/
def CleanRelease {taskCount : Nat} (state : State taskCount) :
    Label taskCount → Prop
  | .brelse _ id =>
      (state.cache.buffer id).count = 1 → (state.cache.buffer id).dirty = false
  | _ => True

section Matched

theorem Matched.view (matched : Matched state) : Matched state.view := by
  intro task id dev block transfers
  exact matched task id dev block (by simpa [State.view] using transfers)

theorem Matched.of_view (matched : Matched state.view) : Matched state := by
  intro task id dev block transfers
  exact matched task id dev block (by simpa [State.view] using transfers)

theorem Quiet.view (quiet : Quiet state id) : Quiet state.view id := by
  intro task dev block transfers
  exact quiet task dev block (by simpa [State.view] using transfers)

theorem Takes.of_view (takes : Takes poolSize state.view label id) :
    Takes poolSize state label id := by
  cases takes with
  | getblk missing target => exact .getblk missing target
  | bread missing target => exact .bread missing target
  | @resume task dev block reading ready _ place target =>
      cases position : state.pc task with
      | freeWait dev' block' reading' ready' => exact .resume position target
      | _ => simp [State.view, position, Pc.forget] at place

/-- When the buffers keep their blocks, requests of the other tasks stay
matched. -/
theorem Matched.keep (matched : Matched before) (task : Fin taskCount)
    (others : ∀ other, other ≠ task → after.pc other = before.pc other)
    (sameBlocks : ∀ other id dev block, other ≠ task →
      (before.pc other).transfer? = some (id, dev, block) →
      Carries before.cache id dev block → Carries after.cache id dev block)
    (own : ∀ id dev block, (after.pc task).transfer? = some (id, dev, block) →
      Carries after.cache id dev block) : Matched after := by
  intro other id dev block transfers
  by_cases same : other = task
  · subst same
    exact own id dev block transfers
  · rw [others other same] at transfers
    exact sameBlocks other id dev block same transfers
      (matched other id dev block transfers)

/-- Replacing a buffer by one for the same block leaves every buffer its block. -/
theorem carries_of_update {before after : PageCache} {new : Buffer}
    (updated : after.buffer = Function.update before.buffer id new)
    (sameDev : new.dev = (before.buffer id).dev) (sameBlock : new.block = (before.buffer id).block)
    (other : Nat) (dev : Dev) (block : BlockNo) :
    Carries after other dev block ↔ Carries before other dev block := by
  unfold Carries
  rw [updated]
  by_cases same : other = id
  · subst same
    simp [sameDev, sameBlock]
  · simp [same]

/-- A gained buffer was found to carry the block, or is a free one that the step
takes. -/
theorem Enters.found_or_takes {task : Fin taskCount} {cache : PageCache}
    (enters : Enters state label task dev block)
    (gain : Gain poolSize state.cache dev block id cache)
    (looked : Looked label state.cache dev block id cache) :
    (findInChain state.cache dev block = some id ∧
      cache = retain state.cache id) ∨
      Takes poolSize state label id := by
  cases looked with
  | found found => exact .inl ⟨found, rfl⟩
  | missing missing =>
      rcases gain.found_or_target with ⟨found, _⟩ | target
      · simp [missing] at found
      · cases enters with
        | getblk _ => exact .inr (.getblk missing target)
        | bread _ => exact .inr (.bread missing target)
        | resume place => exact .inr (.resume place target)
  | woken isResume =>
      rcases gain.found_or_target with found | target
      · exact .inl found
      · cases enters with
        | getblk _ => cases isResume
        | bread _ => cases isResume
        | resume place => exact .inr (.resume place target)

/-- A buffer that a gain does not turn over keeps its block. -/
theorem Gain.carries_kept {cache after : PageCache} (layout : Layout cache)
    (gain : Gain poolSize cache dev block id after) {kept : Nat} {keptDev : Dev}
    {keptBlock : BlockNo} (found : kept = id → findInChain cache dev block = some id)
    (carries : Carries cache kept keptDev keptBlock) : Carries after kept keptDev keptBlock := by
  by_cases same : kept = id
  · have carriesBlock := (layout.of_findInChain (found same)).2
    subst same
    have sameDev : keptDev = dev := carries.1.symm.trans carriesBlock.1
    have sameBlock : keptBlock = block := carries.2.symm.trans carriesBlock.2
    rw [sameDev, sameBlock]
    exact gain.carries layout
  · unfold Carries
    rw [gain.buffer_other same]
    exact carries

/-- A request that `bread` starts is for the block of its buffer. -/
theorem State.Served.matched {task : Fin taskCount} (served : State.Served state task id after)
    {kept : Nat} (transfers : (after.pc task).transfer? = some (kept, dev, block)) :
    Carries after.cache kept dev block := by
  cases served with
  | given => simp [State.giveBuffer, State.setPc, Pc.transfer?] at transfers
  | sleeping => simp [State.setPc, Pc.transfer?] at transfers
  | reading _ =>
      simp only [State.setPc, Function.update_self, Pc.transfer?,
        Option.some.injEq, Prod.mk.injEq] at transfers
      obtain ⟨rfl, rfl, rfl⟩ := transfers
      exact ⟨rfl, rfl⟩

/-- Requests stay matched when one buffer is replaced by another for the same
block. -/
theorem Matched.replace (matched : Matched before) (task : Fin taskCount)
    (others : ∀ other, other ≠ task → after.pc other = before.pc other) {new : Buffer}
    (updated : after.cache.buffer = Function.update before.cache.buffer id new)
    (sameDev : new.dev = (before.cache.buffer id).dev)
    (sameBlock : new.block = (before.cache.buffer id).block)
    (own : ∀ id dev block, (after.pc task).transfer? = some (id, dev, block) →
      Carries before.cache id dev block) : Matched after := by
  have blocks := carries_of_update updated sameDev sameBlock
  refine matched.keep task others ?_ ?_
  · intro _ kept dev block _ _ carries
    exact (blocks kept dev block).mpr carries
  · intro kept dev block transfers
    exact (blocks kept dev block).mpr (own kept dev block transfers)

/-- A step that moves no task in or out of a request keeps requests matched. -/
theorem Matched.same (matched : Matched before) (samePc : after.pc = before.pc) {new : Buffer}
    (updated : after.cache.buffer = Function.update before.cache.buffer id new)
    (sameDev : new.dev = (before.cache.buffer id).dev)
    (sameBlock : new.block = (before.cache.buffer id).block) : Matched after := by
  intro task kept dev block transfers
  rw [samePc] at transfers
  exact (carries_of_update updated sameDev sameBlock kept dev block).mpr
    (matched task kept dev block transfers)

/-- Requests stay matched by every step that takes no buffer with a request
pending. -/
theorem Matched.effect (matched : Matched before) (layout : Layout before.cache)
    (quiet : ∀ id, Takes poolSize before label id → Quiet before id)
    (effect : Effect poolSize before label after) : Matched after := by
  cases effect with
  | @asleep _ task _ _ _ _ =>
      refine matched.keep task (by simp +contextual [State.setPc])
        (fun _ _ _ _ _ _ carries => carries) ?_
      simp [State.setPc, Pc.transfer?]
  | @acquired _ task dev block id cache _ enters gain looked served =>
      refine matched.keep task (fun other different =>
        (served.others other different).2) ?_ (fun _ _ _ => served.matched)
      intro other kept keptDev keptBlock _ transfers carries
      rw [served.cache_eq]
      refine gain.carries_kept layout (fun same => ?_) carries
      rcases enters.found_or_takes gain looked with ⟨found, _⟩ | takes
      · exact found
      · subst same
        exact absurd transfers (quiet kept takes other keptDev keptBlock)
  | @relock task id _ _ served =>
      refine matched.keep task (fun other different =>
        (served.others other different).2) ?_ (fun _ _ _ => served.matched)
      intro other kept keptDev keptBlock _ _ carries
      rwa [served.cache_eq]
  | @readSector task id dev block offset place =>
      refine matched.replace task
        (by simp +contextual [State.setPc, State.setCache]) rfl rfl rfl ?_
      intro kept keptDev keptBlock transfers
      refine matched task kept keptDev keptBlock ?_
      simpa [State.setPc, Pc.transfer?, place] using transfers
  | @writeSector task id dev block offset releasing place =>
      refine matched.keep task
        (by simp +contextual [State.setPc, State.setCache])
        (fun _ _ _ _ _ _ carries => carries) ?_
      intro kept keptDev keptBlock transfers
      refine matched task kept keptDev keptBlock ?_
      simpa [State.setPc, Pc.transfer?, place] using transfers
  | @finishRead task id dev block place =>
      refine matched.replace task ?_ rfl rfl rfl ?_
      · simp +contextual [State.giveBuffer, State.setPc, State.setCache]
      · simp [State.giveBuffer, State.setPc, Pc.transfer?]
  | @finishWrite task id dev block releasing place =>
      refine matched.replace task ?_ rfl rfl rfl ?_
      · simp +contextual [State.toClient, State.setPc, State.setCache]
      · simp [State.toClient, State.setPc, Pc.transfer?]
  | store _ _ _ => exact matched.same rfl rfl rfl rfl
  | writeClean _ => exact matched
  | @writeDirty task id place holds _ =>
      refine matched.keep task (by simp +contextual [State.setPc])
        (fun _ _ _ _ _ _ carries => carries) ?_
      intro kept dev block transfers
      simp only [State.setPc, Function.update_self, Pc.transfer?,
        Option.some.injEq, Prod.mk.injEq] at transfers
      obtain ⟨rfl, rfl, rfl⟩ := transfers
      exact ⟨rfl, rfl⟩
  | releaseShared _ _ _ => exact matched.same rfl rfl rfl rfl
  | releaseClean _ _ _ _ _ => exact matched.same rfl rfl rfl rfl
  | @releaseDirty task id place _ _ _ _ =>
      refine matched.replace task ?_ rfl rfl rfl ?_
      · simp +contextual [State.published, State.setPc, State.setCache]
      · intro kept dev block transfers
        simp only [State.setPc, Function.update_self, Pc.transfer?,
          Option.some.injEq, Prod.mk.injEq] at transfers
        obtain ⟨rfl, rfl, rfl⟩ := transfers
        exact ⟨rfl, rfl⟩

end Matched

/-- The invariant behind `RecyclableIdle`: the books are kept, listed buffers
are clean, and `brelse` is writing nothing back. -/
structure IdleFree {taskCount : Nat} (state : State taskCount) : Prop where
  counted : Counted state
  clean : ∀ id ∈ state.cache.freeList, (state.cache.buffer id).dirty = false
  settled : ∀ task id dev block sector,
    state.pc task ≠ .writeIo id dev block sector true
  matched : Matched state

namespace IdleFree

theorem view (idle : IdleFree state) :
    IdleFree state.view where
  counted := idle.counted.view
  clean := idle.clean
  settled := by
    intro task id dev block sector place
    refine idle.settled task id dev block sector ?_
    cases position : state.pc task <;> simp_all [State.view, Pc.forget]
  matched := idle.matched.view

theorem of_view (idle : IdleFree state.view) :
    IdleFree state where
  counted := idle.counted.of_view
  clean := idle.clean
  settled := by
    intro task id dev block sector place
    exact idle.settled task id dev block sector
      (by simp [State.view, place, Pc.forget])
  matched := idle.matched.of_view

/-- No request concerns a buffer of the free list. -/
theorem quiet (idle : IdleFree state) (listed : id ∈ state.cache.freeList) : Quiet state id := by
  intro task dev block transfers
  have carved := idle.counted.shape.layout.freeCarved id listed
  have unreferenced : state.references id = 0 := by
    rw [← idle.counted.counted id carved]
    exact idle.counted.listed id listed
  cases place : state.pc task with
  | readIo reads _ _ _ =>
      have promised : (state.pc task).promised = some id := by
        simp_all [Pc.transfer?, Pc.promised]
      have positive := State.references_pos_of_promised promised
      omega
  | writeIo writes writesDev writesBlock sector releasing =>
      have same : writes = id := by
        simp_all [Pc.transfer?]
      subst same
      cases releasing with
      | true => exact idle.settled task _ _ _ _ place
      | false =>
          have holds := idle.counted.writing task _ _ _ _ place
          have positive := State.references_pos_of_held holds
          omega
  | _ => simp [place, Pc.transfer?] at transfers

/-- No request concerns a buffer that a step takes. -/
theorem quiet_of_takes (idle : IdleFree state) (takes : Takes poolSize state label id) :
    Quiet state id := by
  have target : freeTarget poolSize state.cache = some id := by
    cases takes <;> assumption
  unfold freeTarget at target
  split at target
  · intro task dev block transfers
    have carved := idle.counted.shape.busy task id
      (Pc.buffer?_of_transfer? transfers)
    simp only [Option.some.injEq] at target
    omega
  · exact idle.quiet (List.mem_of_getLast? target)

/-- A held buffer is not on the free list. -/
theorem unlisted_of_held (idle : IdleFree state) {task : Fin taskCount}
    (holds : id ∈ state.held task) : id ∉ state.cache.freeList := by
  intro listed
  have positive := State.references_pos_of_held holds
  have carved := idle.counted.shape.held task id holds
  have unused := idle.counted.listed id listed
  rw [idle.counted.counted id carved] at unused
  omega

/-- After the replacement of one buffer another is clean as before. -/
theorem clean_of_update {before after : PageCache} {other : Nat} {new : Buffer}
    (updated : after.buffer = Function.update before.buffer id new)
    (isNew : other = id → new.dirty = false)
    (isOld : other ≠ id → (before.buffer other).dirty = false) :
    (after.buffer other).dirty = false := by
  rw [updated, Function.update_apply]
  split
  · rename_i same
    exact isNew same
  · rename_i different
    exact isOld different

/-- Listed buffers stay clean when releases are clean. -/
theorem clean_effect (idle : IdleFree before) (clean : CleanRelease before label)
    (effect : Effect poolSize before label after) (id : Nat) (listed : id ∈ after.cache.freeList) :
    (after.cache.buffer id).dirty = false := by
  cases effect with
  | asleep _ => exact idle.clean id listed
  | @acquired _ _ _ _ _ cache _ _ gain _ served =>
      rw [served.cache_eq] at listed ⊢
      obtain ⟨different, before⟩ :=
        gain.freeList_other idle.counted.shape.layout listed
      change (cache.buffer id).dirty = false
      rw [gain.buffer_other different]
      exact idle.clean id before
  | relock _ served =>
      rw [served.cache_eq] at listed ⊢
      exact idle.clean id listed
  | readSector _ =>
      refine clean_of_update rfl ?_ (fun _ => idle.clean id listed)
      rintro rfl
      exact idle.clean id listed
  | writeSector _ => exact idle.clean id listed
  | finishRead _ =>
      exact clean_of_update rfl (fun _ => rfl) fun _ => idle.clean id listed
  | finishWrite _ =>
      exact clean_of_update rfl (fun _ => rfl) fun _ => idle.clean id listed
  | store _ holds _ =>
      refine clean_of_update rfl ?_ (fun _ => idle.clean id listed)
      rintro rfl
      exact absurd listed (idle.unlisted_of_held holds)
  | writeClean _ => exact idle.clean id listed
  | writeDirty _ _ _ => exact idle.clean id listed
  | releaseShared _ _ _ =>
      refine clean_of_update rfl ?_ (fun _ => idle.clean id listed)
      rintro rfl
      exact idle.clean id listed
  | @releaseClean task kept _ _ _ isClean _ =>
      refine clean_of_update rfl ?_ (fun different => ?_)
      · rintro rfl
        exact isClean
      · have before := (List.mem_cons.mp listed).resolve_left different
        exact idle.clean id before
  | releaseDirty _ _ one dirty _ =>
      have isClean := clean one
      simp [dirty] at isClean

/-- No task starts to write back on behalf of `brelse` when releases are
clean. -/
theorem settled_effect (idle : IdleFree before) (clean : CleanRelease before label)
    (effect : Effect poolSize before label after) (other : Fin taskCount) (id : Nat) (dev : Dev)
    (block : BlockNo) (sector : Nat) : after.pc other ≠ .writeIo id dev block sector true := by
  have settled := idle.settled other id dev block
  cases effect with
  | @asleep _ task _ _ _ _ =>
      by_cases same : other = task <;> simp [State.setPc, same, settled]
  | @acquired _ task _ _ _ cache _ _ _ _ served =>
      by_cases same : other = task
      · subst same
        cases served <;> simp [State.giveBuffer, State.setPc]
      · rw [(served.others other same).2]
        exact settled sector
  | @relock task _ _ _ served =>
      by_cases same : other = task
      · subst same
        cases served <;> simp [State.giveBuffer, State.setPc]
      · rw [(served.others other same).2]
        exact settled sector
  | @readSector task _ _ _ _ _ =>
      by_cases same : other = task <;>
        simp [State.setPc, State.setCache, same, settled]
  | @writeSector task kept keptDev keptBlock offset releasing place =>
      by_cases same : other = task
      · subst same
        have notReleasing : releasing ≠ true := by
          rintro rfl
          exact idle.settled _ _ _ _ _ place
        simp [State.setPc, notReleasing]
      · simp [State.setPc, State.setCache, same, settled]
  | @finishRead task _ _ _ _ =>
      by_cases same : other = task <;>
        simp [State.giveBuffer, State.setPc, State.setCache, same, settled]
  | @finishWrite task _ _ _ _ _ =>
      by_cases same : other = task <;>
        simp [State.toClient, State.setPc, State.setCache, same, settled]
  | store _ _ _ => exact settled sector
  | writeClean _ => exact settled sector
  | @writeDirty task _ _ _ _ =>
      by_cases same : other = task <;> simp [State.setPc, same, settled]
  | releaseShared _ _ _ => exact settled sector
  | releaseClean _ _ _ _ _ => exact settled sector
  | releaseDirty _ _ one dirty _ =>
      have isClean := clean one
      simp [dirty] at isClean

/-- Every step other than a dirty last release keeps the invariant. -/
theorem effect (idle : IdleFree before) (clean : CleanRelease before label)
    (effect : Effect poolSize before label after) :
    IdleFree after where
  counted := idle.counted.effect effect
  clean := idle.clean_effect clean effect
  settled := idle.settled_effect clean effect
  matched := idle.matched.effect idle.counted.shape.layout
    (fun _ takes => idle.quiet_of_takes takes) effect

/-- The assertions of `getblk` hold. -/
theorem acquireFree_asserted (idle : IdleFree state) (dev : Dev) (block : BlockNo) :
    acquireFree poolSize state.cache dev block ≠ .error .assertion := by
  have layout := idle.counted.shape.layout
  by_cases room : CanCarve poolSize state.cache
  · simp [acquireFree_carve layout room]
  · cases last : state.cache.freeList.getLast? with
    | none => simp [acquireFree_asleep room last]
    | some id =>
        have listed := List.mem_of_getLast? last
        have unused := idle.counted.listed id listed
        have isClean := idle.clean id listed
        simp [acquireFree_recycle layout room last, unused, isClean]

/-- The invariant gives the property of the free list. -/
theorem recyclableIdle (idle : IdleFree state) :
    RecyclableIdle poolSize state where
  unused := idle.counted.listed
  clean := idle.clean
  quiet := fun _ listed => idle.quiet listed
  asserted := by
    intro dev block
    refine ⟨?_, idle.acquireFree_asserted dev block⟩
    cases found : findInChain state.cache dev block with
    | none =>
        rw [getblk_miss _ _ found]
        exact idle.acquireFree_asserted dev block
    | some id => simp [getblk_hit _ _ found]
  matched := idle.matched

end IdleFree

theorem Booted.idleFree (booted : Booted state) : IdleFree state where
  counted := booted.counted
  clean := by simp [booted.freeList]
  settled := by simp [booted.pc]
  matched := by simp [Matched, booted.pc, Pc.transfer?]

/-- Dropping the last reference to a dirty buffer leaves it on the free list,
dirty. -/
theorem dirty_release_listed (layout : Layout before.cache) (dirty : ¬CleanRelease before label)
    (taken : before.step poolSize label = .ok after) :
    ∃ id ∈ after.cache.freeList, (after.cache.buffer id).dirty = true := by
  have effect := step_effect layout taken
  cases label with
  | brelse task id =>
      simp only [CleanRelease, Classical.not_imp, Bool.not_eq_false] at dirty
      obtain ⟨one, isDirty⟩ := dirty
      have oneView : (before.view.cache.buffer id).count = 1 := one
      have dirtyView : (before.view.cache.buffer id).dirty = true := isDirty
      have published : id ∈ after.view.cache.freeList ∧
          (after.view.cache.buffer id).dirty = true := by
        generalize after.view = view at effect
        cases effect with
        | asleep enters => cases enters
        | acquired enters _ _ _ => cases enters
        | releaseShared _ _ many => omega
        | releaseClean _ _ _ isClean _ => simp [dirtyView] at isClean
        | releaseDirty _ _ _ _ _ =>
            simp [State.published, State.setCache, State.setPc, dirtyView]
      exact ⟨id, published.1, published.2⟩
  | _ => exact absurd trivial dirty

/-- From boot on, the buffers of the free list are idle and clean in every
state of a run exactly when every last release of the run is clean. -/
theorem recyclableIdle_iff_cleanRelease
    {taskCount poolSize : Nat}
    {start final : State taskCount}
    {trace : List (State taskCount × Label taskCount)}
    (booted : Booted start)
    (path : (interleavings taskCount poolSize).Path start trace final) :
    System.Visits (RecyclableIdle poolSize) trace final ↔
      System.Obeys CleanRelease trace := by
  refine path.visits_iff_obeys IdleFree booted.idleFree ?_ ?_ ?_
  · intro before label after idle clean taken
    have cleanView : CleanRelease before.view label := by
      cases label <;> exact clean
    exact (idle.view.effect cleanView
      (step_effect idle.counted.shape.layout taken)).of_view
  · intro state idle
    exact idle.recyclableIdle
  · intro before label after idle dirty taken recyclable
    obtain ⟨id, listed, isDirty⟩ :=
      dirty_release_listed idle.counted.shape.layout dirty taken
    simp [recyclable.clean id listed] at isDirty

/-- One task reads two blocks into a pool of two, changes one and releases it. -/
def releaseDirtyBlock : List (Label 2) :=
  [.bread 0 1 10, .transfer 0, .transfer 0, .finish 0,
   .bread 0 1 11, .transfer 0, .transfer 0, .finish 0,
   .store 0 0 (fun _ _ => 7), .brelse 0 0]

/-- While the released buffer is written back, the assertion `dirty == 0` of
`getblk` fails for another task. -/
theorem recyclableIdle_fails :
    ¬∀ (taskCount poolSize : Nat) (start final : State taskCount)
      (trace : List (State taskCount × Label taskCount)),
      Booted start →
      (interleavings taskCount poolSize).Path start trace final →
      RecyclableIdle poolSize final := by
  intro always
  obtain ⟨trace, final, path, failed⟩ := System.Path.of_run
    (interleavings 2 twoBuffers) (State.step twoBuffers)
    (fun _ _ _ taken => taken) (blankBoot 2) releaseDirtyBlock
    (fun final =>
      match getblk twoBuffers final.cache 1 12 with
      | .error .assertion => true
      | _ => false)
    (by decide)
  have recyclable := always 2 twoBuffers _ _ _ (blankBoot_booted 2) path
  have asserted := (recyclable.asserted 1 12).1
  cases outcome : getblk twoBuffers final.cache 1 12 with
  | ok acquired => simp [outcome] at failed
  | error fault =>
      cases fault with
      | assertion => exact asserted outcome
      | _ => simp [outcome] at failed

/-- A run in which the changed buffer is written before it is released. -/
theorem recyclableIdle_iff_cleanRelease_written :
    ∃ trace final,
      (interleavings 2 twoBuffers).Path (blankBoot 2) trace final ∧
      final.cache.freeList = [0] ∧
      (System.Visits (RecyclableIdle twoBuffers) trace final ↔
        System.Obeys CleanRelease trace) := by
  obtain ⟨trace, final, path, listed⟩ := System.Path.of_run
    (interleavings 2 twoBuffers) (State.step twoBuffers)
    (fun _ _ _ taken => taken) (blankBoot 2)
    [.bread 0 1 10, .transfer 0, .transfer 0, .finish 0,
      .store 0 0 (fun _ _ => 7), .bwrite 0 0, .transfer 0, .transfer 0,
      .finish 0, .brelse 0 0]
    (fun final => decide (final.cache.freeList = [0]))
    (by decide)
  exact ⟨trace, final, path, of_decide_eq_true listed,
    recyclableIdle_iff_cleanRelease (blankBoot_booted 2) path⟩

end Cache
end LightOS
