import LightOS.Cache.References

/-!
# What `bread` returns

A buffer that has a reference keeps its block, and stays valid once it is valid.
A task inside `bread` therefore comes back with a valid buffer of the block that
it asked for, whatever the other tasks do in the meantime.
-/

namespace LightOS
namespace Cache

variable {taskCount poolSize id : Nat} {state before after : State taskCount}
  {label : Label taskCount} {dev : Dev} {block : BlockNo}

/-- A buffer carries the same block as before, and is valid if it was. -/
structure Keeps (before after : PageCache) (id : Nat) : Prop where
  dev : (after.buffer id).dev = (before.buffer id).dev
  block : (after.buffer id).block = (before.buffer id).block
  valid : (before.buffer id).valid = true → (after.buffer id).valid = true

namespace Keeps

variable {before middle after : PageCache}

theorem refl (cache : PageCache) (id : Nat) : Keeps cache cache id :=
  ⟨rfl, rfl, fun isValid => isValid⟩

theorem of_eq (same : after.buffer id = before.buffer id) : Keeps before after id :=
  ⟨by rw [same], by rw [same], fun isValid => by rw [same]; exact isValid⟩

theorem carries (keeps : Keeps before after id) (carries : Carries before id dev block) :
    Carries after id dev block :=
  ⟨keeps.dev.trans carries.1, keeps.block.trans carries.2⟩

/-- Replacing a buffer by one with the same block that is valid if it was. -/
theorem of_update (changed : Nat) {new : Buffer}
    (updated : after.buffer = Function.update before.buffer changed new)
    (dev : new.dev = (before.buffer changed).dev)
    (block : new.block = (before.buffer changed).block)
    (valid : (before.buffer changed).valid = true → new.valid = true) (id : Nat) :
    Keeps before after id := by
  by_cases same : id = changed
  · subst same
    rw [← Function.update_self id new before.buffer, ← updated] at dev block valid
    exact ⟨dev, block, valid⟩
  · exact of_eq (by rw [updated, Function.update_of_ne same])

end Keeps

/-- Obtaining a buffer leaves the buffers that are in use alone. -/
theorem Gain.keeps {cache after : PageCache} {other : Nat}
    (gain : Gain poolSize cache dev block id after) (carved : other < cache.cacheCount)
    (used : (cache.buffer other).count ≠ 0) : Keeps cache after other := by
  by_cases same : other = id
  case neg => exact .of_eq (gain.buffer_other same)
  subst same
  cases gain with
  | hit _ =>
      exact .of_update other rfl (by rfl) (by rfl) (by simp) other
  | carved _ => exact absurd carved (Nat.lt_irrefl _)
  | recycled _ _ unused _ => exact absurd unused used

/-- A step leaves the blocks of the buffers that are in use alone. -/
theorem Effect.keeps (effect : Effect poolSize before label after)
    (carved : id < before.cache.cacheCount) (used : (before.cache.buffer id).count ≠ 0) :
    Keeps before.cache after.cache id := by
  cases effect with
  | asleep _ => exact .refl _ _
  | acquired _ gain _ served =>
      rw [served.cache_eq]
      exact gain.keeps carved used
  | relock _ served =>
      rw [served.cache_eq]
      exact .refl _ _
  | @readSector _ changed _ _ _ _ =>
      exact .of_update changed rfl (by rfl) (by rfl) (by simp) id
  | writeSector _ => exact .of_eq rfl
  | @finishRead _ changed _ _ _ =>
      exact .of_update changed rfl (by rfl) (by rfl) (by simp) id
  | @finishWrite _ changed _ _ _ _ =>
      exact .of_update changed rfl (by rfl) (by rfl) (by simp) id
  | @store _ changed _ _ _ _ =>
      exact .of_update changed rfl (by rfl) (by rfl) (by simp) id
  | writeClean _ => exact .refl _ _
  | writeDirty _ _ _ => exact .refl _ _
  | @releaseShared _ changed _ _ _ =>
      exact .of_update changed rfl (by rfl) (by rfl) (by simp) id
  | @releaseClean _ changed _ _ _ _ _ =>
      exact .of_update changed rfl (by rfl) (by rfl) (by simp) id
  | @releaseDirty _ changed _ _ _ _ _ =>
      exact .of_update changed rfl (by rfl) (by rfl) (by simp) id

/-- A task is inside `bread` of a block. -/
def Pc.Reading (cache : PageCache) (dev : Dev) (block : BlockNo) : Pc → Prop
  | .freeWait itsDev itsBlock reading _ =>
      itsDev = dev ∧ itsBlock = block ∧ reading = true
  | .lockWait id _ => Carries cache id dev block
  | .readIo id _ _ _ => Carries cache id dev block
  | _ => False

namespace State

variable {task : Fin taskCount} {kept : List Nat}

/-- `bread` has returned a valid buffer of a block to a task that held some
others. -/
def Returned (state : State taskCount) (task : Fin taskCount) (kept : List Nat)
    (dev : Dev) (block : BlockNo) : Prop :=
  state.pc task = .client ∧ ∃ id, state.held task = id :: kept ∧
    Carries state.cache id dev block ∧ (state.cache.buffer id).valid = true

/-- A task is inside `bread` of a block or just back from it. -/
def Reads (state : State taskCount) (task : Fin taskCount) (kept : List Nat)
    (dev : Dev) (block : BlockNo) : Prop :=
  (state.pc task).Reading state.cache dev block ∧ state.held task = kept ∨
    state.Returned task kept dev block

theorem Reads.of_view (reads : before.view.Reads task kept dev block) :
    before.Reads task kept dev block := by
  rcases reads with ⟨reading, holds⟩ | ⟨back, returned⟩
  · refine .inl ⟨?_, holds⟩
    simp only [view] at reading
    cases place : before.pc task <;> simp_all [Pc.forget, Pc.Reading] <;>
      exact reading
  · refine .inr ⟨?_, returned⟩
    simp only [view] at back
    cases place : before.pc task <;> simp_all [Pc.forget]

/-- A buffer that is served is the one asked for. -/
theorem Served.reads (served : Served before task id after)
    (carries : Carries before.cache id dev block)
    (valid : after.pc task = .client → (after.cache.buffer id).valid = true) :
    after.Reads task (before.held task) dev block := by
  cases served with
  | given =>
      refine .inr ⟨by simp [giveBuffer, setPc], id, by simp [giveBuffer], carries, ?_⟩
      exact valid (by simp [giveBuffer, setPc])
  | sleeping => exact .inl ⟨by simpa [setPc, Pc.Reading] using carries, rfl⟩
  | reading _ => exact .inl ⟨by simpa [setPc, Pc.Reading] using carries, rfl⟩

/-- A task that is given a valid buffer of a block is back with it. -/
theorem giveBuffer_returned (state : State taskCount) (carries : Carries state.cache id dev block)
    (valid : (state.cache.buffer id).valid = true) :
    (state.giveBuffer task id).Returned task (state.held task) dev block :=
  ⟨by simp [giveBuffer, setPc], id, by simp [giveBuffer], carries, valid⟩

theorem unlock_carries (state : State taskCount) (freed : Nat)
    (carries : Carries state.cache id dev block) :
    Carries (state.unlock freed).cache id dev block := by
  have same := state.view_unlock freed
  change Carries (state.unlock freed).view.cache id dev block
  rw [same]
  exact carries

/-- `mutex_unlock` changes no buffer but for its lock. -/
theorem unlock_valid (state : State taskCount) (freed id : Nat) :
    ((state.unlock freed).cache.buffer id).valid = (state.cache.buffer id).valid := by
  have same := state.view_unlock freed
  change ((state.unlock freed).view.cache.buffer id).valid = _
  rw [same]
  rfl

theorem lockAndRead_valid (state : State taskCount) (task : Fin taskCount) (id : Nat)
    (back : (state.lockAndRead task id).pc task = .client) :
    ((state.lockAndRead task id).cache.buffer id).valid = true := by
  unfold lockAndRead at back ⊢
  dsimp only at back ⊢
  by_cases taken : (state.cache.buffer id).lockValue = true
  · rw [if_pos taken] at back
    simp [sleepOnLock, setPc] at back
  · rw [if_neg taken] at back ⊢
    by_cases valid : (state.cache.buffer id).valid = true
    · rw [if_pos valid]
      refine (unlock_valid _ id id).trans ?_
      simpa [setCache] using valid
    · rw [if_neg valid] at back
      simp [setPc] at back

theorem lockAndRead_reads (state : State taskCount) (carries : Carries state.cache id dev block) :
    (state.lockAndRead task id).Reads task (state.held task) dev block := by
  refine .of_view ((state.lockAndRead_served task id).reads carries fun back => ?_)
  refine state.lockAndRead_valid task id ?_
  simp only [view] at back
  cases place : (state.lockAndRead task id).pc task <;> simp_all [Pc.forget]

theorem breadTail_reads (state : State taskCount) (carries : Carries state.cache id dev block) :
    (state.breadTail task id).Reads task (state.held task) dev block := by
  unfold breadTail
  split
  · rename_i valid
    exact .inr (state.giveBuffer_returned carries valid)
  · exact state.lockAndRead_reads carries

theorem afterGetblk_reads {acquired : Acquired} (state : State taskCount)
    (carries : ∀ id cache, acquired = .buffer id cache → Carries cache id dev block) :
    (state.afterGetblk task dev block true acquired).Reads task (state.held task)
      dev block := by
  cases acquired with
  | asleep => exact .inl ⟨by simp [afterGetblk, setPc, Pc.Reading], rfl⟩
  | buffer id cache =>
      exact (state.setCache cache).breadTail_reads (carries id cache rfl)

/-- A call of `bread` is inside `bread` of its block or back from it. -/
theorem bread_reads (layout : Layout before.cache)
    (taken : before.step poolSize (.bread task dev block) = .ok after) :
    after.Reads task (before.held task) dev block := by
  rw [step] at taken
  by_cases place : before.pc task = .client
  case neg => simp [place] at taken
  rw [if_pos place, bind_eq_ok] at taken
  obtain ⟨acquired, called, result⟩ := taken
  cases result
  refine before.afterGetblk_reads fun id cache isBuffer => ?_
  have gain := (getblk_gain layout (.bread task dev block) called id cache isBuffer).1
  have carries : Carries cache.forget id dev block := gain.carries layout.forget
  exact carries

/-- A task inside `bread` goes on in it or comes back from it. -/
theorem reading_step (layout : Layout before.cache) (taken : before.step poolSize label = .ok after)
    (reading : (before.pc label.task).Reading before.cache dev block) :
    after.Reads label.task (before.held label.task) dev block := by
  have notClient : before.pc label.task ≠ .client := by
    intro place
    rw [place] at reading
    exact reading
  cases label with
  | resume task =>
      simp only [Label.task] at reading ⊢
      simp only [step, resume] at taken
      cases place : before.pc task with
      | freeWait itsDev itsBlock itsReading ready =>
          rw [place] at reading
          obtain ⟨rfl, rfl, rfl⟩ := reading
          cases ready with
          | false => simp [place] at taken
          | true =>
              simp only [place, bind_eq_ok] at taken
              obtain ⟨acquired, called, result⟩ := taken
              cases result
              refine before.afterGetblk_reads fun id cache isBuffer => ?_
              subst isBuffer
              have gain := acquireFree_gain layout called
              have carries : Carries cache.forget id itsDev itsBlock :=
                gain.carries layout.forget
              exact carries
      | lockWait id ready =>
          rw [place] at reading
          cases ready with
          | false => simp [place] at taken
          | true =>
              simp only [place, Except.ok.injEq] at taken
              subst taken
              exact before.lockAndRead_reads reading
      | _ => simp [place] at taken
  | transfer task =>
      simp only [Label.task] at reading ⊢
      simp only [step, transferSector] at taken
      cases place : before.pc task with
      | readIo id itsDev itsBlock sector =>
          rw [place] at reading
          simp only [place] at taken
          split at taken
          case isFalse => cases taken
          cases taken
          refine .inl ⟨?_, rfl⟩
          have carries : Carries before.cache id dev block := reading
          simpa [setPc, setCache, Pc.Reading, Carries] using carries
      | writeIo _ _ _ _ _ =>
          rw [place] at reading
          exact absurd reading id
      | _ => simp [place] at taken
  | finish task =>
      simp only [Label.task] at reading ⊢
      simp only [step, finishTransfer] at taken
      cases place : before.pc task with
      | readIo id itsDev itsBlock sector =>
          rw [place] at reading
          simp only [place] at taken
          split at taken
          case isFalse => cases taken
          cases taken
          have carries : Carries before.cache id dev block := reading
          have held := unlock_held (before.setCache (before.cache.modify id
            fun buffer => { buffer with dirty := false, valid := true })) id
          refine .inr ?_
          rw [show before.held task = _ from (congrFun held task).symm]
          refine giveBuffer_returned _ (unlock_carries _ id ?_) ?_
          · simpa [setCache, Carries] using carries
          · rw [unlock_valid]
            simp [setCache]
      | writeIo _ _ _ _ _ =>
          rw [place] at reading
          exact absurd reading id
      | _ => simp [place] at taken
  | getblk task _ _ => simp [step, show before.pc task ≠ _ from notClient] at taken
  | bread task _ _ => simp [step, show before.pc task ≠ _ from notClient] at taken
  | store task _ _ => simp [step, show before.pc task ≠ _ from notClient] at taken
  | bwrite task _ => simp [step, show before.pc task ≠ _ from notClient] at taken
  | brelse task _ => simp [step, show before.pc task ≠ _ from notClient] at taken

end State

/-- A task inside `bwrite` goes on in it, or comes back with a clean buffer. -/
theorem Effect.writeIo (effect : Effect poolSize before label after) {sector : Nat}
    (place : before.pc label.task = .writeIo id dev block sector false) :
    after.held label.task = before.held label.task ∧
      ((∃ next, after.pc label.task = .writeIo id dev block next false) ∨
        after.pc label.task = .client ∧ (after.cache.buffer id).dirty = false) := by
  cases effect with
  | asleep enters =>
      rw [enters.task] at place
      cases enters <;> simp_all
  | acquired enters _ _ _ =>
      rw [enters.task] at place
      cases enters <;> simp_all
  | relock position _ => simp [Label.task, position] at place
  | readSector position => simp [Label.task, position] at place
  | @writeSector task kept _ _ offset releasing position =>
      simp only [Label.task, position, Pc.writeIo.injEq] at place
      obtain ⟨rfl, rfl, rfl, -, rfl⟩ := place
      exact ⟨rfl, .inl ⟨offset.val + 1, by simp [Label.task, State.setPc]⟩⟩
  | finishRead position => simp [Label.task, position] at place
  | @finishWrite task kept _ _ releasing position =>
      simp only [Label.task, position, Pc.writeIo.injEq] at place
      obtain ⟨rfl, rfl, rfl, -, rfl⟩ := place
      refine ⟨rfl, .inr ⟨by simp [Label.task, State.toClient, State.setPc], ?_⟩⟩
      simp [State.toClient, State.setPc, State.setCache]
  | store position _ _ => simp [Label.task, position] at place
  | writeClean _ => exact ⟨rfl, .inl ⟨sector, place⟩⟩
  | writeDirty position _ _ => simp [Label.task, position] at place
  | releaseShared position _ _ => simp [Label.task, position] at place
  | releaseClean position _ _ _ _ => simp [Label.task, position] at place
  | releaseDirty position _ _ _ _ => simp [Label.task, position] at place

/-! ## The other tasks -/

section Others

/-- A step leaves the blocks of the buffers that are in use alone. -/
theorem Booked.keeps (booked : Booked before) (taken : before.step poolSize label = .ok after)
    (carved : id < before.cache.cacheCount) (used : before.references id ≠ 0) :
    Keeps before.cache after.cache id := by
  have counted := booked.counted id carved
  have kept := (step_effect booked.shape.layout taken).keeps carved
    (show (before.cache.buffer id).count ≠ 0 by omega)
  exact ⟨kept.dev, kept.block, kept.valid⟩

/-- A step changes neither what another task holds nor where it stands, but for
waking it. -/
theorem Booked.others (booked : Booked before)
    (taken : before.step poolSize label = .ok after) {other : Fin taskCount}
    (different : other ≠ label.task) :
    after.held other = before.held other ∧
      (after.pc other).forget = (before.pc other).forget :=
  (step_effect booked.shape.layout taken).others different

/-- Another task inside `bread` stays inside. -/
theorem Booked.reading (booked : Booked before) (taken : before.step poolSize label = .ok after)
    {other : Fin taskCount} (different : other ≠ label.task)
    (reading : (before.pc other).Reading before.cache dev block) :
    (after.pc other).Reading after.cache dev block := by
  have same := (booked.others taken different).2
  have stays (id : Nat) (promised : (before.pc other).promised = some id) :=
    booked.keeps taken
      (booked.shape.busy other id (by
        cases place : before.pc other <;> simp_all [Pc.promised, Pc.buffer?]))
      (State.references_pos_of_promised promised).ne'
  cases place : before.pc other <;> cases position : after.pc other <;>
    simp_all [Pc.forget, Pc.Reading, Pc.promised]
  · exact stays.carries reading
  · exact stays.carries reading

end Others

end Cache
end LightOS
