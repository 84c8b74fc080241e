import LightOS.UserMemory.Access

/-!
# System calls on user memory

The calls that link, unlink and protect pages of the current task keep the tables in order.
-/

namespace LightOS
namespace UserMemory

open Sched (taskNr userRing3)

namespace Machine

variable {s middle after : Machine} {spaces : Spaces} {pid dir vaddr table page index : Nat}
  {entry : EntryPointer}

theorem modify_serves (inUse : s.InUse spaces pid dir userTables) {change : Task → Task}
    (same : ∀ task, (change task).core = task.core) :
    Serves spaces pid dir s (s.modify s.current change) := by
  refine .of_tasks inUse (fun other => ?_) (fun other away => ?_) s.memory s.touched
  · by_cases isCurrent : other = s.current
    · subst isCurrent
      rw [Function.update_self, Option.map_map]
      congr 1
      funext task
      exact same task
    · rw [Function.update_of_ne isCurrent]
  · rw [Function.update_of_ne away]

/-! ## Programs -/

theorem linkSegmentPage_serves (inUse : s.InUse spaces pid dir userTables)
    (linked : linkSegmentPage vaddr s index = .ok after) : Serves spaces pid dir s after := by
  simp only [linkSegmentPage, bind_eq_ok, check_eq_ok] at linked
  obtain ⟨_, inside, linked⟩ := linked
  refine (linkUserPage_serves inUse ?_ linked).1
  simp only [userMmapAddr, kernelVaddrOffset] at inside ⊢
  omega

theorem protectPage_serves (inUse : s.InUse spaces pid dir userTables)
    (user : (vaddr + index * pageSize) % 2 ^ 32 < kernelVaddrOffset)
    (isProtected : protectPage vaddr s index = .ok after) : Serves spaces pid dir s after := by
  simp only [protectPage, bind_eq_ok] at isProtected
  obtain ⟨⟨entry, one⟩, got, unmapped⟩ := isProtected
  obtain ⟨served, table, points⟩ := getPte_serves inUse user got
  have written : Serves spaces pid dir one
      (one.write entry { one.read entry with write := false, readonly := true }) :=
    writeFlags_serves served.inUse points rfl
  exact served.trans (written.trans (unmap_serves written.inUse unmapped))

theorem clearSegment_serves (inUse : s.InUse spaces pid dir userTables) (segment : Segment) :
    Leaves (Serves spaces pid dir s) (s.clearSegment segment) := by
  unfold clearSegment
  split
  · exact kernelStores_serves inUse _ _ _
  · exact .ok (.refl inUse)

theorem protectSegment_serves (inUse : s.InUse spaces pid dir userTables) {segment : Segment}
    {count : Nat} (user : ∀ index ∈ List.range count,
      (segment.vaddr + index * pageSize) % 2 ^ 32 < kernelVaddrOffset)
    (isProtected : s.protectSegment segment count = .ok after) :
    Serves spaces pid dir s after := by
  unfold protectSegment at isProtected
  split at isProtected
  · exact .foldlM inUse (fun before index next inRange inUse taken =>
      protectPage_serves inUse (user index inRange) taken) isProtected
  · cases isProtected
    exact .refl inUse

theorem loadSegment_serves (inUse : s.InUse spaces pid dir userTables) (segment : Segment) :
    Leaves (Serves spaces pid dir s) (s.loadSegment segment) := by
  unfold loadSegment
  dsimp only
  refine .bind_lift fun _ _ => .bind_lift fun _ _ => .bind_lift fun one linked => ?_
  have first : Serves spaces pid dir s one :=
    .foldlM inUse (fun _ _ _ _ inUse taken => linkSegmentPage_serves inUse taken) linked
  have user : ∀ index ∈ List.range (Fs.divRoundUp (max segment.memsz segment.filesz) pageSize),
      (segment.vaddr + index * pageSize) % 2 ^ 32 < kernelVaddrOffset := by
    intro index inRange
    obtain ⟨before, next, round⟩ := foldlM_round linked inRange
    simp only [linkSegmentPage, bind_eq_ok, check_eq_ok] at round
    obtain ⟨_, inside, _⟩ := round
    simp only [userMmapAddr, kernelVaddrOffset] at inside ⊢
    omega
  refine .bind ((kernelStores_serves first.inUse _ _ _).mono fun _ more => first.trans more)
    fun two stored => ?_
  have second := first.trans ((kernelStores_serves first.inUse _ _ _).1 two stored)
  refine .bind ((clearSegment_serves second.inUse segment).mono fun _ more => second.trans more)
    fun three cleared => ?_
  have third := second.trans ((clearSegment_serves second.inUse segment).1 three cleared)
  refine .bind_lift fun four isProtected => ?_
  have fourth := third.trans (protectSegment_serves third.inUse user isProtected)
  have addresses : Serves spaces pid dir four (four.modify four.current fun task =>
      if segment.flags = 5 then { task with text := segment.vaddr }
      else if segment.flags = 6 then { task with data := segment.vaddr }
      else task) := by
    refine modify_serves fourth.inUse fun task => ?_
    split
    · rfl
    split
    · rfl
    · rfl
  exact .ok (fourth.trans (addresses.trans (modify_serves addresses.inUse fun _ => rfl)))

/-- Loading a program keeps the tables in order. -/
theorem loadElf_serves (inUse : s.InUse spaces pid dir userTables) (image : Image) :
    Leaves (Serves spaces pid dir s) (s.loadElf image) := by
  unfold loadElf
  refine .bind_lift fun one linked => ?_
  have first := (linkUserPage_serves inUse (by decide) linked).1
  refine .bind ((kernelStores_serves first.inUse _ _ _).mono fun _ more => first.trans more)
    fun two stored => ?_
  have second := first.trans ((kernelStores_serves first.inUse _ _ _).1 two stored)
  split
  · refine .bind ((kernelStores_serves second.inUse _ _ _).mono fun _ more => second.trans more)
      fun three headers => ?_
    have third := second.trans ((kernelStores_serves second.inUse _ _ _).1 three headers)
    have loaded : Leaves (Serves spaces pid dir s) (image.segments.foldlM loadSegment three) :=
      .foldlM third fun before segment _ served =>
        (loadSegment_serves served.inUse segment).mono fun _ more => served.trans more
    refine .bind loaded fun four isLoaded => ?_
    have fourth := loaded.1 four isLoaded
    exact .ok (fourth.trans (modify_serves fourth.inUse fun _ => rfl))
  · exact .ok second

/-! ## The heap -/

/-- What `sys_brk` does. -/
theorem sysBrk_cases {task : Task} {brk : Nat} {result : Int}
    (isTask : s.getCurrent = .ok task) (called : s.sysBrk brk = .ok (result, after)) :
    result = -1 ∧ after = s ∨
      result = 0 ∧ brk % pageSize = 0 ∧ task.end_ ≤ brk ∧ brk < userMmapAddr ∧
        ∃ middle, after = middle.modify middle.current (fun task => { task with brk := brk }) ∧
          (brk < task.brk ∧
              (List.range ((task.brk - brk + (pageSize - 1)) / pageSize)).foldlM
                (fun s index => s.unlinkUserPage (brk + pageSize * index)) s = .ok middle ∨
            task.brk ≤ brk ∧ brk - task.brk ≤ s.pages.freePages * pageSize % 2 ^ 32 ∧
              middle = s) := by
  simp only [sysBrk, isTask, ok_bind, bind_eq_ok, check_eq_ok] at called
  obtain ⟨_, aligned, _, _, called⟩ := called
  split at called
  · cases called
    exact .inl ⟨rfl, rfl⟩
  rename_i low
  split at called
  · cases called
    exact .inl ⟨rfl, rfl⟩
  rename_i above
  split at called
  · rename_i shrinks
    simp only [bind_eq_ok] at called
    obtain ⟨middle, unlinked, result⟩ := called
    cases result
    exact .inr ⟨rfl, aligned, by omega, by omega, middle, rfl, .inl ⟨shrinks, unlinked⟩⟩
  rename_i grows
  split at called
  · cases called
    exact .inl ⟨rfl, rfl⟩
  rename_i enough
  cases called
  exact .inr ⟨rfl, aligned, Nat.le_of_not_lt above, Nat.lt_of_not_le low, s, rfl,
    .inr ⟨Nat.le_of_not_lt grows, Nat.le_of_not_lt enough, rfl⟩⟩

/-- Unlinking pages one after another. -/
theorem unlinkUserPages_spec (inUse : s.InUse spaces pid dir userTables) {count : Nat}
    (user : ∀ index < count, vaddr + pageSize * index < kernelVaddrOffset)
    (unlinked : (List.range count).foldlM
      (fun s index => s.unlinkUserPage (vaddr + pageSize * index)) s = .ok after) :
    Orders spaces pid dir s after ∧
      (∀ index < count,
        refersIn after.frames spaces (placeOf pid (vaddr + pageSize * index)) = none) ∧
      ∀ owner number position,
        (∀ index < count, (owner, number, position + 1) ≠ placeOf pid (vaddr + pageSize * index)) →
          refersIn after.frames spaces (owner, number, position + 1) =
            refersIn s.frames spaces (owner, number, position + 1) := by
  refine foldlM_range (fun middle count => Orders spaces pid dir s middle ∧
      (∀ index < count,
        refersIn middle.frames spaces (placeOf pid (vaddr + pageSize * index)) = none) ∧
      ∀ owner number position,
        (∀ index < count, (owner, number, position + 1) ≠ placeOf pid (vaddr + pageSize * index)) →
          refersIn middle.frames spaces (owner, number, position + 1) =
            refersIn s.frames spaces (owner, number, position + 1))
    (fun before index next inRange ⟨ordered, gone, same⟩ taken => ?_)
    ⟨.refl inUse, nofun, fun _ _ _ _ => rfl⟩ unlinked
  obtain ⟨inUseNext, within, sameBut, isNone⟩ := unlinkUserPage_spec ordered.inUse
    (pdeIdx_lt (user index inRange)) taken
  refine ⟨ordered.trans ⟨inUseNext, within⟩, fun other isOther => ?_,
    fun owner number position away => ?_⟩
  · by_cases isPlace : placeOf pid (vaddr + pageSize * other) =
        placeOf pid (vaddr + pageSize * index)
    · rw [isPlace]
      exact isNone
    · rw [sameBut _ _ _ isPlace]
      rcases Nat.lt_succ_iff_lt_or_eq.mp isOther with isBefore | rfl
      · exact gone other isBefore
      · exact absurd rfl isPlace
  · rw [sameBut _ _ _ (away index (Nat.lt_succ_self index))]
    exact same owner number position fun other isOther => away other (Nat.lt_succ_of_lt isOther)

/-- The pages that `sys_brk` unlinks are pages of user programs. -/
theorem brk_user {task : Task} {brk : Nat} (bounded : task.brk ≤ max userMmapAddr task.end_)
    (above : task.end_ ≤ brk) :
    ∀ index < (task.brk - brk + (pageSize - 1)) / pageSize,
      brk + pageSize * index < kernelVaddrOffset := by
  intro index inRange
  simp only [userMmapAddr, kernelVaddrOffset, pageSize] at *
  omega

/-- `sys_brk` keeps the tables in order. -/
theorem sysBrk_orders (inUse : s.InUse spaces pid dir userTables) {task : Task} {brk : Nat}
    {result : Int} (isTask : s.getCurrent = .ok task)
    (bounded : task.brk ≤ max userMmapAddr task.end_)
    (called : s.sysBrk brk = .ok (result, after)) : Orders spaces pid dir s after := by
  rcases sysBrk_cases isTask called with ⟨_, rfl⟩ | ⟨_, _, above, _, middle, rfl, change⟩
  · exact .refl inUse
  have ordered : Orders spaces pid dir s middle := by
    rcases change with ⟨_, unlinked⟩ | ⟨_, _, rfl⟩
    · exact (unlinkUserPages_spec inUse (brk_user bounded above) unlinked).1
    · exact .refl inUse
  have moved : Serves spaces pid dir middle
      (middle.modify middle.current fun task => { task with brk := brk }) :=
    modify_serves ordered.inUse fun _ => rfl
  exact ordered.trans moved.toOrders

end Machine

end UserMemory
end LightOS
