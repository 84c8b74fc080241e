import LightOS.UserMemory.Frame

/-!
# The storage of the bitmaps

The bitmap of a task is as long as the region for `sys_mmap` needs, which is 22 pages, but
one page is allocated for it.  So `bitmap_init` writes behind the page when the first user
task is set up.
-/

namespace LightOS
namespace UserMemory

variable {map : Bitmap}

/-- What has been accessed as a byte of a bitmap is not forgotten. -/
def Remembers (s after : Machine) : Prop :=
  s.touched ⊆ after.touched

namespace Remembers

variable {s middle after : Machine}

theorem refl (s : Machine) : Remembers s s := List.Subset.refl _

theorem trans (first : Remembers s middle) (second : Remembers middle after) :
    Remembers s after :=
  List.Subset.trans first second

theorem of_eq (same : after.touched = s.touched) : Remembers s after := by
  unfold Remembers
  rw [same]
  exact List.Subset.refl _

theorem foldlM {α : Type} {round : Machine → α → Except Fault Machine} {items : List α}
    (keeps : ∀ before item next, round before item = .ok next → Remembers before next)
    (folded : items.foldlM round s = .ok after) : Remembers s after :=
  foldlM_invariant (Remembers s)
    (fun before item next _ kept taken => kept.trans (keeps before item next taken)) (refl s)
    folded

end Remembers

theorem Kept.remembers {s after : Machine} (kept : Kept s after) : Remembers s after :=
  .of_eq kept.touched

namespace Machine

variable {s after : Machine} {vaddr index : Nat}

/-- Every byte that has been accessed as a byte of a bitmap lies in the page that is
allocated for the bits of the bitmap. -/
def Inside (s : Machine) : Prop :=
  ∀ access ∈ s.touched, access.1 ≤ access.2 ∧ access.2 < access.1 + pageSize

/-- The bitmaps of two tasks give the same answer for every page of the region for
`sys_mmap`. -/
def SameBits (s : Machine) (parent child : Nat) : Prop :=
  ∀ task other, s.tasks parent = some task → s.tasks child = some other →
    ∀ index, userMmapAddr / pageSize ≤ index → index * pageSize < userMmapAddr + userMmapSize →
      other.vmap.test s.memory index = task.vmap.test s.memory index

/-- The bitmaps fit their storage, and a task that is forked now inherits the whole bitmap. -/
structure Stored (s : Machine) : Prop where
  inside : s.Inside
  inherits : ∀ growths after, s.sysFork growths = .ok after →
    ∀ child, s.tasks child = none → after.SameBits s.current child

theorem bitmapSet_remembers {value : Bool} (isSet : s.bitmapSet map index value = .ok after) :
    Remembers s after := by
  simp only [bitmapSet, bind_eq_ok] at isSet
  obtain ⟨_, _, result⟩ := isSet
  cases result
  exact List.subset_cons_self _ _

theorem bitmapTest_remembers {bit : Bool} (tested : s.bitmapTest map index = .ok (bit, after)) :
    Remembers s after := by
  simp only [bitmapTest, bind_eq_ok] at tested
  obtain ⟨_, _, result⟩ := tested
  cases result
  exact List.subset_cons_self _ _

theorem bitmapScan_remembers {count : Nat} {found : Option Nat}
    (scanned : s.bitmapScan map count = .ok (found, after)) : Remembers s after := by
  simp only [bitmapScan, bind_eq_ok] at scanned
  obtain ⟨result, _, scanned⟩ := scanned
  cases result with
  | none =>
      cases scanned
      exact List.subset_append_right _ _
  | some result =>
      cases scanned
      exact List.subset_append_right _ _

theorem mmapPage_remembers {args : MmapArgs}
    (mapped : mmapPage args map vaddr s index = .ok after) : Remembers s after := by
  simp only [mmapPage, bind_eq_ok] at mapped
  obtain ⟨one, linked, two, isSet, ⟨entry, three⟩, got, result⟩ := mapped
  cases result
  exact (linkUserPage_kept linked).remembers.trans ((bitmapSet_remembers isSet).trans
    ((getPte_kept got).trans (write_kept _ _ _)).remembers)

theorem mmapStart_remembers {args : MmapArgs}
    (started : s.mmapStart args map = .ok (vaddr, after)) : Remembers s after := by
  simp only [mmapStart] at started
  split at started
  · simp only [bind_eq_ok] at started
    obtain ⟨⟨index, middle⟩, scanned, result⟩ := started
    cases result
    exact bitmapScan_remembers scanned
  · cases started
    exact .refl s

theorem sysMmap_remembers (s : Machine) (args : MmapArgs) :
    Leaves (Remembers s) (do
      let (_, s) ← s.sysMmap args
      return s) := by
  unfold sysMmap
  simp only [bind_assoc]
  refine .bind_lift fun _ _ => .bind_lift fun _ _ => .bind_lift fun task _ => ?_
  refine .bind_lift fun found started => .bind_lift fun _ _ => ?_
  obtain ⟨start, one⟩ := found
  refine .bind_lift fun two mapped => ?_
  have remembers : Remembers s two := (mmapStart_remembers started).trans
    (.foldlM (fun _ _ _ mapped => mmapPage_remembers mapped) mapped)
  cases args.file with
  | none => exact .ok remembers
  | some file =>
      dsimp only
      simp only [bind_assoc]
      refine .bind ((kernelStores_kept _ _ _ _).mono fun _ kept =>
        remembers.trans kept.remembers) fun three stored => ?_
      exact .ok (remembers.trans ((kernelStores_kept _ _ _ _).1 three stored).remembers)

theorem munmapPage_remembers (unmapped : munmapPage map vaddr s index = .ok after) :
    Remembers s after := by
  simp only [munmapPage, bind_eq_ok] at unmapped
  obtain ⟨one, unlinked, ⟨bit, two⟩, tested, _, _, isSet⟩ := unmapped
  exact (unlinkUserPage_kept unlinked).remembers.trans
    ((bitmapTest_remembers tested).trans (bitmapSet_remembers isSet))

theorem sysMunmap_remembers {length : Nat} {result : Int}
    (called : s.sysMunmap vaddr length = .ok (result, after)) : Remembers s after := by
  simp only [sysMunmap, bind_eq_ok] at called
  obtain ⟨task, _, _, _, _, _, middle, unmapped, result⟩ := called
  cases result
  exact .foldlM (fun _ _ _ unmapped => munmapPage_remembers unmapped) unmapped

theorem sysBrk_remembers {brk : Nat} {result : Int}
    (called : s.sysBrk brk = .ok (result, after)) : Remembers s after := by
  simp only [sysBrk, bind_eq_ok] at called
  obtain ⟨_, _, task, _, _, _, called⟩ := called
  split at called
  · cases called
    exact .refl s
  split at called
  · cases called
    exact .refl s
  split at called
  · simp only [bind_eq_ok] at called
    obtain ⟨middle, unlinked, result⟩ := called
    cases result
    exact (foldlM_kept (fun _ _ _ unlinked => unlinkUserPage_kept unlinked) unlinked).remembers
  split at called
  · cases called
    exact .refl s
  · cases called
    exact .of_eq rfl

theorem clearSegment_kept (s : Machine) (segment : Segment) :
    Leaves (Kept s) (s.clearSegment segment) := by
  unfold clearSegment
  split
  · exact kernelStores_kept _ _ _ _
  · exact .ok (Kept.refl s)

theorem protectSegment_kept {segment : Segment} {count : Nat}
    (isProtected : s.protectSegment segment count = .ok after) : Kept s after := by
  unfold protectSegment at isProtected
  split at isProtected
  · exact foldlM_kept (fun _ _ _ isProtected => protectPage_kept isProtected) isProtected
  · cases isProtected
    exact .refl s

theorem loadSegment_remembers (s : Machine) (segment : Segment) :
    Leaves (Remembers s) (s.loadSegment segment) := by
  unfold loadSegment
  dsimp only
  refine .bind_lift fun _ _ => .bind_lift fun _ _ => .bind_lift fun one linked => ?_
  have first : Kept s one := foldlM_kept (fun _ _ _ linked => linkSegmentPage_kept linked) linked
  refine .bind ((kernelStores_kept _ _ _ _).mono fun _ kept => (first.trans kept).remembers)
    fun two stored => ?_
  have second := first.trans ((kernelStores_kept _ _ _ _).1 two stored)
  refine .bind ((clearSegment_kept _ _).mono fun _ kept => (second.trans kept).remembers)
    fun three cleared => .bind_lift fun four isProtected => ?_
  exact .ok ((second.trans (((clearSegment_kept _ _).1 three cleared).trans
    (protectSegment_kept isProtected))).remembers.trans (.of_eq rfl))

theorem loadElf_remembers (s : Machine) (image : Image) :
    Leaves (Remembers s) (s.loadElf image) := by
  unfold loadElf
  refine .bind_lift fun one linked => ?_
  have first := linkUserPage_kept linked
  refine .bind ((kernelStores_kept _ _ _ _).mono fun _ kept => (first.trans kept).remembers)
    fun two stored => ?_
  have second := first.trans ((kernelStores_kept _ _ _ _).1 two stored)
  split
  · refine .bind ((kernelStores_kept _ _ _ _).mono fun _ kept => (second.trans kept).remembers)
      fun three headers => ?_
    have third := (second.trans ((kernelStores_kept _ _ _ _).1 three headers)).remembers
    have loaded : Leaves (Remembers s) (image.segments.foldlM loadSegment three) :=
      .foldlM third fun before segment _ remembers =>
        (loadSegment_remembers before segment).mono fun _ more => remembers.trans more
    refine .bind loaded fun four isLoaded => ?_
    exact .ok ((loaded.1 four isLoaded).trans (.of_eq rfl))
  · exact .ok second.remembers

theorem sysExecve_remembers (s : Machine) (args : Nat × (Nat → Entry)) (image : Image) :
    Leaves (Remembers s) (s.sysExecve args image) := by
  unfold sysExecve
  refine .bind_lift fun _ _ => .bind_lift fun one freed => ?_
  have first := freePte_kept freed
  refine .bind ((kernelStores_kept _ _ _ _).mono fun _ kept => (first.trans kept).remembers)
    fun two stored => ?_
  have second := first.trans ((kernelStores_kept _ _ _ _).1 two stored)
  exact (loadElf_remembers two image).mono fun _ more => second.remembers.trans more

theorem sysExit_remembers (exited : s.sysExit = .ok after) : Remembers s after := by
  simp only [sysExit, bind_eq_ok] at exited
  obtain ⟨task, _, _, _, one, freed, two, pdeFreed, three, bitsFreed, result⟩ := exited
  cases result
  exact ((freePte_kept freed).trans ((freeKpage_kept pdeFreed).trans
    (freeKpage_kept bitsFreed))).remembers.trans (.of_eq rfl)

theorem settle_remembers {call : Except Stop Machine} (leaves : Leaves (Remembers s) call)
    (settled : settle call = .ok after) : Remembers s after := by
  cases call with
  | ok result =>
      cases settled
      exact leaves.1 _ rfl
  | error stop =>
      cases stop with
      | fault fault => cases settled
      | exit status middle => exact (leaves.2 _ _ rfl).trans (sysExit_remembers settled)

theorem sysFork_remembers {growths : Nat} (forked : s.sysFork growths = .ok after) :
    Remembers s after := by
  simp only [sysFork, bind_eq_ok] at forked
  obtain ⟨task, _, _, _, ⟨pid, page, one⟩, found, ⟨pde, two⟩, copied, pages, grown,
    ⟨bits, three⟩, allocated, result⟩ := forked
  cases result
  have first : Kept s one := by
    unfold getFreeTask at found
    split at found
    · simp only [bind_eq_ok] at found
      obtain ⟨⟨vaddr, middle⟩, allocated, result⟩ := found
      cases result
      exact allocKpage_kept allocated
    · cases found
  have second := first.trans (copyPte_kept copied)
  exact (second.trans ((setPages_kept two pages).trans
    (allocKpage_kept allocated))).remembers.trans (.of_eq rfl)

/-- A step forgets no access. -/
theorem next_remembers {label : Label} (stepped : s.next label = .ok after) :
    Remembers s after := by
  cases label with
  | switchTo pid =>
      cases stepped
      exact .of_eq rfl
  | fork growths => exact sysFork_remembers stepped
  | execve args image => exact settle_remembers (sysExecve_remembers s args image) stepped
  | exit => exact sysExit_remembers stepped
  | reap pid =>
      simp only [next, reap] at stepped
      split at stepped
      · cases stepped
      split at stepped
      · simp only [bind_eq_ok] at stepped
        obtain ⟨middle, freed, result⟩ := stepped
        cases result
        exact (freeKpage_kept freed).remembers.trans (.of_eq rfl)
      · cases stepped
  | brk brk =>
      simp only [next, bind_eq_ok] at stepped
      obtain ⟨⟨value, middle⟩, called, result⟩ := stepped
      cases result
      exact sysBrk_remembers called
  | mmap args => exact settle_remembers (sysMmap_remembers s args) stepped
  | munmap addr length =>
      simp only [next, bind_eq_ok] at stepped
      obtain ⟨⟨value, middle⟩, called, result⟩ := stepped
      cases result
      exact sysMunmap_remembers called
  | access vaddr store =>
      exact settle_remembers ((access_kept s vaddr store).mono fun _ kept => kept.remembers)
        stepped

/-- `bitmap_init` of the first user task clears bytes behind the page that it gets. -/
theorem touched_of_entered {growths : Nat} (entered : s.moveToUserMode growths = .ok after) :
    ∃ bits, (bits, bits + pageSize) ∈ after.touched := by
  simp only [moveToUserMode, bind_eq_ok] at entered
  obtain ⟨pages, _, ⟨buf, one⟩, allocated, ⟨pde, two⟩, copied, result⟩ := entered
  cases result
  refine ⟨buf, (copyPde_kept copied).remembers ?_⟩
  refine List.mem_append_left _ (List.mem_map.mpr ⟨pageSize, List.mem_range.mpr ?_, rfl⟩)
  decide

theorem not_stored_of_touched {bits : Nat} (accessed : (bits, bits + pageSize) ∈ s.touched) :
    ¬s.Stored := by
  intro stored
  have below := (stored.inside _ accessed).2
  dsimp only at below
  omega

/-- In every run of user tasks, from the return of `move_to_user_mode` on, bytes of a bitmap
have been accessed that do not lie in its storage. -/
theorem not_stored_of_reachable {Start : Machine → Prop} (reached : (runs Start).Reachable s) :
    ¬s.Stored := by
  have outside : ∃ bits, (bits, bits + pageSize) ∈ s.touched := by
    refine reached.invariant (fun s => ∃ bits, (bits, bits + pageSize) ∈ s.touched) ?_ ?_
    · rintro s ⟨before, growths, _, entered⟩
      exact touched_of_entered entered
    · rintro before label after ⟨bits, accessed⟩ _ ⟨_, stepped⟩
      exact ⟨bits, next_remembers stepped accessed⟩
  obtain ⟨bits, accessed⟩ := outside
  exact not_stored_of_touched accessed

/-- The kernel thread that becomes the first user task. -/
def kernelThread : Machine :=
  { vacant with tasks := fun pid =>
      if pid = 1 then some ⟨0, false, 0xC0202000, 0, ⟨0, 0, 0⟩, 0, 0, 0, 0⟩ else none }

theorem kernelThread_enters : ∃ s, kernelThread.moveToUserMode 0 = .ok s := by
  have returns : (kernelThread.moveToUserMode 0).toBool = true := by decide +kernel
  cases entered : kernelThread.moveToUserMode 0 with
  | ok s => exact ⟨s, rfl⟩
  | error fault =>
      rw [entered] at returns
      cases returns

theorem not_stored_of_reachable_kernelThread :
    ∃ s, (runs fun before => before = kernelThread).Reachable s ∧ ¬s.Stored := by
  obtain ⟨s, entered⟩ := kernelThread_enters
  have reached : (runs fun before => before = kernelThread).Reachable s :=
    .initial ⟨kernelThread, 0, rfl, entered⟩
  exact ⟨s, reached, not_stored_of_reachable reached⟩

/-- The first user task. -/
theorem stored_fails : ¬∀ s, (runs fun _ => True).Reachable s → s.Stored := by
  intro always
  obtain ⟨s, entered⟩ := kernelThread_enters
  obtain ⟨bits, accessed⟩ := touched_of_entered entered
  exact not_stored_of_touched accessed (always s (.initial ⟨kernelThread, 0, trivial, entered⟩))

end Machine

end UserMemory
end LightOS
