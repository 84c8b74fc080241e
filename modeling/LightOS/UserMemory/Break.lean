import LightOS.UserMemory.Sound

/-!
# The heap of a user task

`sys_brk` moves the end of the heap, and it unmaps pages when the heap shrinks.  No page is
mapped when the heap grows, and `page_fault` links pages of the stack only, so the new part of
the heap is usable only where pages have been mapped before.
-/

namespace LightOS
namespace UserMemory

open Sched (taskNr userRing3)

namespace Machine

variable {s after : Machine} {task : Task} {addr brk : Nat}

/-- Calls of `sys_brk` and accesses to memory. -/
def IsHeapStep : Label → Prop
  | .brk _ => True
  | .access _ _ => True
  | _ => False

/-- The runs of a user task that calls `sys_brk` and accesses memory, from a state in which
its heap is empty. -/
def heapRuns : System Machine Label where
  initial s := (runs fun before => before.Booted ∧ before.current < 2).Reachable s ∧
    ∃ task, s.tasks s.current = some task ∧ task.Live ∧ task.brk = task.end_
  step before label after :=
    IsHeapStep label ∧ before.Takes label ∧ before.next label = .ok after

/-- A user page is free. -/
def HasFreePage (s : Machine) : Prop :=
  ∃ page, UserPage s.pages page ∧ s.pages.memMap page = 0

/-- An access to the heap does not end the process, and what `sys_brk` cuts off is not mapped
any longer. -/
structure HeapUsable (s : Machine) : Prop where
  reaches : ∀ task, s.tasks s.current = some task → task.Live →
    ∀ addr, task.end_ ≤ addr → addr < task.brk → s.Mapped (task.pde / pageSize) addr ∨
      (s.HasFreePage → ∀ write, ∃ after, s.pageFault addr ⟨false, write⟩ = .ok after ∧
        after.Mapped (task.pde / pageSize) addr)
  shrinks : ∀ task, s.tasks s.current = some task → task.Live →
    ∀ brk after, s.sysBrk brk = .ok (0, after) → brk < task.brk →
      ∀ addr, brk ≤ addr → addr < task.brk → ¬after.Mapped (task.pde / pageSize) addr

/-- A call of `sys_brk` that lets the heap grow does so over pages that are mapped. -/
def GrowsMapped (s : Machine) : Label → Prop
  | .brk brk => ∀ task, s.tasks s.current = some task → brk < userMmapAddr →
      brk - task.brk ≤ s.pages.freePages * pageSize % 2 ^ 32 →
        ∀ addr, task.end_ ≤ addr → task.brk ≤ addr → addr < brk →
          s.Mapped (task.pde / pageSize) addr
  | _ => True

/-- All pages of the heap are mapped. -/
def HeapMapped (s : Machine) : Prop :=
  ∀ task, s.tasks s.current = some task → task.Live →
    ∀ addr, task.end_ ≤ addr → addr < task.brk → s.Mapped (task.pde / pageSize) addr

/-- What `sys_brk` cuts off is not mapped any longer. -/
theorem sysBrk_unmaps (sound : s.Sound) (heap : s.HeapBounded)
    (present : s.tasks s.current = some task) (live : task.Live)
    (called : s.sysBrk brk = .ok (0, after)) (shrinks : brk < task.brk) (above : brk ≤ addr)
    (below : addr < task.brk) : ¬after.Mapped (task.pde / pageSize) addr := by
  have inUse := sound.inUse present live
  have bounded := heap _ task present live
  have isCurrent := getCurrent_present present
  have ordered := sysBrk_orders inUse isCurrent bounded called
  rcases sysBrk_cases isCurrent called with ⟨isError, _⟩ |
    ⟨_, aligned, atLeast, atMost, middle, rfl, change⟩
  · cases isError
  rcases change with ⟨_, unlinked⟩ | ⟨grows, _⟩
  · obtain ⟨_, gone, _⟩ := unlinkUserPages_spec inUse (brk_user bounded atLeast) unlinked
    have user : addr < kernelVaddrOffset := by
      simp only [userMmapAddr, kernelVaddrOffset] at *
      omega
    intro mapped
    have isSome := (mapped_iff ordered.inUse user).mp mapped
    have samePage : addr / pageSize = (brk + pageSize * ((addr - brk) / pageSize)) / pageSize := by
      change brk % 4096 = 0 at aligned
      change addr / 4096 = (brk + 4096 * ((addr - brk) / 4096)) / 4096
      omega
    have isNone := gone ((addr - brk) / pageSize) (by
      change (addr - brk) / 4096 < (task.brk - brk + 4095) / 4096
      omega)
    rw [placeOf_congr samePage] at isSome
    rw [show (middle.modify middle.current fun task => { task with brk := brk }).frames =
      middle.frames from rfl, isNone] at isSome
    cases isSome
  · omega

/-- The addresses of the heap are those of user programs. -/
theorem heap_user (bounded : task.brk ≤ max userMmapAddr task.end_) (above : task.end_ ≤ addr)
    (below : addr < task.brk) : addr < kernelVaddrOffset := by
  simp only [userMmapAddr, kernelVaddrOffset] at *
  omega

theorem sysExit_current (exited : s.sysExit = .ok after) : after.current = s.current := by
  simp only [sysExit, bind_eq_ok] at exited
  obtain ⟨task, _, _, _, one, freed, two, pdeFreed, three, bitsFreed, result⟩ := exited
  cases result
  exact ((freePte_kept freed).trans
    ((freeKpage_kept pdeFreed).trans (freeKpage_kept bitsFreed))).current

/-- An access takes nothing from the heap. -/
theorem HeapMapped.access (sound : s.Sound) (heap : s.HeapBounded) (mapped : s.HeapMapped)
    (present : s.tasks s.current = some task) (live : task.Live) {vaddr : Nat}
    {store : Option Entry} (stepped : settle (s.access vaddr store) = .ok after) :
    after.HeapMapped := by
  have inUse := sound.inUse present live
  have kept := access_kept s vaddr store
  have leaves := access_serves inUse sound.guarded vaddr store
  cases called : s.access vaddr store with
  | ok result =>
      rw [called] at stepped
      cases stepped
      intro other isOther isLive addr above below
      rw [(kept.1 _ called).tasks, (kept.1 _ called).current, present] at isOther
      cases isOther
      have user := heap_user (heap _ task present live) above below
      have served := leaves.1 _ called
      rw [mapped_iff served.inUse user]
      exact served.grows _ _ _ ((mapped_iff inUse user).mp (mapped task present live _ above below))
  | error stop =>
      rw [called] at stepped
      cases stop with
      | fault fault => cases stepped
      | exit status middle =>
          have ordered := (leaves.2 _ _ called).toOrders
          have isKept := kept.2 _ _ called
          have presentMiddle : middle.tasks middle.current = some task := by
            rw [isKept.tasks, isKept.current, present]
          obtain ⟨_, _, gone⟩ := (sound.orders ordered).exit presentMiddle live stepped
          intro other isOther isLive
          rw [sysExit_current stepped] at isOther
          exact absurd isLive (gone other isOther)

/-- A call of `sys_brk` takes from the heap what it cuts off. -/
theorem HeapMapped.moved (sound : s.Sound) (heap : s.HeapBounded) (mapped : s.HeapMapped)
    (present : s.tasks s.current = some task) (live : task.Live)
    (grows : s.GrowsMapped (.brk brk)) {result : Int}
    (called : s.sysBrk brk = .ok (result, after)) : after.HeapMapped := by
  have inUse := sound.inUse present live
  have isCurrent := getCurrent_present present
  have bounded := heap _ task present live
  have ordered := sysBrk_orders inUse isCurrent bounded called
  rcases sysBrk_cases isCurrent called with ⟨_, rfl⟩ |
    ⟨_, aligned, atLeast, atMost, middle, rfl, change⟩
  · exact mapped
  have presentAfter : middle.tasks middle.current = some task := by
    rcases change with ⟨_, unlinked⟩ | ⟨_, _, rfl⟩
    · have kept : Kept s middle :=
        foldlM_kept (fun _ _ _ unlinked => unlinkUserPage_kept unlinked) unlinked
      rw [kept.tasks, kept.current, present]
    · exact present
  intro other isOther isLive addr above below
  have isChanged : (middle.modify middle.current fun task => { task with brk := brk }).tasks
      middle.current = some { task with brk := brk } := by
    change Function.update _ _ _ _ = _
    rw [Function.update_self, presentAfter]
    rfl
  change (middle.modify _ _).tasks middle.current = _ at isOther
  rw [isChanged] at isOther
  cases isOther
  dsimp only at above below
  have user : addr < kernelVaddrOffset := by
    simp only [userMmapAddr, kernelVaddrOffset] at *
    omega
  rw [mapped_iff ordered.inUse user]
  change (refersIn middle.frames _ _).isSome = true
  rcases change with ⟨shrinks, unlinked⟩ | ⟨grown, enough, rfl⟩
  · obtain ⟨_, _, others⟩ := unlinkUserPages_spec inUse (brk_user bounded atLeast) unlinked
    rw [placeOf, others]
    · exact (mapped_iff inUse user).mp (mapped task present live addr above (by omega))
    · intro index inRange samePlace
      have samePage := page_of_placeOf samePlace
      change addr / 4096 = (brk + 4096 * index) / 4096 at samePage
      change brk % 4096 = 0 at aligned
      omega
  · refine (mapped_iff inUse user).mp ?_
    by_cases old : addr < task.brk
    · exact mapped task present live addr above old
    · exact grows task present atMost enough addr above (Nat.le_of_not_lt old) below

/-- A step of a user task on its heap keeps the heap mapped, if the heap grows over mapped
pages only. -/
theorem HeapMapped.step (sound : s.Sound) (heap : s.HeapBounded) (mapped : s.HeapMapped)
    {label : Label} (grows : s.GrowsMapped label) (stepped : heapRuns.step s label after) :
    after.HeapMapped := by
  obtain ⟨isHeap, takes, stepped⟩ := stepped
  cases label with
  | brk brk =>
      obtain ⟨task, present, live⟩ := takes
      simp only [next, bind_eq_ok] at stepped
      obtain ⟨⟨result, middle⟩, called, isAfter⟩ := stepped
      cases isAfter
      exact mapped.moved sound heap present live grows called
  | access vaddr store =>
      obtain ⟨task, present, live⟩ := takes
      exact mapped.access sound heap present live stepped
  | switchTo pid => cases isHeap
  | fork growths => cases isHeap
  | execve args image => cases isHeap
  | exit => cases isHeap
  | reap pid => cases isHeap
  | mmap args => cases isHeap
  | munmap addr length => cases isHeap

/-- A heap whose pages are mapped is usable. -/
theorem HeapMapped.usable (sound : s.Sound) (heap : s.HeapBounded) (mapped : s.HeapMapped) :
    s.HeapUsable where
  reaches task present live addr above below := .inl (mapped task present live addr above below)
  shrinks _ present live _ _ called shrinks _ above below :=
    sysBrk_unmaps sound heap present live called shrinks above below

/-- `page_fault` maps nothing below the stack. -/
theorem pageFault_below (low : addr ≤ userStackBottom) (write : Bool) :
    s.pageFault addr ⟨false, write⟩ ≠ .ok after := by
  intro faulted
  simp only [pageFault, bind_eq_ok, lift_eq_ok] at faulted
  obtain ⟨task, _, _, _, faulted⟩ := faulted
  split at faulted
  · cases faulted
  simp only [Bool.false_eq_true, if_false] at faulted
  rw [if_neg (fun inStack => Nat.not_lt_of_le low inStack.1)] at faulted
  cases faulted

/-- A heap that grows over a page that is not mapped is not usable. -/
theorem not_usable_of_grows (stepped : s.next (.brk brk) = .ok after)
    (live : ∀ task, s.tasks s.current = some task → task.Live) (free : s.HasFreePage)
    (notMapped : ¬s.GrowsMapped (.brk brk)) : ¬after.HeapUsable := by
  simp only [GrowsMapped, not_forall] at notMapped
  obtain ⟨task, present, atMost, enough, addr, atLeast, above, below, isNot⟩ := notMapped
  simp only [next, bind_eq_ok] at stepped
  obtain ⟨⟨result, middle⟩, called, isAfter⟩ := stepped
  cases isAfter
  simp only [sysBrk, getCurrent_present present, ok_bind, bind_eq_ok] at called
  obtain ⟨_, _, _, _, called⟩ := called
  rw [if_neg (Nat.not_le_of_lt atMost), if_neg (by omega), if_neg (by omega),
    if_neg (Nat.not_lt_of_le enough)] at called
  cases called
  intro usable
  have isCurrent : (s.modify s.current fun task => { task with brk := brk }).tasks s.current =
      some { task with brk := brk } := by
    change Function.update _ _ _ _ = _
    rw [Function.update_self, present]
    rfl
  rcases usable.reaches _ isCurrent (live task present) addr atLeast below with mapped | faults
  · exact isNot mapped
  · obtain ⟨final, faulted, _⟩ := faults free false
    refine pageFault_below ?_ false faulted
    simp only [userMmapAddr, userStackBottom, userStackTop, kernelVaddrOffset] at atMost ⊢
    omega

/-- The first user task begins with an empty heap. -/
theorem fresh_starts {s : Machine} {task : Task}
    (reached : (runs fun before => before.Booted ∧ before.current < 2).Reachable s)
    (present : s.tasks s.current = some task) (live : task.Live) (isBrk : task.brk = userExecAddr)
    (isEnd : task.end_ = userExecAddr) : heapRuns.initial s :=
  ⟨reached, task, present, live, isBrk.trans isEnd.symm⟩

/-- A segment of a page that may be written to. -/
def writable (vaddr : Nat) : Segment :=
  ⟨0x1000, vaddr, 4, 4, 6, (0, fun _ => .zero), fun _ => .zero⟩

/-- A program whose segments come in the wrong order, so that its heap begins in front of the
first one. -/
def twoSegments : Label :=
  .execve (0, fun _ => .zero) ⟨fun _ => .zero, true, (0, fun _ => .zero),
    [writable (userExecAddr + pageSize), writable userExecAddr]⟩

end Machine

end UserMemory
end LightOS
