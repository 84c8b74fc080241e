import LightOS.UserMemory.Forks
import LightOS.UserMemory.Mmap

/-!
# Runs of user tasks

In every state that user tasks reach, the page tables and the accounts of kernel pages and
of user pages are in order.
-/

namespace LightOS
namespace UserMemory

open Sched (taskNr userRing3)
open Paging (Owner Account)

namespace Machine

variable {vaddr first pid dir : Nat} {tasks : Nat → Option Task} {owns : Owner → Nat → Nat → Prop}
  {args : MmapArgs} {map : Bitmap} {s middle after : Machine} {task : Task}

/-- The pages of a user task and its bitmap. -/
structure Furnished (pid : Nat) (task : Task) : Prop where
  inTable : pid < taskNr
  region : Region task.vmap
  directory : ∃ first < 3840, task.pde = 0x100000 + first * 4096
  bits : ∃ first < 3840, task.vmap.bits = 0xC0100000 + first * 4096

/-- Page tables and accounts are in order. -/
structure Sound (s : Machine) : Prop where
  account : Account (Owns s.tasks) s.pages
  tables : Tables s (spacesOf s.tasks)
  guarded : s.Guarded (spacesOf s.tasks)
  furnished : ∀ pid task, s.tasks pid = some task → task.Live → Furnished pid task
  forked : ∀ pid task, s.tasks pid = some task → 2 ≤ pid →
    ∃ first < 3840, task.page = 0xC0100000 + first * 4096
  dead : ∀ pid task, s.tasks pid = some task → task.dead = true → 2 ≤ pid

/-- The heap of a user task ends in the region for `sys_mmap` only if the program does. -/
def HeapBounded (s : Machine) : Prop :=
  ∀ pid task, s.tasks pid = some task → task.Live → task.brk ≤ max userMmapAddr task.end_

theorem Furnished.core {before : Task} (furnished : Furnished pid before)
    (same : task.core = before.core) : Furnished pid task := by
  refine ⟨furnished.inTable, ?_, ?_, ?_⟩
  · rw [core_vmap same]
    exact furnished.region
  · rw [core_pde same]
    exact furnished.directory
  · rw [core_vmap same]
    exact furnished.bits

/-- The current task uses its directory. -/
theorem Sound.inUse (sound : s.Sound) (present : s.tasks s.current = some task)
    (live : task.Live) :
    s.InUse (spacesOf s.tasks) s.current (task.pde / pageSize) userTables := by
  refine ⟨sound.tables, spacesOf_live present live, ?_⟩
  unfold getPde getCurrent
  rw [present]
  rfl

theorem getCurrent_present (present : s.tasks s.current = some task) :
    s.getCurrent = .ok task := by
  unfold getCurrent
  rw [present]

theorem present_of_getCurrent (isCurrent : s.getCurrent = .ok task) :
    s.tasks s.current = some task := by
  unfold getCurrent at isCurrent
  split at isCurrent
  · rename_i present
    cases isCurrent
    exact present
  · cases isCurrent

/-- A call of the current task on user pages. -/
theorem Sound.orders (sound : s.Sound)
    (ordered : Orders (spacesOf s.tasks) pid dir s after) : after.Sound := by
  obtain ⟨inUse, within⟩ := ordered
  have same := spacesOf_core within.tasks
  refine ⟨?account, ?tables, ?guarded, fun pid task present live => ?furnished,
    fun pid task present isForked => ?forked, fun pid task present isDead => ?dead⟩
  case account =>
    refine account_userOnly sound.account (fun owner first count holds => ?_) within.kernelBits
      within.counts
    have inside := holds.inside
    exact ⟨holds.core within.tasks, by omega⟩
  case tables =>
    rw [same]
    exact inUse.tables
  case guarded =>
    rw [same]
    exact sound.guarded.within sound.tables.apart within
  case furnished =>
    obtain ⟨before, isBefore, isSame⟩ := exists_of_core (within.tasks pid) present
    exact (sound.furnished pid before isBefore ((core_live isSame).mp live)).core isSame
  case forked =>
    obtain ⟨before, isBefore, isSame⟩ := exists_of_core (within.tasks pid) present
    rw [core_page isSame]
    exact sound.forked pid before isBefore isForked
  case dead =>
    obtain ⟨before, isBefore, isSame⟩ := exists_of_core (within.tasks pid) present
    simp only [Task.core, Prod.mk.injEq] at isSame
    exact sound.dead pid before isBefore (isSame.2.1.symm.trans isDead)

/-- The owner of a page gives it back, on a machine that is in order otherwise. -/
theorem free_spec (account : Account owns s.pages) {spaces : Spaces} (tables : Tables s spaces)
    (later : Owner → Nat → Nat → Prop) {owner : Owner} (holds : owns owner first 1)
    (inside : first < 3840) (address : vaddr = 0xC0100000 + first * 4096)
    (freed : s.freeKpage vaddr 1 = .ok after)
    (released : ∀ other start extent, later other start extent →
      owns other start extent ∧ other ≠ owner) :
    ∃ pages, after = { s with pages := pages } ∧ Account later pages ∧
      Tables { s with pages := pages } spaces := by
  simp only [freeKpage, bind_eq_ok] at freed
  obtain ⟨pages, isFreed, result⟩ := freed
  cases result
  rw [address] at isFreed
  have kernelOnly := account.synced.free_kernelOnly (by omega) isFreed
  exact ⟨pages, rfl, (account.free later holds isFreed released).1,
    tables.kernelOnly kernelOnly⟩

/-- A directory that refers to nothing is given back. -/
theorem Tables.release {spaces : Spaces} (tables : Tables s spaces)
    (empty : ∀ index, tableOf s.frames spaces pid index = none) :
    Tables s (Function.update spaces pid none) := by
  have sameTable (other index : Nat) :
      tableOf s.frames (Function.update spaces pid none) other index =
        tableOf s.frames spaces other index := by
    by_cases isTask : other = pid
    · subst isTask
      rw [empty]
      unfold tableOf
      rw [Function.update_self]
    · unfold tableOf
      rw [Function.update_of_ne isTask]
  have same : refersIn s.frames (Function.update spaces pid none) = refersIn s.frames spaces := by
    funext ⟨other, index, position⟩
    cases position with
    | zero => exact sameTable other index
    | succ position =>
        unfold refersIn
        dsimp only
        rw [sameTable]
  have old {other directory limit : Nat}
      (space : Function.update spaces pid none other = some (directory, limit)) :
      spaces other = some (directory, limit) := by
    by_cases isTask : other = pid
    · rw [isTask, Function.update_self] at space
      cases space
    · rwa [Function.update_of_ne isTask] at space
  exact ⟨⟨fun other directory limit space => tables.apart.known other directory limit (old space),
    fun other another directory limit bound space also =>
      tables.apart.own other another directory limit bound (old space) (old also)⟩,
    same ▸ tables.accounts, tables.coherent, tables.bounded⟩

/-- A task is changed for one that is not live. -/
theorem spacesOf_update {later : Option Task} (notLive : ∀ task, later = some task → ¬task.Live) :
    spacesOf (Function.update tasks pid later) = Function.update (spacesOf tasks) pid none := by
  funext other
  by_cases isTask : other = pid
  · subst isTask
    unfold spacesOf
    rw [Function.update_self, Function.update_self]
    cases later with
    | none => rfl
    | some task => exact if_neg (notLive task rfl)
  · unfold spacesOf
    rw [Function.update_of_ne isTask, Function.update_of_ne isTask]

theorem Guarded.release {spaces : Spaces} (guarded : s.Guarded spaces) :
    s.Guarded (Function.update spaces pid none) := by
  intro other directory limit index space isKernel
  by_cases isTask : other = pid
  · rw [isTask, Function.update_self] at space
    cases space
  · rw [Function.update_of_ne isTask] at space
    exact guarded other directory limit index space isKernel

/-- `sys_exit` gives back what the task holds. -/
theorem Sound.exit (sound : s.Sound) (present : s.tasks s.current = some task)
    (live : task.Live) (exited : s.sysExit = .ok after) :
    after.Sound ∧ (∀ pid, pid ≠ s.current → after.tasks pid = s.tasks pid) ∧
      ∀ other, after.tasks s.current = some other → ¬other.Live := by
  have inUse := sound.inUse present live
  simp only [sysExit, getCurrent_present present, ok_bind, bind_eq_ok, check_eq_ok] at exited
  obtain ⟨_, notSystem, one, freed, two, pdeFreed, three, bitsFreed, result⟩ := exited
  obtain ⟨ordered, empty, _⟩ := freePte_spec inUse freed
  have kept := freePte_kept freed
  have soundOne := sound.orders ordered
  have presentOne : one.tasks one.current = some task := by
    rw [kept.tasks, kept.current, present]
  have furnished := soundOne.furnished _ task presentOne live
  obtain ⟨first, inside, isPde⟩ := furnished.directory
  obtain ⟨start, startInside, isBits⟩ := furnished.bits
  have holdsDirectory : Owns one.tasks (.directory one.current) first 1 :=
    ⟨rfl, inside, task, presentOne, live, isPde⟩
  have holdsBits : Owns one.tasks (.bits one.current) start 1 :=
    ⟨rfl, startInside, task, presentOne, live, isBits⟩
  have isAddress : task.pde + kernelVaddrOffset = 0xC0100000 + first * 4096 := by
    have offset : kernelVaddrOffset = 0xC0000000 := rfl
    omega
  obtain ⟨pages, rfl, accountTwo, tablesTwo⟩ := free_spec soundOne.account soundOne.tables
    (fun owner first count => Owns one.tasks owner first count ∧
      owner ≠ .directory one.current)
    holdsDirectory inside isAddress pdeFreed fun _ _ _ holds => holds
  obtain ⟨pagesThree, rfl, accountThree, tablesThree⟩ := free_spec accountTwo tablesTwo
    (fun owner first count => (Owns one.tasks owner first count ∧
      owner ≠ .directory one.current) ∧ owner ≠ .bits one.current)
    ⟨holdsBits, by simp⟩ startInside isBits bitsFreed fun _ _ _ holds => holds
  have isDead : (one.tasks one.current).map (fun task => { task with dead := true }) =
      some { task with dead := true } := by
    rw [presentOne]
    rfl
  have notLive (other : Task) (same : some { task with dead := true } = some other) :
      ¬other.Live := by
    cases same
    exact fun live => absurd live.2 (by simp)
  have isAfter : after = { one with
      pages := pagesThree
      tasks := Function.update one.tasks one.current (some { task with dead := true }) } := by
    rw [← Except.ok.inj result]
    unfold modify
    dsimp only
    rw [isDead]
  have old {pid : Nat} {other : Task} (presentAfter :
      Function.update one.tasks one.current (some { task with dead := true }) pid = some other) :
      ∃ before, one.tasks pid = some before ∧ other.page = before.page ∧
        (other.Live → other = before) ∧ (other.dead = true → before.dead = true ∨
          pid = one.current) := by
    by_cases isCurrent : pid = one.current
    · subst isCurrent
      rw [Function.update_self] at presentAfter
      cases presentAfter
      exact ⟨task, presentOne, rfl, fun live => absurd live (notLive _ rfl), fun _ => .inr rfl⟩
    · rw [Function.update_of_ne isCurrent] at presentAfter
      exact ⟨other, presentAfter, rfl, fun _ => rfl, .inl⟩
  have apart {pid : Nat} {other : Task} (presentAfter :
      Function.update one.tasks one.current (some { task with dead := true }) pid = some other)
      (live : other.Live) : pid ≠ one.current := by
    rintro rfl
    rw [Function.update_self] at presentAfter
    exact notLive other presentAfter live
  have spaces : spacesOf (Function.update one.tasks one.current
      (some { task with dead := true })) =
        Function.update (spacesOf one.tasks) one.current none := spacesOf_update notLive
  rw [isAfter]
  refine ⟨⟨?account, ?tables, ?guarded, fun pid other presentAfter live => ?furnished,
    fun pid other presentAfter isForked => ?forked, fun pid other presentAfter isDead => ?dead⟩,
    fun pid away => ?others, fun other presentAfter => ?gone⟩
  case account =>
    refine accountThree.mono fun owner first count holds => ?_
    cases owner with
    | directory pid =>
        obtain ⟨one, inside, other, presentAfter, live, isPde⟩ := holds
        obtain ⟨before, presentBefore, _, same, _⟩ := old presentAfter
        cases same live
        exact ⟨⟨⟨one, inside, other, presentBefore, live, isPde⟩,
          by simpa using apart presentAfter live⟩, by simp⟩
    | bits pid =>
        obtain ⟨one, inside, other, presentAfter, live, isBits⟩ := holds
        obtain ⟨before, presentBefore, _, same, _⟩ := old presentAfter
        cases same live
        exact ⟨⟨⟨one, inside, other, presentBefore, live, isBits⟩, by simp⟩,
          by simpa using apart presentAfter live⟩
    | stack pid =>
        obtain ⟨one, inside, isForked, other, presentAfter, isPage⟩ := holds
        obtain ⟨before, presentBefore, samePage, _⟩ := old presentAfter
        exact ⟨⟨⟨one, inside, isForked, before, presentBefore, samePage.symm.trans isPage⟩,
          by simp⟩, by simp⟩
    | argvk pid => cases holds
    | cache slot => cases holds
  case tables =>
    rw [spaces]
    have isEmpty (index : Nat) :
        tableOf one.frames (spacesOf one.tasks) one.current index = none := by
      rw [kept.current, kept.tasks]
      exact empty index
    have released := Tables.release tablesThree isEmpty
    exact ⟨released.apart, released.accounts, released.coherent, released.bounded⟩
  case guarded =>
    rw [spaces]
    exact Guarded.release soundOne.guarded
  case furnished =>
    obtain ⟨before, presentBefore, _, same, _⟩ := old presentAfter
    cases same live
    exact soundOne.furnished pid other presentBefore live
  case forked =>
    obtain ⟨before, presentBefore, samePage, _⟩ := old presentAfter
    rw [samePage]
    exact soundOne.forked pid before presentBefore isForked
  case dead =>
    obtain ⟨before, presentBefore, _, _, wasDead⟩ := old presentAfter
    rcases wasDead isDead with before | rfl
    · exact soundOne.dead pid _ presentBefore before
    · rw [kept.current]
      omega
  case others =>
    dsimp only
    rw [kept.current, Function.update_of_ne away, kept.tasks]
  case gone =>
    dsimp only at presentAfter
    rw [kept.current, Function.update_self] at presentAfter
    exact notLive other presentAfter

/-- The end of `sys_waitpid` gives back the page of a task that has exited. -/
theorem Sound.reap (sound : s.Sound) (reaped : s.reap pid = .ok after) :
    after.Sound ∧ after.tasks = Function.update s.tasks pid none := by
  unfold Machine.reap at reaped
  split at reaped
  · cases reaped
  rename_i child present
  split at reaped
  · rename_i isDead
    simp only [bind_eq_ok] at reaped
    obtain ⟨one, freed, result⟩ := reaped
    have isForked := sound.dead pid child present isDead
    obtain ⟨first, inside, isPage⟩ := sound.forked pid child present isForked
    have holds : Owns s.tasks (.stack pid) first 1 :=
      ⟨rfl, inside, isForked, child, present, isPage⟩
    obtain ⟨pages, rfl, account, tables⟩ := free_spec sound.account sound.tables
      (fun owner first count => Owns s.tasks owner first count ∧ owner ≠ .stack pid)
      holds inside isPage freed fun _ _ _ holds => holds
    cases result
    have old {other : Nat} {task : Task}
        (presentAfter : Function.update s.tasks pid none other = some task) :
        other ≠ pid ∧ s.tasks other = some task := by
      by_cases isChild : other = pid
      · rw [isChild, Function.update_self] at presentAfter
        cases presentAfter
      · rw [Function.update_of_ne isChild] at presentAfter
        exact ⟨isChild, presentAfter⟩
    have childSpace : spacesOf s.tasks pid = none := by
      unfold spacesOf
      rw [present]
      refine if_neg fun live => ?_
      rw [live.2] at isDead
      cases isDead
    have spaces : spacesOf (Function.update s.tasks pid none) = spacesOf s.tasks := by
      have notLive (task : Task) (same : none = some task) : ¬task.Live := by cases same
      rw [spacesOf_update notLive, ← childSpace, Function.update_eq_self]
    refine ⟨⟨?account, ?tables, ?guarded, fun other task presentAfter => ?furnished,
      fun other task presentAfter => ?forked, fun other task presentAfter => ?dead⟩,
      rfl⟩
    case account =>
      refine account.mono fun owner first count holds => ?_
      cases owner with
      | directory other =>
          obtain ⟨one, inside, task, presentAfter, live, isPde⟩ := holds
          exact ⟨⟨one, inside, task, (old presentAfter).2, live, isPde⟩, by simp⟩
      | bits other =>
          obtain ⟨one, inside, task, presentAfter, live, isBits⟩ := holds
          exact ⟨⟨one, inside, task, (old presentAfter).2, live, isBits⟩, by simp⟩
      | stack other =>
          obtain ⟨one, inside, isForked, task, presentAfter, isPage⟩ := holds
          exact ⟨⟨one, inside, isForked, task, (old presentAfter).2, isPage⟩,
            by simpa using (old presentAfter).1⟩
      | argvk other => cases holds
      | cache slot => cases holds
    case tables =>
      rw [spaces]
      exact ⟨tables.apart, tables.accounts, tables.coherent, tables.bounded⟩
    case guarded =>
      rw [spaces]
      exact sound.guarded
    case furnished => exact sound.furnished other task (old presentAfter).2
    case forked => exact sound.forked other task (old presentAfter).2
    case dead => exact sound.dead other task (old presentAfter).2
  · cases reaped

/-- `get_free_task` finds a slot that is not in use and allocates a page. -/
theorem getFreeTask_spec {page : Nat} (found : s.getFreeTask = .ok (pid, page, after)) :
    pid < taskNr ∧ s.tasks pid = none ∧
      ∃ pages, s.pages.allocKpage 1 = .ok (page, pages) ∧ after = { s with pages := pages } := by
  unfold getFreeTask at found
  split at found
  · rename_i free isFree
    simp only [allocKpage, bind_eq_ok] at found
    obtain ⟨⟨vaddr, middle⟩, ⟨⟨address, pages⟩, allocated, isMiddle⟩, result⟩ := found
    cases isMiddle
    cases result
    have inRange := List.mem_range.mp (List.mem_of_find?_eq_some isFree)
    have isNone := List.find?_some isFree
    exact ⟨inRange, by simpa using isNone, pages, allocated, rfl⟩
  · cases found

/-- A task becomes a user task with a directory and a bitmap of its own. -/
theorem spacesOf_join (live : task.Live) (isPde : task.pde = 0x100000 + first * 4096) :
    spacesOf (Function.update tasks pid (some task)) =
      withChild (spacesOf tasks) pid (256 + first) userTables := by
  have isFrame : task.pde / pageSize = 256 + first := by
    rw [isPde]
    change (0x100000 + first * 4096) / 4096 = 256 + first
    omega
  funext other
  by_cases isTask : other = pid
  · subst isTask
    rw [withChild_self, spacesOf_live (Function.update_self _ _ _) live, isFrame]
  · unfold spacesOf
    rw [Function.update_of_ne isTask, withChild_of_ne isTask]

/-- Who holds a page once a task has joined. -/
theorem owns_join {owner : Owner} {number count start : Nat}
    (isPde : task.pde = 0x100000 + first * 4096)
    (isBits : task.vmap.bits = 0xC0100000 + start * 4096)
    (holds : Owns (Function.update tasks pid (some task)) owner number count) :
    Owns tasks owner number count ∨ owner = .directory pid ∧ number = first ∧ count = 1 ∨
      owner = .bits pid ∧ number = start ∧ count = 1 ∨
      owner = .stack pid ∧ task.page = 0xC0100000 + number * 4096 ∧ count = 1 ∧ 2 ≤ pid := by
  have known {other : Nat} {found : Task}
      (present : Function.update tasks pid (some task) other = some found) :
      other = pid ∧ found = task ∨ tasks other = some found := by
    by_cases isTask : other = pid
    · subst isTask
      rw [Function.update_self] at present
      exact .inl ⟨rfl, (Option.some.inj present).symm⟩
    · rw [Function.update_of_ne isTask] at present
      exact .inr present
  cases owner with
  | directory other =>
      obtain ⟨one, inside, found, present, live, isFound⟩ := holds
      rcases known present with ⟨rfl, rfl⟩ | before
      · exact .inr (.inl ⟨rfl, by omega, one⟩)
      · exact .inl ⟨one, inside, found, before, live, isFound⟩
  | bits other =>
      obtain ⟨one, inside, found, present, live, isFound⟩ := holds
      rcases known present with ⟨rfl, rfl⟩ | before
      · exact .inr (.inr (.inl ⟨rfl, by omega, one⟩))
      · exact .inl ⟨one, inside, found, before, live, isFound⟩
  | stack other =>
      obtain ⟨one, inside, isForked, found, present, isFound⟩ := holds
      rcases known present with ⟨rfl, rfl⟩ | before
      · exact .inr (.inr (.inr ⟨rfl, isFound, one, isForked⟩))
      · exact .inl ⟨one, inside, isForked, found, before, isFound⟩
  | argvk other => cases holds
  | cache slot => cases holds

/-- A task joins the others. -/
theorem Sound.join {start : Nat} (account : Account owns s.pages)
    (holds : ∀ owner number count, Owns (Function.update tasks pid (some task)) owner number count →
      owns owner number count)
    (tables : Tables s (withChild (spacesOf tasks) pid (256 + first) userTables))
    (guarded : s.Guarded (spacesOf tasks))
    (kernelEntries : ∀ index, userTables ≤ index → (s.frames (256 + first) index).user = false)
    (live : task.Live) (isPde : task.pde = 0x100000 + first * 4096) (inside : first < 3840)
    (isBits : task.vmap.bits = 0xC0100000 + start * 4096) (startInside : start < 3840)
    (region : Region task.vmap)
    (furnished : ∀ pid task, tasks pid = some task → task.Live → Furnished pid task)
    (forked : ∀ other found, Function.update tasks pid (some task) other = some found →
      2 ≤ other → ∃ first < 3840, found.page = 0xC0100000 + first * 4096)
    (dead : ∀ pid task, tasks pid = some task → task.dead = true → 2 ≤ pid)
    (isAfter : s.tasks = Function.update tasks pid (some task)) : s.Sound := by
  have spaces : spacesOf (Function.update tasks pid (some task)) =
      withChild (spacesOf tasks) pid (256 + first) userTables := spacesOf_join live isPde
  have inTable := (tables.apart.known pid _ _ withChild_self).1
  have known {other : Nat} {found : Task} (present : s.tasks other = some found) :
      other = pid ∧ found = task ∨ tasks other = some found := by
    rw [isAfter] at present
    by_cases isTask : other = pid
    · subst isTask
      rw [Function.update_self] at present
      exact .inl ⟨rfl, (Option.some.inj present).symm⟩
    · rw [Function.update_of_ne isTask] at present
      exact .inr present
  refine ⟨?account, ?tables, ?guarded, fun other found present isLive => ?furnished, ?forked,
    fun other found present isDead => ?dead⟩
  case account =>
    rw [isAfter]
    exact account.mono holds
  case tables =>
    rw [isAfter, spaces]
    exact tables
  case guarded =>
    rw [isAfter, spaces]
    intro other directory limit index space isKernel
    by_cases isTask : other = pid
    · rw [isTask, withChild_self] at space
      cases space
      exact kernelEntries index isKernel
    · rw [withChild_of_ne isTask] at space
      exact guarded other directory limit index space isKernel
  case furnished =>
    rcases known present with ⟨rfl, rfl⟩ | before
    · exact ⟨inTable, region, ⟨first, inside, isPde⟩, ⟨start, startInside, isBits⟩⟩
    · exact furnished other found before isLive
  case forked =>
    rw [isAfter]
    exact forked
  case dead =>
    rcases known present with ⟨rfl, rfl⟩ | before
    · rw [live.2] at isDead
      cases isDead
    · exact dead other found before isDead

/-- The directories of user tasks are on pages that are in use. -/
theorem directory_held {pages : PageMaps} (account : Account owns pages)
    (holds : ∀ owner first count, Owns tasks owner first count → owns owner first count)
    (furnished : ∀ pid task, tasks pid = some task → task.Live → Furnished pid task) :
    ∀ pid dir limit, spacesOf tasks pid = some (dir, limit) → pages.memMap dir ≠ 0 := by
  intro pid dir limit space
  obtain ⟨task, present, live, rfl, _⟩ := exists_of_spacesOf space
  obtain ⟨first, inside, isPde⟩ := (furnished pid task present live).directory
  have once := account.ledger.held (.directory pid) first 1
    (holds _ _ _ ⟨rfl, inside, task, present, live, isPde⟩) first (le_refl _) (by omega)
  have isFrame : task.pde / pageSize = first + 256 := by
    rw [isPde]
    change (0x100000 + first * 4096) / 4096 = first + 256
    omega
  rw [isFrame]
  intro isZero
  unfold PageMaps.count at once
  rw [isZero] at once
  cases once

/-- `sys_fork` gives the child a directory, tables, a bitmap and a page. -/
theorem Sound.fork (sound : s.Sound) (present : s.tasks s.current = some task)
    (live : task.Live) {growths : Nat} (forked : s.sysFork growths = .ok after) :
    after.Sound ∧ ∃ child new, s.tasks child = none ∧ new.brk = task.brk ∧ new.end_ = task.end_ ∧
      after.tasks = Function.update s.tasks child (some new) := by
  simp only [sysFork, getCurrent_present present, ok_bind, bind_eq_ok] at forked
  obtain ⟨_, _, ⟨child, page, one⟩, found, ⟨target, three⟩, isCopied, pages, grown,
    ⟨bits, last⟩, allocated, result⟩ := forked
  obtain ⟨inTable, absent, pagesOne, allocatedOne, rfl⟩ := getFreeTask_spec found
  -- The page of the task.
  obtain ⟨stack, isStack, heldOne⟩ := sound.account.alloc allocatedOne
  have stackInside : stack < 3840 := by
    obtain ⟨_, number, _, inside, same, _⟩ := sound.account.synced.alloc allocatedOne
    omega
  have accountOne := heldOne (.stack child) (fun owner number count =>
    Owns s.tasks owner number count ∨ owner = .stack child ∧ number = stack ∧ count = 1)
    fun _ _ _ holds => holds
  have tablesOne := sound.tables.kernelOnly
    (sound.account.synced.alloc_kernelOnly allocatedOne)
  -- The directory.
  simp only [copyPte, bind_eq_ok] at isCopied
  obtain ⟨dir, isDir, ⟨address, two⟩, pdeCopied, middle, copied, isPair⟩ := isCopied
  obtain ⟨rfl, rfl⟩ := Prod.mk.inj (Except.ok.inj isPair)
  have held := directory_held accountOne (fun _ _ _ => .inl) sound.furnished
  have childSpace : spacesOf s.tasks child = none := by
    unfold spacesOf
    rw [absent]
  obtain ⟨first, pagesTwo, inside, rfl, allocatedTwo, rfl, _, tablesTwo⟩ :=
    copyPde_spec tablesOne accountOne.synced held isDir childSpace inTable pdeCopied
  obtain ⟨number, sameAddress, heldTwo⟩ := accountOne.alloc allocatedTwo
  have isNumber : number = first := by omega
  subst isNumber
  have accountTwo := heldTwo (.directory child) (fun owner other count =>
    (Owns s.tasks owner other count ∨ owner = .stack child ∧ other = stack ∧ count = 1) ∨
      owner = .directory child ∧ other = number ∧ count = 1) fun _ _ _ holds => holds
  -- The tables.
  have isPde : s.getPde = .ok (task.pde / pageSize) := by
    unfold getPde
    rw [getCurrent_present present]
    rfl
  have sameDir : dir = task.pde / pageSize := Except.ok.inj (isDir.symm.trans isPde)
  have parentSpace : spacesOf s.tasks s.current = some (dir, userTables) := by
    rw [spacesOf_live present live, sameDir]
  have different : s.current ≠ child := by
    intro same
    rw [← same, present] at absent
    cases absent
  have isFrame : (0x100000 + number * 4096) / pageSize = 256 + number := by
    change (0x100000 + number * 4096) / 4096 = 256 + number
    omega
  rw [isFrame] at copied
  have dirBelow := (sound.tables.apart.known _ _ _ parentSpace).2.2.2
  have dirOther : dir ≠ 256 + number :=
    fun same => different (tablesTwo.apart.own _ _ _ _ _
      ((withChild_of_ne different).trans (parentSpace.trans (by rw [same]))) withChild_self)
  obtain ⟨tablesThree, within⟩ := copyTables_spec tablesTwo different parentSpace
    (by
      dsimp only
      rw [Function.update_self, Function.update_of_ne dirOther]) copied
  have kept := foldlM_kept (fun _ _ _ taken => copyTable_kept taken) copied
  have accountThree := account_userOnly accountTwo (fun owner other count holds => by
    refine ⟨holds, ?_⟩
    rcases holds with (before | ⟨_, rfl, rfl⟩) | ⟨_, rfl, rfl⟩
    · have small := before.inside
      omega
    · omega
    · omega) within.kernelBits within.counts
  have tablesGrown := tablesThree.kernelOnly (grow_kernelOnly accountThree grown)
  have accountGrown := accountThree.grow grown
  -- The bitmap.
  simp only [allocKpage, bind_eq_ok] at allocated
  obtain ⟨⟨vaddr, pagesLast⟩, allocatedLast, isLast⟩ := allocated
  cases isLast
  obtain ⟨start, isStart, heldLast⟩ := accountGrown.alloc allocatedLast
  have startInside : start < 3840 := by
    obtain ⟨_, other, _, fits, same, _⟩ := accountGrown.synced.alloc allocatedLast
    omega
  have accountLast := heldLast (.bits child) (fun owner other count =>
    ((Owns s.tasks owner other count ∨ owner = .stack child ∧ other = stack ∧ count = 1) ∨
      owner = .directory child ∧ other = number ∧ count = 1) ∨
        owner = .bits child ∧ other = start ∧ count = 1) fun _ _ _ holds => holds
  have tablesLast := tablesGrown.kernelOnly
    (accountGrown.synced.alloc_kernelOnly allocatedLast)
  cases result
  have sameTasks : middle.tasks = s.tasks := kept.tasks
  dsimp only
  obtain ⟨new, isNew⟩ : ∃ new : Task, new = { task with
      page := page
      pde := 0x100000 + number * 4096
      vmap := { task.vmap with bits := vaddr } } := ⟨_, rfl⟩
  have newLive : new.Live := by
    rw [isNew]
    exact live
  have newPde : new.pde = 0x100000 + number * 4096 := by rw [isNew]
  have newBits : new.vmap.bits = 0xC0100000 + start * 4096 := by
    rw [isNew]
    exact isStart
  have newPage : new.page = page := by rw [isNew]
  have newRegion : Region new.vmap := by
    have region := (sound.furnished _ task present live).region
    rw [isNew]
    exact ⟨region.length, region.offset⟩
  rw [sameTasks, ← isNew]
  refine ⟨Sound.join accountLast ?holds
    ⟨tablesLast.apart, tablesLast.accounts, tablesLast.coherent, tablesLast.bounded⟩ ?guarded
    (fun index isKernel => ?kernelEntries) newLive newPde inside newBits startInside newRegion
    sound.furnished ?forked sound.dead rfl,
    child, new, absent, by rw [isNew], by rw [isNew], rfl⟩
  case holds =>
    intro owner other count holds
    rcases owns_join newPde newBits holds with
      before | isDirectory | isBits | ⟨rfl, isPage, rfl, _⟩
    · exact .inl (.inl (.inl before))
    · exact .inl (.inr isDirectory)
    · exact .inr isBits
    · refine .inl (.inl (.inr ⟨rfl, ?_, rfl⟩))
      omega
  case guarded =>
    intro other directory limit index space isKernel
    have below := (sound.tables.apart.known other directory limit space).2.2.2
    have notNew : directory ≠ 256 + number := by
      rintro rfl
      obtain ⟨found, isFound, isLive, isSame, _⟩ := exists_of_spacesOf space
      have isOther : other ≠ child := by
        rintro rfl
        rw [absent] at isFound
        cases isFound
      exact isOther (tablesTwo.apart.own other child _ limit 0
        ((withChild_of_ne isOther).trans space) withChild_self)
    rw [show middle.frames directory index = s.frames directory index from
      (within.frames directory index below fun _ _ _ _ _ => isKernel).trans
        (congrFun (Function.update_of_ne notNew _ _) index)]
    exact sound.guarded other directory limit index space isKernel
  case kernelEntries =>
    rw [show middle.frames (256 + number) index = s.frames dir index from
      (within.frames _ index (by change 256 + number < 4096; omega)
        fun _ _ _ _ _ => isKernel).trans (congrFun (Function.update_self _ _ _) index)]
    exact sound.guarded _ dir userTables index parentSpace isKernel
  case forked =>
    intro other found isFound isForked
    by_cases isChild : other = child
    · subst isChild
      rw [Function.update_self] at isFound
      cases isFound
      exact ⟨stack, stackInside, newPage.trans isStack⟩
    · rw [Function.update_of_ne isChild] at isFound
      exact sound.forked other found isFound isForked

/-! ## The first user task -/

/-- A task of `task_setup`. -/
structure KernelThread (pid : Nat) (task : Task) : Prop where
  early : pid < 2
  ring : task.uid ≠ userRing3
  notDead : task.dead = false
  directory : task.pde = Paging.kernelPageDir
  heap : task.brk = userExecAddr ∧ task.end_ = userExecAddr

/-- What `kernel_init` leaves to `move_to_user_mode`: kernel threads that use the directory
of the kernel, and no user page in use. -/
structure Booted (s : Machine) : Prop where
  synced : s.pages.Synced
  kernelDir : s.pages.memMap Paging.kernelPageDir ≠ 0
  bounded : s.pages.totalPages ≤ 2 ^ 20
  free : ∀ frame, UserPage s.pages frame → s.pages.memMap frame = 0
  kmap : s.kmap = .init
  threads : ∀ pid task, s.tasks pid = some task → KernelThread pid task
  absent : ∀ index < userTables, (s.frames Paging.kernelPageDir index).present = false
  guarded : ∀ index, userTables ≤ index → (s.frames Paging.kernelPageDir index).user = false

/-- A directory without entries for user programs is in order. -/
theorem refersIn_vacant {frames : Nat → Nat → Entry} {spaces : Spaces} {child target : Nat}
    (absent : ∀ index < userTables, (frames target index).page = none) {limit : Nat}
    (inOrder : limit ≤ userTables) :
    refersIn frames (withChild spaces child target limit) =
      refersIn frames (withChild spaces child target 0) := by
  induction limit with
  | zero => rfl
  | succ limit inductionHypothesis =>
      rw [refersIn_absent (absent limit inOrder)]
      exact inductionHypothesis (Nat.le_of_succ_le inOrder)

/-- Without directories there are no references. -/
theorem Booted.tables (booted : s.Booted) : Tables s fun _ => none := by
  have none (place : Place) : refersIn s.frames (fun _ => none) place = none := by
    obtain ⟨pid, index, position⟩ := place
    cases position with
    | zero => rfl
    | succ position => rfl
  refine ⟨⟨nofun, nofun⟩, ⟨⟨fun place page refersTo => ?_, fun pid index place page isTable => ?_⟩,
    fun page user => ?_, fun page user => ?_, fun place page refersTo => ?_⟩, ?_, booted.bounded⟩
  · rw [none] at refersTo
    cases refersTo
  · rw [none] at isTable
    cases isTable
  · unfold PageMaps.references
    rw [booted.free page user, funext none]
    exact rowPointers_empty.symm
  · unfold PageMaps.references
    rw [booted.free page user]
    decide
  · rw [none] at refersTo
    cases refersTo
  · rw [booted.kmap]
    intro slot _ isPresent
    cases isPresent

theorem Booted.notLive (booted : s.Booted) (present : s.tasks pid = some task) : ¬task.Live :=
  fun live => (booted.threads pid task present).ring live.1

theorem Booted.spaces (booted : s.Booted) : spacesOf s.tasks = fun _ => none := by
  funext pid
  unfold spacesOf
  split
  · rename_i task present
    exact if_neg (booted.notLive present)
  · rfl

theorem copyPde_present {target : Nat} (copied : s.copyPde = .ok (target, after)) :
    ∃ task, s.tasks s.current = some task := by
  simp only [copyPde, bind_eq_ok] at copied
  obtain ⟨⟨vaddr, one⟩, allocated, pde, isPde, _⟩ := copied
  have kept := allocKpage_kept allocated
  simp only [getPde, bind_eq_ok] at isPde
  obtain ⟨task, isCurrent, _⟩ := isPde
  have present := present_of_getCurrent isCurrent
  rw [kept.tasks, kept.current] at present
  exact ⟨task, present⟩

/-- `move_to_user_mode` makes the current task the first user task. -/
theorem Booted.enters (booted : s.Booted) (isInit : s.current < 2) {growths : Nat}
    (entered : s.moveToUserMode growths = .ok after) :
    after.Sound ∧ after.current = s.current ∧
      ∃ new, after.tasks = Function.update s.tasks s.current (some new) ∧ new.Live ∧
        new.brk = userExecAddr ∧ new.end_ = userExecAddr := by
  have unowned : Account (fun _ _ _ => False) s.pages :=
    ⟨booted.synced, ⟨fun _ _ _ none => none.elim, fun _ _ _ none => none.elim,
      fun _ _ _ _ _ _ none => none.elim⟩, booted.kernelDir⟩
  simp only [moveToUserMode, bind_eq_ok] at entered
  obtain ⟨pages, grown, ⟨buf, one⟩, allocated, ⟨target, two⟩, copied, result⟩ := entered
  have accountGrown := unowned.grow grown
  simp only [allocKpage, bind_eq_ok] at allocated
  obtain ⟨⟨vaddr, pagesOne⟩, allocatedOne, isOne⟩ := allocated
  cases isOne
  obtain ⟨start, isStart, heldOne⟩ := accountGrown.alloc allocatedOne
  have startInside : start < 3840 := by
    obtain ⟨_, other, _, fits, same, _⟩ := accountGrown.synced.alloc allocatedOne
    omega
  have accountOne := heldOne (.bits s.current) (fun owner other count =>
    False ∨ owner = .bits s.current ∧ other = start ∧ count = 1) fun _ _ _ holds => holds
  have tablesOne := (booted.tables.kernelOnly (grow_kernelOnly unowned grown)).kernelOnly
    (accountGrown.synced.alloc_kernelOnly allocatedOne)
  obtain ⟨task, found⟩ := copyPde_present copied
  have present : s.tasks s.current = some task := found
  have isThread := (booted.threads _ task present).directory
  have isDir : s.getPde = .ok Paging.kernelPageDir := by
    unfold getPde
    rw [getCurrent_present present]
    change Except.ok (task.pde / pageSize) = _
    rw [isThread]
    rfl
  have tablesInit : Tables ({ s with pages := pagesOne }.bitmapInit vaddr
      (userMmapSize / pageSize / 8) (userMmapAddr / pageSize)).2 fun _ => none :=
    ⟨tablesOne.apart, tablesOne.accounts, tablesOne.coherent, tablesOne.bounded⟩
  obtain ⟨first, pagesTwo, inside, rfl, allocatedTwo, rfl, _, tablesTwo⟩ :=
    copyPde_spec tablesInit accountOne.synced (by rintro _ _ _ ⟨⟩) isDir rfl
      (lt_of_lt_of_le isInit (by decide)) copied
  obtain ⟨number, sameAddress, heldTwo⟩ := accountOne.alloc allocatedTwo
  have isNumber : number = first := by omega
  subst isNumber
  have accountTwo := heldTwo (.directory s.current) (fun owner other count =>
    (False ∨ owner = .bits s.current ∧ other = start ∧ count = 1) ∨
      owner = .directory s.current ∧ other = number ∧ count = 1) fun _ _ _ holds => holds
  cases result
  obtain ⟨new, isNew⟩ : ∃ new : Task, new = { task with
      vmap := ⟨vaddr, userMmapSize / pageSize / 8, userMmapAddr / pageSize⟩
      pde := 0x100000 + number * 4096
      uid := userRing3 } := ⟨_, rfl⟩
  have newLive : new.Live := by
    rw [isNew]
    exact ⟨rfl, (booted.threads _ task present).notDead⟩
  have newPde : new.pde = 0x100000 + number * 4096 := by rw [isNew]
  have newBits : new.vmap.bits = 0xC0100000 + start * 4096 := by
    rw [isNew]
    exact isStart
  have newRegion : Region new.vmap := by
    rw [isNew]
    exact ⟨rfl, rfl⟩
  have isTasks : Function.update s.tasks s.current ((s.tasks s.current).map fun task =>
      { task with
        vmap := ⟨vaddr, userMmapSize / pageSize / 8, userMmapAddr / pageSize⟩
        pde := 0x100000 + number * 4096
        uid := userRing3 }) = Function.update s.tasks s.current (some new) := by
    rw [present, isNew]
    rfl
  have vacant (index : Nat) (isUser : index < userTables) :
      (Function.update s.frames (256 + number) (s.frames Paging.kernelPageDir)
        (256 + number) index).page = none := by
    rw [Function.update_self, Entry.page, booted.absent index isUser]
    rfl
  have apart : Apart (withChild (spacesOf s.tasks) s.current (256 + number) userTables) := by
    rw [booted.spaces]
    exact Apart.withChild tablesTwo.apart (le_refl _)
  refine ⟨Sound.join accountTwo ?holds ⟨apart, ?accounts, tablesTwo.coherent, tablesTwo.bounded⟩
    ?guarded (fun index isKernel => ?kernelEntries)
    newLive newPde inside newBits startInside newRegion
    (fun pid task present live => absurd live (booted.notLive present)) ?forked
    (fun pid task present isDead => ?dead) isTasks, rfl, new, isTasks, newLive, ?heap⟩
  case heap =>
    rw [isNew]
    exact (booted.threads _ task present).heap
  case holds =>
    intro owner other count holds
    rcases owns_join newPde newBits holds with before | isDirectory | isBits | ⟨_, _, _, isForked⟩
    · cases owner with
      | directory pid =>
          obtain ⟨_, _, other, isOther, live, _⟩ := before
          exact absurd live (booted.notLive isOther)
      | bits pid =>
          obtain ⟨_, _, other, isOther, live, _⟩ := before
          exact absurd live (booted.notLive isOther)
      | stack pid =>
          obtain ⟨_, _, isForked, other, isOther, _⟩ := before
          have early := (booted.threads pid other isOther).early
          omega
      | argvk pid => cases before
      | cache slot => cases before
    · exact .inr isDirectory
    · exact .inl (.inr isBits)
    · omega
  case accounts =>
    rw [booted.spaces]
    exact refersIn_vacant vacant (le_refl _) ▸ tablesTwo.accounts
  case guarded =>
    rw [booted.spaces]
    intro pid directory limit index space
    cases space
  case kernelEntries =>
    exact (congrArg Entry.user (congrFun (Function.update_self _ _ _) index)).trans
      (booted.guarded index isKernel)
  case forked =>
    intro other found isFound isForked
    by_cases isCurrent : other = s.current
    · omega
    · rw [Function.update_of_ne isCurrent] at isFound
      have early := (booted.threads other found isFound).early
      omega
  case dead =>
    rw [(booted.threads pid task present).notDead] at isDead
    cases isDead

/-! ## Steps -/

/-- The heap of the current task is bounded, and no other task has changed. -/
theorem HeapBounded.others (heap : s.HeapBounded) {current : Nat}
    (others : ∀ pid, pid ≠ current → after.tasks pid = s.tasks pid)
    (bounded : ∀ task, after.tasks current = some task → task.Live →
      task.brk ≤ max userMmapAddr task.end_) : after.HeapBounded := by
  intro pid task present live
  by_cases isCurrent : pid = current
  · subst isCurrent
    exact bounded task present live
  · rw [others pid isCurrent] at present
    exact heap pid task present live

/-- A call that returns, or that ends with `sys_exit`. -/
theorem Sound.settle (sound : s.Sound) (heap : s.HeapBounded)
    (present : s.tasks s.current = some task) (live : task.Live) {call : Except Stop Machine}
    (leaves : Leaves (Orders (spacesOf s.tasks) pid dir s) call)
    (bounded : ∀ after, call = .ok after → ∀ task, after.tasks s.current = some task →
      task.Live → task.brk ≤ max userMmapAddr task.end_)
    (settled : Machine.settle call = .ok after) : after.Sound ∧ after.HeapBounded := by
  cases call with
  | ok result =>
      cases settled
      have ordered := leaves.1 _ rfl
      exact ⟨sound.orders ordered, heap.others ordered.within.others (bounded _ rfl)⟩
  | error stop =>
      cases stop with
      | fault fault => cases settled
      | exit status middle =>
          have ordered := leaves.2 _ _ rfl
          have same := ordered.within.tasks s.current
          rw [present] at same
          obtain ⟨other, isOther, isSame⟩ := Option.map_eq_some_iff.mp same
          have presentMiddle : middle.tasks middle.current = some other := by
            rw [ordered.within.current, isOther]
          obtain ⟨soundAfter, others, gone⟩ := (sound.orders ordered).exit presentMiddle
            ((core_live isSame).mpr live) settled
          rw [ordered.within.current] at others gone
          refine ⟨soundAfter, heap.others (fun pid away => ?_)
            fun found presentAfter isLive => absurd isLive (gone found presentAfter)⟩
          exact (others pid away).trans (ordered.within.others pid away)

/-- `sys_mmap` changes no task. -/
theorem mmapPage_tasks {index : Nat} (mapped : mmapPage args map vaddr s index = .ok after) :
    after.tasks = s.tasks := by
  simp only [mmapPage, bind_eq_ok] at mapped
  obtain ⟨one, linked, two, isSet, ⟨entry, three⟩, got, result⟩ := mapped
  cases result
  obtain ⟨_, _, ⟨memory, touched, isTwo⟩, _⟩ := bitmapSet_spec isSet
  have same : two.tasks = one.tasks := by rw [isTwo]
  exact (getPte_kept got).tasks.trans (same.trans (linkUserPage_kept linked).tasks)

theorem munmapPage_tasks {index : Nat} (unmapped : munmapPage map vaddr s index = .ok after) :
    after.tasks = s.tasks := by
  simp only [munmapPage, bind_eq_ok] at unmapped
  obtain ⟨one, unlinked, ⟨bit, two⟩, tested, _, _, isSet⟩ := unmapped
  obtain ⟨_, _, ⟨memory, touched, isAfter⟩, _⟩ := bitmapSet_spec isSet
  simp only [bitmapTest, bind_eq_ok] at tested
  obtain ⟨_, _, result⟩ := tested
  cases result
  rw [isAfter]
  exact (unlinkUserPage_kept unlinked).tasks

theorem foldlM_tasks {round : Machine → Nat → Except Fault Machine} {items : List Nat}
    (keeps : ∀ before index next, round before index = .ok next → next.tasks = before.tasks)
    (folded : items.foldlM round s = .ok after) : after.tasks = s.tasks :=
  foldlM_invariant (fun middle => middle.tasks = s.tasks)
    (fun before index next _ same taken => (keeps before index next taken).trans same) rfl folded

theorem mmapStart_tasks (started : s.mmapStart args map = .ok (vaddr, after)) :
    after.tasks = s.tasks := by
  simp only [mmapStart] at started
  split at started
  · simp only [bitmapScan, bind_eq_ok] at started
    obtain ⟨⟨found, middle⟩, ⟨result, _, scanned⟩, isStart⟩ := started
    cases isStart
    cases result with
    | none =>
        cases scanned
        rfl
    | some result =>
        cases scanned
        rfl
  · cases started
    rfl

theorem sysMmap_tasks (called : s.sysMmap args = .ok (vaddr, after)) : after.tasks = s.tasks := by
  simp only [sysMmap, bind_eq_ok, lift_eq_ok] at called
  obtain ⟨_, _, _, _, task, _, ⟨start, one⟩, started, _, _, two, mapped, called⟩ := called
  have same : two.tasks = s.tasks :=
    (foldlM_tasks (fun _ _ _ mapped => mmapPage_tasks mapped) mapped).trans
      (mmapStart_tasks started)
  split at called
  · cases called
    exact same
  · simp only [bind_eq_ok] at called
    obtain ⟨three, stored, result⟩ := called
    cases result
    exact ((kernelStores_kept _ _ _ _).1 _ stored).tasks.trans same

theorem sysMunmap_tasks {length : Nat} {value : Int}
    (called : s.sysMunmap vaddr length = .ok (value, after)) : after.tasks = s.tasks := by
  simp only [sysMunmap, bind_eq_ok] at called
  obtain ⟨task, _, _, _, _, _, middle, unmapped, result⟩ := called
  cases result
  exact foldlM_tasks (fun _ _ _ unmapped => munmapPage_tasks unmapped) unmapped

/-- A program that has been loaded has an empty heap. -/
theorem loadElf_heap {image : Image} (loaded : s.loadElf image = .ok after) :
    after.tasks = s.tasks ∨ ∀ task, after.tasks after.current = some task →
      task.brk = task.end_ := by
  simp only [loadElf, bind_eq_ok, lift_eq_ok] at loaded
  obtain ⟨one, linked, two, stored, loaded⟩ := loaded
  split at loaded
  · simp only [bind_eq_ok] at loaded
    obtain ⟨three, headers, four, segments, result⟩ := loaded
    cases result
    refine .inr fun task present => ?_
    change Function.update four.tasks four.current _ four.current = some task at present
    rw [Function.update_self] at present
    obtain ⟨before, _, rfl⟩ := Option.map_eq_some_iff.mp present
    rfl
  · cases loaded
    exact .inl (((kernelStores_kept _ _ _ _).1 _ stored).tasks.trans
      (linkUserPage_kept linked).tasks)

theorem sysExecve_heap {args : Nat × (Nat → Entry)} {image : Image}
    (called : s.sysExecve args image = .ok after) :
    after.tasks = s.tasks ∨ ∀ task, after.tasks after.current = some task →
      task.brk = task.end_ := by
  simp only [sysExecve, bind_eq_ok, lift_eq_ok] at called
  obtain ⟨_, _, one, freed, two, stored, loaded⟩ := called
  have same : two.tasks = s.tasks :=
    ((kernelStores_kept _ _ _ _).1 _ stored).tasks.trans (freePte_kept freed).tasks
  rw [← same]
  exact loadElf_heap loaded

/-- `sys_execve` keeps the tables in order. -/
theorem sysExecve_orders {spaces : Spaces} (inUse : s.InUse spaces pid dir userTables)
    (args : Nat × (Nat → Entry)) (image : Image) :
    Leaves (Orders spaces pid dir s) (s.sysExecve args image) := by
  unfold sysExecve
  refine .bind_lift fun _ _ => .bind_lift fun one freed => ?_
  have first := (freePte_spec inUse freed).1
  refine .bind ((kernelStores_serves first.inUse _ _ _).mono fun _ more =>
    first.trans more.toOrders) fun two stored => ?_
  have second := first.trans ((kernelStores_serves first.inUse _ _ _).1 two stored).toOrders
  exact (loadElf_serves second.inUse image).mono fun _ more => second.trans more.toOrders

/-- Every step keeps tables and accounts in order. -/
theorem Sound.next {label : Label} (sound : s.Sound) (heap : s.HeapBounded)
    (takes : s.Takes label) (stepped : s.next label = .ok after) :
    after.Sound ∧ after.HeapBounded := by
  cases label with
  | switchTo pid =>
      cases stepped
      exact ⟨⟨sound.account, ⟨sound.tables.apart, sound.tables.accounts, sound.tables.coherent,
        sound.tables.bounded⟩, sound.guarded, sound.furnished, sound.forked, sound.dead⟩, heap⟩
  | fork growths =>
      obtain ⟨task, present, live⟩ := takes
      obtain ⟨soundAfter, child, new, absent, sameBrk, sameEnd, tasks⟩ :=
        sound.fork present live stepped
      refine ⟨soundAfter, fun pid other presentAfter isLive => ?_⟩
      rw [tasks] at presentAfter
      by_cases isChild : pid = child
      · subst isChild
        rw [Function.update_self] at presentAfter
        cases presentAfter
        rw [sameBrk, sameEnd]
        exact heap _ task present live
      · rw [Function.update_of_ne isChild] at presentAfter
        exact heap pid other presentAfter isLive
  | execve args image =>
      obtain ⟨task, present, live⟩ := takes
      have leaves := sysExecve_orders (sound.inUse present live) args image
      refine sound.settle heap present live leaves
        (fun after called other presentAfter isLive => ?_)
        stepped
      rcases sysExecve_heap called with same | isEmpty
      · rw [same, present] at presentAfter
        cases presentAfter
        exact heap _ task present live
      · rw [← (leaves.1 after called).within.current] at presentAfter
        rw [isEmpty other presentAfter]
        exact le_max_right _ _
  | exit =>
      obtain ⟨task, present, live⟩ := takes
      obtain ⟨soundAfter, others, gone⟩ := sound.exit present live stepped
      exact ⟨soundAfter, heap.others others fun other presentAfter isLive =>
        absurd isLive (gone other presentAfter)⟩
  | reap pid =>
      obtain ⟨soundAfter, tasks⟩ := sound.reap stepped
      have others (other : Nat) (away : other ≠ pid) : after.tasks other = s.tasks other := by
        rw [tasks, Function.update_of_ne away]
      refine ⟨soundAfter, heap.others others fun other presentAfter _ => ?_⟩
      rw [tasks, Function.update_self] at presentAfter
      cases presentAfter
  | brk brk =>
      obtain ⟨task, present, live⟩ := takes
      simp only [Machine.next, bind_eq_ok] at stepped
      obtain ⟨⟨value, middle⟩, called, result⟩ := stepped
      cases result
      have isCurrent := getCurrent_present present
      have ordered := sysBrk_orders (sound.inUse present live) isCurrent
        (heap _ task present live) called
      refine ⟨sound.orders ordered, heap.others ordered.within.others
        fun other presentAfter isLive => ?_⟩
      rcases sysBrk_cases isCurrent called with ⟨_, rfl⟩ | ⟨_, _, _, below, middle, rfl, _⟩
      · exact heap _ other presentAfter isLive
      · rw [show s.current = middle.current from ordered.within.current.symm] at presentAfter
        change Function.update middle.tasks middle.current _ middle.current = some other
          at presentAfter
        rw [Function.update_self] at presentAfter
        obtain ⟨before, _, rfl⟩ := Option.map_eq_some_iff.mp presentAfter
        exact below.le.trans (le_max_left _ _)
  | mmap args =>
      obtain ⟨task, present, live⟩ := takes
      have leaves := sysMmap_serves (sound.inUse present live) (fun other isCurrent => by
        have isOther := present_of_getCurrent isCurrent
        rw [present] at isOther
        cases isOther
        exact (sound.furnished _ task present live).region) args
      refine sound.settle heap present live (leaves.mono fun _ served => served.toOrders)
        (fun after called other presentAfter isLive => ?_) stepped
      simp only [bind_eq_ok] at called
      obtain ⟨⟨vaddr, middle⟩, isCalled, result⟩ := called
      cases result
      rw [sysMmap_tasks isCalled] at presentAfter
      exact heap _ other presentAfter isLive
  | munmap addr length =>
      obtain ⟨task, present, live⟩ := takes
      simp only [Machine.next, bind_eq_ok] at stepped
      obtain ⟨⟨value, middle⟩, called, result⟩ := stepped
      cases result
      have ordered := sysMunmap_orders (sound.inUse present live) (fun other isCurrent => by
        have isOther := present_of_getCurrent isCurrent
        rw [present] at isOther
        cases isOther
        exact (sound.furnished _ task present live).region) called
      refine ⟨sound.orders ordered, heap.others ordered.within.others
        fun other presentAfter isLive => ?_⟩
      rw [sysMunmap_tasks called] at presentAfter
      exact heap _ other presentAfter isLive
  | access vaddr store =>
      obtain ⟨task, present, live⟩ := takes
      have leaves := access_serves (sound.inUse present live) sound.guarded vaddr store
      refine sound.settle heap present live (leaves.mono fun _ served => served.toOrders)
        (fun after called other presentAfter isLive => ?_) stepped
      rw [((access_kept _ _ _).1 _ called).tasks] at presentAfter
      exact heap _ other presentAfter isLive

/-- Page tables and accounts are in order in every state that user tasks reach. -/
theorem sound_of_reachable
    (reached : (runs fun before => before.Booted ∧ before.current < 2).Reachable s) :
    s.Sound ∧ s.HeapBounded := by
  refine reached.invariant (fun s => s.Sound ∧ s.HeapBounded) ?_ ?_
  · rintro s ⟨before, growths, ⟨booted, isInit⟩, entered⟩
    obtain ⟨sound, _, new, tasks, _, heap, _⟩ := booted.enters isInit entered
    refine ⟨sound, fun pid task present live => ?_⟩
    rw [tasks] at present
    by_cases isCurrent : pid = before.current
    · rw [isCurrent, Function.update_self] at present
      cases present
      rw [heap]
      exact le_max_of_le_left (by decide)
    · rw [Function.update_of_ne isCurrent] at present
      exact absurd live (booted.notLive present)
  · rintro before label after ⟨sound, heap⟩ _ ⟨takes, stepped⟩
    exact sound.next heap takes stepped

/-! ## A machine -/

/-- The last page of the stack. -/
abbrev stackPage : Nat :=
  userStackTop / pageSize * pageSize

/-- A machine with 32 MiB on which `kernel_init` has created the tasks `idle` and `init`.  Of
the kernel pages two hold `mem_map` and two hold the tasks. -/
def fresh : Machine :=
  { vacant with
    pages :=
      { kernelBits := ⟨fun byte => if byte = kernelMap.bits then 15 else 0⟩
        memMap := ⟨fun frame => if frame < 258 then 100 else if frame < 260 then 1 else 0⟩
        totalPages := 8192
        freePages := 7932 }
    tasks := fun pid =>
      if pid < 2 then
        some ⟨0, false, 0xC0102000 + pid * pageSize, Paging.kernelPageDir, ⟨0, 0, 0⟩,
          userExecAddr, userExecAddr, userExecAddr, userExecAddr⟩
      else none }

theorem fresh_taken (page : Nat) : fresh.pages.Taken page ↔ page < 4 := by
  unfold PageMaps.Taken Bitmap.bit Bitmap.byteBit
  change (if kernelMap.bits + page / 8 = kernelMap.bits then (15 : UInt8) else 0).toNat.testBit
    (page % 8) = true ↔ page < 4
  by_cases first : page < 8
  · rw [if_pos (by omega), Nat.mod_eq_of_lt first]
    have bits : ∀ page < 8, (15 : UInt8).toNat.testBit page = true ↔ page < 4 := by decide
    exact bits page first
  · rw [if_neg (by omega)]
    constructor
    · intro isSet
      rw [show (0 : UInt8).toNat = 0 from rfl, Nat.zero_testBit] at isSet
      cases isSet
    · omega

theorem fresh_booted : fresh.Booted := by
  have counts (frame : Nat) (above : 260 ≤ frame) : fresh.pages.memMap frame = 0 :=
    (if_neg (by omega)).trans (if_neg (by omega))
  refine ⟨fun page _ => ?_, by decide, by decide, fun frame user => counts frame ?_, rfl,
    fun pid task present => ?_, fun _ _ => rfl, fun _ _ => rfl⟩
  · rw [fresh_taken]
    by_cases low : page < 4
    · have used : ∀ page < 4, fresh.pages.count page ≠ 0 := by decide
      exact ⟨fun _ => used page low, fun _ => low⟩
    · have zero : fresh.pages.count page = 0 := by
        unfold PageMaps.count
        rw [counts (page + 256) (by omega)]
        rfl
      exact ⟨fun taken => absurd taken low, fun counted => absurd zero counted⟩
  · have above := user.1
    change 4096 ≤ frame at above
    omega
  · change (if pid < 2 then _ else none) = some task at present
    split at present
    · rename_i early
      cases present
      have kernelRing : (0 : Nat) ≠ userRing3 := by decide
      exact ⟨early, kernelRing, rfl, rfl, rfl, rfl⟩
    · cases present

theorem exists_of_toBool {α ε : Type} {call : Except ε α} (returns : call.toBool = true) :
    ∃ result, call = .ok result := by
  cases call with
  | ok result => exact ⟨result, rfl⟩
  | error fault => cases returns

/-- The first user task of that machine runs. -/
theorem fresh_enters : ∃ s task,
    (runs fun before => before.Booted ∧ before.current < 2).Reachable s ∧
      fresh.moveToUserMode 0 = .ok s ∧ s.tasks s.current = some task ∧ task.Live ∧
        task.brk = userExecAddr ∧ task.end_ = userExecAddr := by
  have returns : (fresh.moveToUserMode 0).toBool = true := by decide +kernel
  obtain ⟨s, entered⟩ := exists_of_toBool returns
  obtain ⟨_, current, new, tasks, live, isBrk, isEnd⟩ :=
    fresh_booted.enters (by decide) entered
  refine ⟨s, new, .initial ⟨fresh, 0, ⟨fresh_booted, by decide⟩, entered⟩, entered, ?_, live,
    isBrk, isEnd⟩
  rw [tasks, current, Function.update_self]

end Machine

end UserMemory
end LightOS
