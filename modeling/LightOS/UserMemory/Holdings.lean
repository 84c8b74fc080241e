import LightOS.Paging.Directory
import LightOS.UserMemory.Calls

/-!
# What user tasks hold

A user task that has not exited holds a kernel page for its directory and one for the bits
of its bitmap, and every task that has been forked holds the page of its structure.  The
accounts of kernel pages and those of user pages are kept apart by the addresses.
-/

namespace LightOS

namespace PageMaps

variable {pages after : PageMaps} {count vaddr first : Nat}

/-- A call on kernel pages leaves user pages alone. -/
structure KernelOnly (pages after : PageMaps) : Prop where
  totalPages : after.totalPages = pages.totalPages
  counts : ∀ frame, kernelMemSize / pageSize ≤ frame → after.memMap frame = pages.memMap frame

theorem KernelOnly.refl (pages : PageMaps) : KernelOnly pages pages :=
  ⟨rfl, fun _ _ => rfl⟩

theorem KernelOnly.trans {middle : PageMaps} (one : KernelOnly pages middle)
    (two : KernelOnly middle after) : KernelOnly pages after :=
  ⟨two.totalPages.trans one.totalPages,
    fun frame above => (two.counts frame above).trans (one.counts frame above)⟩

theorem countPages_totalPages {left index : Nat}
    (counted : pages.countPages left index = .ok after) : after.totalPages = pages.totalPages := by
  induction left generalizing pages index with
  | zero =>
      cases counted
      rfl
  | succ left inductionHypothesis =>
      simp only [countPages, bind_eq_ok] at counted
      obtain ⟨_, _, rest⟩ := counted
      have kept := inductionHypothesis rest
      exact kept

/-- An allocation leaves user pages alone. -/
theorem Synced.alloc_kernelOnly (synced : pages.Synced)
    (allocated : pages.allocKpage count = .ok (vaddr, after)) : KernelOnly pages after := by
  obtain ⟨_, first, _, inside, _, _, counts⟩ := synced.alloc allocated
  refine ⟨?_, fun frame above => ?_⟩
  · simp only [allocKpage, bind_eq_ok] at allocated
    obtain ⟨_, _, found, _, allocated⟩ := allocated
    split at allocated
    · cases allocated
    · simp only [bind_eq_ok] at allocated
      obtain ⟨counted, isCounted, result⟩ := allocated
      cases result
      have kept := countPages_totalPages isCounted
      exact kept
  · change 4096 ≤ frame at above
    rw [counts, if_neg (by omega)]

theorem uncountPage_totalPages {index : Nat} (uncounted : pages.uncountPage index = .ok after) :
    after.totalPages = pages.totalPages := by
  unfold uncountPage at uncounted
  generalize index - kernelMap.offset + memoryBase / pageSize = frame at uncounted
  simp only [bind_eq_ok] at uncounted
  obtain ⟨_, _, dropped⟩ := uncounted
  split at dropped
  · simp only [bind_eq_ok] at dropped
    obtain ⟨_, _, _, _, _, _, result⟩ := dropped
    rw [← Except.ok.inj result, addFree_totalPages, setCount_totalPages]
  · rw [← Except.ok.inj dropped, setCount_totalPages]

theorem uncountPages_totalPages {left index : Nat}
    (uncounted : pages.uncountPages left index = .ok after) :
    after.totalPages = pages.totalPages := by
  induction left generalizing pages index with
  | zero =>
      cases uncounted
      rfl
  | succ left inductionHypothesis =>
      simp only [uncountPages, bind_eq_ok] at uncounted
      obtain ⟨middle, dropped, rest⟩ := uncounted
      exact (inductionHypothesis rest).trans (uncountPage_totalPages dropped)

/-- Freeing kernel pages leaves user pages alone. -/
theorem Synced.free_kernelOnly (synced : pages.Synced) (inside : first + count ≤ 3840)
    (freed : pages.freeKpage (0xC0100000 + first * 4096) count = .ok after) :
    KernelOnly pages after := by
  obtain ⟨_, outside, _⟩ := synced.free freed
  refine ⟨?_, fun frame above => ?_⟩
  · simp only [freeKpage, bind_eq_ok] at freed
    obtain ⟨_, _, _, _, uncounted⟩ := freed
    exact uncountPages_totalPages uncounted
  · change 4096 ≤ frame at above
    exact outside frame (.inr (by omega))

end PageMaps

namespace UserMemory

open Sched (taskNr userRing3)
open Paging (Owner)

/-- The task is a user task that has not exited. -/
def Task.Live (task : Task) : Prop :=
  task.uid = userRing3 ∧ task.dead = false

instance (task : Task) : Decidable task.Live :=
  inferInstanceAs (Decidable (_ ∧ _))

/-- The directories of user tasks. -/
def spacesOf (tasks : Nat → Option Task) : Spaces :=
  fun pid => match tasks pid with
    | some task => if task.Live then some (task.pde / pageSize, userTables) else none
    | none => none

/-- Which kernel pages user tasks hold. -/
def Owns (tasks : Nat → Option Task) : Owner → Nat → Nat → Prop
  | .directory pid, first, count => count = 1 ∧ first < 3840 ∧
      ∃ task, tasks pid = some task ∧ task.Live ∧ task.pde = 0x100000 + first * 4096
  | .bits pid, first, count => count = 1 ∧ first < 3840 ∧
      ∃ task, tasks pid = some task ∧ task.Live ∧ task.vmap.bits = 0xC0100000 + first * 4096
  | .stack pid, first, count => count = 1 ∧ first < 3840 ∧ 2 ≤ pid ∧
      ∃ task, tasks pid = some task ∧ task.page = 0xC0100000 + first * 4096
  | .argvk _, _, _ => False
  | .cache _, _, _ => False

section Owns

variable {tasks later : Nat → Option Task} {pid first count : Nat} {task : Task} {owner : Owner}

theorem spacesOf_live (present : tasks pid = some task) (live : task.Live) :
    spacesOf tasks pid = some (task.pde / pageSize, userTables) := by
  unfold spacesOf
  rw [present]
  exact if_pos live

theorem exists_of_spacesOf {dir limit : Nat} (space : spacesOf tasks pid = some (dir, limit)) :
    ∃ task, tasks pid = some task ∧ task.Live ∧ dir = task.pde / pageSize ∧
      limit = userTables := by
  unfold spacesOf at space
  split at space
  · rename_i task present
    split at space
    · rename_i live
      cases space
      exact ⟨task, present, live, rfl, rfl⟩
    · cases space
  · cases space

/-- What tasks hold depends on their cores. -/
theorem exists_of_core (same : (later pid).map Task.core = (tasks pid).map Task.core)
    (present : later pid = some task) : ∃ before, tasks pid = some before ∧
      task.core = before.core := by
  rw [present] at same
  obtain ⟨before, isBefore, isSame⟩ := Option.map_eq_some_iff.mp same.symm
  exact ⟨before, isBefore, isSame.symm⟩

theorem core_live {before : Task} (same : task.core = before.core) :
    task.Live ↔ before.Live := by
  simp only [Task.core, Prod.mk.injEq] at same
  unfold Task.Live
  rw [same.1, same.2.1]

theorem core_pde {before : Task} (same : task.core = before.core) : task.pde = before.pde := by
  simp only [Task.core, Prod.mk.injEq] at same
  exact same.2.2.2.1

theorem core_vmap {before : Task} (same : task.core = before.core) :
    task.vmap = before.vmap := by
  simp only [Task.core, Prod.mk.injEq] at same
  exact same.2.2.2.2

theorem core_page {before : Task} (same : task.core = before.core) :
    task.page = before.page := by
  simp only [Task.core, Prod.mk.injEq] at same
  exact same.2.2.1

theorem spacesOf_core (same : ∀ pid, (later pid).map Task.core = (tasks pid).map Task.core) :
    spacesOf later = spacesOf tasks := by
  funext pid
  cases present : later pid with
  | none =>
      have absent := same pid
      rw [present] at absent
      unfold spacesOf
      rw [present, Option.map_eq_none_iff.mp absent.symm]
  | some task =>
      obtain ⟨before, isBefore, isSame⟩ := exists_of_core (same pid) present
      unfold spacesOf
      rw [present, isBefore]
      dsimp only
      rw [core_pde isSame]
      exact if_congr (core_live isSame) rfl rfl

theorem Owns.core (same : ∀ pid, (later pid).map Task.core = (tasks pid).map Task.core)
    (owns : Owns later owner first count) : Owns tasks owner first count := by
  cases owner with
  | directory pid =>
      obtain ⟨one, inside, task, present, live, isPde⟩ := owns
      obtain ⟨before, isBefore, isSame⟩ := exists_of_core (same pid) present
      exact ⟨one, inside, before, isBefore, (core_live isSame).mp live,
        (core_pde isSame).symm.trans isPde⟩
  | bits pid =>
      obtain ⟨one, inside, task, present, live, isBits⟩ := owns
      obtain ⟨before, isBefore, isSame⟩ := exists_of_core (same pid) present
      exact ⟨one, inside, before, isBefore, (core_live isSame).mp live,
        (congrArg Bitmap.bits (core_vmap isSame)).symm.trans isBits⟩
  | stack pid =>
      obtain ⟨one, inside, forked, task, present, isPage⟩ := owns
      obtain ⟨before, isBefore, isSame⟩ := exists_of_core (same pid) present
      exact ⟨one, inside, forked, before, isBefore, (core_page isSame).symm.trans isPage⟩
  | argvk pid => exact owns
  | cache slot => exact owns

theorem Owns.inside (owns : Owns tasks owner first count) : count = 1 ∧ first < 3840 := by
  cases owner with
  | directory pid => exact ⟨owns.1, owns.2.1⟩
  | bits pid => exact ⟨owns.1, owns.2.1⟩
  | stack pid => exact ⟨owns.1, owns.2.1⟩
  | argvk pid => cases owns
  | cache slot => cases owns

end Owns

end UserMemory
end LightOS
