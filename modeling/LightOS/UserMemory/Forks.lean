import LightOS.UserMemory.Copies
import LightOS.UserMemory.Holdings

/-!
# New directories

`copy_pde` gives a task a directory of its own, and `copy_pte` copies of the tables of the
current task as well.
-/

namespace LightOS
namespace UserMemory

open Sched (taskNr userRing3)
open Paging (Owner Account)

variable {refers : Place → Option Nat} {pages later : PageMaps} {s after : Machine}
  {spaces : Spaces} {parent child dir target first limit index : Nat}

/-- The accounts of user pages do not depend on kernel pages. -/
theorem Accounts.kernelOnly (accounts : Accounts refers pages)
    (kernelOnly : PageMaps.KernelOnly pages later) : Accounts refers later := by
  refine accounts.congr kernelOnly.totalPages fun other user => ?_
  unfold PageMaps.references
  rw [kernelOnly.counts other user.1]

theorem Tables.kernelOnly (tables : Tables s spaces)
    (kernelOnly : PageMaps.KernelOnly s.pages later) :
    Tables { s with pages := later } spaces :=
  ⟨tables.apart, tables.accounts.kernelOnly kernelOnly, tables.coherent,
    kernelOnly.totalPages ▸ tables.bounded⟩

/-- The heap grows on kernel pages. -/
theorem grow_kernelOnly {owns : Owner → Nat → Nat → Prop} (account : Account owns pages)
    {size growths : Nat} (grown : Paging.grow pages size growths = .ok later) :
    PageMaps.KernelOnly pages later := by
  induction growths generalizing pages with
  | zero =>
      cases grown
      exact .refl _
  | succ growths inductionHypothesis =>
      simp only [Paging.grow, bind_eq_ok] at grown
      obtain ⟨⟨vaddr, middle⟩, allocated, rest⟩ := grown
      obtain ⟨_, _, held⟩ := account.alloc allocated
      have next := held (.cache 0) owns fun _ _ _ => .inl
      exact (account.synced.alloc_kernelOnly allocated).trans (inductionHypothesis next rest)

/-- The accounts of kernel pages do not depend on user pages. -/
theorem account_userOnly {owns fewer : Owner → Nat → Nat → Prop} (account : Account owns pages)
    (inside : ∀ owner first count, fewer owner first count →
      owns owner first count ∧ first + count ≤ 3840)
    (bits : later.kernelBits = pages.kernelBits)
    (counts : ∀ frame, frame < kernelMemSize / pageSize →
      later.memMap frame = pages.memMap frame) : Account fewer later := by
  have sameCount (page : Nat) (below : page < 3840) : later.count page = pages.count page := by
    unfold PageMaps.count
    rw [counts (page + 256) (by change page + 256 < 4096; omega)]
  refine ⟨fun page below => ?_, account.ledger.mono (fun owner first count holds =>
    (inside owner first count holds).1) fun owner first count holds page above below => ?_, ?_⟩
  · rw [sameCount page below, ← account.synced page below]
    unfold PageMaps.Taken
    rw [bits]
  · have fits := (inside owner first count holds).2
    exact sameCount page (by omega)
  · rw [counts 0 (by decide)]
    exact account.kernelDir

namespace Machine

/-- A directory that is not in use yet refers to nothing. -/
theorem refersIn_newcomer {frames : Nat → Nat → Entry} (noChild : spaces child = none) :
    refersIn frames (withChild spaces child target 0) = refersIn frames spaces := by
  have sameTable (pid number : Nat) :
      tableOf frames (withChild spaces child target 0) pid number =
        tableOf frames spaces pid number := by
    unfold tableOf
    by_cases isChild : pid = child
    · subst isChild
      rw [withChild_self, noChild]
      exact if_neg (Nat.not_lt_zero _)
    · rw [withChild_of_ne isChild]
  funext ⟨pid, number, position⟩
  cases position with
  | zero => exact sameTable pid number
  | succ position =>
      unfold refersIn
      dsimp only
      rw [sameTable]

/-- `copy_pde` makes a directory on a page of its own. -/
theorem copyPde_spec (tables : Tables s spaces) (synced : s.pages.Synced)
    (held : ∀ pid dir limit, spaces pid = some (dir, limit) → s.pages.memMap dir ≠ 0)
    (isDir : s.getPde = .ok dir) (noChild : spaces child = none) (isTask : child < taskNr)
    (copied : s.copyPde = .ok (target, after)) :
    ∃ first pages, first < 3840 ∧ target = 0x100000 + first * 4096 ∧
      s.pages.allocKpage 1 = .ok (0xC0100000 + first * 4096, pages) ∧
      after = { s with
        pages := pages
        frames := Function.update s.frames (256 + first) (s.frames dir) } ∧
      (∀ pid dir limit, spaces pid = some (dir, limit) → dir ≠ 256 + first) ∧
      Tables after (withChild spaces child (256 + first) 0) := by
  simp only [copyPde, allocKpage, bind_eq_ok] at copied
  obtain ⟨⟨vaddr, one⟩, ⟨⟨found, pages⟩, allocated, isOne⟩, pde, isPde, result⟩ := copied
  cases isOne
  obtain ⟨syncedAfter, first, _, inside, address, fresh, counts⟩ := synced.alloc allocated
  rw [address] at allocated
  have samePde : pde = dir := Except.ok.inj (isPde.symm.trans isDir)
  obtain ⟨isTarget, isAfter⟩ := Prod.mk.inj (Except.ok.inj result)
  have isNumber : target = 0x100000 + first * 4096 := by
    have offset : kernelVaddrOffset = 0xC0000000 := rfl
    omega
  have isFrame : (found - kernelVaddrOffset) / pageSize = 256 + first := by
    rw [isTarget, isNumber]
    change (0x100000 + first * 4096) / 4096 = 256 + first
    omega
  have distinct : ∀ pid dir limit, spaces pid = some (dir, limit) → dir ≠ 256 + first := by
    rintro pid dir limit space rfl
    have counted := fresh first (le_refl _) (by omega)
    unfold PageMaps.count at counted
    rw [Nat.add_comm first 256] at counted
    exact held pid _ limit space (UInt8.toNat_inj.mp counted)
  have kernelOnly := synced.alloc_kernelOnly allocated
  refine ⟨first, pages, by omega, isNumber, allocated, ?_, distinct, ?_⟩
  · rw [← isAfter, isFrame, samePde]
    rfl
  rw [← isAfter, isFrame, samePde]
  have notTable (pid number : Nat) : tableOf s.frames spaces pid number ≠ some (256 + first) := by
    intro isTable
    have above := (tables.accounts.user _ _ (refersIn_zero.trans isTable)).1
    change 4096 ≤ 256 + first at above
    omega
  have same : refersIn (Function.update s.frames (256 + first) (s.frames dir))
      (withChild spaces child (256 + first) 0) = refersIn s.frames spaces := by
    rw [refersIn_newcomer noChild]
    exact refersIn_data distinct notTable fun other away => Function.update_of_ne away _ _
  refine ⟨⟨fun pid directory count space => ?known, fun pid other directory count extent space
    also => ?own⟩, ?accounts, tables.coherent, kernelOnly.totalPages ▸ tables.bounded⟩
  case known =>
    by_cases isChild : pid = child
    · subst isChild
      rw [withChild_self] at space
      cases space
      exact ⟨isTask, Nat.zero_le _, by omega, by omega⟩
    · rw [withChild_of_ne isChild] at space
      exact tables.apart.known pid directory count space
  case own =>
    by_cases isChild : pid = child
    · by_cases otherChild : other = child
      · rw [isChild, otherChild]
      · rw [isChild, withChild_self] at space
        rw [withChild_of_ne otherChild] at also
        cases space
        exact absurd rfl (distinct other _ extent also)
    · rw [withChild_of_ne isChild] at space
      by_cases otherChild : other = child
      · rw [otherChild, withChild_self] at also
        cases also
        exact absurd rfl (distinct pid _ count space)
      · rw [withChild_of_ne otherChild] at also
        exact tables.apart.own pid other directory count extent space also
  case accounts =>
    change Accounts (refersIn (Function.update s.frames (256 + first) (s.frames dir)) _) pages
    rw [same]
    exact tables.accounts.kernelOnly kernelOnly

/-- The loop of `copy_pte` gives all tables to the child. -/
theorem copyTables_spec (tables : Tables s (withChild spaces child target 0))
    (different : parent ≠ child) (space : spaces parent = some (dir, userTables))
    (sameEntries : s.frames target = s.frames dir)
    (copied : (List.range userTables).foldlM (copyTable dir target) s = .ok after) :
    Tables after (withChild spaces child target userTables) ∧
      Within (withChild spaces child target userTables) s after := by
  have folded := foldlM_range (fun middle count =>
      Tables middle (withChild spaces child target count) ∧
      Within (withChild spaces child target userTables) s middle ∧
      middle.frames dir = s.frames dir ∧
      ∀ number, count ≤ number → middle.frames target number = s.frames target number)
    (fun before index next inRange ⟨tables, within, sameDir, same⟩ taken => ?_)
    ⟨tables, .refl s, rfl, fun _ _ => rfl⟩ copied
  · exact ⟨folded.1, folded.2.1⟩
  obtain ⟨tablesNext, withinNext, dirNext, targetNext⟩ := copyTable_spec tables different space
    inRange (by rw [same index (le_refl _), sameEntries, sameDir]) taken
  refine ⟨tablesNext, within.trans (Within.withChild withinNext), dirNext.trans sameDir,
    fun number above => ?_⟩
  rw [targetNext number (by omega)]
  exact same number (by omega)

end Machine

end UserMemory
end LightOS
