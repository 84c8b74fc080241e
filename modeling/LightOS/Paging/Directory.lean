import LightOS.Foundation.Ledger
import LightOS.Paging.Machine

/-!
# The directory in use

As long as no task exits, the page directory that the processor uses is a page of its
own that is never handed out again.  The first exit frees it while it is in use.
-/

namespace LightOS
namespace Paging

open Sched (TaskState taskNr userRing3)

/-- What pages are held for. -/
inductive Owner
  | directory (pid : Nat)
  | bits (pid : Nat)
  | stack (pid : Nat)
  | argvk (pid : Nat)
  | cache (slot : Nat)
  deriving DecidableEq, Repr

variable {count first growths : Nat} {owner : Owner} {pages : PageMaps}

/-- The task that pages are held by. -/
def Owner.task : Owner → Option Nat
  | .directory pid | .bits pid | .stack pid | .argvk pid => some pid
  | .cache _ => none

/-- The pages are accounted for: their owners are in order, and the bitmap agrees with
the counts of references. -/
structure Account (owns : Owner → Nat → Nat → Prop) (pages : PageMaps) : Prop where
  synced : pages.Synced
  ledger : Ledger owns pages.count
  kernelDir : pages.memMap 0 ≠ 0

namespace Account

variable {owns later : Owner → Nat → Nat → Prop} {after : PageMaps}

theorem mono (account : Account owns pages)
    (fewer : ∀ owner first length, later owner first length → owns owner first length) :
    Account later pages :=
  ⟨account.synced, account.ledger.mono fewer fun _ _ _ _ _ _ _ => rfl, account.kernelDir⟩

/-- Pages are allocated for an owner, or for the rest of the kernel. -/
theorem alloc (account : Account owns pages) {vaddr : Nat}
    (allocated : pages.allocKpage count = .ok (vaddr, after)) :
    ∃ first, vaddr = 0xC0100000 + first * 4096 ∧
      ∀ owner later, (∀ other start extent, later other start extent →
        owns other start extent ∨ other = owner ∧ start = first ∧ extent = count) →
          Account later after := by
  obtain ⟨synced, first, positive, _, address, fresh, counts⟩ := account.synced.alloc allocated
  refine ⟨first, address, fun owner later acquired => ⟨synced, ?ledger, ?kernelDir⟩⟩
  case ledger =>
    refine account.ledger.acquire owner positive fresh (fun page => ?_) acquired
    unfold PageMaps.count
    rw [counts]
    by_cases inside : first ≤ page ∧ page < first + count
    · rw [if_pos (by omega), if_pos inside]
      rfl
    · rw [if_neg (by omega), if_neg inside]
  case kernelDir =>
    rw [counts, if_neg (by omega)]
    exact account.kernelDir

/-- The heap grows. -/
theorem grow (account : Account owns pages) {size : Nat}
    (grown : grow pages size growths = .ok after) : Account owns after := by
  induction growths generalizing pages with
  | zero =>
      cases grown
      exact account
  | succ growths inductionHypothesis =>
      simp only [Paging.grow, bind_eq_ok] at grown
      obtain ⟨⟨vaddr, middle⟩, allocated, rest⟩ := grown
      obtain ⟨_, _, held⟩ := account.alloc allocated
      exact inductionHypothesis (held (.cache 0) owns fun _ _ _ => .inl) rest

/-- An owner gives its pages back. -/
theorem free (account : Account owns pages) (later : Owner → Nat → Nat → Prop)
    (holds : owns owner first count)
    (freed : pages.freeKpage (0xC0100000 + first * 4096) count = .ok after)
    (released : ∀ other start extent, later other start extent →
      owns other start extent ∧ other ≠ owner) :
    Account later after ∧
      (∀ page, page < first ∨ first + count ≤ page → after.count page = pages.count page) ∧
      ∀ page, first ≤ page → page < first + count → after.count page = 0 := by
  obtain ⟨synced, outside, inside⟩ := account.synced.free freed
  have counts (page : Nat) (away : page < first ∨ first + count ≤ page) :
      after.count page = pages.count page := by
    unfold PageMaps.count
    rw [outside (page + 256) (by omega)]
  refine ⟨⟨synced, account.ledger.release holds counts released, ?kernelDir⟩, counts,
    fun page above below => inside page above below ?_⟩
  case kernelDir =>
    rw [outside 0 (by omega)]
    exact account.kernelDir
  exact account.ledger.held owner first count holds page above below

end Account

namespace Machine

variable {s after : Machine} {pid : Nat} {task : Task}

/-- Who holds which pages. -/
def Owns (s : Machine) : Owner → Nat → Nat → Prop
  | .directory pid, first, count => count = 1 ∧
      ∃ task, s.tasks pid = some task ∧ task.pde = 0x100000 + first * 4096
  | .bits pid, first, count => count = 1 ∧
      ∃ task, s.tasks pid = some task ∧ task.bits = 0xC0100000 + first * 4096
  | .stack pid, first, count => count = 4 ∧
      ∃ task argvk, s.tasks pid = some task ∧
        task.staging = some (0xC0100000 + first * 4096, argvk)
  | .argvk pid, first, count => count = 1 ∧
      ∃ task stack, s.tasks pid = some task ∧
        task.staging = some (stack, 0xC0100000 + first * 4096)
  | .cache slot, first, count => count = 1 ∧
      s.pipes slot = some (0xC0100000 + first * 4096)

/-- A page holds a task's directory: the one of the kernel or one of its own. -/
def Proper (pid : Nat) (task : Task) : Prop :=
  (task.pde = kernelPageDir ∧ pid < 2 ∨ ∃ first, task.pde = 0x100000 + first * 4096) ∧
    (2 ≤ pid → ∃ first, task.bits = 0xC0100000 + first * 4096) ∧
    ∀ stack argvk, task.staging = some (stack, argvk) →
      (∃ first, stack = 0xC0100000 + first * 4096) ∧
        ∃ first, argvk = 0xC0100000 + first * 4096

/-- The pages of the tasks and pipes are in order, and no task is dead. -/
structure Stored (s : Machine) : Prop where
  account : Account s.Owns s.pages
  proper : ∀ pid task, s.tasks pid = some task → Proper pid task ∧ task.state ≠ .dead
  caches : ∀ slot cache, s.pipes slot = some cache →
    ∃ first, cache = 0xC0100000 + first * 4096

/-- The processor uses the directory of the current task. -/
def InUse (s : Machine) : Prop :=
  ∃ task, s.tasks s.current = some task ∧ s.cr3 = task.pde

/-- The directory that the processor uses is not free, and no allocation returns it. -/
structure Active (s : Machine) : Prop where
  allocated : s.pages.memMap (s.cr3 / pageSize) ≠ 0
  kept : ∀ count vaddr pages, s.pages.allocKpage count = .ok (vaddr, pages) →
    s.cr3 + kernelVaddrOffset < vaddr ∨
      vaddr + count * pageSize ≤ s.cr3 + kernelVaddrOffset

theorem Stored.active (stored : s.Stored) (inUse : s.InUse) : s.Active := by
  obtain ⟨task, present, isPde⟩ := inUse
  obtain ⟨⟨isKernel, _⟩ | ⟨page, isOwn⟩, _⟩ := (stored.proper _ task present).1
  · rw [← isPde] at isKernel
    refine ⟨?_, fun count vaddr pages allocated => ?_⟩
    · rw [isKernel]
      exact stored.account.kernelDir
    · obtain ⟨first, address, _⟩ := stored.account.alloc allocated
      refine .inl ?_
      simp only [isKernel, address, kernelVaddrOffset, kernelPageDir]
      omega
  · have owns : s.Owns (.directory s.current) page 1 := ⟨rfl, task, present, isOwn⟩
    have once := stored.account.ledger.held _ _ _ owns page (by omega) (by omega)
    have frame : s.cr3 / pageSize = page + 256 := by
      rw [isPde, isOwn]
      simp only [pageSize]
      omega
    refine ⟨?_, fun count vaddr pages allocated => ?_⟩
    · rw [frame, ← PageMaps.count_ne_zero, once]
      decide
    · obtain ⟨_, first, _, _, address, fresh, _⟩ := stored.account.synced.alloc allocated
      by_cases inside : first ≤ page ∧ page < first + count
      · rw [fresh page inside.1 inside.2] at once
        cases once
      · simp only [isPde, isOwn, address, kernelVaddrOffset, pageSize]
        omega

/-! ## Steps -/

theorem modify_tasks (s : Machine) (pid other : Nat) (change : Task → Task) :
    (s.modify pid change).tasks other =
      if other = pid then (s.tasks other).map change else s.tasks other := by
  unfold modify
  by_cases same : other = pid
  · subst same
    simp
  · simp [same]

@[simp] theorem getCurrent_eq_ok : s.getCurrent = .ok task ↔ s.tasks s.current = some task := by
  unfold getCurrent
  cases s.tasks s.current <;> simp

theorem calling_eq_ok : s.calling = .ok task ↔
    s.tasks s.current = some task ∧ task.state = .running ∧ task.staging = none := by
  unfold calling
  simp only [bind_eq_ok, getCurrent_eq_ok, check_eq_ok, pure_eq_ok]
  constructor
  · rintro ⟨found, present, _, holds, result⟩
    cases result
    exact ⟨present, holds⟩
  · rintro ⟨present, holds⟩
    exact ⟨task, present, (), holds, rfl⟩

theorem setCr3_eq_ok {pde : Nat} :
    s.setCr3 pde = .ok after ↔ pde % pageSize = 0 ∧ after = { s with cr3 := pde } := by
  unfold setCr3
  simp only [bind_eq_ok, check_eq_ok, pure_eq_ok]
  constructor
  · rintro ⟨_, aligned, result⟩
    cases result
    exact ⟨aligned, rfl⟩
  · rintro ⟨aligned, rfl⟩
    exact ⟨(), aligned, rfl⟩

/-- A change that leaves a task its pages and kills nobody. -/
structure Spares (change : Task → Task) : Prop where
  pde : ∀ task, (change task).pde = task.pde
  bits : ∀ task, (change task).bits = task.bits
  staging : ∀ task, (change task).staging = task.staging
  lives : ∀ task, task.state ≠ .dead → (change task).state ≠ .dead

theorem Spares.state (state : TaskState) (notDead : state ≠ .dead) :
    Spares fun task => { task with state := state } :=
  ⟨fun _ => rfl, fun _ => rfl, fun _ => rfl, fun _ _ => notDead⟩

theorem Spares.pause : Spares pause := by
  constructor <;> intro task <;> unfold Machine.pause <;> split <;> simp

/-- What a single task holds. -/
def TaskOwns (pid : Nat) (task : Task) : Owner → Nat → Nat → Prop
  | .directory other, first, count =>
      other = pid ∧ count = 1 ∧ task.pde = 0x100000 + first * 4096
  | .bits other, first, count =>
      other = pid ∧ count = 1 ∧ task.bits = 0xC0100000 + first * 4096
  | .stack other, first, count => other = pid ∧ count = 4 ∧
      ∃ argvk, task.staging = some (0xC0100000 + first * 4096, argvk)
  | .argvk other, first, count => other = pid ∧ count = 1 ∧
      ∃ stack, task.staging = some (stack, 0xC0100000 + first * 4096)
  | .cache _, _, _ => False

theorem TaskOwns.owns (present : s.tasks pid = some task)
    (holds : TaskOwns pid task owner first count) : s.Owns owner first count := by
  cases owner with
  | directory other =>
      obtain ⟨rfl, once, isPde⟩ := holds
      exact ⟨once, task, present, isPde⟩
  | bits other =>
      obtain ⟨rfl, once, isBits⟩ := holds
      exact ⟨once, task, present, isBits⟩
  | stack other =>
      obtain ⟨rfl, four, argvk, staged⟩ := holds
      exact ⟨four, task, argvk, present, staged⟩
  | argvk other =>
      obtain ⟨rfl, once, stack, staged⟩ := holds
      exact ⟨once, task, stack, present, staged⟩
  | cache slot => exact holds.elim

/-- What is held after one task has changed. -/
theorem owns_update {new : Task} (tasks : after.tasks = Function.update s.tasks pid (some new))
    (pipes : after.pipes = s.pipes) (owns : after.Owns owner first count) :
    s.Owns owner first count ∧ owner.task ≠ some pid ∨ TaskOwns pid new owner first count := by
  have before (other : Nat) (later : Task) (found : after.tasks other = some later) :
      s.tasks other = some later ∧ some other ≠ some pid ∨ other = pid ∧ later = new := by
    rw [tasks] at found
    by_cases same : other = pid
    · subst same
      rw [Function.update_self] at found
      exact .inr ⟨rfl, (Option.some.inj found).symm⟩
    · rw [Function.update_of_ne same] at found
      exact .inl ⟨found, by simpa using same⟩
  cases owner with
  | directory other =>
      obtain ⟨once, later, found, isPde⟩ := owns
      rcases before other later found with ⟨present, apart⟩ | ⟨rfl, rfl⟩
      · exact .inl ⟨⟨once, later, present, isPde⟩, apart⟩
      · exact .inr ⟨rfl, once, isPde⟩
  | bits other =>
      obtain ⟨once, later, found, isBits⟩ := owns
      rcases before other later found with ⟨present, apart⟩ | ⟨rfl, rfl⟩
      · exact .inl ⟨⟨once, later, present, isBits⟩, apart⟩
      · exact .inr ⟨rfl, once, isBits⟩
  | stack other =>
      obtain ⟨four, later, argvk, found, staged⟩ := owns
      rcases before other later found with ⟨present, apart⟩ | ⟨rfl, rfl⟩
      · exact .inl ⟨⟨four, later, argvk, present, staged⟩, apart⟩
      · exact .inr ⟨rfl, four, argvk, staged⟩
  | argvk other =>
      obtain ⟨once, later, stack, found, staged⟩ := owns
      rcases before other later found with ⟨present, apart⟩ | ⟨rfl, rfl⟩
      · exact .inl ⟨⟨once, later, stack, present, staged⟩, apart⟩
      · exact .inr ⟨rfl, once, stack, staged⟩
  | cache slot =>
      obtain ⟨once, held⟩ := owns
      exact .inl ⟨⟨once, pipes ▸ held⟩, by simp [Owner.task]⟩

/-- One task has changed. -/
theorem Stored.update (stored : s.Stored) {new : Task} {owns : Owner → Nat → Nat → Prop}
    (tasks : after.tasks = Function.update s.tasks pid (some new))
    (pipes : after.pipes = s.pipes) (account : Account owns after.pages)
    (kept : ∀ owner first count, s.Owns owner first count → owner.task ≠ some pid →
      owns owner first count)
    (holds : ∀ owner first count, TaskOwns pid new owner first count →
      owns owner first count)
    (proper : Proper pid new) (lives : new.state ≠ .dead) : after.Stored := by
  refine ⟨account.mono fun owner first count later => ?_, fun other task found => ?_, ?_⟩
  · rcases owns_update tasks pipes later with ⟨before, apart⟩ | isNew
    · exact kept owner first count before apart
    · exact holds owner first count isNew
  · rw [tasks] at found
    by_cases same : other = pid
    · subst same
      rw [Function.update_self] at found
      cases found
      exact ⟨proper, lives⟩
    · rw [Function.update_of_ne same] at found
      exact stored.proper other task found
  · rw [pipes]
    exact stored.caches

theorem modify_present (present : s.tasks pid = some task) (change : Task → Task) :
    (s.modify pid change).tasks = Function.update s.tasks pid (some (change task)) := by
  unfold modify
  rw [present, Option.map_some]

theorem Stored.modify (stored : s.Stored) (pid : Nat) {change : Task → Task}
    (spares : Spares change) : (s.modify pid change).Stored := by
  cases present : s.tasks pid with
  | none =>
      have same : s.modify pid change = s := by
        unfold Machine.modify
        rw [present, Option.map_none, Function.update_eq_self_iff.mpr present.symm]
      rw [same]
      exact stored
  | some task =>
      obtain ⟨⟨directory, bits, staging⟩, lives⟩ := stored.proper pid task present
      refine stored.update (modify_present present change) rfl stored.account
        (fun _ _ _ owns _ => owns) (fun owner first count holds => ?holds) ⟨?_, ?_, ?_⟩
        (spares.lives task lives)
      case holds =>
        refine TaskOwns.owns present ?_
        cases owner <;> simp only [TaskOwns, spares.pde, spares.bits, spares.staging] at holds ⊢ <;>
          exact holds
      · rw [spares.pde]
        exact directory
      · rw [spares.bits]
        exact bits
      · rw [spares.staging]
        exact staging

theorem InUse.modify (inUse : s.InUse) (pid : Nat) {change : Task → Task}
    (spares : Spares change) : (s.modify pid change).InUse := by
  obtain ⟨task, present, isPde⟩ := inUse
  change ∃ later, (s.modify pid change).tasks s.current = some later ∧ s.cr3 = later.pde
  rw [modify_tasks, present]
  split
  · exact ⟨change task, rfl, (spares.pde task).symm ▸ isPde⟩
  · exact ⟨task, rfl, isPde⟩

theorem Stored.switchTo (stored : s.Stored) (inUse : s.InUse)
    (switched : s.switchTo pid = .ok after) : after.Stored ∧ after.InUse := by
  unfold Machine.switchTo at switched
  rw [bind_eq_ok] at switched
  obtain ⟨_, _, switched⟩ := switched
  split at switched
  · cases switched
    exact ⟨stored, inUse⟩
  · simp only [bind_eq_ok, getCurrent_eq_ok, check_eq_ok] at switched
    obtain ⟨task, present, _, _, switched⟩ := switched
    obtain ⟨_, rfl⟩ := setCr3_eq_ok.mp switched
    have paused := stored.modify s.current Spares.pause
    have moved : { s.modify s.current Machine.pause with current := pid }.Stored :=
      ⟨paused.account, paused.proper, paused.caches⟩
    have running := moved.modify pid (Spares.state .running (by decide))
    refine ⟨⟨running.account, running.proper, running.caches⟩, { task with state := .running },
      ?_, rfl⟩
    change ({ s.modify s.current Machine.pause with current := pid }.modify pid _).tasks pid = _
    rw [modify_tasks, if_pos rfl]
    exact congrArg _ present

theorem getFreeTask_eq {page : Nat} (isFree : s.getFreeTask = .ok (pid, page, pages)) :
    s.tasks pid = none ∧ s.pages.allocKpage 1 = .ok (page, pages) := by
  unfold getFreeTask at isFree
  split at isFree
  · rename_i slot found
    simp only [bind_eq_ok, pure_eq_ok] at isFree
    obtain ⟨⟨vaddr, middle⟩, allocated, result⟩ := isFree
    cases result
    exact ⟨by simpa using List.find?_some found, allocated⟩
  · cases isFree

theorem Stored.fork (stored : s.Stored) {pwdLen vmapGrowths pwdGrowths : Nat}
    (forked : s.fork pwdLen vmapGrowths pwdGrowths = .ok after) :
    after.Stored ∧ after.InUse := by
  unfold Machine.fork at forked
  simp only [bind_eq_ok, check_eq_ok, calling_eq_ok, setCr3_eq_ok, pure_eq_ok] at forked
  obtain ⟨task, ⟨present, _, unstaged⟩, _, _, ⟨pid, page, first⟩, isFree, ⟨pde, second⟩, directory,
    _, ⟨_, rfl⟩, third, grown, ⟨bits, fourth⟩, isBits, last, grownLast, forked⟩ := forked
  cases forked
  obtain ⟨empty, allocated⟩ := getFreeTask_eq isFree
  obtain ⟨_, _, heldFirst⟩ := stored.account.alloc allocated
  have accountFirst := heldFirst (.cache 0) s.Owns fun _ _ _ => .inl
  obtain ⟨dirPage, isPde, heldDirectory⟩ := accountFirst.alloc directory
  have accountDirectory := heldDirectory (.directory pid)
    (fun owner start count => s.Owns owner start count ∨
      owner = .directory pid ∧ start = dirPage ∧ count = 1) fun _ _ _ => id
  obtain ⟨bitsPage, isBitsPage, heldBits⟩ := (accountDirectory.grow grown).alloc isBits
  have accountBits := heldBits (.bits pid)
    (fun owner start count => (s.Owns owner start count ∨
      owner = .directory pid ∧ start = dirPage ∧ count = 1) ∨
        owner = .bits pid ∧ start = bitsPage ∧ count = 1) fun _ _ _ => id
  have isPhysical : pde - kernelVaddrOffset = 0x100000 + dirPage * 4096 := by
    rw [isPde]
    simp only [kernelVaddrOffset]
    omega
  have apart : s.current ≠ pid := by
    rintro same
    rw [← same, present] at empty
    cases empty
  refine ⟨stored.update rfl rfl (accountBits.grow grownLast)
    (fun _ _ _ owns _ => .inl (.inl owns)) (fun owner start count holds => ?holds)
    ⟨.inr ⟨dirPage, isPhysical⟩, fun _ => ⟨bitsPage, isBitsPage⟩, fun stack argvk staged => ?_⟩
    (by simp), task, ?_, rfl⟩
  case holds =>
    cases owner with
    | directory other =>
        obtain ⟨rfl, rfl, isDirectory⟩ := holds
        dsimp only at isDirectory
        exact .inl (.inr ⟨rfl, by omega, rfl⟩)
    | bits other =>
        obtain ⟨rfl, rfl, isLater⟩ := holds
        dsimp only at isLater
        exact .inr ⟨rfl, by omega, rfl⟩
    | stack other =>
        obtain ⟨_, _, argvk, staged⟩ := holds
        rw [unstaged] at staged
        cases staged
    | argvk other =>
        obtain ⟨_, _, stack, staged⟩ := holds
        rw [unstaged] at staged
        cases staged
    | cache slot => exact holds.elim
  · rw [unstaged] at staged
    cases staged
  · dsimp only
    rw [Function.update_of_ne apart]
    exact present

/-- The first task becomes a user process. -/
theorem Stored.enterUser (stored : s.Stored) (entered : s.enterUser growths = .ok after) :
    after.Stored ∧ after.InUse := by
  unfold Machine.enterUser at entered
  simp only [bind_eq_ok, check_eq_ok, calling_eq_ok] at entered
  obtain ⟨task, ⟨present, _, unstaged⟩, _, isInit, first, grown, ⟨bits, second⟩, isBits,
    ⟨pde, third⟩, directory, entered⟩ := entered
  obtain ⟨_, rfl⟩ := setCr3_eq_ok.mp entered
  obtain ⟨bitsPage, isBitsPage, heldBits⟩ := (stored.account.grow grown).alloc isBits
  have accountBits := heldBits (.bits s.current)
    (fun owner start count => s.Owns owner start count ∨
      owner = .bits s.current ∧ start = bitsPage ∧ count = 1) fun _ _ _ => id
  obtain ⟨dirPage, isPde, heldDirectory⟩ := accountBits.alloc directory
  have accountDirectory := heldDirectory (.directory s.current)
    (fun owner start count => (s.Owns owner start count ∨
      owner = .bits s.current ∧ start = bitsPage ∧ count = 1) ∨
        owner = .directory s.current ∧ start = dirPage ∧ count = 1) fun _ _ _ => id
  have isPhysical : pde - kernelVaddrOffset = 0x100000 + dirPage * 4096 := by
    rw [isPde]
    simp only [kernelVaddrOffset]
    omega
  have tasks := modify_present (s := { s with pages := third }) present fun task =>
    { task with bits := bits, pde := pde - kernelVaddrOffset, uid := userRing3 }
  refine ⟨stored.update tasks rfl accountDirectory
    (fun _ _ _ owns _ => .inl (.inl owns)) (fun owner start count holds => ?holds)
    ⟨.inr ⟨dirPage, isPhysical⟩, fun _ => ⟨bitsPage, isBitsPage⟩, fun stack argvk staged => ?_⟩
    (stored.proper _ task present).2, ?_⟩
  case holds =>
    cases owner with
    | directory other =>
        obtain ⟨rfl, rfl, isDirectory⟩ := holds
        dsimp only at isDirectory
        exact .inr ⟨rfl, by omega, rfl⟩
    | bits other =>
        obtain ⟨rfl, rfl, isLater⟩ := holds
        dsimp only at isLater
        exact .inl (.inr ⟨rfl, by omega, rfl⟩)
    | stack other =>
        obtain ⟨_, _, argvk, staged⟩ := holds
        rw [unstaged] at staged
        cases staged
    | argvk other =>
        obtain ⟨_, _, stack, staged⟩ := holds
        rw [unstaged] at staged
        cases staged
    | cache slot => exact holds.elim
  · rw [unstaged] at staged
    cases staged
  · refine ⟨{ task with bits := bits, pde := pde - kernelVaddrOffset, uid := userRing3 }, ?_, rfl⟩
    exact (congrFun tasks s.current).trans (Function.update_self ..)

/-- `sys_execve` takes pages for the arguments. -/
theorem Stored.stage (stored : s.Stored) (inUse : s.InUse) (staged : s.stage = .ok after) :
    after.Stored ∧ after.InUse := by
  unfold Machine.stage at staged
  simp only [bind_eq_ok, calling_eq_ok, pure_eq_ok] at staged
  obtain ⟨task, ⟨present, _, _⟩, ⟨stack, first⟩, isStack, ⟨argvk, second⟩, isArgvk, staged⟩ :=
    staged
  cases staged
  obtain ⟨stackPage, isStackPage, heldStack⟩ := stored.account.alloc isStack
  have accountStack := heldStack (.stack s.current)
    (fun owner start count => s.Owns owner start count ∨
      owner = .stack s.current ∧ start = stackPage ∧ count = 4) fun _ _ _ => id
  obtain ⟨argvkPage, isArgvkPage, heldArgvk⟩ := accountStack.alloc isArgvk
  have accountArgvk := heldArgvk (.argvk s.current)
    (fun owner start count => (s.Owns owner start count ∨
      owner = .stack s.current ∧ start = stackPage ∧ count = 4) ∨
        owner = .argvk s.current ∧ start = argvkPage ∧ count = 1) fun _ _ _ => id
  have tasks := modify_present (s := { s with pages := second }) present fun task =>
    { task with staging := some (stack, argvk) }
  obtain ⟨⟨directory, bits, _⟩, lives⟩ := stored.proper _ task present
  refine ⟨stored.update tasks rfl accountArgvk
    (fun _ _ _ owns _ => .inl (.inl owns)) (fun owner start count holds => ?holds)
    ⟨directory, bits, fun place pointers same => ?_⟩ lives, ?_⟩
  case holds =>
    cases owner with
    | directory other => exact .inl (.inl (TaskOwns.owns present holds))
    | bits other => exact .inl (.inl (TaskOwns.owns present holds))
    | stack other =>
        obtain ⟨rfl, rfl, pointers, same⟩ := holds
        obtain ⟨isPlace, _⟩ := Prod.mk.inj (Option.some.inj same)
        exact .inl (.inr ⟨rfl, by omega, rfl⟩)
    | argvk other =>
        obtain ⟨rfl, rfl, place, same⟩ := holds
        obtain ⟨_, isPlace⟩ := Prod.mk.inj (Option.some.inj same)
        exact .inr ⟨rfl, by omega, rfl⟩
    | cache slot => exact holds.elim
  · cases same
    exact ⟨⟨stackPage, isStackPage⟩, argvkPage, isArgvkPage⟩
  · obtain ⟨current, found, isPde⟩ := inUse
    rw [present] at found
    cases found
    exact ⟨_, (congrFun tasks s.current).trans (Function.update_self ..), isPde⟩

/-- `sys_execve` gives the pages back. -/
theorem Stored.unstage (stored : s.Stored) (unstaged : s.unstage = .ok after) :
    after.Stored ∧ after.InUse := by
  unfold Machine.unstage at unstaged
  simp only [bind_eq_ok, getCurrent_eq_ok] at unstaged
  obtain ⟨task, present, unstaged⟩ := unstaged
  obtain ⟨⟨directory, bits, pages⟩, lives⟩ := stored.proper _ task present
  cases staging : task.staging with
  | none =>
      rw [staging] at unstaged
      cases unstaged
  | some staged =>
      obtain ⟨stack, argvk⟩ := staged
      obtain ⟨⟨stackPage, rfl⟩, argvkPage, rfl⟩ := pages stack argvk staging
      rw [staging] at unstaged
      simp only [bind_eq_ok, setCr3_eq_ok, pure_eq_ok] at unstaged
      obtain ⟨_, ⟨_, rfl⟩, first, isFirst, second, isSecond, unstaged⟩ := unstaged
      cases unstaged
      have ownsArgvk : s.Owns (.argvk s.current) argvkPage 1 := ⟨rfl, task, _, present, staging⟩
      have ownsStack : s.Owns (.stack s.current) stackPage 4 := ⟨rfl, task, _, present, staging⟩
      obtain ⟨accountFirst, _⟩ := stored.account.free
        (fun owner start count => s.Owns owner start count ∧ owner ≠ .argvk s.current)
        ownsArgvk isFirst fun _ _ _ => id
      obtain ⟨accountSecond, _⟩ := accountFirst.free
        (fun owner start count => (s.Owns owner start count ∧
          owner ≠ .argvk s.current) ∧ owner ≠ .stack s.current)
        ⟨ownsStack, by simp⟩ isSecond fun _ _ _ => id
      have tasks := modify_present (s := { s with pages := second, cr3 := task.pde }) present
        fun task => { task with staging := none }
      refine ⟨stored.update tasks rfl accountSecond (fun owner start count owns apart => ?kept)
        (fun owner start count holds => ?holds) ⟨directory, bits, by simp⟩ lives, ?_⟩
      case kept =>
        refine ⟨⟨owns, ?_⟩, ?_⟩ <;> rintro rfl <;> exact apart rfl
      case holds =>
        cases owner with
        | directory other => exact ⟨⟨TaskOwns.owns present holds, by simp⟩, by simp⟩
        | bits other => exact ⟨⟨TaskOwns.owns present holds, by simp⟩, by simp⟩
        | stack other =>
            obtain ⟨_, _, _, same⟩ := holds
            cases same
        | argvk other =>
            obtain ⟨_, _, _, same⟩ := holds
            cases same
        | cache slot => exact holds.elim
      exact ⟨_, (congrFun tasks s.current).trans (Function.update_self ..), rfl⟩

theorem owns_caches {caches : Nat → Option Nat}
    (owns : { s with pages := pages, pipes := caches }.Owns owner first count) :
    s.Owns owner first count ∧ (∀ slot, owner ≠ .cache slot) ∨
      ∃ slot, owner = .cache slot ∧ count = 1 ∧
        caches slot = some (0xC0100000 + first * 4096) := by
  cases owner with
  | cache slot => exact .inr ⟨slot, rfl, owns⟩
  | _ => exact .inl ⟨owns, by simp⟩

theorem Stored.getPipe (stored : s.Stored) (inUse : s.InUse) {slot : Nat}
    (got : s.getPipe slot growths = .ok after) : after.Stored ∧ after.InUse := by
  unfold Machine.getPipe at got
  simp only [bind_eq_ok, calling_eq_ok, check_eq_ok, pure_eq_ok] at got
  obtain ⟨_, _, _, _, first, grown, ⟨cache, second⟩, isCache, got⟩ := got
  cases got
  obtain ⟨page, isPage, held⟩ := (stored.account.grow grown).alloc isCache
  refine ⟨⟨held (.cache slot) _ fun owner start count owns => ?account, stored.proper, ?caches⟩,
    inUse⟩
  case account =>
    rcases owns_caches owns with ⟨before, _⟩ | ⟨other, rfl, once, isOther⟩
    · exact .inl before
    · by_cases same : other = slot
      · subst same
        rw [Function.update_self] at isOther
        have address := Option.some.inj isOther
        exact .inr ⟨rfl, by omega, once⟩
      · rw [Function.update_of_ne same] at isOther
        exact .inl ⟨once, isOther⟩
  case caches =>
    intro other vaddr isOther
    dsimp only at isOther
    by_cases same : other = slot
    · subst same
      rw [Function.update_self] at isOther
      exact ⟨page, (Option.some.inj isOther).symm.trans isPage⟩
    · rw [Function.update_of_ne same] at isOther
      exact stored.caches other vaddr isOther

theorem Stored.putPipe (stored : s.Stored) (inUse : s.InUse) {slot : Nat}
    (put : s.putPipe slot = .ok after) : after.Stored ∧ after.InUse := by
  unfold Machine.putPipe at put
  split at put
  · cases put
  · rename_i cache isCache
    simp only [bind_eq_ok, pure_eq_ok] at put
    obtain ⟨pages, freed, put⟩ := put
    cases put
    obtain ⟨page, rfl⟩ := stored.caches slot cache isCache
    have owns : s.Owns (.cache slot) page 1 := ⟨rfl, isCache⟩
    obtain ⟨account, _⟩ := stored.account.free _ owns freed fun owner start count later =>
      show s.Owns owner start count ∧ owner ≠ .cache slot from later
    have other {another : Nat} {vaddr : Nat}
        (isOther : Function.update s.pipes slot none another = some vaddr) :
        another ≠ slot ∧ s.pipes another = some vaddr := by
      by_cases same : another = slot
      · subst same
        rw [Function.update_self] at isOther
        cases isOther
      · rw [Function.update_of_ne same] at isOther
        exact ⟨same, isOther⟩
    refine ⟨⟨account.mono fun owner start count owns => ?account, stored.proper,
      fun another vaddr isOther => stored.caches another vaddr (other isOther).2⟩, inUse⟩
    rcases owns_caches owns with ⟨before, apart⟩ | ⟨another, rfl, once, isOther⟩
    · exact ⟨before, apart slot⟩
    · obtain ⟨different, before⟩ := other isOther
      exact ⟨⟨once, before⟩, by simpa using different⟩

/-- A step that is not an exit. -/
def KeepsDirectory (_ : Machine) (label : Label) : Prop :=
  label ≠ .exit

theorem Stored.step (stored : s.Stored) (inUse : s.InUse) {label : Label}
    (keeps : s.KeepsDirectory label) (taken : s.step label = .ok after) :
    after.Stored ∧ after.InUse := by
  cases label with
  | switchTo pid => exact stored.switchTo inUse taken
  | setState pid state =>
      rw [Machine.step] at taken
      split at taken
      · cases taken
      · rename_i notDead
        cases taken
        have spares := Spares.state state notDead
        exact ⟨stored.modify pid spares, inUse.modify pid spares⟩
  | kmalloc size growths =>
      rw [Machine.step] at taken
      simp only [bind_eq_ok, pure_eq_ok] at taken
      obtain ⟨pages, grown, taken⟩ := taken
      cases taken
      exact ⟨⟨stored.account.grow grown, stored.proper, stored.caches⟩, inUse⟩
  | fork pwdLen vmapGrowths pwdGrowths => exact stored.fork taken
  | enterUser growths => exact stored.enterUser taken
  | stage => exact stored.stage inUse taken
  | unstage => exact stored.unstage taken
  | getPipe slot growths => exact stored.getPipe inUse taken
  | putPipe slot => exact stored.putPipe inUse taken
  | exit => exact absurd rfl keeps
  | reap pid =>
      rw [Machine.step, Machine.reap] at taken
      simp only [bind_eq_ok] at taken
      obtain ⟨_, _, taken⟩ := taken
      split at taken
      · cases taken
      · rename_i child present
        rw [if_neg (stored.proper pid child present).2] at taken
        cases taken

/-- An exit frees the directory that the processor uses. -/
theorem Stored.exit (stored : s.Stored) (inUse : s.InUse) (exited : s.exit = .ok after) :
    ¬after.Active := by
  unfold Machine.exit at exited
  simp only [bind_eq_ok, calling_eq_ok, check_eq_ok, pure_eq_ok] at exited
  obtain ⟨task, ⟨present, _⟩, _, notRoot, first, isFirst, second, isSecond, exited⟩ := exited
  have isUser : 2 ≤ s.current := by omega
  cases exited
  obtain ⟨current, found, isPde⟩ := inUse
  rw [present] at found
  cases found
  obtain ⟨⟨directory, hasBits, _⟩, _⟩ := stored.proper _ task present
  obtain ⟨page, isPage⟩ := directory.resolve_left fun kernel => Nat.not_lt.mpr isUser kernel.2
  obtain ⟨bitsPage, isBits⟩ := hasBits isUser
  have ownsDirectory : s.Owns (.directory s.current) page 1 := ⟨rfl, task, present, isPage⟩
  have ownsBits : s.Owns (.bits s.current) bitsPage 1 := ⟨rfl, task, present, isBits⟩
  have address : task.pde + kernelVaddrOffset = 0xC0100000 + page * 4096 := by
    rw [isPage]
    simp only [kernelVaddrOffset]
    omega
  rw [address] at isFirst
  rw [isBits] at isSecond
  obtain ⟨accountFirst, _, freed⟩ := stored.account.free
    (fun owner start count => s.Owns owner start count ∧ owner ≠ .directory s.current)
    ownsDirectory isFirst fun _ _ _ => id
  have ownsStill : s.Owns (.bits s.current) bitsPage 1 ∧
      Owner.bits s.current ≠ .directory s.current := ⟨ownsBits, by simp⟩
  obtain ⟨_, outside, inside⟩ := accountFirst.free (fun _ _ _ => False) ownsStill isSecond
    fun _ _ _ => False.elim
  intro active
  have frame : s.cr3 / pageSize = page + 256 := by
    rw [isPde, isPage]
    simp only [pageSize]
    omega
  have referenced : second.memMap (s.cr3 / pageSize) ≠ 0 := active.allocated
  rw [frame, ← PageMaps.count_ne_zero] at referenced
  by_cases same : page = bitsPage
  · exact referenced (inside page (by omega) (by omega))
  · exact referenced ((outside page (by omega)).trans (freed page (by omega) (by omega)))

/-! ## Runs -/

/-- `memory_map_init` marks the pages that it counts. -/
theorem memoryMapInit_synced {totalPages : Nat} (enough : 0 < totalPages)
    (fits : totalPages ≤ 2 ^ 20) (initial : memoryMapInit totalPages = .ok pages) :
    pages.Synced ∧ pages.memMap 0 ≠ 0 := by
  let mapPages := (totalPages + pageSize - 1) / pageSize
  have positive : 0 < mapPages := by
    simp only [mapPages, pageSize]
    omega
  have small : mapPages ≤ 256 := by
    simp only [mapPages, pageSize]
    omega
  have clear (start : Nat) : kernelMap.ClearRun ⟨fun _ => 0⟩ start mapPages := by
    intro index _ _
    simp [Bitmap.bit, Bitmap.byteBit]
  have counts (frame : Nat) : (Memory.fill ⟨fun _ => 0⟩ 0 (memoryBase / pageSize + mapPages) used)
      frame = if frame < 256 + mapPages then 100 else 0 := by
    unfold Memory.fill Memory.store
    simp only [memoryBase, pageSize, Nat.zero_le, true_and, Nat.zero_add]
  unfold memoryMapInit at initial
  simp only [bind_eq_ok] at initial
  obtain ⟨found, scanned, initial⟩ := initial
  rcases kernelMap.scan_spec ⟨fun _ => 0⟩ positive with
    ⟨_, noRun⟩ | ⟨start, bits, isFound, _, _, least, bitAfter, _⟩
  · refine absurd (clear 0) (noRun 0 ?_)
    simp only [kernelMap]
    omega
  · rw [isFound] at scanned
    cases scanned
    cases initial
    have isStart : start = 0 := by
      by_contra notFirst
      exact least 0 (by omega) (clear 0)
    refine ⟨fun page bounded => ?_, ?_⟩
    · rw [PageMaps.count_ne_zero]
      change kernelMap.bit bits page = true ↔ (Memory.fill ⟨fun _ => 0⟩ 0
        (memoryBase / pageSize + mapPages) used) (page + 256) ≠ 0
      rw [bitAfter page, counts, isStart]
      by_cases inMap : page < mapPages
      · rw [if_pos (by omega)]
        simp [inMap]
      · rw [if_neg (by omega)]
        simp [inMap, Bitmap.bit, Bitmap.byteBit]
    · change (Memory.fill ⟨fun _ => 0⟩ 0 (memoryBase / pageSize + mapPages) used) 0 ≠ 0
      rw [counts, if_pos (by omega)]
      decide

theorem Stored.boot {totalPages idleGrowths initGrowths : Nat}
    (enough : 0 < totalPages) (fits : totalPages ≤ 2 ^ 20)
    (booted : boot totalPages idleGrowths initGrowths = .ok s) : s.Stored ∧ s.InUse := by
  unfold Machine.boot at booted
  simp only [bind_eq_ok, pure_eq_ok] at booted
  obtain ⟨first, initial, ⟨idle, second⟩, isIdle, third, grown, ⟨init, fourth⟩, isInit, fifth,
    grownInit, ⟨kmap, sixth⟩, isKmap, ⟨buf, seventh⟩, isBuf, last, freed, booted⟩ := booted
  cases booted
  obtain ⟨synced, kernelDir⟩ := memoryMapInit_synced enough fits initial
  have account : Account (fun _ _ _ => False) first :=
    ⟨synced, ⟨fun _ _ _ => False.elim, fun _ _ _ => False.elim, fun _ _ _ _ _ _ => False.elim⟩,
      kernelDir⟩
  obtain ⟨_, _, heldIdle⟩ := account.alloc isIdle
  have accountIdle := (heldIdle (.cache 0) (fun _ _ _ => False) fun _ _ _ => .inl).grow grown
  obtain ⟨_, _, heldInit⟩ := accountIdle.alloc isInit
  have accountInit := (heldInit (.cache 0) (fun _ _ _ => False) fun _ _ _ => .inl).grow grownInit
  obtain ⟨_, _, heldKmap⟩ := accountInit.alloc isKmap
  have accountKmap := heldKmap (.cache 0) (fun _ _ _ => False) fun _ _ _ => .inl
  -- The page of `ide_ctrl_init` is held for a moment.
  obtain ⟨page, rfl, heldBuf⟩ := accountKmap.alloc isBuf
  have accountBuf := heldBuf (.cache 0)
    (fun owner start count => owner = .cache 0 ∧ start = page ∧ count = 1) fun _ _ _ => .inr
  obtain ⟨accountLast, _⟩ := accountBuf.free (fun _ _ _ => False) ⟨rfl, rfl, rfl⟩ freed
    fun _ _ _ => False.elim
  have setup (pid : Nat) (task : Task)
      (present : (if pid = 0 then some (setupTask idle)
        else if pid = 1 then some (setupTask init) else none) = some task) :
      pid < 2 ∧ ∃ page, task = setupTask page := by
    split at present
    · cases present
      exact ⟨by omega, idle, rfl⟩
    · split at present
      · cases present
        exact ⟨by omega, init, rfl⟩
      · cases present
  refine ⟨⟨accountLast.mono fun owner start count owns => ?account, fun pid task present => ?proper,
    fun slot cache held => by cases held⟩, setupTask idle, rfl, rfl⟩
  case account =>
    cases owner with
    | directory pid =>
        obtain ⟨_, task, present, isPde⟩ := owns
        obtain ⟨_, page, rfl⟩ := setup pid task present
        simp only [setupTask, kernelPageDir] at isPde
        omega
    | bits pid =>
        obtain ⟨_, task, present, isBits⟩ := owns
        obtain ⟨_, page, rfl⟩ := setup pid task present
        simp only [setupTask] at isBits
        omega
    | stack pid =>
        obtain ⟨_, task, argvk, present, staged⟩ := owns
        obtain ⟨_, page, rfl⟩ := setup pid task present
        cases staged
    | argvk pid =>
        obtain ⟨_, task, stack, present, staged⟩ := owns
        obtain ⟨_, page, rfl⟩ := setup pid task present
        cases staged
    | cache slot => cases owns.2
  case proper =>
    obtain ⟨small, page, rfl⟩ := setup pid task present
    refine ⟨⟨.inl ⟨rfl, small⟩, fun large => absurd small (Nat.not_lt.mpr large), ?_⟩, ?_⟩
    · rintro stack argvk ⟨⟩
    · simp [setupTask]

/-- A run keeps the directory in use exactly as long as no task exits. -/
theorem directoryActive_iff_keepsDirectory
    (start final : Machine) (trace : List (Machine × Label)) (initial : system.initial start)
    (path : system.Path start trace final) :
    System.Visits Active trace final ↔ System.Obeys KeepsDirectory trace := by
  obtain ⟨totalPages, idleGrowths, initGrowths, enough, fits, booted⟩ := initial
  have positive : 0 < totalPages := by
    simp only [kernelMemSize, pageSize] at enough
    omega
  refine path.visits_iff_obeys (fun s => s.Stored ∧ s.InUse) (Stored.boot positive fits booted)
    (fun _ _ _ holds keeps taken => holds.1.step holds.2 keeps taken)
    (fun _ holds => holds.1.active holds.2) fun before label after holds exits taken => ?_
  have isExit : label = .exit := of_not_not exits
  subst isExit
  exact holds.1.exit holds.2 taken

/-- Init becomes a user process and forks, and the child runs. -/
def childRuns : List Label :=
  [.switchTo 1, .enterUser 0, .fork 1 0 0, .switchTo 2]

/-- The child exits, and the processor uses a directory that is free. -/
theorem directoryActive_fails : ¬∀ s, system.Reachable s → s.Active := by
  intro always
  have ends : System.endsIn
      (fun final : Machine => decide (final.pages.memMap (final.cr3 / pageSize) = 0))
      (boot 4096 1 0 >>= fun s => System.run Machine.step s (childRuns ++ [.exit])) = true := by
    decide +kernel
  cases booted : boot 4096 1 0 with
  | error fault =>
      rw [booted] at ends
      cases ends
  | ok s =>
      rw [booted] at ends
      obtain ⟨final, reached, isFree⟩ := System.ReachableWithin.extend_run system
        (fun _ _ => True) Machine.step (fun _ _ _ taken => ⟨trivial, taken⟩)
        (childRuns ++ [.exit]) _ (.initial ⟨4096, 1, 0, by decide, by decide, booted⟩) ends
      exact (always final reached).allocated (of_decide_eq_true isFree)

/-- A step that is not an exit. -/
def stepOn (s : Machine) (label : Label) : Except Fault Machine :=
  if label = .exit then .error .misuse else s.step label

/-- The child stages the arguments of `sys_execve`, and they are given back. -/
theorem directoryActive_iff_keepsDirectory_staged : ∃ start final trace,
    system.initial start ∧ system.Path start trace final ∧ 2 ≤ final.current ∧
      System.Visits Active trace final := by
  have ends : System.endsIn (fun final : Machine => decide (2 ≤ final.current))
      (boot 4096 1 0 >>= fun s => System.run stepOn s (childRuns ++ [.stage, .unstage])) =
        true := by
    decide +kernel
  cases booted : boot 4096 1 0 with
  | error fault =>
      rw [booted] at ends
      cases ends
  | ok start =>
      rw [booted] at ends
      have initial : system.initial start := ⟨4096, 1, 0, by decide, by decide, booted⟩
      obtain ⟨trace, final, path, keeps, isChild⟩ := System.Path.of_run_within system
        KeepsDirectory stepOn (fun before label after taken => by
          unfold stepOn at taken
          split at taken
          · cases taken
          · rename_i notExit
            exact ⟨notExit, taken⟩) start (childRuns ++ [.stage, .unstage]) _ ends
      exact ⟨start, final, trace, initial, path, of_decide_eq_true isChild,
        (directoryActive_iff_keepsDirectory start final trace initial path).mpr keeps⟩

end Machine
end Paging
end LightOS
