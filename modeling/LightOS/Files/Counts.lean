import LightOS.Files.Table
import LightOS.Foundation.Slots

/-!
# Counts of open files

The count of an entry of `file_table` is the number of slots that point to it.  Between
the two halves of `sys_close` a slot still points to an entry that it has given up, so
the invariant counts the slots that are live.
-/

namespace LightOS

open Finset
open Sched (taskNr)

namespace OpenFiles

variable {next : Then} {fds : List Nat} {child : Nat}

/-- The slots that point to an entry. -/
def slots (s : OpenFiles) (index : Nat) : Finset (Nat × Nat) :=
  (range taskNr ×ˢ range taskFileNr).filter fun slot =>
    s.files slot.1 slot.2 = some index

/-- A task has given back the reference of a slot to an entry and is about to clear
the slot. -/
def clears (call : CallPoint) (row : Nat → Option Nat) (index : Nat) : Bool :=
  match call with
  | .clearing fd _ _ => row fd = some index
  | _ => false

/-- The tasks that are about to clear a slot that points to an entry. -/
def clearers (s : OpenFiles) (index : Nat) : Finset Nat :=
  (range taskNr).filter fun pid => clears (s.call pid) (s.files pid) index

/-- No task is in `sys_close`, between `put_file` and `task_put_fd`. -/
def Settled (s : OpenFiles) : Prop :=
  ∀ pid fd fds next, s.call pid ≠ .clearing fd fds next

/-- Every inode that was opened has been released, once and before the next one was
opened. -/
inductive Paired : List FileEvent → Prop
  | nil : Paired []
  | cons {events : List FileEvent} (inode : Nat) :
      Paired events → Paired (.released inode :: .opened inode :: events)

/-- The inode of an entry is released once for every opening that is over, and not yet
for an opening that lasts. -/
def ReleasedOnce (file : File) (events : List FileEvent) : Prop :=
  if file.count = 0 then
    Paired events
  else
    ∃ earlier, events = .opened file.inode :: earlier ∧ Paired earlier

/-- The count of every entry is the number of slots that point to it, and its inode is
released when the last of them is cleared. -/
structure Counted (s : OpenFiles) : Prop where
  count : ∀ index, (s.fileTable index).count + (s.clearers index).card =
    (s.slots index).card
  settled : s.Settled → ∀ index, (s.fileTable index).count = (s.slots index).card
  released : ∀ index, ReleasedOnce (s.fileTable index) (s.events index)

/-- The slots of a task, without the one that `sys_close` has given up. -/
def liveRow (call : CallPoint) (row : Nat → Option Nat) : Nat → Option Nat :=
  match call with
  | .clearing fd _ _ => Function.update row fd none
  | _ => row

/-- The live slots. -/
def live (s : OpenFiles) (pid : Nat) : Nat → Option Nat :=
  liveRow (s.call pid) (s.files pid)

/-- The descriptors that may be open, of a task that has none or will have none. -/
def leftover : CallPoint → Option (List Nat)
  | .absent => some []
  | .exited => some []
  | .closing fds .dead => some fds
  | .clearing fd fds .dead => some (fd :: fds)
  | _ => none

/-- A task at some point of a call may have these slots. -/
structure Fits (call : CallPoint) (row : Nat → Option Nat) : Prop where
  leaving : ∀ fds, leftover call = some fds →
    ∀ fd < taskFileNr, row fd ≠ none → fd ∈ fds
  clearing : ∀ fd fds next, call = .clearing fd fds next →
    fd < taskFileNr ∧ row fd ≠ none

/-- The counts are the numbers of live slots. -/
structure Tallied (s : OpenFiles) : Prop where
  count : ∀ index, (s.fileTable index).count =
    pointers (range taskNr) (range taskFileNr) s.live index
  fits : ∀ pid, Fits (s.call pid) (s.files pid)
  inTable : ∀ pid, taskNr ≤ pid → s.call pid = .absent

/-- The counts are the numbers of live slots, and the inodes have been released as often
as the entries fell free. -/
structure Held (s : OpenFiles) : Prop extends Tallied s where
  released : ∀ index, ReleasedOnce (s.fileTable index) (s.events index)

variable {s after : OpenFiles} {pid fd index : Nat}

/-! ## From the invariant to the counts -/

/-- The slots of one task that point to an entry are its live ones and the one that it
is about to clear. -/
theorem rowPointers_live {call : CallPoint} {row : Nat → Option Nat}
    (fits : Fits call row) (index : Nat) :
    rowPointers (range taskFileNr) row index =
      rowPointers (range taskFileNr) (liveRow call row) index +
        if clears call row index then 1 else 0 := by
  cases call with
  | clearing fd fds next =>
      obtain ⟨inside, full⟩ := fits.clearing fd fds next rfl
      obtain ⟨pointed, points⟩ := Option.ne_none_iff_exists'.mp full
      rw [rowPointers_clear (mem_range.mpr inside) points]
      simp [liveRow, clears, points]
  | _ => simp [liveRow, clears]

theorem Held.counted (held : s.Held) : s.Counted := by
  have count (index : Nat) :
      (s.fileTable index).count + (s.clearers index).card = (s.slots index).card := by
    unfold slots clearers
    rw [card_slots, held.count index, card_filter]
    unfold pointers
    rw [← sum_add_distrib]
    exact sum_congr rfl fun pid _ => (rowPointers_live (held.fits pid) index).symm
  refine ⟨count, fun settled index => ?_, held.released⟩
  have none : s.clearers index = ∅ := by
    apply filter_eq_empty_iff.mpr
    intro pid _
    cases isCall : s.call pid with
    | clearing fd fds next => exact absurd isCall (settled pid fd fds next)
    | _ => simp [clears]
  have counted := count index
  rw [none, card_empty, Nat.add_zero] at counted
  exact counted

/-! ## One step -/

/-- There are few slots, so no count comes near the width of its word. -/
theorem Tallied.count_le (tallied : s.Tallied) (index : Nat) :
    (s.fileTable index).count ≤ 1024 := by
  rw [tallied.count index]
  exact pointers_le.trans (by simp [taskNr, taskFileNr])

/-- A task that is there has a slot in `task_list`. -/
theorem Held.lt_taskNr (held : s.Held) (present : s.call pid ≠ .absent) :
    pid < taskNr := by
  by_contra outside
  exact present (held.inTable pid (by omega))

/-- A step that changes the slots and the call of one task keeps the tally, when it
changes the counts by as much as the live slots of the task. -/
theorem Tallied.change (tallied : s.Tallied) (call : CallPoint) (row : Nat → Option Nat)
    (inTable : pid < taskNr) (files : after.files = Function.update s.files pid row)
    (isCall : after.call = Function.update s.call pid call)
    (counts : ∀ index, (after.fileTable index).count +
        rowPointers (range taskFileNr) (s.live pid) index =
      (s.fileTable index).count +
        rowPointers (range taskFileNr) (liveRow call row) index)
    (fits : Fits call row) : after.Tallied := by
  have isLive : after.live = Function.update s.live pid (liveRow call row) := by
    funext other
    unfold live
    by_cases same : other = pid
    · rw [files, isCall, same]
      simp
    · rw [files, isCall]
      simp [same]
  refine
    { count := fun index => ?count
      fits := fun other => ?fits
      inTable := fun other outside => ?inTable }
  case count =>
    rw [isLive]
    apply Nat.add_right_cancel (m := rowPointers (range taskFileNr) (s.live pid) index)
    rw [pointers_update (mem_range.mpr inTable), ← tallied.count index]
    exact counts index
  case fits =>
    rw [files, isCall]
    by_cases same : other = pid
    · rw [same, Function.update_self, Function.update_self]
      exact fits
    · rw [Function.update_of_ne same, Function.update_of_ne same]
      exact tallied.fits other
  case inTable =>
    rw [isCall, Function.update_of_ne (by omega)]
    exact tallied.inTable other outside

theorem Held.change (held : s.Held) (call : CallPoint) (row : Nat → Option Nat)
    (inTable : pid < taskNr) (files : after.files = Function.update s.files pid row)
    (isCall : after.call = Function.update s.call pid call)
    (counts : ∀ index, (after.fileTable index).count +
        rowPointers (range taskFileNr) (s.live pid) index =
      (s.fileTable index).count +
        rowPointers (range taskFileNr) (liveRow call row) index)
    (released : ∀ index, ReleasedOnce (after.fileTable index) (after.events index))
    (fits : Fits call row) : after.Held :=
  ⟨held.toTallied.change call row inTable files isCall counts fits, released⟩

/-- A task that changes its place in a call only. -/
theorem Held.setCall (held : s.Held) {call : CallPoint} (inTable : pid < taskNr)
    (sameLive : liveRow call (s.files pid) = s.live pid)
    (fits : Fits call (s.files pid)) : (s.setCall pid call).Held :=
  held.change call (s.files pid) inTable (by simp [OpenFiles.setCall]) rfl
    (fun index => by rw [sameLive]; rfl) held.released fits

/-! ## The operations -/

/-- A task outside the calls has no slot that it has given up. -/
theorem live_outside (isOutside : s.call pid = .outside) : s.live pid = s.files pid := by
  unfold live
  rw [isOutside]
  rfl

theorem fits_outside (row : Nat → Option Nat) : Fits .outside row :=
  ⟨nofun, nofun⟩

theorem getFile_cases (found : s.getFile = .ok (index, after)) :
    (s.fileTable index).count = 0 ∧ after = s.share index := by
  unfold getFile at found
  split at found
  · rename_i other isFree
    cases found
    have free := List.find?_some isFree
    simp only [decide_eq_true_eq] at free
    exact ⟨free.2, rfl⟩
  · cases found

theorem taskGetFd_cases (found : s.taskGetFd pid = .ok fd) :
    fd < taskFileNr ∧ s.files pid fd = none := by
  unfold taskGetFd at found
  split at found
  · rename_i other isFree
    cases found
    have free := List.find?_some isFree
    simp only [decide_eq_true_eq] at free
    exact ⟨List.mem_range.mp (List.mem_of_find?_eq_some isFree), free.2⟩
  · cases found

/-- A slot of a task comes to point to an entry that was free. -/
def occupy (s : OpenFiles) (pid fd index : Nat) (file : File) : OpenFiles :=
  ((s.setSlot pid fd (some index)).setFile index file).note index (.opened file.inode)

theorem Held.occupy (held : s.Held) (isOutside : s.call pid = .outside)
    (inside : fd < taskFileNr) (free : s.files pid fd = none)
    (unused : (s.fileTable index).count = 0) {file : File} (one : file.count = 1) :
    (s.occupy pid fd index file).Held := by
  have isCall : (s.occupy pid fd index file).call =
      Function.update s.call pid .outside := by
    rw [← isOutside, Function.update_eq_self]
    rfl
  refine held.change .outside _ (held.lt_taskNr (by rw [isOutside]; nofun)) rfl isCall
    (fun other => ?counts) (fun other => ?released) (fits_outside _)
  case counts =>
    rw [live_outside isOutside]
    simp only [liveRow]
    rw [rowPointers_fill (mem_range.mpr inside) free]
    by_cases same : other = index
    · subst same
      simp only [OpenFiles.occupy, setFile, note, Function.update_self, one, unused, if_true]
      omega
    · simp [OpenFiles.occupy, setFile, setSlot, note, same, Ne.symm same]
  case released =>
    have before := held.released other
    by_cases same : other = index
    · subst same
      unfold ReleasedOnce at before ⊢
      rw [if_pos unused] at before
      simp only [OpenFiles.occupy, setFile, setSlot, note, Function.update_self, one,
        Nat.one_ne_zero, if_false]
      exact ⟨_, rfl, before⟩
    · simpa [OpenFiles.occupy, setFile, setSlot, note, same] using before

theorem Held.sysOpen (held : s.Held) (isOutside : s.call pid = .outside)
    {inode : Option Nat} {desc : InodeDesc} {flags : Nat} {result : Int}
    (opened : s.sysOpen pid inode desc flags = .ok (result, after)) : after.Held := by
  cases inode with
  | none =>
      cases opened
      exact held
  | some inode =>
      simp only [OpenFiles.sysOpen, bind_eq_ok, check_eq_ok] at opened
      obtain ⟨fd, slot, ⟨index, found⟩, isFound, _, _, same⟩ := opened
      obtain ⟨inside, free⟩ := taskGetFd_cases slot
      obtain ⟨unused, rfl⟩ := getFile_cases isFound
      obtain ⟨file, isFile⟩ : ∃ file : File, file = {
          inode := inode
          flags := flags
          count := 1
          mode := desc.mode
          offset := if flags &&& oAppend ≠ 0 then toSigned desc.size else 0 } := ⟨_, rfl⟩
      have occupied := held.occupy isOutside inside free unused
        (show file.count = 1 by rw [isFile])
      rw [isFile] at occupied
      cases same
      simpa [OpenFiles.occupy, share, setSlot, setFile, note] using occupied

theorem Held.add32_count (held : s.Held) (index : Nat) :
    add32 (s.fileTable index).count 1 = (s.fileTable index).count + 1 := by
  have bound := held.count_le index
  unfold add32
  omega

/-- `sys_pipe` occupies two entries, one after the other. -/
theorem Held.sysPipe (held : s.Held) (isOutside : s.call pid = .outside) {inode : Nat}
    {result : Int} {fds : Nat × Nat}
    (made : s.sysPipe pid inode = .ok (result, fds, after)) : after.Held := by
  simp only [OpenFiles.sysPipe, bind_eq_ok] at made
  obtain ⟨readFd, readSlot, ⟨first, found⟩, isFound, writeFd, writeSlot,
    ⟨second, foundNext⟩, isFoundNext, same⟩ := made
  obtain ⟨inside, free⟩ := taskGetFd_cases readSlot
  obtain ⟨unused, rfl⟩ := getFile_cases isFound
  obtain ⟨insideNext, freeNext⟩ := taskGetFd_cases writeSlot
  obtain ⟨unusedNext, rfl⟩ := getFile_cases isFoundNext
  have different : second ≠ first := by
    rintro rfl
    simp [share, setSlot, setFile, add32, unused] at unusedNext
  have unusedSecond : (s.fileTable second).count = 0 := by
    simpa [share, setSlot, setFile, different] using unusedNext
  let readFile := { s.fileTable first with inode := inode, flags := oRdonly, count := 1 }
  let writeFile := { s.fileTable second with inode := inode, flags := oWronly, count := 1 }
  have occupied : (s.occupy pid readFd first readFile).Held :=
    held.occupy isOutside inside free unused rfl
  have both : ((s.occupy pid readFd first readFile).occupy pid writeFd second
      writeFile).Held := by
    apply occupied.occupy isOutside insideNext _ _ rfl
    · simpa [OpenFiles.occupy, share, setSlot, setFile, note] using freeNext
    · simpa [OpenFiles.occupy, setSlot, setFile, note, different] using unusedSecond
  cases same
  convert both using 1
  simp only [OpenFiles.occupy, share, setPipe, setSlot, setFile, note]
  congr 1
  funext other
  by_cases isSecond : other = second
  · simp [isSecond, different, add32, unusedSecond, writeFile]
  · by_cases isFirst : other = first
    · simp [isFirst, Ne.symm different, add32, unused, readFile]
    · simp [isSecond, isFirst]

/-- `dupfd` makes one more slot of the task point to an entry. -/
theorem Held.share (held : s.Held) (isOutside : s.call pid = .outside)
    (inside : fd < taskFileNr) (free : s.files pid fd = none)
    (used : (s.fileTable index).count ≠ 0) :
    ((s.setSlot pid fd (some index)).share index).Held := by
  have grown := held.add32_count index
  refine held.change .outside _ (held.lt_taskNr (by rw [isOutside]; nofun)) rfl
    (by rw [← isOutside, Function.update_eq_self]; rfl) (fun other => ?counts)
    (fun other => ?released) (fits_outside _)
  case counts =>
    rw [live_outside isOutside]
    simp only [liveRow]
    rw [rowPointers_fill (mem_range.mpr inside) free]
    by_cases same : other = index
    · subst same
      simp only [OpenFiles.share, setFile, setSlot, Function.update_self, grown, if_true]
      omega
    · simp [OpenFiles.share, setFile, setSlot, same, Ne.symm same]
  case released =>
    have before := held.released other
    by_cases same : other = index
    · subst same
      unfold ReleasedOnce at before ⊢
      rw [if_neg used] at before
      simp only [OpenFiles.share, setFile, setSlot, Function.update_self, grown,
        Nat.add_one_ne_zero, if_false]
      exact before
    · simpa [OpenFiles.share, setFile, setSlot, same] using before

/-- An entry that a task has a slot for is in use. -/
theorem Held.used (held : s.Held) (isOutside : s.call pid = .outside)
    (inside : fd < taskFileNr) (points : s.files pid fd = some index) :
    (s.fileTable index).count ≠ 0 := by
  have row : 0 < rowPointers (range taskFileNr) (s.live pid) index := by
    rw [live_outside isOutside]
    exact card_pos.mpr ⟨fd, mem_filter.mpr ⟨mem_range.mpr inside, points⟩⟩
  have below : rowPointers (range taskFileNr) (s.live pid) index ≤
      pointers (range taskNr) (range taskFileNr) s.live index :=
    rowPointers_le_pointers
      (mem_range.mpr (held.lt_taskNr (by rw [isOutside]; nofun)))
  rw [held.count index]
  omega

theorem Held.dupfd (held : s.Held) (isOutside : s.call pid = .outside) (arg : Nat) :
    (s.dupfd pid fd arg).2.Held ∧ (s.dupfd pid fd arg).2.call = s.call := by
  unfold OpenFiles.dupfd
  split
  · exact ⟨held, rfl⟩
  · rename_i inside
    split
    · exact ⟨held, rfl⟩
    · rename_i index points
      split
      · exact ⟨held, rfl⟩
      · rename_i slot isFree
        have free := List.find?_some isFree
        simp only [decide_eq_true_eq] at free
        have inRow := List.mem_range.mp (List.mem_of_find?_eq_some isFree)
        exact ⟨held.share isOutside inRow free.2
          (held.used isOutside (by omega) points), rfl⟩

/-! ## Closing -/

/-- What `put_file` does: the inode is released with the last reference. -/
theorem putFile_cases (put : s.putFile index = .ok after) :
    0 < (s.fileTable index).count ∧ after.files = s.files ∧ after.call = s.call ∧
      after.fileTable = Function.update s.fileTable index { s.fileTable index with
        count := (s.fileTable index).count - 1 } ∧
      after.events = if (s.fileTable index).count - 1 = 0 then
          Function.update s.events index
            (.released (s.fileTable index).inode :: s.events index)
        else
          s.events := by
  simp only [putFile, bind_eq_ok, check_eq_ok] at put
  obtain ⟨_, positive, put⟩ := put
  split at put
  · rename_i last
    cases put
    exact ⟨positive, rfl, rfl, rfl, by rw [if_pos last]; rfl⟩
  · rename_i more
    cases put
    exact ⟨positive, rfl, rfl, rfl, by rw [if_neg more]; rfl⟩

theorem Held.beginClose (held : s.Held) (isCall : s.call pid = .closing (fd :: fds) next)
    (begun : s.beginClose pid fd fds next = .ok after) : after.Held := by
  have inTable : pid < taskNr := held.lt_taskNr (by rw [isCall]; rintro ⟨⟩)
  have isLive : s.live pid = s.files pid := by
    unfold live
    rw [isCall]
    rfl
  have fits := held.fits pid
  rw [isCall] at fits
  simp only [OpenFiles.beginClose, bind_eq_ok, check_eq_ok] at begun
  obtain ⟨_, inside, begun⟩ := begun
  cases points : s.files pid fd with
  | none =>
      rw [points] at begun
      cases begun
      refine held.setCall inTable isLive.symm
        ⟨fun rest isRest other inRow full => ?_, by rintro _ _ _ ⟨⟩⟩
      cases next with
      | dead =>
          cases isRest
          rcases List.mem_cons.mp (fits.leaving _ rfl other inRow full) with rfl | present
          · exact absurd points full
          · exact present
      | back => cases isRest
      | dup oldfd newfd => cases isRest
  | some index =>
      rw [points] at begun
      simp only [bind_eq_ok] at begun
      obtain ⟨dropped, put, same⟩ := begun
      cases same
      obtain ⟨positive, files, calls, fileTable, events⟩ := putFile_cases put
      refine held.change (.clearing fd fds next) (s.files pid) inTable
        (by simp [OpenFiles.setCall, files]) (by simp [OpenFiles.setCall, calls])
        (fun other => ?counts) (fun other => ?released) ⟨?leaving, ?clearing⟩
      case counts =>
        have cleared : rowPointers (range taskFileNr) (s.files pid) other =
            rowPointers (range taskFileNr) (Function.update (s.files pid) fd none) other +
              if index = other then 1 else 0 :=
          rowPointers_clear (mem_range.mpr inside) points
        simp only [OpenFiles.setCall, fileTable, isLive, liveRow]
        by_cases same : other = index
        · subst same
          rw [if_pos rfl] at cleared
          rw [Function.update_self]
          dsimp only
          omega
        · rw [if_neg (Ne.symm same)] at cleared
          rw [Function.update_of_ne same]
          omega
      case released =>
        have before := held.released other
        simp only [OpenFiles.setCall, fileTable, events]
        by_cases same : other = index
        · subst same
          unfold ReleasedOnce at before ⊢
          rw [if_neg (by omega)] at before
          obtain ⟨earlier, opened, paired⟩ := before
          rw [Function.update_self]
          dsimp only
          split
          · rw [Function.update_self, opened]
            exact paired.cons _
          · exact ⟨earlier, opened, paired⟩
        · rw [Function.update_of_ne same]
          split
          · rw [Function.update_of_ne same]
            exact before
          · exact before
      case leaving =>
        intro rest isRest
        cases next with
        | dead => exact fits.leaving rest isRest
        | back => cases isRest
        | dup oldfd newfd => cases isRest
      case clearing =>
        intro other rest next same
        cases same
        exact ⟨inside, by rw [points]; rintro ⟨⟩⟩

theorem Held.endClose (held : s.Held) (isCall : s.call pid = .clearing fd fds next) :
    (s.endClose pid fd fds next).Held := by
  have inTable : pid < taskNr := held.lt_taskNr (by rw [isCall]; nofun)
  have isLive : s.live pid = Function.update (s.files pid) fd none := by
    unfold live
    rw [isCall]
    rfl
  have fits := held.fits pid
  rw [isCall] at fits
  refine held.change (.closing fds next) _ inTable rfl rfl
    (fun index => by rw [isLive]; rfl) held.released
    ⟨fun rest isRest other inRow full => ?_, nofun⟩
  have different : other ≠ fd := by
    rintro rfl
    simp at full
  rw [Function.update_of_ne different] at full
  cases next with
  | dead =>
      cases isRest
      exact (List.mem_cons.mp (fits.leaving _ rfl other inRow full)).resolve_left different
  | back => cases isRest
  | dup oldfd newfd => cases isRest

/-- `dupfd` does not look at where the tasks are. -/
theorem dupfd_setCall (s : OpenFiles) (pid fd arg : Nat) (call : CallPoint) :
    (s.dupfd pid fd arg).2.setCall pid call =
      ((s.setCall pid call).dupfd pid fd arg).2 := by
  have same : (s.setCall pid call).files = s.files := rfl
  unfold dupfd
  rw [same]
  split
  · rfl
  · cases s.files pid fd with
    | none => rfl
    | some index =>
        cases (List.range taskFileNr).find? fun slot =>
            arg ≤ slot ∧ s.files pid slot = none with
        | none => rfl
        | some slot => rfl

theorem Held.proceed (held : s.Held) (isCall : s.call pid = .closing [] next) :
    (s.proceed pid next).Held := by
  have inTable : pid < taskNr := held.lt_taskNr (by rw [isCall]; nofun)
  have isLive : s.live pid = s.files pid := by
    unfold live
    rw [isCall]
    rfl
  have fits := held.fits pid
  rw [isCall] at fits
  have outside : (s.setCall pid .outside).Held :=
    held.setCall inTable isLive.symm (fits_outside _)
  cases next with
  | back => exact outside
  | dup oldfd newfd =>
      change ((s.dupfd pid oldfd newfd).2.setCall pid .outside).Held
      rw [dupfd_setCall]
      exact (outside.dupfd (by simp [OpenFiles.setCall]) newfd).1
  | dead =>
      refine held.setCall inTable isLive.symm ⟨fun rest isRest => ?_, nofun⟩
      cases isRest
      exact fits.leaving [] rfl

/-! ## New tasks -/

/-- The loop of `sys_fork` changes the file table only. -/
theorem shareFiles_eq (row : Nat → Option Nat) (s : OpenFiles) (fds : List Nat) :
    shareFiles row s fds = { s with fileTable := (shareFiles row s fds).fileTable } := by
  induction fds generalizing s with
  | nil => rfl
  | cons fd fds inductionHypothesis =>
      rw [shareFiles]
      split
      · exact inductionHypothesis s
      · exact inductionHypothesis _

@[simp] theorem shareFiles_files (row : Nat → Option Nat) (s : OpenFiles)
    (fds : List Nat) : (shareFiles row s fds).files = s.files := by
  rw [shareFiles_eq]

@[simp] theorem shareFiles_call (row : Nat → Option Nat) (s : OpenFiles)
    (fds : List Nat) : (shareFiles row s fds).call = s.call := by
  rw [shareFiles_eq]

@[simp] theorem shareFiles_events (row : Nat → Option Nat) (s : OpenFiles)
    (fds : List Nat) : (shareFiles row s fds).events = s.events := by
  rw [shareFiles_eq]

/-- The loop of `sys_fork` adds to the count of an entry the number of slots that point
to it. -/
theorem shareFiles_fileTable (row : Nat → Option Nat) (fds : List Nat)
    (room : (s.fileTable index).count + fds.length < 2 ^ 32) :
    (shareFiles row s fds).fileTable index =
      { s.fileTable index with
        count := (s.fileTable index).count +
          (fds.filter fun fd => row fd = some index).length } := by
  induction fds generalizing s with
  | nil => rfl
  | cons fd fds inductionHypothesis =>
      rw [List.length_cons] at room
      rw [shareFiles]
      cases points : row fd with
      | none =>
          rw [inductionHypothesis (by omega), List.filter_cons_of_neg (by simp [points])]
      | some pointed =>
          dsimp only
          by_cases same : pointed = index
          · subst same
            have grown : ((s.share pointed).fileTable pointed) =
                { s.fileTable pointed with
                  count := (s.fileTable pointed).count + 1 } := by
              simp only [OpenFiles.share, setFile, Function.update_self, add32]
              rw [Nat.mod_eq_of_lt (by omega)]
            rw [inductionHypothesis (by rw [grown]; dsimp only; omega), grown,
              List.filter_cons_of_pos (by simp [points]), List.length_cons]
            dsimp only
            rw [Nat.add_assoc, Nat.add_comm 1]
          · have kept : (s.share pointed).fileTable index = s.fileTable index := by
              simp [OpenFiles.share, setFile, Ne.symm same]
            rw [inductionHypothesis (by rw [kept]; omega), kept,
              List.filter_cons_of_neg (by simp [points, same])]

/-- A task that comes with slots which share the entries that they point to. -/
theorem Tallied.adopt (tallied : s.Tallied) (inTable : child < taskNr)
    (isAbsent : s.call child = .absent) (row : Nat → Option Nat) :
    (shareFiles row { s.setCall child .outside with
      files := Function.update s.files child row } (List.range taskFileNr)).Tallied := by
  have fits := tallied.fits child
  rw [isAbsent] at fits
  have unused (index : Nat) :
      rowPointers (range taskFileNr) (s.live child) index = 0 := by
    have empty : ∀ fd ∈ range taskFileNr, s.live child fd = (fun _ => none) fd := by
      intro fd inRow
      unfold live
      rw [isAbsent]
      by_contra full
      exact absurd (fits.leaving [] rfl fd (mem_range.mp inRow) full) List.not_mem_nil
    rw [rowPointers_congr empty, rowPointers_empty]
  refine tallied.change .outside row inTable (by simp) (by simp [OpenFiles.setCall])
    (fun index => ?_) (fits_outside _)
  have bound := tallied.count_le index
  rw [shareFiles_fileTable row _ (by
    rw [List.length_range]
    change (s.fileTable index).count + 16 < 2 ^ 32
    omega), unused index]
  rfl

theorem getFreeTask_cases (found : s.getFreeTask = .ok child) :
    child < taskNr ∧ s.call child = .absent := by
  unfold getFreeTask at found
  split at found
  · rename_i other isFree
    cases found
    have free := List.find?_some isFree
    exact ⟨List.mem_range.mp (List.mem_of_find?_eq_some isFree), by simpa using free⟩
  · cases found

theorem Held.sysFork (held : s.Held) (isOutside : s.call pid = .outside)
    (forked : s.sysFork pid = .ok (child, after)) : after.Held := by
  simp only [OpenFiles.sysFork, bind_eq_ok] at forked
  obtain ⟨free, found, same⟩ := forked
  obtain ⟨inTable, isAbsent⟩ := getFreeTask_cases found
  have adopted := held.adopt inTable isAbsent (s.files pid)
  have isRow : (({ s with files := Function.update s.files free (s.files pid) } :
      OpenFiles).setCall free .outside).files free = s.files pid := by
    simp [OpenFiles.setCall]
  rw [isRow] at same
  cases same
  refine ⟨adopted, fun index => ?_⟩
  have before := held.released index
  have bound := held.count_le index
  rw [shareFiles_fileTable (s.files pid) _ (by
    rw [List.length_range]
    change (s.fileTable index).count + 16 < 2 ^ 32
    omega), shareFiles_events]
  change ReleasedOnce { s.fileTable index with count := (s.fileTable index).count +
    ((List.range taskFileNr).filter fun fd => s.files pid fd = some index).length }
      (s.events index)
  unfold ReleasedOnce at before ⊢
  by_cases unused : (s.fileTable index).count = 0
  · -- A free entry gets no reference: the parent has no slot that points to it.
    have none : ((List.range taskFileNr).filter fun fd =>
        s.files pid fd = some index) = [] := by
      apply List.filter_eq_nil_iff.mpr
      intro fd inRow points
      exact held.used isOutside (List.mem_range.mp inRow) (by simpa using points) unused
    rw [if_pos unused] at before
    rw [none, if_pos (by simp [unused])]
    exact before
  · rw [if_neg unused] at before
    rw [if_neg (by dsimp only; omega)]
    exact before

/-! ## Runs -/

theorem enter_eq_ok (s : OpenFiles) (pid : Nat) (result : Unit) :
    s.enter pid = .ok result ↔ s.call pid = .outside := by
  unfold enter
  split
  · simp_all
  · simp_all

/-- A task outside the calls begins to close some of its files. -/
theorem Held.enter (held : s.Held) (isOutside : s.call pid = .outside)
    (all : next = .dead → ∀ fd < taskFileNr, fd ∈ fds) :
    (s.setCall pid (.closing fds next)).Held := by
  refine held.setCall (held.lt_taskNr (by rw [isOutside]; nofun))
    (live_outside isOutside).symm ⟨fun rest isRest fd inRow _ => ?_, nofun⟩
  cases next with
  | dead =>
      cases isRest
      exact all rfl fd inRow
  | back => cases isRest
  | dup oldfd newfd => cases isRest

theorem Held.resume (held : s.Held) (resumed : s.resume pid = .ok after) : after.Held := by
  unfold OpenFiles.resume at resumed
  split at resumed
  · rename_i next isCall
    cases resumed
    exact held.proceed isCall
  · rename_i fd fds next isCall
    exact held.beginClose isCall resumed
  · rename_i fd fds next isCall
    cases resumed
    exact held.endClose isCall
  · cases resumed

/-- Every step of a task keeps the counts. -/
theorem Held.step (held : s.Held) {label : Label} (stepped : s.next label = .ok after) :
    after.Held := by
  cases label with
  | «open» pid inode desc flags =>
      simp only [next, bind_eq_ok, enter_eq_ok] at stepped
      obtain ⟨_, isOutside, ⟨result, opened⟩, isOpened, same⟩ := stepped
      cases same
      exact held.sysOpen isOutside isOpened
  | close pid fd =>
      simp only [next, bind_eq_ok, enter_eq_ok] at stepped
      obtain ⟨_, isOutside, same⟩ := stepped
      cases same
      exact held.enter isOutside (by rintro ⟨⟩)
  | dup pid oldfd =>
      simp only [next, bind_eq_ok, enter_eq_ok] at stepped
      obtain ⟨_, isOutside, same⟩ := stepped
      cases same
      exact (held.dupfd isOutside 0).1
  | dup2 pid oldfd newfd =>
      simp only [next, bind_eq_ok, enter_eq_ok] at stepped
      obtain ⟨_, isOutside, stepped⟩ := stepped
      split at stepped
      · cases stepped
        exact held
      · cases stepped
        exact held.enter isOutside (by rintro ⟨⟩)
  | pipe pid inode =>
      simp only [next, bind_eq_ok, enter_eq_ok] at stepped
      obtain ⟨_, isOutside, ⟨result, fds, made⟩, isMade, same⟩ := stepped
      cases same
      exact held.sysPipe isOutside isMade
  | fork pid =>
      simp only [next, bind_eq_ok, enter_eq_ok] at stepped
      obtain ⟨_, isOutside, ⟨child, forked⟩, isForked, same⟩ := stepped
      cases same
      exact held.sysFork isOutside isForked
  | execve pid accepted =>
      simp only [next, bind_eq_ok, enter_eq_ok] at stepped
      obtain ⟨_, isOutside, same⟩ := stepped
      cases same
      unfold sysExecve
      split
      · exact held.enter isOutside (by rintro ⟨⟩)
      · exact held
  | exit pid =>
      simp only [next, sysExit, bind_eq_ok, enter_eq_ok] at stepped
      obtain ⟨_, isOutside, _, _, same⟩ := stepped
      cases same
      exact held.enter isOutside fun _ fd inRow => List.mem_range.mpr inRow
  | waitpid pid child =>
      simp only [next, bind_eq_ok, enter_eq_ok] at stepped
      obtain ⟨_, _, stepped⟩ := stepped
      split at stepped
      · rename_i isExited
        cases stepped
        have fits := held.fits child
        rw [isExited] at fits
        refine held.setCall (held.lt_taskNr (by rw [isExited]; rintro ⟨⟩)) ?_
          ⟨fun rest isRest => ?_, by rintro _ _ _ ⟨⟩⟩
        · unfold live
          rw [isExited]
          rfl
        · cases isRest
          exact fits.leaving [] rfl
      · cases stepped
  | resume pid => exact held.resume stepped

/-! ## The start of the system -/

theorem tallied_blank : blank.Tallied where
  count index := by
    simp [blank, pointers, live, liveRow]
  fits pid := ⟨fun _ _ fd _ full => absurd rfl full, nofun⟩
  inTable _ _ := rfl

/-- The slots of a task that `task_create` makes. -/
def streams : Nat → Option Nat :=
  Function.update (Function.update (Function.update (fun _ => none) 0 (some 0)) 1
    (some 1)) 2 (some 2)

theorem Tallied.taskCreate (tallied : s.Tallied) (created : s.taskCreate = .ok after) :
    after.Tallied := by
  simp only [OpenFiles.taskCreate, bind_eq_ok] at created
  obtain ⟨pid, found, same⟩ := created
  obtain ⟨inTable, isAbsent⟩ := getFreeTask_cases found
  have adopted := tallied.adopt inTable isAbsent streams
  cases same
  convert adopted using 1
  simp [setSlot, OpenFiles.setCall, shareFiles, List.range, List.range.loop, streams]

theorem taskCreate_cases (created : s.taskCreate = .ok after) :
    after.events = s.events ∧ ∀ index, (after.fileTable index).count =
      if index < 3 then add32 (s.fileTable index).count 1
      else (s.fileTable index).count := by
  simp only [taskCreate, bind_eq_ok] at created
  obtain ⟨pid, _, same⟩ := created
  cases same
  refine ⟨rfl, fun index => ?_⟩
  rcases index with _ | _ | _ | index
  all_goals simp [share, setFile, setSlot, setCall]

theorem setStream_count (s : OpenFiles) (index inode mode flags other : Nat) :
    ((s.setStream index inode mode flags).fileTable other).count =
      (s.fileTable other).count := by
  by_cases same : other = index
  · simp [OpenFiles.setStream, setFile, note, same]
  · simp [OpenFiles.setStream, setFile, note, same]

theorem Tallied.setStream (tallied : s.Tallied) (index inode mode flags : Nat) :
    (s.setStream index inode mode flags).Tallied where
  count other := by
    rw [setStream_count]
    exact tallied.count other
  fits := tallied.fits
  inTable := tallied.inTable

/-- The start of the system leaves every count at the number of slots. -/
theorem held_of_boot {inode mode : Nat → Nat} (booted : boot inode mode = .ok s) :
    s.Held := by
  simp only [boot, bind_eq_ok] at booted
  obtain ⟨one, first, two, second, same⟩ := booted
  have tallied := (tallied_blank.taskCreate first).taskCreate second
  obtain ⟨eventsOne, countOne⟩ := taskCreate_cases first
  obtain ⟨eventsTwo, countTwo⟩ := taskCreate_cases second
  cases same
  refine ⟨((tallied.setStream _ _ _ _).setStream _ _ _ _).setStream _ _ _ _,
    fun index => ?_⟩
  have none : two.events = fun _ => [] := eventsTwo.trans eventsOne
  have count := countTwo index
  rw [countOne index] at count
  unfold ReleasedOnce
  rcases index with _ | _ | _ | index
  · simp [devInit, setStream, setFile, note, none, count, blank, add32, Paired.nil]
  · simp [devInit, setStream, setFile, note, none, count, blank, add32, Paired.nil]
  · simp [devInit, setStream, setFile, note, none, count, blank, add32, Paired.nil]
  · have other : ¬index + 1 + 1 + 1 < 3 := by omega
    simp [devInit, setStream, setFile, note, none, count, other, blank, Paired.nil]

end OpenFiles
end LightOS
