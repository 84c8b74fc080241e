import LightOS.Fs.Files

/-!
# Duplicated descriptors

The functions of `file.c` that close and duplicate descriptors.  Descriptors are
signed words, and an access to `files` outside its slots stops the model.  `sys_dup2`
closes the new descriptor before it looks at the old one.
-/

namespace LightOS

variable {slot : Nat} {arg : Int}

namespace Fs

variable {fs : Fs} {ino : Nat}

/-- The release of an inode that is not the last one, or for which the inode is a pipe
or on the list of a super block, and not the root. -/
def CanPut (fs : Fs) (ino : Nat) : Prop :=
  (fs.inodeTable ino).count = 1 → ino ≠ rootInode ∧
    ((fs.inodeTable ino).pipe = true ∨
      ∃ sb ∈ List.range superNr, ino ∈ (fs.superTable sb).inodeList)

/-- An entry of `inode_table` without references can be freed. -/
theorem putFreeInode_returns (notRoot : ino ≠ rootInode) (unused : (fs.inodeTable ino).count = 0) :
    ∃ after, fs.putFreeInode ino = .ok after := by
  unfold putFreeInode
  rw [check_true notRoot, check_true unused]
  exact ⟨_, rfl⟩

/-- `put_pipe_inode` returns. -/
theorem putPipeInode_returns (canFree : sub32 (fs.inodeTable ino).count 1 = 0 → ino ≠ rootInode) :
    ∃ after, fs.putPipeInode ino = .ok after := by
  have counted : ((fs.setCount ino (sub32 (fs.inodeTable ino).count 1)).inodeTable ino).count =
      sub32 (fs.inodeTable ino).count 1 := by simp [setCount]
  unfold putPipeInode
  dsimp only
  rw [counted]
  by_cases last : sub32 (fs.inodeTable ino).count 1 = 0
  · rw [if_neg (not_not_intro last)]
    apply putFreeInode_returns (canFree last)
    rw [setInode_inodeTable, Function.update_self]
    exact last
  · rw [if_pos last]
    exact ⟨_, rfl⟩

/-- `iput` returns. -/
theorem CanPut.iput (canPut : fs.CanPut ino) : ∃ after, fs.iput ino = .ok after := by
  have counted : ((fs.setCount ino (sub32 (fs.inodeTable ino).count 1)).inodeTable ino).count =
      sub32 (fs.inodeTable ino).count 1 := by simp [setCount]
  have once (last : sub32 (fs.inodeTable ino).count 1 = 0) :
      (fs.inodeTable ino).count = 1 := by
    unfold sub32 at last
    split at last <;> omega
  unfold Fs.iput
  by_cases pipe : (fs.inodeTable ino).pipe = true
  · rw [if_pos pipe]
    exact putPipeInode_returns fun last => (canPut (once last)).1
  · rw [if_neg pipe]
    dsimp only
    rw [counted]
    by_cases last : sub32 (fs.inodeTable ino).count 1 = 0
    · obtain ⟨notRoot, isPipe | listed⟩ := canPut (once last)
      · exact absurd isPipe pipe
      · rw [if_neg (not_not_intro last)]
        unfold unlistInode
        rw [check_true (show ∃ sb ∈ List.range superNr,
          ino ∈ ((fs.setCount ino _).superTable sb).inodeList from listed), ok_bind]
        exact putFreeInode_returns notRoot (counted.trans last)
    · rw [if_pos last]
      exact ⟨_, rfl⟩

end Fs

namespace FileState

/-- `put_file`. -/
def putFile (state : FileState) (index : Nat) : Except Fault FileState := do
  let file := state.fileTable index
  check (0 < file.count)
  let state := state.setFile index { file with count := file.count - 1 }
  if file.count - 1 = 0 then
    return { state with fs := ← state.fs.iput file.inode }
  else
    return state

/-- `sys_close`. -/
def sysClose (state : FileState) (pid : Nat) (fd : Int) : Except Fault FileState := do
  check (0 ≤ fd)
  check (fd < taskFileNr)
  match (state.task pid).files fd.toNat with
  | none => return state
  | some index =>
      let state ← state.putFile index
      return state.setDescriptor pid fd.toNat none

/-- The lowest slot of a task from `arg` on that is free. -/
def freeSlot (state : FileState) (pid : Nat) (arg : Int) : Option Nat :=
  (List.range taskFileNr).find? fun slot =>
    arg ≤ slot ∧ (state.task pid).files slot = none

/-- `file->count++` for an entry of `file_table`. -/
def share (state : FileState) (index : Nat) : FileState :=
  state.setFile index { state.fileTable index with
    count := add32 (state.fileTable index).count 1 }

/-- `dupfd`.  Only the upper bound of a descriptor is checked. -/
def dupfd (state : FileState) (pid : Nat) (fd arg : Int) :
    Except Fault (Int × FileState) := do
  if taskFileNr ≤ fd then
    return (-1, state)
  bounded (0 ≤ fd)
  match (state.task pid).files fd.toNat with
  | none => return (-1, state)
  | some index =>
      bounded (0 ≤ arg)
      match state.freeSlot pid arg with
      | none => return (-1, state)
      | some slot => return (slot, (state.setDescriptor pid slot (some index)).share index)

/-- `sys_dup`. -/
def sysDup (state : FileState) (pid : Nat) (oldfd : Int) :
    Except Fault (Int × FileState) :=
  state.dupfd pid oldfd 0

/-- `sys_dup2`. -/
def sysDup2 (state : FileState) (pid : Nat) (oldfd newfd : Int) :
    Except Fault (Int × FileState) := do
  if oldfd = newfd then
    return (newfd, state)
  let state ← state.sysClose pid newfd
  state.dupfd pid oldfd newfd

/-! ## Slots -/

section Slots

variable {state : FileState} {pid index : Nat} {fd : Int}

@[simp] theorem setDescriptor_files_self (file : Option Nat) :
    ((state.setDescriptor pid slot file).task pid).files slot = file := by
  simp [setDescriptor]

theorem setDescriptor_files_other {other otherSlot : Nat} (file : Option Nat)
    (different : ¬(other = pid ∧ otherSlot = slot)) :
    ((state.setDescriptor pid slot file).task other).files otherSlot =
      (state.task other).files otherSlot := by
  unfold setDescriptor
  dsimp only
  by_cases sameTask : other = pid
  · subst sameTask
    rw [Function.update_self]
    exact Function.update_of_ne (fun sameSlot => different ⟨rfl, sameSlot⟩) _ _
  · rw [Function.update_of_ne sameTask]

@[simp] theorem share_task : (state.share index).task = state.task := rfl

theorem fileOf_natCast (inside : slot < taskFileNr) :
    state.fileOf pid (slot : Int) = (state.task pid).files slot := by
  unfold fileOf
  rw [if_pos ⟨Int.natCast_nonneg slot, Int.ofNat_lt.mpr inside⟩, Int.toNat_natCast]

/-- A descriptor outside the slots of a task is not open. -/
theorem fileOf_outside (outside : fd < 0 ∨ taskFileNr ≤ fd) : state.fileOf pid fd = none := by
  unfold fileOf
  rw [if_neg (by omega)]

/-- Where an open descriptor is. -/
theorem fileOf_eq_some (opened : state.fileOf pid fd = some index) :
    ∃ slot < taskFileNr, fd = (slot : Int) ∧ (state.task pid).files slot = some index := by
  unfold fileOf at opened
  split at opened
  · rename_i inside
    refine ⟨fd.toNat, ?_, ?_, opened⟩ <;> omega
  · cases opened

/-- A slot that is free is the lowest one from itself on. -/
theorem freeSlot_self (inside : slot < taskFileNr)
    (unused : (state.task pid).files slot = none) :
    state.freeSlot pid (slot : Int) = some slot := by
  cases found : state.freeSlot pid (slot : Int) with
  | none =>
      unfold freeSlot at found
      have occupied := List.find?_eq_none.mp found slot (List.mem_range.mpr inside)
      simp [unused] at occupied
  | some other =>
      unfold freeSlot at found
      rw [List.find?_range_eq_some] at found
      obtain ⟨isFree, _, least⟩ := found
      simp only [decide_eq_true_eq] at isFree
      have notBelow : ¬slot < other := by
        intro below
        have occupied := least slot below
        simp [unused] at occupied
      congr 1
      omega

end Slots

/-! ## What the calls promise -/

/-- The slots of all tasks after one slot refers to an entry of `file_table`. -/
def Assigned (before after : FileState) (pid slot index : Nat) : Prop :=
  ∀ other fd, (after.task other).files fd =
    if other = pid ∧ fd = slot then some index else (before.task other).files fd

/-- A duplication of `oldfd` for which `slot` is available.  If there is no slot or
`oldfd` is not open, it returns `EOF` and changes nothing. -/
def Duplicates (state : FileState) (pid : Nat) (oldfd : Int) (slot : Option Nat)
    (call : Except Fault (Int × FileState)) : Prop :=
  match state.fileOf pid oldfd, slot with
  | some index, some slot =>
      ∃ after, call = .ok ((slot : Int), after) ∧ Assigned state after pid slot index
  | _, _ => call = .ok (-1, state)

/-- The slot that `sys_dup2` is asked for. -/
def namedSlot (fd : Int) : Option Nat :=
  if 0 ≤ fd ∧ fd < taskFileNr then some fd.toNat else none

/-- A call that duplicates a descriptor. -/
inductive DupCall
  | dup (oldfd : Int)
  | dup2 (oldfd newfd : Int)
  deriving DecidableEq, Repr

/-- A call does what it promises: it makes no access outside the slots, and either it
fails and changes nothing or one slot more refers to the file. -/
def Atomic (state : FileState) (pid : Nat) : DupCall → Prop
  | .dup oldfd =>
      Duplicates state pid oldfd (state.freeSlot pid 0) (state.sysDup pid oldfd)
  | .dup2 oldfd newfd =>
      Duplicates state pid oldfd (namedSlot newfd) (state.sysDup2 pid oldfd newfd)

/-- The calls whose arguments `sys_dup` and `sys_dup2` can deal with. -/
def Served (state : FileState) (pid : Nat) : DupCall → Prop
  | .dup oldfd => 0 ≤ oldfd
  | .dup2 oldfd newfd =>
      if oldfd = newfd then
        (state.fileOf pid oldfd).isSome ∨ oldfd = -1
      else
        (0 ≤ newfd ∧ newfd < taskFileNr) ∧
          ((state.fileOf pid oldfd).isSome ∨
            0 ≤ oldfd ∧ state.fileOf pid newfd = none)

/-- The open files of a task can be released: they have been counted, and so have their
inodes. -/
def CanClose (state : FileState) (pid : Nat) : Prop :=
  ∀ slot < taskFileNr, ∀ index, (state.task pid).files slot = some index →
    0 < (state.fileTable index).count ∧
      ((state.fileTable index).count = 1 → state.fs.CanPut (state.fileTable index).inode)

section Calls

variable {state : FileState} {pid : Nat} {oldfd newfd : Int}

theorem putFile_returns {index : Nat} (counted : 0 < (state.fileTable index).count)
    (canPut : (state.fileTable index).count = 1 →
      state.fs.CanPut (state.fileTable index).inode) :
    ∃ after, state.putFile index = .ok after ∧ after.task = state.task := by
  unfold putFile
  dsimp only
  rw [check_true counted, ok_bind]
  by_cases last : (state.fileTable index).count - 1 = 0
  · obtain ⟨fs, put⟩ := (canPut (by omega)).iput
    rw [if_pos last]
    have samePut : (state.setFile index { state.fileTable index with
        count := (state.fileTable index).count - 1 }).fs.iput
          (state.fileTable index).inode = .ok fs := put
    rw [samePut]
    exact ⟨_, rfl, rfl⟩
  · rw [if_neg last]
    exact ⟨_, rfl, rfl⟩

/-- `sys_close` of an open descriptor clears its slot. -/
theorem sysClose_returns (canClose : state.CanClose pid) (inside : slot < taskFileNr) :
    ∃ after, state.sysClose pid (slot : Int) = .ok after ∧
      (∀ other fd, (after.task other).files fd =
        if other = pid ∧ fd = slot then none else (state.task other).files fd) ∧
      ((state.task pid).files slot = none → after = state) := by
  unfold sysClose
  rw [check_true (Int.natCast_nonneg slot), ok_bind, check_true (Int.ofNat_lt.mpr inside),
    ok_bind, Int.toNat_natCast]
  cases opened : (state.task pid).files slot with
  | none =>
      refine ⟨state, rfl, fun other fd => ?_, fun _ => rfl⟩
      split
      · rename_i same
        rw [same.1, same.2, opened]
      · rfl
  | some index =>
      obtain ⟨counted, canPut⟩ := canClose slot inside index opened
      obtain ⟨middle, put, sameTask⟩ := putFile_returns counted canPut
      dsimp only
      rw [put]
      refine ⟨_, rfl, fun other fd => ?_, fun impossible => ?_⟩
      · split
        · rename_i same
          rw [same.1, same.2]
          exact setDescriptor_files_self none
        · rename_i different
          rw [setDescriptor_files_other none different, sameTask]
      · cases impossible

/-- `sys_close` of a descriptor outside the slots trips an assertion. -/
theorem sysClose_outside (outside : newfd < 0 ∨ taskFileNr ≤ newfd) :
    state.sysClose pid newfd = .error .assertion := by
  unfold sysClose check
  by_cases negative : 0 ≤ newfd
  · rw [if_pos negative, ok_bind, if_neg (by omega), error_bind]
  · rw [if_neg negative, error_bind]

/-- `dupfd` of a descriptor that is not open. -/
theorem dupfd_closed (notNegative : 0 ≤ oldfd) (notOpen : state.fileOf pid oldfd = none) :
    state.dupfd pid oldfd arg = .ok (-1, state) := by
  unfold dupfd
  by_cases above : (taskFileNr : Int) ≤ oldfd
  · rw [if_pos above, pure_eq_ok]
  · rw [if_neg above, bounded_true notNegative, ok_bind]
    unfold fileOf at notOpen
    rw [if_pos ⟨notNegative, Int.not_le.mp above⟩] at notOpen
    rw [notOpen, pure_eq_ok]

/-- `dupfd` of a negative descriptor reads in front of the slots. -/
theorem dupfd_negative (negative : oldfd < 0) : state.dupfd pid oldfd arg = .error .wild := by
  have notAbove : ¬(taskFileNr : Int) ≤ oldfd := by omega
  have notInside : bounded (0 ≤ oldfd) = .error .wild := if_neg (by omega)
  unfold dupfd
  rw [if_neg notAbove, notInside, error_bind]

/-- `dupfd` of an open descriptor takes the lowest free slot. -/
theorem dupfd_open {index : Nat} (opened : state.fileOf pid oldfd = some index)
    (notNegative : 0 ≤ arg) :
    Duplicates state pid oldfd (state.freeSlot pid arg) (state.dupfd pid oldfd arg) := by
  obtain ⟨slot, inside, rfl, isFile⟩ := fileOf_eq_some opened
  have notAbove : ¬(taskFileNr : Int) ≤ slot := by omega
  have returned : state.dupfd pid slot arg =
      match state.freeSlot pid arg with
      | none => .ok (-1, state)
      | some free => .ok (free, (state.setDescriptor pid free (some index)).share index) := by
    unfold dupfd
    rw [if_neg notAbove, bounded_true (Int.natCast_nonneg slot), ok_bind, Int.toNat_natCast,
      isFile]
    dsimp only
    rw [bounded_true notNegative, ok_bind]
    cases state.freeSlot pid arg <;> rfl
  unfold Duplicates
  rw [opened, returned]
  cases state.freeSlot pid arg with
  | none => rfl
  | some free =>
      refine ⟨_, rfl, fun other fd => ?_⟩
      rw [share_task]
      split
      · rename_i same
        rw [same.1, same.2]
        exact setDescriptor_files_self _
      · rename_i different
        exact setDescriptor_files_other _ different

/-- `sys_dup` does what it promises exactly for descriptors that are not negative. -/
theorem sysDup_atomic_iff : state.Atomic pid (.dup oldfd) ↔ state.Served pid (.dup oldfd) := by
  constructor
  · intro atomic
    change 0 ≤ oldfd
    by_contra negative
    have below := Int.not_le.mp negative
    change Duplicates _ _ _ _ (state.dupfd pid oldfd 0) at atomic
    unfold Duplicates at atomic
    rw [fileOf_outside (.inl below), dupfd_negative below] at atomic
    cases atomic
  · intro (notNegative : 0 ≤ oldfd)
    change Duplicates _ _ _ _ (state.dupfd pid oldfd 0)
    cases opened : state.fileOf pid oldfd with
    | none =>
        unfold Duplicates
        rw [opened]
        exact dupfd_closed notNegative opened
    | some index => exact dupfd_open opened (Int.le_refl 0)

theorem namedSlot_inside (inside : slot < taskFileNr) : namedSlot (slot : Int) = some slot := by
  unfold namedSlot
  rw [if_pos ⟨Int.natCast_nonneg slot, Int.ofNat_lt.mpr inside⟩, Int.toNat_natCast]

/-- `sys_dup2` of a descriptor onto itself. -/
theorem sysDup2_self :
    state.Atomic pid (.dup2 oldfd oldfd) ↔ state.Served pid (.dup2 oldfd oldfd) := by
  have returned : state.sysDup2 pid oldfd oldfd = .ok (oldfd, state) := if_pos rfl
  change Duplicates _ _ _ _ (state.sysDup2 pid oldfd oldfd) ↔
    if oldfd = oldfd then _ else _
  unfold Duplicates
  rw [returned, if_pos rfl]
  cases opened : state.fileOf pid oldfd with
  | none =>
      dsimp only
      constructor
      · intro same
        cases same
        exact .inr rfl
      · rintro (impossible | rfl)
        · cases impossible
        · rfl
  | some index =>
      obtain ⟨slot, inside, rfl, isFile⟩ := fileOf_eq_some opened
      rw [namedSlot_inside inside]
      refine iff_of_true ⟨state, rfl, fun other fd => ?_⟩ (.inl rfl)
      split
      · rename_i same
        rw [same.1, same.2, isFile]
      · rfl

/-- `sys_dup2` onto another descriptor closes that one first. -/
theorem sysDup2_other (canClose : state.CanClose pid) (different : oldfd ≠ newfd)
    (inside : slot < taskFileNr) (isSlot : newfd = slot) :
    state.Atomic pid (.dup2 oldfd newfd) ↔
      (state.fileOf pid oldfd).isSome ∨ 0 ≤ oldfd ∧ state.fileOf pid newfd = none := by
  subst isSlot
  obtain ⟨closed, close, files, unchanged⟩ := sysClose_returns canClose inside
  have returned : state.sysDup2 pid oldfd slot = closed.dupfd pid oldfd slot := by
    unfold sysDup2
    rw [if_neg different, close, ok_bind]
  have cleared : (closed.task pid).files slot = none := by
    rw [files, if_pos ⟨rfl, rfl⟩]
  have sameOld : closed.fileOf pid oldfd = state.fileOf pid oldfd := by
    unfold fileOf
    split
    · rw [files, if_neg (by omega)]
    · rfl
  change Duplicates _ _ _ _ (state.sysDup2 pid oldfd slot) ↔ _
  unfold Duplicates
  rw [returned, namedSlot_inside inside, fileOf_natCast inside]
  cases opened : state.fileOf pid oldfd with
  | some index =>
      have duplicated := dupfd_open (sameOld.trans opened) (Int.natCast_nonneg slot)
      unfold Duplicates at duplicated
      rw [sameOld, opened, freeSlot_self inside cleared] at duplicated
      obtain ⟨after, isResult, assigned⟩ := duplicated
      refine iff_of_true ⟨after, isResult, fun other fd => ?_⟩ (.inl rfl)
      rw [assigned]
      split
      · rfl
      · rename_i elsewhere
        rw [files, if_neg elsewhere]
  | none =>
      dsimp only
      by_cases negative : oldfd < 0
      · rw [dupfd_negative negative]
        refine iff_of_false (fun impossible => by cases impossible) ?_
        rintro (impossible | ⟨notNegative, _⟩)
        · cases impossible
        · omega
      · rw [dupfd_closed (Int.not_lt.mp negative) (sameOld.trans opened)]
        constructor
        · intro same
          cases same
          exact .inr ⟨Int.not_lt.mp negative, cleared⟩
        · rintro (impossible | ⟨_, unused⟩)
          · cases impossible
          · rw [unchanged unused]

/-- `sys_dup` and `sys_dup2` do what they promise exactly for the arguments that they can
deal with: a descriptor that is not negative, and for `sys_dup2` one slot to close, which
is closed already when the old descriptor is not open. -/
theorem atomic_iff_served (canClose : state.CanClose pid) (call : DupCall) :
    state.Atomic pid call ↔ state.Served pid call := by
  cases call with
  | dup oldfd => exact sysDup_atomic_iff
  | dup2 oldfd newfd =>
      by_cases same : oldfd = newfd
      · subst same
        exact sysDup2_self
      · change _ ↔ if oldfd = newfd then _ else _
        rw [if_neg same]
        by_cases inside : 0 ≤ newfd ∧ newfd < taskFileNr
        · have isSlot : newfd = (newfd.toNat : Nat) := by omega
          rw [sysDup2_other canClose same (by omega) isSlot]
          exact (and_iff_right inside).symm
        · have stuck : state.sysDup2 pid oldfd newfd = .error .assertion := by
            unfold sysDup2
            rw [if_neg same, sysClose_outside (by omega), error_bind]
          have noSlot : namedSlot newfd = none := if_neg inside
          refine iff_of_false ?_ fun served => inside served.1
          change ¬Duplicates _ _ _ _ (state.sysDup2 pid oldfd newfd)
          unfold Duplicates
          rw [stuck, noSlot]
          cases state.fileOf pid oldfd with
          | none => exact fun impossible => by cases impossible
          | some index => exact fun impossible => by cases impossible

end Calls

/-! ## A closed descriptor -/

/-- A task of the small file system with the standard streams open on the root
directory. -/
def streams : FileState where
  fs := Fs.small
  fileTable := fun index => if index < 3 then ⟨0, 1, 0, 2, 0o40755⟩ else ⟨0, 0, 0, 0, 0⟩
  task := fun _ => ⟨⟨0, 0, 0o22, 0, 0⟩, fun fd => if fd < 3 then some fd else none⟩

theorem streams_canClose : streams.CanClose 1 := by
  intro slot _ index opened
  have isIndex : slot < 3 ∧ index = slot := by
    unfold streams at opened
    dsimp only at opened
    split at opened
    · rename_i low
      exact ⟨low, (Option.some.inj opened).symm⟩
    · cases opened
  have isFile : streams.fileTable index = ⟨0, 1, 0, 2, 0o40755⟩ := by
    rw [isIndex.2]
    exact if_pos isIndex.1
  rw [isFile]
  refine ⟨Nat.one_pos, fun _ once => ?_⟩
  cases (show 6 = 1 from once)

theorem atomic_iff_served_stdout :
    streams.Atomic 1 (.dup2 0 1) ↔ streams.Served 1 (.dup2 0 1) :=
  atomic_iff_served streams_canClose (.dup2 0 1)

/-- `sys_dup2` of a descriptor that is not open closes the standard output. -/
theorem atomic_fails :
    ¬∀ (state : FileState) (pid : Nat) (call : DupCall),
      state.CanClose pid → state.Atomic pid call := by
  intro always
  have atomic := always streams 1 (.dup2 5 1) streams_canClose
  have inside : 1 < taskFileNr := by decide
  have served := (sysDup2_other streams_canClose (by decide) inside rfl).mp atomic
  exact absurd served (by decide)

end FileState
end LightOS
