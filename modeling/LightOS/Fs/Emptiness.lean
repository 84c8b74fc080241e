import LightOS.Fs.Calls
import LightOS.Fs.Lookup

/-!
# Empty directories

`sys_rmdir` removes a directory when `is_dir_empty` says that it holds nothing but `.`
and `..`.  `is_dir_empty` comes back to the first block of the directory for each block
that it means to look at.
-/

namespace LightOS

namespace Dentry

/-- An entry is in use and has a name. -/
def InUse (entry : Dentry) (name : Cursor) : Prop :=
  entry.nr ≠ 0 ∧ ∀ index ≤ name.length, entry.name index = name.getD index 0

instance (entry : Dentry) (name : Cursor) : Decidable (entry.InUse name) :=
  inferInstanceAs (Decidable (_ ∧ ∀ index ≤ _, _))

end Dentry

namespace Fs

/-- Number of entries of a directory. -/
def entryCount (fs : Fs) (ino : Nat) : Nat :=
  (fs.desc ino).size / 16

/-- An entry of a directory. -/
def dirEntry (fs : Fs) (ino index : Nat) : Dentry :=
  fs.entry ⟨(fs.inodeTable ino).dev, fs.zoneOf ino (index / blockDentries),
    16 * (index % blockDentries)⟩

/-- A directory of any size: its entries are in blocks that it has, and the first two
are those for itself and for its parent. -/
structure Directory (fs : Fs) (ino : Nat) : Prop where
  directory : isDir (fs.desc ino).mode
  mapped : ∀ index < fs.entryCount ino, index / blockDentries < totalBlocks ∧
    fs.zoneOf ino (index / blockDentries) ≠ 0
  two : 2 ≤ fs.entryCount ino
  dot : (fs.dirEntry ino 0).InUse dotName
  dotDot : (fs.dirEntry ino 1).InUse dotDotName

/-- The first two entries of a directory are the only ones in use. -/
def OnlyDots (fs : Fs) (ino : Nat) : Prop :=
  ∀ index < fs.entryCount ino, 2 ≤ index → (fs.dirEntry ino index).nr = 0

instance (fs : Fs) (ino : Nat) : Decidable (fs.OnlyDots ino) :=
  inferInstanceAs (Decidable (∀ index < _, _))

/-- The entry that `is_dir_empty` looks at in place of an entry of a directory. -/
def seenEntry (fs : Fs) (ino index : Nat) : Dentry :=
  fs.entry ⟨(fs.inodeTable ino).dev, fs.zoneOf ino 0, 16 * (index % blockDentries)⟩

/-- The loop of `is_dir_empty` counts what it sees. -/
theorem countEntries_eq {fs : Fs} {ino : Nat} (mapped : fs.zoneOf ino 0 ≠ 0)
    {left index pcache : Nat} (count : Nat)
    (cached : index % blockDentries ≠ 0 → pcache = fs.zoneOf ino 0) :
    fs.countEntries ino left index pcache count =
      .ok (count + (List.range' index left).countP fun i => (fs.seenEntry ino i).nr ≠ 0) := by
  induction left generalizing index pcache count with
  | zero => rfl
  | succ left inductionHypothesis =>
      have found : fs.bmap ino (1 / blockDentries) false = .ok (fs.zoneOf ino 0, fs) :=
        fs.bmap_false ino (by decide)
      have block : (if index % blockDentries = 0 then
          (fs.bmap ino (1 / blockDentries) false >>= fun found =>
            check (found.1 ≠ 0) >>= fun _ => .ok found.1)
        else .ok pcache) = .ok (fs.zoneOf ino 0) := by
        by_cases begins : index % blockDentries = 0
        · rw [if_pos begins, found, ok_bind]
          dsimp only
          rw [check_true mapped, ok_bind]
        · rw [if_neg begins, cached begins]
      have round : fs.countEntries ino (left + 1) index pcache count =
          fs.countEntries ino left (index + 1) (fs.zoneOf ino 0)
            (if (fs.seenEntry ino index).nr ≠ 0 then count + 1 else count) := by
        change ((if index % blockDentries = 0 then _ else _) >>= _) = _
        exact (congrArg (· >>= _) block).trans rfl
      rw [round, inductionHypothesis _ fun _ => rfl, List.range'_succ, List.countP_cons]
      by_cases live : (fs.seenEntry ino index).nr ≠ 0
      · rw [if_pos live, if_pos (decide_eq_true live), Nat.add_right_comm, Nat.add_assoc]
      · rw [if_neg live, if_neg (by simpa using live)]
        rfl

section Test

variable {fs : Fs} {ino : Nat}

theorem Directory.firstZone (directory : fs.Directory ino) : fs.zoneOf ino 0 ≠ 0 := by
  have two := directory.two
  exact (directory.mapped 0 (by omega)).2

/-- In its first block `is_dir_empty` sees the entries of the directory. -/
theorem seenEntry_first {index : Nat} (inFirst : index < blockDentries) :
    fs.seenEntry ino index = fs.dirEntry ino index := by
  unfold seenEntry dirEntry
  rw [Nat.div_eq_of_lt inFirst]

/-- `is_dir_empty` says whether what it sees behind the first two entries is unused. -/
theorem Directory.isDirEmpty_eq (directory : fs.Directory ino) :
    fs.isDirEmpty ino = .ok (decide
      (∀ index < fs.entryCount ino, 2 ≤ index → (fs.seenEntry ino index).nr = 0)) := by
  obtain ⟨rest, isCount⟩ := Nat.exists_eq_add_of_le' directory.two
  have enough : ¬((fs.desc ino).size / 16 < 2 ∨ (fs.desc ino).zone 0 = 0) := by
    rintro (few | empty)
    · exact absurd directory.two (Nat.not_le.mpr few)
    · exact directory.firstZone empty
  have first : fs.seenEntry ino 0 = fs.dirEntry ino 0 := seenEntry_first (by decide)
  have second : fs.seenEntry ino 1 = fs.dirEntry ino 1 := seenEntry_first (by decide)
  have live : ((List.range' 0 (rest + 2)).countP fun i => (fs.seenEntry ino i).nr ≠ 0) =
      (List.range' 2 rest).countP (fun i => (fs.seenEntry ino i).nr ≠ 0) + 2 := by
    rw [List.range'_succ, List.range'_succ, List.countP_cons_of_pos, List.countP_cons_of_pos]
    · simp [second, directory.dotDot.1]
    · simp [first, directory.dot.1]
  have counted : fs.countEntries ino ((fs.desc ino).size / 16) 0 0 0 = _ :=
    countEntries_eq directory.firstZone 0 fun impossible => absurd rfl impossible
  have isSize : (fs.desc ino).size / 16 = rest + 2 := isCount
  unfold isDirEmpty
  dsimp only
  rw [check_true directory.directory, ok_bind, if_neg enough, counted, ok_bind, isSize, live,
    pure_eq_ok]
  congr 1
  rw [decide_eq_decide]
  constructor
  · intro none index inside above
    have unused : ((List.range' 2 rest).countP fun i => (fs.seenEntry ino i).nr ≠ 0) = 0 := by
      omega
    have notLive := List.countP_eq_zero.mp unused index
      (List.mem_range'_1.mpr ⟨above, by omega⟩)
    simpa using notLive
  · intro unused
    rw [Nat.zero_add, Nat.add_eq_right, List.countP_eq_zero]
    intro index inRange
    have inside := List.mem_range'_1.mp inRange
    simpa using unused index (by omega) inside.1

/-- A call of `sys_rmdir` meets the conditions in front of `is_dir_empty`: it has come to
the directory `inode` with its entry in `dir`. -/
structure ComesToTest (start fs : Fs) (task : Creds) (path : Option Cursor)
    (dir inode : Nat) (entry : EntryRef) : Prop where
  walked : ∃ parent name walkedFs found searchedFs,
    start.named task path = .ok (some (parent, name), walkedFs) ∧
    name ≠ [] ∧ name ≠ dotName ∧ name ≠ dotDotName ∧
    walkedFs.permission task parent pWrite = true ∧
    walkedFs.findEntry parent name = .ok (some found, dir, searchedFs) ∧
    entry = found.entry ∧
    searchedFs.iget (searchedFs.inodeTable dir).dev (searchedFs.entry found.entry).nr =
      .ok (inode, fs)
  other : inode ≠ dir
  directory : isDir (fs.desc inode).mode = true
  allowed : (fs.desc dir).mode &&& isvtx = 0 ∨ task.uid = (fs.desc inode).uid
  sameDev : (fs.inodeTable dir).dev = (fs.inodeTable inode).dev
  unused : (fs.inodeTable inode).count ≤ 1

/-- What is left of a call of `sys_rmdir` that has come to `is_dir_empty`. -/
theorem ComesToTest.sysRmdir_eq {start : Fs} {task : Creds} {path : Option Cursor}
    {dir : Nat} {entry : EntryRef} (comes : ComesToTest start fs task path dir ino entry)
    {empty : Bool} (tested : fs.isDirEmpty ino = .ok empty) :
    start.sysRmdir task path =
      if empty = true then fs.removeDirectory dir ino entry
      else fs.leave (-1) (some ino) (some dir) := by
  obtain ⟨parent, name, walkedFs, found, searchedFs, walked, notEmpty, notDot, notDotDot,
    permitted, searched, rfl, got⟩ := comes.walked
  obtain ⟨byte, behind, rfl⟩ := List.exists_cons_of_ne_nil notEmpty
  have notSticky : ¬((fs.desc dir).mode &&& isvtx ≠ 0 ∧ task.uid ≠ (fs.desc ino).uid) := by
    rintro ⟨sticky, stranger⟩
    exact comes.allowed.elim sticky stranger
  have notHeld : ¬((fs.inodeTable dir).dev ≠ (fs.inodeTable ino).dev ∨
      1 < (fs.inodeTable ino).count) := by
    rintro (mounted | held)
    · exact mounted comes.sameDev
    · exact absurd comes.unused (Nat.not_le.mpr held)
  unfold sysRmdir
  rw [walked, ok_bind]
  dsimp only
  rw [if_neg (not_or.mpr ⟨notDot, notDotDot⟩), if_neg (by simp [permitted]), searched, ok_bind]
  dsimp only
  rw [got, ok_bind]
  dsimp only
  rw [check_true comes.other, ok_bind, if_neg (by simp [comes.directory]), if_neg notSticky,
    if_neg notHeld, tested, ok_bind]
  cases empty <;> rfl

/-- The test of `sys_rmdir` is exact: `is_dir_empty` says whether the directory holds
nothing but `.` and `..`, and a call that meets the other conditions removes the directory
if that is so and leaves it otherwise. -/
structure ExactTest (fs : Fs) (ino : Nat) : Prop where
  test : fs.isDirEmpty ino = .ok (decide (fs.OnlyDots ino))
  rmdir : ∀ start task path dir entry, ComesToTest start fs task path dir ino entry →
    start.sysRmdir task path =
      if fs.OnlyDots ino then fs.removeDirectory dir ino entry
      else fs.leave (-1) (some ino) (some dir)

/-- In a directory of one block `is_dir_empty` sees all entries, and in a larger one it sees
the first entry again. -/
theorem Directory.seen_iff (directory : fs.Directory ino) :
    (∀ index < fs.entryCount ino, 2 ≤ index → (fs.seenEntry ino index).nr = 0) ↔
      fs.entryCount ino ≤ blockDentries ∧ fs.OnlyDots ino := by
  constructor
  · intro unused
    have short : fs.entryCount ino ≤ blockDentries := by
      by_contra long
      have again : fs.seenEntry ino blockDentries = fs.dirEntry ino 0 :=
        seenEntry_first (by decide : 0 < blockDentries)
      have isUnused := unused blockDentries (Nat.not_le.mp long) (by decide)
      rw [again] at isUnused
      exact directory.dot.1 isUnused
    refine ⟨short, fun index inside above => ?_⟩
    rw [← seenEntry_first (lt_of_lt_of_le inside short)]
    exact unused index inside above
  · rintro ⟨short, unused⟩ index inside above
    rw [seenEntry_first (lt_of_lt_of_le inside short)]
    exact unused index inside above

end Test

/-! ## A directory that has shrunk -/

/-- The small device with a directory, inode 2, that takes the blocks 7 and 8 and has
nothing in it but `.` and `..`. -/
def shrunk (entries : Nat) : Fs :=
  let table := (((smallDisk 4).setHalf 32 0x41ED).setWord 36 (16 * entries)).setByte 45 2
  let table := (table.setHalf 46 7).setHalf 48 8
  { small with
    disk := (small.disk.write 1 4 table).write 1 7
      (bytes [2, 0, 46, 0, 0, 0, 0, 0, 0, 0, 0, 0, 0, 0, 0, 0, 1, 0, 46, 46])
    inodeTable := Function.update small.inodeTable 1 ⟨1, 2, 1, 0, false, 4, 1⟩ }

theorem shrunk_directory {entries : Nat} (cases : entries = 3 ∨ entries = 65) :
    (shrunk entries).Directory 1 ∧ (shrunk entries).OnlyDots 1 := by
  rcases cases with rfl | rfl
  · exact ⟨⟨by decide +kernel, by decide +kernel, by decide +kernel, by decide +kernel,
      by decide +kernel⟩, by decide +kernel⟩
  · exact ⟨⟨by decide +kernel, by decide +kernel, by decide +kernel, by decide +kernel,
      by decide +kernel⟩, by decide +kernel⟩

end Fs
end LightOS
