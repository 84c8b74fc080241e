import LightOS.Fs.BlockMap
import LightOS.Fs.Directory
import LightOS.Fs.Emptiness
import LightOS.Fs.Tables
import Mathlib.Data.List.Find

/-!
# Lookup after insertion

`add_entry` puts a name into a directory through `strncpy`, which keeps the first 13 bytes
of a name that does not fit into its field, and `find_entry` compares the whole name.
-/

namespace LightOS

open Components Memory

variable {path : Cursor} {index left other pcache : Nat} {ref : Fs.EntryRef}

/-! ## Copied names -/

section Copy

variable {memory : Memory} {dest : Nat} {src : Cursor}

/-- `strncpy` writes to its field. -/
theorem changesIn_strncpyFrom (memory : Memory) (dest : Nat) (src : Cursor) (left : Nat) :
    Memory.ChangesIn memory (strncpyFrom memory (dest + 1) src left) dest (left + 1) := by
  induction left generalizing memory dest src with
  | zero =>
      cases src with
      | nil => exact Memory.changesIn_setByte memory dest 0
      | cons byte rest => exact Memory.changesIn_setByte memory dest 0
  | succ left inductionHypothesis =>
      cases src with
      | nil => exact (Memory.changesIn_setByte memory (dest + 1) 0).mono (by omega) (by omega)
      | cons byte rest =>
          rw [strncpyFrom]
          refine ((Memory.changesIn_setByte memory (dest + 1) byte.toNat).mono
            (by omega) (by omega)).trans ?_
          exact (inductionHypothesis _ (dest + 1) rest).mono (by omega) (by omega)

theorem changesIn_strncpy (memory : Memory) (dest : Nat) (src : Cursor) (left : Nat) :
    Memory.ChangesIn memory (strncpy memory dest src (left + 1)) dest (left + 1) := by
  unfold strncpy
  cases src with
  | nil => exact (Memory.changesIn_setByte memory dest 0).mono (by omega) (by omega)
  | cons byte rest =>
      rw [strncpyFrom]
      refine ((Memory.changesIn_setByte memory dest byte.toNat).mono
        (by omega) (by omega)).trans ?_
      exact changesIn_strncpyFrom _ dest rest left

/-- `strncpy` leaves as many bytes of a string as fit with a terminator. -/
theorem spells_strncpyFrom (memory : Memory) (base index : Nat) {src : Cursor} (left : Nat)
    (text : Unterminated src) :
    Spells (fun i => strncpyFrom memory (base + index) src (left + 1) (base + i)) index
      (src.take left) := by
  induction left generalizing memory index src with
  | zero =>
      cases src with
      | nil => exact Memory.setByte_self memory (base + index) 0
      | cons byte rest =>
          exact Memory.setByte_self (memory.setByte (base + index) byte.toNat) (base + index) 0
  | succ left inductionHypothesis =>
      cases src with
      | nil => exact Memory.setByte_self memory (base + index) 0
      | cons byte rest =>
          have notZero := text byte List.mem_cons_self
          have kept : strncpyFrom (memory.setByte (base + index) byte.toNat) (base + index + 1)
              rest (left + 1) (base + index) = byte := by
            have same := changesIn_strncpy (memory.setByte (base + index) byte.toNat)
              (base + index + 1) rest left (base + index) (.inl (Nat.lt_succ_self _))
            unfold strncpy at same
            rw [same, Memory.setByte_self, UInt8.ofNat_toNat]
          refine ⟨kept, notZero, ?_⟩
          exact inductionHypothesis _ (index + 1) fun other inRest =>
            text other (List.mem_cons_of_mem _ inRest)

/-- The bytes up to the terminator. -/
theorem nameFrom_spells {name : Nat → UInt8} {text : Cursor} (spells : Spells name index text)
    (short : text.length < left) : nameFrom name left index = text := by
  induction text generalizing index left with
  | nil =>
      obtain ⟨rest, rfl⟩ := Nat.exists_eq_succ_of_ne_zero (Nat.ne_of_gt short)
      have ends : name index = 0 := spells
      rw [nameFrom, if_pos ends]
  | cons byte text inductionHypothesis =>
      obtain ⟨same, notZero, spells⟩ := spells
      obtain ⟨rest, rfl⟩ := Nat.exists_eq_succ_of_ne_zero (Nat.ne_of_gt
        (Nat.lt_of_le_of_lt (Nat.zero_le _) short))
      rw [List.length_cons] at short
      rw [nameFrom, if_neg (by rw [same]; exact notZero), same,
        inductionHypothesis spells (by omega)]

/-- `match_name` needs the terminator of an entry where the component ends. -/
theorem compareName_none {cursor : Cursor} {name : Nat → UInt8} {behind : Nat}
    (ends : name (index + behind) = 0) (long : behind < cursor.length)
    (plain : Plain isSeparator cursor) (text : Unterminated cursor) :
    compareName cursor name index = none := by
  induction cursor generalizing index behind with
  | nil => exact absurd long (Nat.not_lt_zero _)
  | cons byte rest inductionHypothesis =>
      have notZero := text byte List.mem_cons_self
      have notSep := plain byte List.mem_cons_self
      rw [compareName]
      by_cases same : byte = name index
      · rw [if_pos same]
        cases behind with
        | zero => exact absurd (same.trans ends) notZero
        | succ behind =>
            rw [List.length_cons] at long
            rw [← Nat.succ_add_eq_add_succ] at ends
            exact inductionHypothesis ends (Nat.lt_of_succ_lt_succ long)
              (fun other inRest => plain other (List.mem_cons_of_mem _ inRest))
              fun other inRest => text other (List.mem_cons_of_mem _ inRest)
      · rw [if_neg same]
        split
        · rfl
        · simp [notSep]

/-- `match_name` looks at no byte behind a terminator. -/
theorem compareName_congr {left right : Nat → UInt8} {behind : Nat} {cursor : Cursor}
    (text : Unterminated cursor) (ends : left (index + behind) = 0)
    (agree : ∀ i ≤ behind, right (index + i) = left (index + i)) :
    compareName cursor right index = compareName cursor left index := by
  have same : right index = left index := agree 0 (Nat.zero_le _)
  induction cursor generalizing index behind with
  | nil => rw [compareName, compareName, same]
  | cons byte rest inductionHypothesis =>
      rw [compareName, compareName, same]
      by_cases equal : byte = left index
      · rw [if_pos equal, if_pos equal]
        cases behind with
        | zero => exact absurd (equal.trans ends) (text byte List.mem_cons_self)
        | succ behind =>
            have later (i : Nat) (within : i ≤ behind) :
                right (index + 1 + i) = left (index + 1 + i) := by
              rw [Nat.add_assoc, Nat.add_comm 1 i]
              exact agree (i + 1) (Nat.succ_le_succ within)
            rw [← Nat.succ_add_eq_add_succ] at ends
            exact inductionHypothesis (fun other inRest =>
              text other (List.mem_cons_of_mem _ inRest)) ends later (later 0 (Nat.zero_le _))
      · rw [if_neg equal, if_neg equal]

end Copy

namespace Dentry

/-- A name takes its whole field, and no terminator ends it there. -/
def Full (entry : Dentry) : Prop :=
  ∀ index < nameLen, entry.name index ≠ 0

instance (entry : Dentry) : Decidable entry.Full :=
  inferInstanceAs (Decidable (∀ index < _, _))

section Entry

variable {memory : Memory} {start : Nat} {name : Cursor}

/-- The text of an entry depends on the bytes of its name. -/
theorem text_congr {left right : Memory} (agree : AgreeOn left right (start + 2) nameLen) :
    (read left start).text = (read right start).text := by
  have bytes (count index : Nat) (inside : index + count ≤ nameLen) :
      nameFrom (read left start).name count index =
        nameFrom (read right start).name count index := by
    induction count generalizing index with
    | zero => rfl
    | succ count inductionHypothesis =>
        have same : (read left start).name index = (read right start).name index :=
          agree _ (by omega) (by omega)
        rw [nameFrom, nameFrom, same, inductionHypothesis (index + 1) (by omega)]
  exact bytes nameLen 0 (by omega)

/-- A change of 16 bytes behind the terminator of a name, or in front of the name. -/
theorem matchName_changesIn {before after : Memory} {place : Nat} (text : Unterminated path)
    (changes : ChangesIn before after start 16) (outside : start + 16 ≤ place ∨
      ∃ behind, place + 2 + behind < start ∧ before (place + 2 + behind) = 0) :
    matchName path (read after place).name = matchName path (read before place).name := by
  rcases outside with above | ⟨behind, below, ends⟩
  · have same : (read after place).name = (read before place).name :=
      funext fun index => changes _ (.inr (by omega))
    rw [same]
  · have unskipped : Unterminated (skipSeparators path) := fun byte inSkipped =>
      text byte ((List.dropWhile_sublist _).mem inSkipped)
    unfold matchName
    rw [← Nat.zero_add behind] at ends
    refine compareName_congr unskipped ends fun i within => ?_
    · rw [Nat.zero_add]
      exact changes (place + 2 + i) (.inl (by omega))

/-- A change of an entry stays inside it. -/
def Confined (change : Memory → Nat → Memory) : Prop :=
  ∀ memory start, ChangesIn memory (change memory start) start 16

theorem confined_setNr (value : Nat) : Confined (setNr value) := fun memory start =>
  (changesIn_setHalf memory start value).mono (by omega) (by omega)

theorem confined_copyName (name : Cursor) : Confined (Fs.copyName name) := fun memory start =>
  (changesIn_strncpy memory (start + 2) name 13).mono (by omega) (by omega)

theorem nr_setNr (value : Nat) : (read (setNr value memory start) start).nr = value % 2 ^ 16 :=
  half_setHalf memory start value

theorem text_setNr (value : Nat) :
    (read (setNr value memory start) start).text = (read memory start).text :=
  text_congr (agreeOn_setHalf value (.inr (by omega)))

/-- A copied name is cut off behind 13 bytes. -/
theorem text_copyName (text : Unterminated name) :
    (read (Fs.copyName name memory start) start).text = name.take 13 := by
  have spells := spells_strncpyFrom memory (start + 2) 0 13 text
  exact nameFrom_spells spells (Nat.lt_of_le_of_lt (List.length_take_le 13 name) (by decide))

theorem terminated_copyName (text : Unterminated name) (long : nameLen ≤ name.length) :
    (read (Fs.copyName name memory start) start).name 13 = 0 := by
  have ends (index : Nat) (spelled : Cursor) (bytes : Nat → UInt8)
      (spells : Spells bytes index spelled) : bytes (index + spelled.length) = 0 := by
    induction spelled generalizing index with
    | nil => exact spells
    | cons byte rest inductionHypothesis =>
        rw [List.length_cons, Nat.add_comm rest.length 1, ← Nat.add_assoc]
        exact inductionHypothesis (index + 1) spells.2.2
  have spells := spells_strncpyFrom memory (start + 2) 0 13 text
  have last := ends _ _ _ spells
  rw [Nat.zero_add, List.length_take, Nat.min_eq_left (by simp only [nameLen] at long; omega)]
    at last
  exact last

end Entry

end Dentry

namespace Fs

variable {fs : Fs} {dev sb dir : Nat}

/-! ## Looking names up -/

/-- A directory whose entries are in blocks that it has. -/
structure Listed (fs : Fs) (dir : Nat) : Prop where
  directory : isDir (fs.desc dir).mode
  mapped : ∀ index < fs.entryCount dir, index / blockDentries < totalBlocks ∧
    fs.zoneOf dir (index / blockDentries) ≠ 0

/-- An entry in use matches the first component of a path: what follows that in the path. -/
def matchAt (fs : Fs) (dir : Nat) (path : Cursor) (index : Nat) : Option Cursor :=
  if (fs.dirEntry dir index).nr = 0 then none
  else matchName path (fs.dirEntry dir index).name

/-- The first entry that matches. -/
def firstMatch (fs : Fs) (dir : Nat) (path : Cursor) : Option Found :=
  (List.range (fs.entryCount dir)).findSome? fun index =>
    (fs.matchAt dir path index).map fun next => ⟨next, fs.slotRef dir index⟩

/-- A search that finds one item only. -/
theorem findSome?_of_only {α β : Type*} {items : List α} {search : α → Option β} {item : α}
    {value : β} (isItem : item ∈ items) (hit : search item = some value)
    (others : ∀ other ∈ items, other ≠ item → search other = none) :
    items.findSome? search = some value := by
  cases found : items.findSome? search with
  | none =>
      have missed := List.findSome?_eq_none_iff.mp found item isItem
      rw [hit] at missed
      cases missed
  | some result =>
      obtain ⟨other, inItems, same⟩ := List.exists_of_findSome?_eq_some found
      by_cases equal : other = item
      · rw [← same, equal, hit]
      · rw [others other inItems equal] at same
        cases same

theorem findSome?_congr {α β : Type*} {items : List α} {search other : α → Option β}
    (same : ∀ item ∈ items, search item = other item) :
    items.findSome? search = items.findSome? other := by
  induction items with
  | nil => rfl
  | cons item items inductionHypothesis =>
      rw [List.findSome?_cons, List.findSome?_cons, same item List.mem_cons_self,
        inductionHypothesis fun later inRest => same later (List.mem_cons_of_mem _ inRest)]

/-- The loop of `find_entry` finds the first entry that matches. -/
theorem Listed.searchEntries_eq (listed : fs.Listed dir) (path : Cursor) :
    fs.searchEntries dir path ((fs.desc dir).size / 16) 0 0 =
      .ok (fs.firstMatch dir path) := by
  rw [searchEntries_mapped (fun i below => listed.mapped i (by
    rw [Nat.zero_add] at below
    exact below)) fun other => absurd rfl other]
  unfold firstMatch
  rw [List.range_eq_range']
  congr 2
  funext index
  have isEntry : fs.entry (fs.slotRef dir index) = fs.dirEntry dir index := rfl
  rw [matchAt, isEntry]
  split
  · rfl
  · rfl

/-! ## Roots of mounted file systems -/

/-- `find_entry` goes on in the directory that the file system is mounted on. -/
def Leaves (fs : Fs) (dir : Nat) (path : Cursor) : Prop :=
  (matchName path dotDot).isSome ∧ (fs.inodeTable dir).nr = 1 ∧ dir ≠ rootInode

theorem leaveMount_stays (stays : ¬fs.Leaves dir path) :
    fs.leaveMount dir path = .ok (dir, fs) := by
  unfold leaveMount
  exact if_neg stays

theorem Listed.findEntry_eq (listed : fs.Listed dir) (stays : ¬fs.Leaves dir path) :
    fs.findEntry dir path = .ok (fs.firstMatch dir path, dir, fs) := by
  unfold findEntry
  rw [check_true listed.directory, ok_bind, leaveMount_stays stays, ok_bind]
  dsimp only
  rw [listed.searchEntries_eq, ok_bind, pure_eq_ok]

/-- Only paths that begin with `..` leave a file system. -/
theorem stays_of_first (text : Unterminated path) (other : first isSeparator path ≠ [46, 46]) :
    ¬fs.Leaves dir path := by
  rintro ⟨matches', _⟩
  have spells : Spells dotDot 0 [46, 46] := ⟨rfl, by decide, rfl, by decide, rfl⟩
  have plain : Plain isSeparator ([46, 46] : Cursor) := by decide
  have compare : matchName path dotDot = if first isSeparator path = [46, 46] then _ else none :=
    compareName_eq spells plain fun byte inSkipped =>
      text byte ((List.dropWhile_sublist isSeparator).mem inSkipped)
  rw [compare, if_neg other] at matches'
  cases matches'

/-- Replace the blocks of all devices. -/
def withDisk (disk : Volumes) (fs : Fs) : Fs :=
  { fs with disk := disk }

theorem putFreeInode_withDisk (disk : Volumes) (fs : Fs) (ino : Nat) :
    (fs.withDisk disk).putFreeInode ino = (fs.putFreeInode ino).map (withDisk disk) := by
  unfold putFreeInode
  cases check (ino ≠ rootInode) with
  | error fault => rfl
  | ok _ =>
      rw [ok_bind, ok_bind]
      change (check ((fs.inodeTable ino).count = 0) >>= _) = _
      cases check ((fs.inodeTable ino).count = 0) with
      | error fault => rfl
      | ok _ => rfl

theorem unlistInode_withDisk (disk : Volumes) (fs : Fs) (ino : Nat) :
    (fs.withDisk disk).unlistInode ino = (fs.unlistInode ino).map (withDisk disk) := by
  unfold unlistInode
  change (check (∃ sb ∈ List.range superNr, ino ∈ (fs.superTable sb).inodeList) >>= _) = _
  cases check (∃ sb ∈ List.range superNr, ino ∈ (fs.superTable sb).inodeList) with
  | error fault => rfl
  | ok _ => rfl

/-- `iput` does not look at the disks. -/
theorem iput_withDisk (disk : Volumes) (fs : Fs) (ino : Nat) :
    (fs.withDisk disk).iput ino = (fs.iput ino).map (withDisk disk) := by
  have released : (fs.withDisk disk).setCount ino (sub32 (fs.inodeTable ino).count 1) =
      (fs.setCount ino (sub32 (fs.inodeTable ino).count 1)).withDisk disk := rfl
  have table (before : Fs) : (before.withDisk disk).inodeTable = before.inodeTable := rfl
  unfold iput putPipeInode
  dsimp only
  rw [table, released, table]
  by_cases pipe : (fs.inodeTable ino).pipe
  · rw [if_pos pipe, if_pos pipe]
    split
    · rfl
    · exact putFreeInode_withDisk disk
        ((fs.setCount ino (sub32 (fs.inodeTable ino).count 1)).setInode ino _) ino
  · rw [if_neg pipe, if_neg pipe]
    split
    · rfl
    · rw [unlistInode_withDisk]
      cases (fs.setCount ino (sub32 (fs.inodeTable ino).count 1)).unlistInode ino with
      | error fault => rfl
      | ok unlisted => exact putFreeInode_withDisk disk unlisted ino

/-- A directory of a device whose blocks are as before is searched with the same result. -/
theorem searchEntries_withDisk {disk : Volumes} (path : Cursor)
    (same : ∀ number, disk (fs.inodeTable dir).dev number =
      fs.block (fs.inodeTable dir).dev number) (left index pcache : Nat) :
    (fs.withDisk disk).searchEntries dir path left index pcache =
      fs.searchEntries dir path left index pcache := by
  have alone : LeftAlone fs (fs.withDisk disk) dir := by
    refine ⟨rfl, ?_, fun number _ => same number⟩
    unfold desc
    exact congrArg (InodeDesc.read · _) (same _)
  have block (index pcache : Nat) :
      ((fs.withDisk disk).entryBlock dir index pcache false).map Prod.fst =
        (fs.entryBlock dir index pcache false).map Prod.fst := by
    unfold entryBlock
    split
    · by_cases inReach : index / blockDentries < totalBlocks
      · rw [bmap_false _ _ inReach, bmap_false _ _ inReach, alone.zoneOf inReach, ok_bind,
          ok_bind]
        dsimp only
        cases check (fs.zoneOf dir (index / blockDentries) ≠ 0) with
        | error fault => rfl
        | ok _ => rfl
      · rw [bmap_beyond _ _ _ inReach, bmap_beyond _ _ _ inReach]
    · rfl
  induction left generalizing index pcache with
  | zero => rfl
  | succ left inductionHypothesis =>
      have first := block index pcache
      rw [searchEntries, searchEntries]
      cases found : fs.entryBlock dir index pcache false with
      | error fault =>
          rw [found] at first
          cases moved : (fs.withDisk disk).entryBlock dir index pcache false with
          | error other =>
              rw [moved] at first
              exact congrArg Except.error (Except.error.inj first)
          | ok result =>
              rw [moved] at first
              cases first
      | ok result =>
          rw [found] at first
          cases moved : (fs.withDisk disk).entryBlock dir index pcache false with
          | error other =>
              rw [moved] at first
              cases first
          | ok other =>
              rw [moved] at first
              have sameBlock : other.1 = result.1 := Except.ok.inj first
              have entry : (fs.withDisk disk).entry ⟨(fs.inodeTable dir).dev, result.1,
                  16 * (index % blockDentries)⟩ =
                fs.entry ⟨(fs.inodeTable dir).dev, result.1, 16 * (index % blockDentries)⟩ :=
                congrArg (Dentry.read · _) (same _)
              have table : (fs.withDisk disk).inodeTable = fs.inodeTable := rfl
              rw [ok_bind, ok_bind]
              dsimp only
              rw [sameBlock, table, entry, inductionHypothesis]

/-- What `find_entry` returns, and the directory that it has come to. -/
def lookUp (fs : Fs) (dir : Nat) (path : Cursor) : Except Fault (Option Found × Nat) :=
  (fs.findEntry dir path).map fun result => (result.1, result.2.1)

/-- The inode that a file system is mounted on takes the place of its root. -/
def moveTo (fs : Fs) (dir mounted : Nat) : Except Fault (Nat × Fs) :=
  ((fs.setCount mounted (add32 (fs.inodeTable mounted).count 1)).iput dir).map
    fun left => (mounted, left)

theorem leaveMount_leaves (leaves : fs.Leaves dir path) (inodeDev : (fs.inodeTable dir).dev = dev)
    (found : fs.getSuper dev = some sb) :
    fs.leaveMount dir path =
      ((fs.superTable sb).imount.map fun mounted => fs.moveTo dir mounted).getD
        (.error .wild) := by
  have moves : (matchName path dotDot).isSome = true ∧ (fs.inodeTable dir).nr = 1 ∧
      dir ≠ rootInode := leaves
  unfold leaveMount
  dsimp only
  rw [if_pos moves, inodeDev, found]
  dsimp only
  cases (fs.superTable sb).imount with
  | none => rfl
  | some mounted =>
      dsimp only [Option.map_some, Option.getD_some]
      unfold moveTo
      cases (fs.setCount mounted (add32 (fs.inodeTable mounted).count 1)).iput dir with
      | error fault => rfl
      | ok left => rfl

theorem moveTo_withDisk (disk : Volumes) (fs : Fs) (dir mounted : Nat) :
    (fs.withDisk disk).moveTo dir mounted =
      (fs.moveTo dir mounted).map fun result => (result.1, result.2.withDisk disk) := by
  have released := iput_withDisk disk
    (fs.setCount mounted (add32 (fs.inodeTable mounted).count 1)) dir
  unfold moveTo
  change (((fs.setCount mounted (add32 (fs.inodeTable mounted).count 1)).withDisk
    disk).iput dir).map _ = _
  rw [released]
  cases (fs.setCount mounted (add32 (fs.inodeTable mounted).count 1)).iput dir with
  | error fault => rfl
  | ok left => rfl

/-- A path that leaves a file system is looked up as before when only blocks of the device
have changed. -/
theorem lookUp_leaves {disk : Volumes} (leaves : fs.Leaves dir path)
    (inodeDev : (fs.inodeTable dir).dev = dev) (found : fs.getSuper dev = some sb)
    (outside : ∀ mounted, (fs.superTable sb).imount = some mounted →
      (fs.inodeTable mounted).dev ≠ dev)
    (others : ∀ otherDev ≠ dev, ∀ number, disk otherDev number = fs.block otherDev number)
    (directory : isDir (fs.desc dir).mode)
    (stillDirectory : isDir ((fs.withDisk disk).desc dir).mode) :
    (fs.withDisk disk).lookUp dir path = fs.lookUp dir path := by
  have alsoLeaves : (fs.withDisk disk).Leaves dir path := leaves
  have alsoDev : ((fs.withDisk disk).inodeTable dir).dev = dev := inodeDev
  have alsoFound : (fs.withDisk disk).getSuper dev = some sb := found
  have alsoMount : (fs.withDisk disk).superTable = fs.superTable := rfl
  unfold lookUp findEntry
  rw [check_true directory, check_true stillDirectory, ok_bind, ok_bind,
    leaveMount_leaves leaves inodeDev found, leaveMount_leaves alsoLeaves alsoDev alsoFound,
    alsoMount]
  cases isMount : (fs.superTable sb).imount with
  | none => rfl
  | some mounted =>
      dsimp only [Option.map_some, Option.getD_some]
      rw [moveTo_withDisk]
      cases moved : fs.moveTo dir mounted with
      | error fault => rfl
      | ok result =>
          obtain ⟨place, left⟩ := result
          have elsewhere : (left.inodeTable place).dev ≠ dev ∧ left.block = fs.block := by
            unfold moveTo at moved
            cases released : (fs.setCount mounted
                (add32 (fs.inodeTable mounted).count 1)).iput dir with
            | error fault =>
                rw [released] at moved
                cases moved
            | ok after =>
                rw [released] at moved
                cases moved
                have apart : mounted ≠ dir := by
                  rintro rfl
                  exact outside _ isMount inodeDev
                obtain ⟨only, inodes, _⟩ := iput_tablesOnly released
                refine ⟨?_, only.block⟩
                rw [inodes mounted apart, setCount, setInode_inodeTable, Function.update_self]
                exact outside mounted isMount
          have blocks (number : Nat) : disk (left.inodeTable place).dev number =
              left.block (left.inodeTable place).dev number := by
            rw [elsewhere.2]
            exact others _ elsewhere.1 number
          have isDesc : (left.withDisk disk).desc place = left.desc place := by
            unfold desc
            exact congrArg (InodeDesc.read · _) (blocks _)
          change ((left.withDisk disk).searchEntries place path
            (((left.withDisk disk).desc place).size / 16) 0 0 >>= _).map _ = _
          rw [isDesc, searchEntries_withDisk path blocks]
          dsimp only [ok_bind]
          cases left.searchEntries place path ((left.desc place).size / 16) 0 0 with
          | error fault => rfl
          | ok found => rfl

/-! ## Changes of one entry -/

/-- In the block of an inode and in the block of an entry only the entry and a part of the
descriptor have changed. -/
structure Rewritten (before after : Fs) (dev dir : Nat) (ref : EntryRef) : Prop where
  inodeTable : after.inodeTable = before.inodeTable
  superTable : after.superTable = before.superTable
  time : after.time = before.time
  zone : (after.desc dir).zone = (before.desc dir).zone
  mode : (after.desc dir).mode = (before.desc dir).mode
  entry : ChangesIn (before.block dev ref.block) (after.block dev ref.block) ref.address 16
  frame : ∀ otherDev number,
    ¬(otherDev = dev ∧ (number = (before.inodeTable dir).block ∨ number = ref.block)) →
    after.block otherDev number = before.block otherDev number

/-- An entry of a directory lies on its device, and not in the block of the inode. -/
structure Apart (fs : Fs) (dev dir : Nat) (ref : EntryRef) : Prop where
  inodeDev : (fs.inodeTable dir).dev = dev
  refDev : ref.dev = dev
  block : (fs.inodeTable dir).block ≠ ref.block

section Changes

variable {before middle after : Fs}

theorem Rewritten.refl (fs : Fs) (dev dir : Nat) (ref : EntryRef) :
    Rewritten fs fs dev dir ref :=
  ⟨rfl, rfl, rfl, rfl, rfl, .refl _ _ _, fun _ _ _ => rfl⟩

theorem Rewritten.trans (first : Rewritten before middle dev dir ref)
    (second : Rewritten middle after dev dir ref) : Rewritten before after dev dir ref where
  inodeTable := second.inodeTable.trans first.inodeTable
  superTable := second.superTable.trans first.superTable
  time := second.time.trans first.time
  zone := second.zone.trans first.zone
  mode := second.mode.trans first.mode
  entry := first.entry.trans second.entry
  frame := by
    intro otherDev number outside
    rw [second.frame otherDev number (by rw [first.inodeTable]; exact outside),
      first.frame otherDev number outside]

theorem Apart.of_rewritten (apart : Apart before dev dir ref)
    (rewritten : Rewritten before after dev dir ref) : Apart after dev dir ref where
  inodeDev := by
    rw [rewritten.inodeTable]
    exact apart.inodeDev
  refDev := apart.refDev
  block := by
    rw [rewritten.inodeTable]
    exact apart.block

theorem modifyEntry_desc (apart : Apart before dev dir ref) (change : Memory → Nat → Memory) :
    (before.modifyEntry ref change).desc dir = before.desc dir :=
  writeBlock_desc before _ apart.block

theorem modifyEntry_entry (before : Fs) (ref : EntryRef) (change : Memory → Nat → Memory) :
    (before.modifyEntry ref change).entry ref =
      Dentry.read (change (before.block ref.dev ref.block) ref.address) ref.address := by
  unfold entry modifyEntry
  rw [writeBlock_block_self]

theorem modifyDesc_entry (apart : Apart before dev dir ref) (change : Memory → Nat → Memory) :
    (before.modifyDesc dir change).entry ref = before.entry ref := by
  unfold entry
  rw [modifyDesc_block_other _ _ _ fun same => apart.block same.2.symm]

/-- A change of the entry. -/
theorem Rewritten.modifyEntry (apart : Apart before dev dir ref)
    {change : Memory → Nat → Memory} (confined : Dentry.Confined change) :
    Rewritten before (before.modifyEntry ref change) dev dir ref := by
  have sameDesc := modifyEntry_desc apart change
  refine ⟨rfl, rfl, rfl, by rw [sameDesc], by rw [sameDesc], ?_, ?_⟩
  · unfold Fs.modifyEntry
    rw [apart.refDev, writeBlock_block_self]
    exact confined _ _
  · intro otherDev number outside
    apply writeBlock_block_other
    rw [apart.refDev]
    exact fun same => outside ⟨same.1, .inr same.2⟩

/-- A change of the descriptor that keeps the mode and the zones. -/
theorem Rewritten.modifyDesc (apart : Apart before dev dir ref)
    {change : Memory → Nat → Memory}
    (zone : ((before.modifyDesc dir change).desc dir).zone = (before.desc dir).zone)
    (mode : ((before.modifyDesc dir change).desc dir).mode = (before.desc dir).mode) :
    Rewritten before (before.modifyDesc dir change) dev dir ref := by
  refine ⟨rfl, rfl, rfl, zone, mode, ?_, ?_⟩
  · rw [modifyDesc_block_other _ _ _ fun same => apart.block same.2.symm]
    exact .refl _ _ _
  · intro otherDev number outside
    apply modifyDesc_block_other
    rw [apart.inodeDev]
    exact fun same => outside ⟨same.1, .inl same.2⟩

end Changes

section Slots

variable {grown after : Fs}

/-- A new entry lies in a zone of the directory. -/
theorem Charted.apart (charted : grown.Charted dev sb dir)
    (inReach : index / blockDentries < totalBlocks)
    (mapped : grown.zoneOf dir (index / blockDentries) ≠ 0) :
    Apart grown dev dir (grown.slotRef dir index) where
  inodeDev := charted.inodeDev
  refDev := charted.inodeDev
  block := by
    have before := charted.beforeZones
    have isPointer : grown.zoneOf dir (index / blockDentries) =
        grown.pointer dir (.ofBlock ⟨index / blockDentries, inReach⟩) :=
      grown.zoneOf_eq_pointer dir ⟨index / blockDentries, inReach⟩
    have above := (charted.used _ (isPointer ▸ mapped)).2.1
    change (grown.inodeTable dir).block ≠ grown.zoneOf dir (index / blockDentries)
    omega

/-- A change of an entry keeps the pointers of the directory. -/
theorem Rewritten.pointer (charted : grown.Charted dev sb dir)
    (inReach : index / blockDentries < totalBlocks)
    (rewritten : Rewritten grown after dev dir (grown.slotRef dir index)) (place : Place) :
    after.pointer dir place = grown.pointer dir place := by
  have isPointer := grown.zoneOf_eq_pointer dir ⟨index / blockDentries, inReach⟩
  induction place using Place.child_induction with
  | slots slot => exact congrFun rewritten.zone slot
  | children parent i isIndex inductionHypothesis =>
      rw [after.pointer_child dir isIndex, grown.pointer_child dir isIndex,
        rewritten.inodeTable, charted.inodeDev, inductionHypothesis]
      by_cases hollow : grown.pointer dir parent = 0
      · rw [hollow]
        rfl
      · have before := charted.beforeZones
        have above := (charted.used parent hollow).2.1
        rw [follow, follow, if_neg hollow, if_neg hollow]
        unfold indexAt
        rw [rewritten.frame]
        rintro ⟨_, inTable | inData⟩
        · omega
        · have same : grown.pointer dir parent = grown.pointer dir _ := inData.trans isPointer
          have isParent := charted.distinct _ _ hollow same
          rw [isParent] at isIndex
          exact Place.not_isIndex_ofBlock _ isIndex

theorem Rewritten.zoneOf (charted : grown.Charted dev sb dir)
    (inReach : index / blockDentries < totalBlocks)
    (rewritten : Rewritten grown after dev dir (grown.slotRef dir index)) {block : Nat}
    (alsoInReach : block < totalBlocks) :
    after.zoneOf dir block = grown.zoneOf dir block := by
  have isAfter := after.zoneOf_eq_pointer dir ⟨block, alsoInReach⟩
  have isGrown := grown.zoneOf_eq_pointer dir ⟨block, alsoInReach⟩
  rw [isAfter, isGrown]
  exact rewritten.pointer charted inReach _

/-- A change of an entry keeps the others, if no name runs into it. -/
theorem Rewritten.dirEntry (charted : grown.Charted dev sb dir)
    (inReach : index / blockDentries < totalBlocks)
    (rewritten : Rewritten grown after dev dir (grown.slotRef dir index))
    (different : other ≠ index) (otherInReach : other / blockDentries < totalBlocks)
    (otherMapped : grown.zoneOf dir (other / blockDentries) ≠ 0)
    (ends : index % blockDentries ≠ 0 → ¬(grown.dirEntry dir (index - 1)).Full) :
    (after.dirEntry dir other).nr = (grown.dirEntry dir other).nr ∧
      (after.dirEntry dir other).text = (grown.dirEntry dir other).text ∧
        ∀ path, Unterminated path → matchName path (after.dirEntry dir other).name =
          matchName path (grown.dirEntry dir other).name := by
  have isGrown (place : Nat) : grown.dirEntry dir place = Dentry.read
      (grown.block dev (grown.zoneOf dir (place / blockDentries)))
      (16 * (place % blockDentries)) := by
    unfold Fs.dirEntry Fs.entry
    rw [charted.inodeDev]
  have isAfter : after.dirEntry dir other = Dentry.read
      (after.block dev (grown.zoneOf dir (other / blockDentries)))
      (16 * (other % blockDentries)) := by
    unfold Fs.dirEntry Fs.entry
    rw [rewritten.inodeTable, charted.inodeDev,
      rewritten.zoneOf charted inReach otherInReach]
  rw [isAfter, isGrown]
  by_cases sameZone : grown.zoneOf dir (other / blockDentries) =
      grown.zoneOf dir (index / blockDentries)
  · have isPointer := grown.zoneOf_eq_pointer dir ⟨index / blockDentries, inReach⟩
    have isOther := grown.zoneOf_eq_pointer dir ⟨other / blockDentries, otherInReach⟩
    have samePlace := charted.distinct _ _ (isOther ▸ otherMapped)
      (isOther.symm.trans (sameZone.trans isPointer))
    have sameBlock : other / blockDentries = index / blockDentries :=
      congrArg Fin.val (Place.ofBlock_injective samePlace)
    have first := Nat.div_add_mod other blockDentries
    have second := Nat.div_add_mod index blockDentries
    rw [sameBlock] at first
    have changes : ChangesIn (grown.block dev (grown.zoneOf dir (other / blockDentries)))
        (after.block dev (grown.zoneOf dir (other / blockDentries)))
        (16 * (index % blockDentries)) 16 := by
      rw [sameZone]
      exact rewritten.entry
    have same : Memory.AgreeOn _ _ (16 * (other % blockDentries)) 16 := changes.agreeOn (by omega)
    refine ⟨(same.mono (by omega) (by omega)).half_eq,
      Dentry.text_congr (same.mono (by omega) (by simp only [nameLen]; omega)),
      fun path text => Dentry.matchName_changesIn text changes ?_⟩
    rcases Nat.lt_or_gt_of_ne different with before | behind
    · right
      -- the entry in front of the changed one has a terminator, and so has every run into it
      have begins : index % blockDentries ≠ 0 := by omega
      have unfilled := ends begins
      have inBlock : (index - 1) / blockDentries = index / blockDentries := by
        simp only [blockDentries, blockSize] at begins ⊢
        omega
      have isBefore : (index - 1) % blockDentries = index % blockDentries - 1 := by
        simp only [blockDentries, blockSize] at begins ⊢
        omega
      rw [isGrown, inBlock, ← sameZone, isBefore] at unfilled
      unfold Dentry.Full at unfilled
      push Not at unfilled
      obtain ⟨last, inField, isZero⟩ := unfilled
      change grown.block dev _ (16 * (index % blockDentries - 1) + 2 + last) = 0 at isZero
      simp only [nameLen] at inField
      refine ⟨16 * (index % blockDentries - 1 - other % blockDentries) + last, by omega, ?_⟩
      rw [← isZero]
      congr 1
      omega
    · left
      omega
  · rw [rewritten.frame]
    · exact ⟨rfl, rfl, fun _ _ => rfl⟩
    · have otherBlock := (charted.apart otherInReach otherMapped).block
      rintro ⟨_, inTable | inData⟩
      · exact otherBlock inTable.symm
      · exact sameZone inData

end Slots

/-! ## Insertion -/

/-- A directory in the inode table of a device: it owns its zones.  If it is the root of a
mounted file system, that is mounted on another device. -/
structure Catalog (fs : Fs) (dev sb dir : Nat) : Prop
    extends Charted fs dev sb dir, Directory fs dir where
  whole : 16 ∣ (fs.desc dir).size
  outside : (fs.inodeTable dir).nr = 1 → dir ≠ rootInode →
    ∀ mounted, (fs.superTable sb).imount = some mounted → (fs.inodeTable mounted).dev ≠ dev

theorem Catalog.listed (catalog : fs.Catalog dev sb dir) : fs.Listed dir :=
  ⟨catalog.directory, catalog.mapped⟩

/-- A name without separators. -/
structure FileName (name : Cursor) : Prop where
  notEmpty : name ≠ []
  plain : Plain isSeparator name
  text : Unterminated name

/-- No entry in use matches a name. -/
def Absent (fs : Fs) (dir : Nat) (name : Cursor) : Prop :=
  ∀ index < fs.entryCount dir, fs.matchAt dir name index = none

/-- An entry is in use and has a name. -/
def Has (fs : Fs) (dir : Nat) (name : Cursor) (index : Nat) : Prop :=
  (fs.dirEntry dir index).nr ≠ 0 ∧ (fs.dirEntry dir index).text = name

/-- No two entries in use have the same name. -/
def NoDuplicates (fs : Fs) (dir : Nat) : Prop :=
  ∀ first < fs.entryCount dir, ∀ second < fs.entryCount dir, ∀ name,
    fs.Has dir name first → fs.Has dir name second → first = second

/-- The entry that `add_entry` fills: the first that is not in use, or a new one. -/
structure FirstUnused (fs : Fs) (dir index : Nat) : Prop where
  atMost : index ≤ fs.entryCount dir
  used : ∀ other < index, (fs.dirEntry dir other).nr ≠ 0
  unused : index < fs.entryCount dir → (fs.dirEntry dir index).nr = 0

/-- No name runs into the entry that `add_entry` fills, and none out of its block: the entry
in use in front of it, and those at the ends of blocks, have a terminator. -/
def Bounded (fs : Fs) (dir : Nat) : Prop :=
  ∀ index < fs.entryCount dir, (fs.dirEntry dir index).nr ≠ 0 →
    fs.FirstUnused dir (index + 1) ∨ (index + 1) % blockDentries = 0 →
      ¬(fs.dirEntry dir index).Full

/-- A name has been inserted: `find_entry` finds its entry and all other names as before,
and `add_entry` finds the entry again. -/
structure Inserted (fs after : Fs) (dir : Nat) (name : Cursor) (ref : EntryRef) : Prop where
  found : after.findEntry dir name = .ok (some ⟨[], ref⟩, dir, after)
  others : ∀ path, Unterminated path → first isSeparator path ≠ name →
    after.lookUp dir path = fs.lookUp dir path
  again : after.addEntry dir name = .ok (ref, after)
  distinct : fs.NoDuplicates dir → after.NoDuplicates dir

/-- An entry of a directory has been filled in, with a number and a text. -/
structure Filled (fs after : Fs) (dev dir index nr : Nat) (text : Cursor) : Prop where
  unclaimed : fs.FirstUnused dir index
  inodeTable : after.inodeTable = fs.inodeTable
  superTable : after.superTable = fs.superTable
  time : after.time = fs.time
  disk : ∀ otherDev ≠ dev, after.block otherDev = fs.block otherDev
  directory : isDir (after.desc dir).mode
  count : after.entryCount dir = max (fs.entryCount dir) (index + 1)
  mapped : index / blockDentries < totalBlocks ∧ after.zoneOf dir (index / blockDentries) ≠ 0
  zones : ∀ other < fs.entryCount dir,
    after.zoneOf dir (other / blockDentries) = fs.zoneOf dir (other / blockDentries)
  entries : ∀ other < fs.entryCount dir, other ≠ index →
    (after.dirEntry dir other).nr = (fs.dirEntry dir other).nr ∧
      (after.dirEntry dir other).text = (fs.dirEntry dir other).text ∧
        ∀ path, Unterminated path → matchName path (after.dirEntry dir other).name =
          matchName path (fs.dirEntry dir other).name
  isNr : (after.dirEntry dir index).nr = nr
  isText : (after.dirEntry dir index).text = text

section Lookups

variable {after : Fs} {nr : Nat} {name : Cursor}

/-- An absent name does not leave a mounted file system: there is an entry for `..`. -/
theorem Catalog.ne_dotDot (catalog : fs.Catalog dev sb dir) (absent : fs.Absent dir name) :
    name ≠ [46, 46] := by
  rintro rfl
  have two := catalog.two
  obtain ⟨live, bytes⟩ := catalog.dotDot
  have spells : Spells (fs.dirEntry dir 1).name 0 [46, 46] :=
    ⟨bytes 0 (by decide), by decide, bytes 1 (by decide), by decide, bytes 2 (by decide)⟩
  have matches' : matchName [46, 46] (fs.dirEntry dir 1).name = _ :=
    compareName_eq spells (by decide) (by decide)
  have missed := absent 1 (by omega)
  rw [matchAt, if_neg live, matches'] at missed
  cases missed

theorem Catalog.stays (catalog : fs.Catalog dev sb dir) (isName : FileName name)
    (absent : fs.Absent dir name) : ¬fs.Leaves dir name := by
  apply stays_of_first isName.text
  rw [plain_first isName.plain]
  exact catalog.ne_dotDot absent

/-- `find_entry` does not find an absent name. -/
theorem Catalog.findEntry_absent (catalog : fs.Catalog dev sb dir) (isName : FileName name)
    (absent : fs.Absent dir name) : fs.findEntry dir name = .ok (none, dir, fs) := by
  have missed : fs.firstMatch dir name = none := by
    unfold firstMatch
    rw [List.findSome?_eq_none_iff]
    intro index inRange
    rw [absent index (List.mem_range.mp inRange)]
    rfl
  rw [catalog.listed.findEntry_eq (catalog.stays isName absent), missed]

/-- The only entry that is new is the one that has been filled in. -/
theorem Filled.old (filled : Filled fs after dev dir index nr name)
    (inside : other < after.entryCount dir) (different : other ≠ index) :
    other < fs.entryCount dir := by
  have atMost := filled.unclaimed.atMost
  rw [filled.count] at inside
  omega

theorem Filled.inside (filled : Filled fs after dev dir index nr name) :
    index < after.entryCount dir := by
  rw [filled.count]
  omega

theorem Filled.listed (catalog : fs.Catalog dev sb dir)
    (filled : Filled fs after dev dir index nr name) : after.Listed dir := by
  refine ⟨filled.directory, fun other inside => ?_⟩
  by_cases same : other = index
  · rw [same]
    exact filled.mapped
  · have old := filled.old inside same
    rw [filled.zones other old]
    exact catalog.mapped other old

/-- The filled entry matches the paths that begin with its name. -/
theorem Filled.matchAt_self (filled : Filled fs after dev dir index nr name)
    (isName : FileName name) (short : name.length < nameLen) (notZero : nr ≠ 0)
    (text : Unterminated path) :
    after.matchAt dir path index =
      if first isSeparator path = name then some (rest isSeparator path) else none := by
  have named : (after.dirEntry dir index).Named := by
    refine ⟨?_, ?_, ?_⟩
    · rw [filled.isText]
      exact short
    · rw [filled.isText]
      exact isName.notEmpty
    · rw [filled.isText]
      exact isName.plain
  rw [matchAt, filled.isNr, if_neg notZero, matchName_eq named text, filled.isText]

/-- The others match what they matched. -/
theorem Filled.matchAt_other (filled : Filled fs after dev dir index nr name)
    (text : Unterminated path) (old : other < fs.entryCount dir) (different : other ≠ index) :
    after.matchAt dir path other = fs.matchAt dir path other := by
  obtain ⟨sameNr, _, same⟩ := filled.entries other old different
  rw [matchAt, matchAt, sameNr, same path text]

/-- The new name is found in its entry. -/
theorem Filled.firstMatch_self (filled : Filled fs after dev dir index nr name)
    (isName : FileName name) (short : name.length < nameLen) (notZero : nr ≠ 0)
    (absent : fs.Absent dir name) :
    after.firstMatch dir name = some ⟨[], after.slotRef dir index⟩ := by
  refine findSome?_of_only (List.mem_range.mpr filled.inside) ?_ fun other inRange different => ?_
  · rw [filled.matchAt_self isName short notZero isName.text, plain_first isName.plain,
      if_pos rfl, plain_rest isName.plain]
    rfl
  · have old := filled.old (List.mem_range.mp inRange) different
    rw [filled.matchAt_other isName.text old different, absent other old]
    rfl

theorem Filled.slotRef (filled : Filled fs after dev dir index nr name)
    (old : other < fs.entryCount dir) : after.slotRef dir other = fs.slotRef dir other := by
  unfold Fs.slotRef
  rw [filled.inodeTable, filled.zones other old]

/-- Other paths are found in the entries they were found in. -/
theorem Filled.firstMatch_other (filled : Filled fs after dev dir index nr name)
    (isName : FileName name) (short : name.length < nameLen) (notZero : nr ≠ 0)
    (text : Unterminated path) (different : first isSeparator path ≠ name) :
    after.firstMatch dir path = fs.firstMatch dir path := by
  have missed := filled.matchAt_self isName short notZero text
  rw [if_neg different] at missed
  have same (place : Nat) (old : place < fs.entryCount dir) :
      (after.matchAt dir path place).map (Found.mk · (after.slotRef dir place)) =
        (fs.matchAt dir path place).map (Found.mk · (fs.slotRef dir place)) := by
    rw [filled.slotRef old]
    by_cases isIndex : place = index
    · rw [isIndex] at old ⊢
      rw [missed, matchAt, if_pos (filled.unclaimed.unused old)]
    · rw [filled.matchAt_other text old isIndex]
  have grows : fs.entryCount dir ≤ after.entryCount dir := by
    rw [filled.count]
    exact Nat.le_max_left _ _
  obtain ⟨more, isCount⟩ := Nat.exists_eq_add_of_le grows
  have back : ((List.range more).map (fs.entryCount dir + ·)).findSome? (fun place =>
      (after.matchAt dir path place).map (Found.mk · (after.slotRef dir place))) = none := by
    rw [List.findSome?_eq_none_iff]
    intro place inRange
    obtain ⟨offset, inMore, rfl⟩ := List.mem_map.mp inRange
    have below := List.mem_range.mp inMore
    have isIndex : fs.entryCount dir + offset = index := by
      by_contra other
      have old := filled.old (by omega) other
      omega
    rw [isIndex, missed]
    rfl
  unfold firstMatch
  rw [isCount, List.range_add, List.findSome?_append, back, Option.or_none]
  exact findSome?_congr fun place inRange => same place (List.mem_range.mp inRange)

/-- Only the disk is another one. -/
theorem Filled.withDisk (filled : Filled fs after dev dir index nr name) :
    after = fs.withDisk after.disk := by
  have sameInodes := filled.inodeTable
  have sameSupers := filled.superTable
  have sameTime := filled.time
  cases after
  cases fs
  dsimp only at sameInodes sameSupers sameTime
  rw [Fs.withDisk, sameInodes, sameSupers, sameTime]

/-- Other paths are looked up with the same result. -/
theorem Filled.lookUp_other (catalog : fs.Catalog dev sb dir)
    (filled : Filled fs after dev dir index nr name) (isName : FileName name)
    (short : name.length < nameLen) (notZero : nr ≠ 0) (text : Unterminated path)
    (different : first isSeparator path ≠ name) : after.lookUp dir path = fs.lookUp dir path := by
  by_cases leaves : fs.Leaves dir path
  · have directory := filled.directory
    have others (otherDev : Nat) (other : otherDev ≠ dev) (number : Nat) :
        after.disk otherDev number = fs.block otherDev number :=
      congrFun (filled.disk otherDev other) number
    rw [filled.withDisk] at directory ⊢
    exact lookUp_leaves leaves catalog.inodeDev catalog.found
      (catalog.outside leaves.2.1 leaves.2.2) others catalog.directory directory
  · have alsoStays : ¬after.Leaves dir path := by
      unfold Leaves
      rw [filled.inodeTable]
      exact leaves
    unfold lookUp
    rw [(filled.listed catalog).findEntry_eq alsoStays, catalog.listed.findEntry_eq leaves,
      filled.firstMatch_other isName short notZero text different]
    rfl

/-- An absent name is the name of no entry. -/
theorem Absent.not_has (absent : fs.Absent dir name) (isName : FileName name)
    (short : name.length < nameLen) {place : Nat} (inside : place < fs.entryCount dir) :
    ¬fs.Has dir name place := by
  rintro ⟨live, isText⟩
  have named : (fs.dirEntry dir place).Named := by
    refine ⟨?_, ?_, ?_⟩
    · rw [isText]
      exact short
    · rw [isText]
      exact isName.notEmpty
    · rw [isText]
      exact isName.plain
  have missed := absent place inside
  rw [matchAt, if_neg live, matchName_eq named isName.text, plain_first isName.plain,
    if_pos isText.symm] at missed
  cases missed

/-- A short name has been inserted when its entry has been filled in. -/
theorem Filled.inserted (catalog : fs.Catalog dev sb dir)
    (filled : Filled fs after dev dir index nr name) (isName : FileName name)
    (short : name.length < nameLen) (notZero : nr ≠ 0) (absent : fs.Absent dir name) :
    Inserted fs after dir name (after.slotRef dir index) := by
  have stays : ¬after.Leaves dir name := by
    apply stays_of_first isName.text
    rw [plain_first isName.plain]
    exact catalog.ne_dotDot absent
  have found : after.findEntry dir name =
      .ok (some ⟨[], after.slotRef dir index⟩, dir, after) := by
    rw [(filled.listed catalog).findEntry_eq stays,
      filled.firstMatch_self isName short notZero absent]
  refine ⟨found, fun path text different =>
    filled.lookUp_other catalog isName short notZero text different, ?again, ?distinct⟩
  case again =>
    unfold addEntry
    rw [found]
    rfl
  case distinct =>
    have older {place : Nat} {other : Cursor} (inside : place < after.entryCount dir)
        (different : place ≠ index) (has : after.Has dir other place) :
        place < fs.entryCount dir ∧ fs.Has dir other place := by
      have old := filled.old inside different
      obtain ⟨sameNr, sameText, _⟩ := filled.entries place old different
      rw [Has, sameNr, sameText] at has
      exact ⟨old, has⟩
    have notNew {place : Nat} (inside : place < after.entryCount dir) (different : place ≠ index)
        {other : Cursor} (hasOther : after.Has dir other place)
        (hasNew : after.Has dir other index) : False := by
      obtain ⟨old, has⟩ := older inside different hasOther
      rw [← hasNew.2, filled.isText] at has
      exact absent.not_has isName short old has
    intro noDuplicates first firstInside second secondInside other hasFirst hasSecond
    by_cases isFirst : first = index
    · by_cases isSecond : second = index
      · rw [isFirst, isSecond]
      · exact (notNew secondInside isSecond hasSecond (isFirst ▸ hasFirst)).elim
    · by_cases isSecond : second = index
      · exact (notNew firstInside isFirst hasFirst (isSecond ▸ hasSecond)).elim
      · obtain ⟨firstOld, hadFirst⟩ := older firstInside isFirst hasFirst
        obtain ⟨secondOld, hadSecond⟩ := older secondInside isSecond hasSecond
        exact noDuplicates first firstOld second secondOld other hadFirst hadSecond

end Lookups

/-! ## The loop of `add_entry` -/

/-- The directory has an entry that is not in use or a block for one more, or `bmap` gives it
one: enough zones are free, and those that become index blocks hold zeros. -/
def Room (fs : Fs) (dev dir : Nat) : Prop :=
  (∀ index < fs.entryCount dir, (fs.dirEntry dir index).nr ≠ 0) →
    ∀ block : Fin totalBlocks, block.val * blockDentries = fs.entryCount dir →
      fs.zoneOf dir block = 0 →
        fs.Remain dev (fs.missing dir ((Place.ofBlock block).above ++ [.ofBlock block])) ∧
          fs.ZerosFirst dev (fs.missing dir (Place.ofBlock block).above)

/-- There is a block for an entry of a directory. -/
structure Extended (fs grown : Fs) (dev sb dir index : Nat) : Prop
    extends Kept fs grown dev dir where
  charted : grown.Charted dev sb dir
  hasBlock : index / blockDentries < totalBlocks ∧
    grown.zoneOf dir (index / blockDentries) ≠ 0
  zones : ∀ other < fs.entryCount dir,
    grown.zoneOf dir (other / blockDentries) = fs.zoneOf dir (other / blockDentries)

section Loop

variable {grown : Fs} {name : Cursor}

/-- The entries that are there have blocks. -/
theorem Catalog.extended (catalog : fs.Catalog dev sb dir)
    (hasBlock : index / blockDentries < totalBlocks ∧
      fs.zoneOf dir (index / blockDentries) ≠ 0) : Extended fs fs dev sb dir index :=
  ⟨.refl _ _ _, catalog.toCharted, hasBlock, fun _ _ => rfl⟩

/-- Two blocks that differ have the zones that they had. -/
theorem Grown.zoneOf {target : Place} (grows : Grown fs grown dir target) {block : Nat}
    (inReach : block < totalBlocks) (mapped : fs.zoneOf dir block ≠ 0) :
    grown.zoneOf dir block = fs.zoneOf dir block := by
  have isPointer : fs.zoneOf dir block = fs.pointer dir (.ofBlock ⟨block, inReach⟩) :=
    fs.zoneOf_eq_pointer dir ⟨block, inReach⟩
  have isGrown : grown.zoneOf dir block = grown.pointer dir (.ofBlock ⟨block, inReach⟩) :=
    grown.zoneOf_eq_pointer dir ⟨block, inReach⟩
  rw [isGrown, isPointer]
  exact grows.kept _ (isPointer ▸ mapped)

/-- `add_entry` comes to a block for one more entry. -/
theorem Catalog.entryBlock_last (catalog : fs.Catalog dev sb dir) (room : fs.Room dev dir)
    {nr : Nat} (used : ∀ index < fs.entryCount dir, (fs.dirEntry dir index).nr ≠ 0)
    (cached : fs.entryCount dir % blockDentries ≠ 0 →
      pcache = fs.zoneOf dir (fs.entryCount dir / blockDentries))
    (taken : fs.entryBlock dir (fs.entryCount dir) pcache true = .ok (nr, grown)) :
    Extended fs grown dev sb dir (fs.entryCount dir) ∧
      nr = grown.zoneOf dir (fs.entryCount dir / blockDentries) := by
  by_cases begins : fs.entryCount dir % blockDentries = 0
  · unfold entryBlock at taken
    rw [if_pos begins, bind_eq_ok] at taken
    obtain ⟨⟨zone, mapped⟩, maps, rest⟩ := taken
    simp only [bind_eq_ok, check_eq_ok] at rest
    obtain ⟨_, notZero, same⟩ := rest
    cases same
    have inReach := bmap_block_lt maps
    by_cases empty : fs.zoneOf dir (fs.entryCount dir / blockDentries) = 0
    · have isCount : fs.entryCount dir / blockDentries * blockDentries = fs.entryCount dir := by
        have divided := Nat.div_add_mod (fs.entryCount dir) blockDentries
        rw [begins, Nat.add_zero, Nat.mul_comm] at divided
        exact divided
      obtain ⟨remain, zeros⟩ := room used ⟨_, inReach⟩ isCount empty
      obtain ⟨nr, grown, call, charted, grows, isZone, hasZone, kept⟩ :=
        bmap_grows ⟨_, inReach⟩ catalog.toCharted remain zeros
      obtain ⟨rfl, rfl⟩ := Prod.mk.inj (Except.ok.inj (call.symm.trans maps))
      have isPointer : grown.zoneOf dir (fs.entryCount dir / blockDentries) = nr :=
        (grown.zoneOf_eq_pointer dir ⟨_, inReach⟩).trans isZone
      refine ⟨⟨kept, charted, ⟨inReach, ?_⟩, fun other old => ?_⟩, isPointer.symm⟩
      · rw [isPointer]
        exact notZero
      · obtain ⟨otherInReach, otherMapped⟩ := catalog.mapped other old
        exact grows.zoneOf otherInReach otherMapped
    · have found := fs.bmap_mapped true inReach empty
      obtain ⟨rfl, rfl⟩ := Prod.mk.inj (Except.ok.inj (found.symm.trans maps))
      exact ⟨catalog.extended ⟨inReach, empty⟩, rfl⟩
  · have two := catalog.two
    have before := catalog.mapped (fs.entryCount dir - 1) (by omega)
    have sameBlock : (fs.entryCount dir - 1) / blockDentries =
        fs.entryCount dir / blockDentries := by
      simp only [blockDentries, blockSize] at begins ⊢
      omega
    rw [sameBlock] at before
    have found := entryBlock_mapped true before cached
    obtain ⟨rfl, rfl⟩ := Prod.mk.inj (Except.ok.inj (found.symm.trans taken))
    exact ⟨catalog.extended before, rfl⟩

/-- A block behind the last entry becomes part of the directory. -/
def prepare (fs : Fs) (dir index : Nat) (ref : EntryRef) : Fs :=
  if (fs.desc dir).size ≤ index * 16 then
    (fs.modifyEntry ref (Dentry.setNr 0)).modifyDesc dir (InodeDesc.setSize ((index + 1) * 16))
  else
    fs

/-- An entry gets a name. -/
def putName (fs : Fs) (dir : Nat) (ref : EntryRef) (name : Cursor) : Fs :=
  (fs.modifyEntry ref (copyName name)).modifyDesc dir (InodeDesc.setMtime fs.time)

theorem claimEntry_succ (fs : Fs) (dir : Nat) (name : Cursor) (left i pcache : Nat) :
    claimEntry dir name (left + 1) fs i pcache =
      (fs.entryBlock dir i pcache true >>= fun (block, grown) =>
        let ref : EntryRef := ⟨(grown.inodeTable dir).dev, block, 16 * (i % blockDentries)⟩
        let fs := grown.prepare dir i ref
        if (fs.entry ref).nr ≠ 0 then claimEntry dir name left fs (i + 1) block
        else .ok (ref, fs.putName dir ref name)) := rfl

section Writes

variable {before : Fs}

theorem Rewritten.prepare (apart : Apart before dev dir ref) (index : Nat) :
    Rewritten before (before.prepare dir index ref) dev dir ref := by
  unfold Fs.prepare
  split
  · have cleared := Rewritten.modifyEntry apart (Dentry.confined_setNr 0)
    refine cleared.trans (Rewritten.modifyDesc (apart.of_rewritten cleared) ?_ ?_)
    · rw [setSize_desc]
    · rw [setSize_desc]
  · exact .refl _ _ _ _

theorem Rewritten.putName (apart : Apart before dev dir ref) (name : Cursor) :
    Rewritten before (before.putName dir ref name) dev dir ref := by
  have copied := Rewritten.modifyEntry apart (Dentry.confined_copyName name)
  refine copied.trans (Rewritten.modifyDesc (apart.of_rewritten copied) ?_ ?_)
  · rw [setMtime_desc]
  · rw [setMtime_desc]

theorem putName_entry (apart : Apart before dev dir ref) (name : Cursor) :
    (before.putName dir ref name).entry ref =
      Dentry.read (copyName name (before.block ref.dev ref.block) ref.address) ref.address := by
  have copied := Rewritten.modifyEntry apart (Dentry.confined_copyName name)
  unfold putName
  rw [modifyDesc_entry (apart.of_rewritten copied), modifyEntry_entry]

theorem putName_size (apart : Apart before dev dir ref) (name : Cursor) :
    ((before.putName dir ref name).desc dir).size = (before.desc dir).size := by
  unfold putName
  rw [setMtime_desc]
  dsimp only
  rw [modifyEntry_desc apart]

/-- The entry has been made a part of the directory when it was not one. -/
theorem prepare_size (ref : EntryRef) (whole : 16 ∣ (before.desc dir).size)
    (atMost : index ≤ before.entryCount dir) (inReach : index / blockDentries < totalBlocks) :
    (before.prepare dir index ref).entryCount dir =
      max (before.entryCount dir) (index + 1) := by
  obtain ⟨count, isSize⟩ := whole
  unfold entryCount at atMost ⊢
  rw [isSize, Nat.mul_div_cancel_left _ (by decide)] at atMost ⊢
  unfold prepare
  rw [isSize]
  split
  · have same : index = count := by omega
    simp only [totalBlocks, directBlocks, blockIndexes, blockDentries, blockSize] at inReach
    rw [setSize_desc]
    dsimp only
    rw [Nat.mod_eq_of_lt (by omega), same, Nat.mul_div_cancel _ (by decide)]
    omega
  · rw [isSize, Nat.mul_div_cancel_left _ (by decide)]
    omega

end Writes

/-- The entry that `add_entry` returns has been filled in when a number has been stored in
it. -/
theorem Extended.filled (catalog : fs.Catalog dev sb dir)
    (extended : Extended fs grown dev sb dir index) (isName : FileName name)
    (unclaimed : fs.FirstUnused dir index) (bounded : fs.Bounded dir) {nr : Nat}
    (small : nr < 2 ^ 16) :
    let ref := grown.slotRef dir index
    let after := ((grown.prepare dir index ref).putName dir ref name).modifyEntry ref
      (Dentry.setNr nr)
    ref = after.slotRef dir index ∧ Filled fs after dev dir index nr (name.take 13) := by
  intro ref after
  have apart := extended.charted.apart extended.hasBlock.1 extended.hasBlock.2
  have prepared := Rewritten.prepare apart index
  have apartPrepared := apart.of_rewritten prepared
  have named := prepared.trans (Rewritten.putName apartPrepared name)
  have apartNamed := apart.of_rewritten named
  have rewritten : Rewritten grown after dev dir ref :=
    named.trans (Rewritten.modifyEntry apartNamed (Dentry.confined_setNr nr))
  have inReach := extended.hasBlock.1
  have sameRef : ref = after.slotRef dir index := by
    unfold slotRef
    rw [rewritten.inodeTable, rewritten.zoneOf extended.charted inReach inReach]
    rfl
  have grownCount : grown.entryCount dir = fs.entryCount dir := by
    unfold entryCount
    rw [extended.size]
  have isEntry : after.dirEntry dir index =
      Dentry.read (Dentry.setNr nr
        (((grown.prepare dir index ref).putName dir ref name).block ref.dev ref.block)
        ref.address) ref.address := by
    have same : after.dirEntry dir index = after.entry ref := by
      rw [sameRef]
      rfl
    rw [same]
    exact modifyEntry_entry _ ref _
  have sameEntry (other : Nat) (old : other < fs.entryCount dir) :
      grown.dirEntry dir other = fs.dirEntry dir other := by
    obtain ⟨otherInReach, otherMapped⟩ := catalog.mapped other old
    have isPointer : fs.zoneOf dir (other / blockDentries) =
        fs.pointer dir (.ofBlock ⟨_, otherInReach⟩) :=
      fs.zoneOf_eq_pointer dir ⟨_, otherInReach⟩
    have data := extended.data _ (Place.not_isIndex_ofBlock ⟨_, otherInReach⟩)
      (isPointer ▸ otherMapped)
    rw [← isPointer] at data
    unfold dirEntry Fs.entry
    rw [extended.inodeTable, extended.zones other old, catalog.inodeDev, data]
  refine ⟨sameRef, unclaimed, ?inodeTable, ?superTable, ?time, ?disk, ?directory, ?count,
    ?mapped, ?zones, ?entries, ?isNr, ?isText⟩
  case inodeTable => exact rewritten.inodeTable.trans extended.inodeTable
  case superTable => exact rewritten.superTable.trans extended.superTable
  case time => exact rewritten.time.trans extended.time
  case disk =>
    intro otherDev other
    rw [← extended.others otherDev other]
    funext number
    exact rewritten.frame otherDev number fun same => other same.1
  case directory =>
    rw [rewritten.mode, extended.mode]
    exact catalog.directory
  case count =>
    have whole : 16 ∣ (grown.desc dir).size := by
      rw [extended.size]
      exact catalog.whole
    have atMost : index ≤ grown.entryCount dir := grownCount ▸ unclaimed.atMost
    rw [← grownCount, ← prepare_size ref whole atMost inReach]
    unfold entryCount
    have sameSize : (after.desc dir).size = ((grown.prepare dir index ref).desc dir).size := by
      change (((((grown.prepare dir index ref).putName dir ref name).modifyEntry ref
        (Dentry.setNr nr))).desc dir).size = _
      rw [modifyEntry_desc apartNamed, putName_size apartPrepared]
    rw [sameSize]
  case mapped =>
    rw [rewritten.zoneOf extended.charted inReach inReach]
    exact extended.hasBlock
  case zones =>
    intro other old
    rw [rewritten.zoneOf extended.charted inReach (catalog.mapped other old).1]
    exact extended.zones other old
  case entries =>
    intro other old different
    obtain ⟨otherInReach, otherMapped⟩ := catalog.mapped other old
    rw [← sameEntry other old]
    refine rewritten.dirEntry extended.charted inReach different otherInReach
      (by rw [extended.zones other old]; exact otherMapped) fun begins => ?_
    have atMost := unclaimed.atMost
    have positive : index - 1 + 1 = index :=
      Nat.sub_add_cancel (Nat.pos_of_ne_zero fun zero => begins (by rw [zero]; rfl))
    rw [sameEntry _ (by omega)]
    refine bounded _ (by omega) (unclaimed.used _ (by omega)) (.inl ?_)
    rw [positive]
    exact unclaimed
  case isNr =>
    rw [isEntry, Dentry.nr_setNr, Nat.mod_eq_of_lt small]
  case isText =>
    rw [isEntry, Dentry.text_setNr]
    change (((grown.prepare dir index ref).putName dir ref name).entry ref).text = _
    rw [putName_entry apartPrepared, Dentry.text_copyName isName.text]

/-- `add_entry` names the first unused entry, or a new one behind the last. -/
theorem Catalog.claimEntry_cases (catalog : fs.Catalog dev sb dir) (room : fs.Room dev dir)
    {added : Fs} (atMost : index ≤ fs.entryCount dir)
    (used : ∀ other < index, (fs.dirEntry dir other).nr ≠ 0)
    (cached : index % blockDentries ≠ 0 → pcache = fs.zoneOf dir (index / blockDentries))
    (claimed : claimEntry dir name left fs index pcache = .ok (ref, added)) :
    ∃ place grown, Extended fs grown dev sb dir place ∧ fs.FirstUnused dir place ∧
      ref = grown.slotRef dir place ∧
      added = (grown.prepare dir place ref).putName dir ref name := by
  have isSize : (fs.desc dir).size = fs.entryCount dir * 16 :=
    (Nat.div_mul_cancel catalog.whole).symm
  induction left generalizing index pcache with
  | zero => cases claimed
  | succ left inductionHypothesis =>
      rw [claimEntry_succ, bind_eq_ok] at claimed
      obtain ⟨⟨block, grown⟩, taken, rest⟩ := claimed
      dsimp only at rest
      rcases Nat.lt_or_eq_of_le atMost with inside | rfl
      · have mapped := catalog.mapped index inside
        have found := entryBlock_mapped true mapped cached
        obtain ⟨rfl, rfl⟩ := Prod.mk.inj (Except.ok.inj (found.symm.trans taken))
        have kept (ref : EntryRef) : fs.prepare dir index ref = fs := by
          unfold prepare
          exact if_neg (by omega)
        rw [kept] at rest
        split at rest
        · rename_i inUse
          refine inductionHypothesis inside (fun other below => ?_) (fs.stillCached dir index)
            rest
          rcases Nat.lt_succ_iff_lt_or_eq.mp below with before | rfl
          · exact used other before
          · exact inUse
        · rename_i unused
          cases rest
          refine ⟨index, fs, catalog.extended mapped, ⟨atMost, used, fun _ => ?_⟩, rfl, ?_⟩
          · exact not_not.mp unused
          · rw [kept]
      · obtain ⟨extended, isBlock⟩ := catalog.entryBlock_last room used cached taken
        have apart := extended.charted.apart extended.hasBlock.1 extended.hasBlock.2
        have isRef : (⟨(grown.inodeTable dir).dev, block,
            16 * (fs.entryCount dir % blockDentries)⟩ : EntryRef) =
            grown.slotRef dir (fs.entryCount dir) := by
          rw [isBlock]
          rfl
        rw [isRef] at rest
        have unused : ((grown.prepare dir (fs.entryCount dir)
            (grown.slotRef dir (fs.entryCount dir))).entry
              (grown.slotRef dir (fs.entryCount dir))).nr = 0 := by
          have cleared := Rewritten.modifyEntry apart (Dentry.confined_setNr 0)
          unfold prepare
          rw [if_pos (by rw [extended.size]; omega),
            modifyDesc_entry (apart.of_rewritten cleared), modifyEntry_entry, Dentry.nr_setNr,
            Nat.zero_mod]
        rw [if_neg (not_not.mpr unused)] at rest
        cases rest
        exact ⟨_, grown, extended, ⟨Nat.le_refl _, used,
          fun impossible => absurd impossible (Nat.lt_irrefl _)⟩, rfl, rfl⟩

/-- The time of an inode takes four bytes. -/
theorem setMtime_byte (before : Fs) (time : Nat) {otherDev number address : Nat}
    (outside : address < before.descStart dir + 8 ∨ before.descStart dir + 8 + 4 ≤ address) :
    (before.modifyDesc dir (InodeDesc.setMtime time)).block otherDev number address =
      before.block otherDev number address := by
  by_cases same : otherDev = (before.inodeTable dir).dev ∧
      number = (before.inodeTable dir).block
  · obtain ⟨rfl, rfl⟩ := same
    rw [modifyDesc_block_self]
    exact Memory.setWord_other _ outside
  · rw [modifyDesc_block_other _ _ _ same]

theorem putName_terminated (before : Fs) (text : Unterminated name) (long : nameLen ≤ name.length)
    (outside : ref.address + 2 + 13 < before.descStart dir + 8 ∨
      before.descStart dir + 8 + 4 ≤ ref.address + 2 + 13) :
    ((before.putName dir ref name).entry ref).name 13 = 0 := by
  have ends : ((before.modifyEntry ref (copyName name)).entry ref).name 13 = 0 := by
    rw [modifyEntry_entry]
    exact Dentry.terminated_copyName text long
  refine Eq.trans ?kept ends
  exact setMtime_byte (before.modifyEntry ref (copyName name)) before.time outside

/-- The entry that `add_entry` returns is terminated in the last byte of its field, if the
name is as long as the field. -/
theorem claimEntry_terminated {added : Fs} (text : Unterminated name) (long : nameLen ≤ name.length)
    (claimed : claimEntry dir name left fs index pcache = .ok (ref, added)) :
    (added.entry ref).name 13 = 0 := by
  induction left generalizing fs index pcache with
  | zero => cases claimed
  | succ left inductionHypothesis =>
      rw [claimEntry_succ, bind_eq_ok] at claimed
      obtain ⟨⟨block, grown⟩, _, rest⟩ := claimed
      dsimp only at rest
      split at rest
      · exact inductionHypothesis rest
      · cases rest
        generalize grown.prepare dir index _ = before
        have outside : 16 * (index % blockDentries) + 2 + 13 < before.descStart dir + 8 ∨
            before.descStart dir + 8 + 4 ≤ 16 * (index % blockDentries) + 2 + 13 := by
          unfold descStart
          omega
        exact putName_terminated before text long outside

/-- What the loop of `find_entry` finds matches. -/
theorem searchEntries_match {i : Nat} {hit : Found}
    (found : fs.searchEntries dir path left i pcache = .ok (some hit)) :
    matchName path (fs.entry hit.entry).name = some hit.next := by
  induction left generalizing i pcache with
  | zero => cases found
  | succ left inductionHypothesis =>
      rw [searchEntries, bind_eq_ok] at found
      obtain ⟨⟨block, _⟩, _, rest⟩ := found
      dsimp only at rest
      split at rest
      · exact inductionHypothesis rest
      · split at rest
        · rename_i matched
          cases rest
          exact matched
        · exact inductionHypothesis rest

/-- A name that `find_entry` has found in an entry that ends with its field is shorter. -/
theorem short_of_found {after : Fs} (isName : FileName name) (ends : (after.entry ref).name 13 = 0)
    (found : after.findEntry dir name = .ok (some ⟨[], ref⟩, dir, after)) :
    name.length < nameLen := by
  unfold findEntry at found
  simp only [bind_eq_ok, check_eq_ok] at found
  obtain ⟨_, _, ⟨place, left⟩, _, search, searched, same⟩ := found
  obtain ⟨isFound, same⟩ := Prod.mk.inj (Except.ok.inj same)
  obtain ⟨_, isAfter⟩ := Prod.mk.inj same
  rw [isFound, isAfter] at searched
  have matched := searchEntries_match searched
  by_contra long
  have none : matchName name (after.entry ref).name = none := by
    unfold matchName
    rw [skipSeparators_eq, plain_skip isName.plain]
    rw [← Nat.zero_add 13] at ends
    refine compareName_none ends ?_ isName.plain isName.text
    simp only [nameLen] at long
    omega
  rw [none] at matched
  cases matched

end Loop

/-! ## Names in the root directory -/

open BlockMap

theorem root_pointer (place : Place) :
    (roomy []).pointer 0 place = if place = .slot 0 then 5 else 0 := by
  have slots (index : Fin 9) :
      ((roomy []).desc 0).zone index = if Place.slot index = .slot 0 then 5 else 0 := by
    fin_cases index <;> rfl
  cases place with
  | slot index => exact slots index
  | single index => rfl
  | middle index => rfl
  | leaf outer inner => rfl

theorem root_used : 5 ∈ (roomy []).usedZones 1 := by
  have notClear : 5 ∉ ((roomy []).zoneNumbers 1).clear (roomy []) 1 := by
    rw [roomy_clear]
    exact fun isClear => absurd isClear.1 (by decide)
  have covers : ((roomy []).zoneNumbers 1).Covers 5 := ⟨by decide +kernel, by decide +kernel⟩
  refine ⟨⟨covers, ?_⟩, by decide +kernel⟩
  by_contra isClear
  exact notClear ⟨covers, by simpa using isClear⟩

theorem root_count : (roomy []).entryCount 0 = 3 := by decide +kernel

theorem root_catalog : (roomy []).Catalog 1 0 0 where
  found := (roomy_charted []).found
  fits := (roomy_charted []).fits
  zmaps := (roomy_charted []).zmaps
  inodeDev := rfl
  behindMaps := (roomy_charted []).behindMaps
  beforeZones := (roomy_charted []).beforeZones
  used := by
    intro place hasZone
    rw [root_pointer] at hasZone ⊢
    split at hasZone
    · rw [if_pos ‹_›]
      exact root_used
    · exact absurd rfl hasZone
  distinct := by
    intro place other hasZone same
    rw [root_pointer] at hasZone same
    rw [root_pointer] at same
    split at hasZone
    · rename_i isSlot
      rw [if_pos isSlot] at same
      split at same
      · rename_i alsoSlot
        rw [isSlot, alsoSlot]
      · cases same
    · exact absurd rfl hasZone
  free := (roomy_charted []).free
  directory := by decide +kernel
  mapped := by
    rw [root_count]
    intro index inside
    have first : index / blockDentries = 0 := Nat.div_eq_of_lt (by
      simp only [blockDentries, blockSize]
      omega)
    rw [first]
    decide +kernel
  two := by decide +kernel
  dot := by decide +kernel
  dotDot := by decide +kernel
  whole := by decide +kernel
  outside := fun _ notRoot => absurd rfl notRoot

/-- Names besides `.`, `..` and `f` are absent. -/
theorem root_absent {name : Cursor} (isName : FileName name)
    (other : name ∉ ([[46], [46, 46], [102]] : List Cursor)) : (roomy []).Absent 0 name := by
  have texts : ∀ index : Fin 3, ((roomy []).dirEntry 0 index).text.length < nameLen ∧
      ((roomy []).dirEntry 0 index).text ≠ [] ∧
      (∀ byte ∈ ((roomy []).dirEntry 0 index).text, isSeparator byte = false) ∧
      ((roomy []).dirEntry 0 index).text ∈ ([[46], [46, 46], [102]] : List Cursor) := by
    decide +kernel
  unfold Absent
  rw [root_count]
  intro index inside
  obtain ⟨short, notEmpty, plain, isOne⟩ := texts ⟨index, inside⟩
  unfold matchAt
  split
  · rfl
  · rw [matchName_eq ⟨short, notEmpty, plain⟩ isName.text, plain_first isName.plain, if_neg]
    rintro rfl
    exact other isOne

/-- No name fills its field. -/
theorem root_bounded : (roomy []).Bounded 0 := by
  have ends : ∀ index : Fin 3, ¬((roomy []).dirEntry 0 index).Full := by decide +kernel
  unfold Bounded
  rw [root_count]
  exact fun index inside _ _ => ends ⟨index, inside⟩

/-- The root directory has a block with unused entries. -/
theorem root_room : (roomy []).Room 1 0 := by
  unfold Room
  rw [root_count]
  intro _ block isCount
  simp only [blockDentries, blockSize] at isCount
  omega

/-- A name of 14 bytes. -/
def longName : Cursor :=
  List.replicate 14 97

end Fs

end LightOS
