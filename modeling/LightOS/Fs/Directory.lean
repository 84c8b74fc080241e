import LightOS.Fs.Lookup
import LightOS.Fs.Names

/-!
# Directories on a disk

What a directory holds is decided by the blocks of its device alone.  A name is
looked up among the live entries, and `find_entry` finds the entry that the first
component of a path is the name of.
-/

namespace LightOS

open Components

variable {index left pcache : Nat}

/-! ## Names of entries -/

/-- The bytes of a name up to its terminator; `left` bytes are still to be read. -/
def nameFrom (name : Nat → UInt8) : Nat → Nat → Cursor
  | 0, _ => []
  | left + 1, index =>
      if name index = 0 then [] else name index :: nameFrom name left (index + 1)

/-- The bytes from an index on are those of a string with its terminator. -/
def Spells (name : Nat → UInt8) : Nat → Cursor → Prop
  | index, [] => name index = 0
  | index, byte :: rest =>
      name index = byte ∧ byte ≠ 0 ∧ Spells name (index + 1) rest

namespace Dentry

/-- The name of an entry. -/
def text (entry : Dentry) : Cursor :=
  nameFrom entry.name nameLen 0

/-- The name of an entry is one that a component of a path can have, and its
terminator lies within the entry. -/
structure Named (entry : Dentry) : Prop where
  short : entry.text.length < nameLen
  notEmpty : entry.text ≠ []
  plain : Plain isSeparator entry.text

end Dentry

/-- A name that is shorter than its field is terminated in it. -/
theorem spells_nameFrom {name : Nat → UInt8} (short : (nameFrom name left index).length < left) :
    Spells name index (nameFrom name left index) := by
  induction left generalizing index with
  | zero => exact absurd short (Nat.not_lt_zero _)
  | succ left inductionHypothesis =>
      rw [nameFrom] at short ⊢
      by_cases ends : name index = 0
      · rw [if_pos ends]
        exact ends
      · rw [if_neg ends] at short ⊢
        rw [List.length_cons] at short
        exact ⟨rfl, ends, inductionHypothesis (by omega)⟩

/-- A string has no terminator among its bytes. -/
def Unterminated (cursor : Cursor) : Prop :=
  ∀ byte ∈ cursor, byte ≠ 0

instance (cursor : Cursor) : Decidable (Unterminated cursor) :=
  List.decidableBAll (fun byte => byte ≠ 0) cursor

/-- `match_name` compares what comes before the next separator. -/
theorem compareName_eq {name : Nat → UInt8} {spelled cursor : Cursor}
    (spells : Spells name index spelled) (plain : Plain isSeparator spelled)
    (text : Unterminated cursor) :
    compareName cursor name index =
      if (cursor.takeWhile fun byte => !isSeparator byte) = spelled then
        some (cursor.dropWhile fun byte => !isSeparator byte).tail
      else
        none := by
  induction spelled generalizing cursor index with
  | nil =>
      have ends : name index = 0 := spells
      cases cursor with
      | nil => simp [compareName, ends]
      | cons byte rest =>
          have notZero := text byte List.mem_cons_self
          cases separates : isSeparator byte with
          | true => simp [compareName, ends, notZero, separates]
          | false => simp [compareName, ends, notZero, separates]
  | cons letter spelled inductionHypothesis =>
      obtain ⟨same, notZero, spells⟩ := spells
      have notSep := plain letter List.mem_cons_self
      have plainRest : Plain isSeparator spelled := fun byte inRest =>
        plain byte (List.mem_cons_of_mem _ inRest)
      cases cursor with
      | nil => simp [compareName, same, notZero]
      | cons byte rest =>
          have textRest : Unterminated rest := fun other inRest =>
            text other (List.mem_cons_of_mem _ inRest)
          rw [compareName, same]
          by_cases equal : byte = letter
          · rw [if_pos equal, inductionHypothesis spells plainRest textRest, equal]
            simp [notSep]
          · rw [if_neg equal, if_pos notZero, if_neg]
            cases separates : isSeparator byte with
            | true => simp [separates]
            | false => simp [separates, equal]

/-- `match_name` compares the first component of a path and skips the separator
behind it. -/
theorem matchName_eq {entry : Dentry} {cursor : Cursor} (named : entry.Named)
    (text : Unterminated cursor) :
    matchName cursor entry.name =
      if first isSeparator cursor = entry.text then some (rest isSeparator cursor)
      else none := by
  unfold matchName
  exact compareName_eq (spells_nameFrom named.short) named.plain fun byte inSkipped =>
    text byte ((List.dropWhile_sublist _).mem inSkipped)

/-! ## Inodes on a disk -/

namespace Volumes

/-- The descriptor of the super block of a device. -/
def super (disk : Volumes) (dev : Nat) : SuperDesc :=
  SuperDesc.read (disk dev superBlockNr)

/-- The descriptor of an inode of a device. -/
def desc (disk : Volumes) (dev nr : Nat) : InodeDesc :=
  InodeDesc.read (disk dev (Fs.inodeBlock (disk.super dev) nr))
    (32 * (sub32 nr 1 % blockInodes))

/-- An inode of a device is a directory. -/
def isDirectory (disk : Volumes) (dev nr : Nat) : Bool :=
  isDir (disk.desc dev nr).mode

/-- An entry of an index block that may be missing. -/
def follow (disk : Volumes) (dev zone index : Nat) : Nat :=
  if zone = 0 then 0 else (disk dev zone).half (2 * index)

/-- The zone of a block of a file of a device, or zero. -/
def zone (disk : Volumes) (dev nr block : Nat) : Nat :=
  let zone := (disk.desc dev nr).zone
  if direct : block < 7 then
    zone ⟨block, by omega⟩
  else if block - 7 < blockIndexes then
    disk.follow dev (zone 7) (block - 7)
  else
    let far := block - 7 - blockIndexes
    disk.follow dev (disk.follow dev (zone 8) (far / blockIndexes))
      (far % blockIndexes)

/-- Number of entries of a directory. -/
def entryCount (disk : Volumes) (dev nr : Nat) : Nat :=
  (disk.desc dev nr).size / 16

/-- An entry of a directory. -/
def entry (disk : Volumes) (dev nr index : Nat) : Dentry :=
  Dentry.read (disk dev (disk.zone dev nr (index / blockDentries)))
    (16 * (index % blockDentries))

/-- Look a name up in a directory. -/
def lookup (disk : Volumes) (dev nr : Nat) (name : Cursor) : Option Nat :=
  ((List.range (disk.entryCount dev nr)).find? fun index =>
    (disk.entry dev nr index).nr ≠ 0 ∧
      name = (disk.entry dev nr index).text).map fun index =>
    (disk.entry dev nr index).nr

/-- A directory whose entries are all in blocks that it has, and have names. -/
structure Readable (disk : Volumes) (dev nr : Nat) : Prop where
  mapped : ∀ index, index < disk.entryCount dev nr →
    index / blockDentries < totalBlocks ∧
      disk.zone dev nr (index / blockDentries) ≠ 0
  named : ∀ index, index < disk.entryCount dev nr →
    (disk.entry dev nr index).nr ≠ 0 → (disk.entry dev nr index).Named

/-- What a lookup finds is the number of a live entry. -/
theorem lookup_eq_some {disk : Volumes} {dev nr found : Nat} {name : Cursor}
    (hit : disk.lookup dev nr name = some found) :
    ∃ index, index < disk.entryCount dev nr ∧
      (disk.entry dev nr index).nr ≠ 0 ∧ (disk.entry dev nr index).nr = found := by
  unfold lookup at hit
  rw [Option.map_eq_some_iff] at hit
  obtain ⟨index, first, same⟩ := hit
  have live := List.find?_some first
  exact ⟨index, List.mem_range.mp (List.mem_of_find?_eq_some first),
    (by simpa using live : _ ∧ _).1, same⟩

/-- No entry has an empty name. -/
theorem lookup_nil {disk : Volumes} {dev nr : Nat}
    (readable : disk.Readable dev nr) : disk.lookup dev nr [] = none := by
  unfold lookup
  rw [List.find?_eq_none.mpr, Option.map_none]
  intro index inRange same
  have live : (disk.entry dev nr index).nr ≠ 0 ∧
      [] = (disk.entry dev nr index).text := by simpa using same
  exact (readable.named index (List.mem_range.mp inRange) live.1).notEmpty live.2.symm

end Volumes

namespace Fs

/-- The entry that `bmap` reads of an index block that is there. -/
theorem follow_eq (fs : Fs) (dev zone index : Nat) :
    fs.disk.follow dev zone index =
      if zone = 0 then 0 else fs.indexAt dev zone (2 * index) := rfl

/-- Following one level of index blocks. -/
theorem zoneChain_single (fs : Fs) (dev cache array index block : Nat) :
    (fs.zoneChain dev 1 cache array index block 1).getLastD 0 =
      fs.disk.follow dev (fs.indexAt dev cache (array + 2 * index)) block := by
  simp only [zoneChain, follow_eq, Nat.div_one, Nat.zero_add]
  by_cases empty : fs.indexAt dev cache (array + 2 * index) = 0
  · simp [empty]
  · simp [empty]

/-- Following two levels of index blocks. -/
theorem zoneChain_double (fs : Fs) (dev cache array index block : Nat) :
    (fs.zoneChain dev 2 cache array index block blockIndexes).getLastD 0 =
      fs.disk.follow dev
        (fs.disk.follow dev (fs.indexAt dev cache (array + 2 * index))
          (block / blockIndexes)) (block % blockIndexes) := by
  have unit : blockIndexes / blockIndexes = 1 := by decide
  have below := fs.zoneChain_single dev
    (fs.indexAt dev cache (array + 2 * index)) 0 (block / blockIndexes)
    (block % blockIndexes)
  rw [Nat.zero_add] at below
  by_cases empty : fs.indexAt dev cache (array + 2 * index) = 0
  · simp [zoneChain, follow_eq, empty]
  · rw [zoneChain, unit]
    simp only [empty, if_false, follow_eq] at below ⊢
    rw [← below]
    simp [zoneChain]

/-- The inode in memory is the given one of a device. -/
structure Holds (fs : Fs) (ino device number : Nat) : Prop where
  dev : (fs.inodeTable ino).dev = device
  nr : (fs.inodeTable ino).nr = number
  block : (fs.inodeTable ino).block = inodeBlock (fs.superDesc device) number
  slot : (fs.inodeTable ino).slot = sub32 number 1 % blockInodes

namespace Holds

variable {fs : Fs} {ino dev nr : Nat}

theorem desc (holds : fs.Holds ino dev nr) : fs.desc ino = fs.disk.desc dev nr := by
  unfold Fs.desc descStart
  rw [holds.dev, holds.block, holds.slot]
  rfl

theorem zoneOf (holds : fs.Holds ino dev nr) (block : Nat) :
    fs.zoneOf ino block = fs.disk.zone dev nr block := by
  have slots (index : Nat) (isSlot : index < 9) :
      fs.indexAt dev (fs.inodeTable ino).block (fs.zoneStart ino + 2 * index) =
        (fs.disk.desc dev nr).zone ⟨index, isSlot⟩ := by
    have same := congrFun (congrArg InodeDesc.zone holds.desc) ⟨index, isSlot⟩
    rw [← same, ← holds.dev]
    rfl
  unfold Fs.zoneOf chainOf Volumes.zone
  dsimp only
  simp only [directBlocks]
  rw [holds.dev]
  by_cases direct : block < 7
  · rw [if_pos direct, dif_pos direct, ← slots block (by omega)]
    rfl
  · rw [if_neg direct, dif_neg direct]
    by_cases single : block - 7 < blockIndexes
    · rw [if_pos single, if_pos single, zoneChain_single, slots 7 (by omega)]
      rfl
    · rw [if_neg single, if_neg single, zoneChain_double, slots 8 (by omega)]
      rfl

end Holds

/-! ## Searching a directory -/

/-- A pointer to an entry of a directory. -/
def entryRef (fs : Fs) (dev nr index : Nat) : EntryRef :=
  ⟨dev, fs.disk.zone dev nr (index / blockDentries), 16 * (index % blockDentries)⟩

theorem entry_entryRef (fs : Fs) (dev nr index : Nat) :
    fs.entry (fs.entryRef dev nr index) = fs.disk.entry dev nr index := rfl

variable {fs : Fs} {dir dev nr : Nat} {name : Cursor}

/-- An entry of a directory, in a block that the directory has. -/
def slotRef (fs : Fs) (dir index : Nat) : EntryRef :=
  ⟨(fs.inodeTable dir).dev, fs.zoneOf dir (index / blockDentries), 16 * (index % blockDentries)⟩

/-- The block of an entry, found again or still in `pcache`. -/
theorem entryBlock_mapped (create : Bool)
    (mapped : index / blockDentries < totalBlocks ∧ fs.zoneOf dir (index / blockDentries) ≠ 0)
    (cached : index % blockDentries ≠ 0 → pcache = fs.zoneOf dir (index / blockDentries)) :
    fs.entryBlock dir index pcache create =
      .ok (fs.zoneOf dir (index / blockDentries), fs) := by
  unfold entryBlock
  by_cases begins : index % blockDentries = 0
  · rw [if_pos begins, bmap_mapped _ _ mapped.1 mapped.2, ok_bind]
    dsimp only
    rw [check_true mapped.2, ok_bind]
    rfl
  · rw [if_neg begins, cached begins]
    rfl

/-- The block of an entry is that of the next one, unless a new block begins. -/
theorem stillCached (fs : Fs) (dir index : Nat) (within : (index + 1) % blockDentries ≠ 0) :
    fs.zoneOf dir (index / blockDentries) = fs.zoneOf dir ((index + 1) / blockDentries) := by
  have same : (index + 1) / blockDentries = index / blockDentries := by
    simp only [blockDentries, blockSize] at within ⊢
    omega
  rw [same]

/-- The loop of `find_entry` returns the first live entry that matches. -/
theorem searchEntries_mapped (mapped : ∀ i < index + left, i / blockDentries < totalBlocks ∧
      fs.zoneOf dir (i / blockDentries) ≠ 0)
    (cached : index % blockDentries ≠ 0 → pcache = fs.zoneOf dir (index / blockDentries)) :
    fs.searchEntries dir name left index pcache =
      .ok ((List.range' index left).findSome? fun i =>
        if (fs.entry (fs.slotRef dir i)).nr = 0 then none
        else (matchName name (fs.entry (fs.slotRef dir i)).name).map fun next =>
          ⟨next, fs.slotRef dir i⟩) := by
  induction left generalizing index pcache with
  | zero => rfl
  | succ left inductionHypothesis =>
      have next := inductionHypothesis
        (fun i below => mapped i (by omega)) (fs.stillCached dir index)
      rw [searchEntries, entryBlock_mapped _ (mapped index (by omega)) cached, ok_bind,
        List.range'_succ, List.findSome?_cons]
      have same : fs.entry ⟨(fs.inodeTable dir).dev, fs.zoneOf dir (index / blockDentries),
          16 * (index % blockDentries)⟩ = fs.entry (fs.slotRef dir index) := rfl
      dsimp only
      rw [same]
      by_cases unused : (fs.entry (fs.slotRef dir index)).nr = 0
      · rw [if_pos unused, if_pos unused]
        exact next
      · rw [if_neg unused, if_neg unused]
        cases matchName name (fs.entry (fs.slotRef dir index)).name with
        | some behind => rfl
        | none => exact next

theorem Holds.slotRef (holds : fs.Holds dir dev nr) (index : Nat) :
    fs.slotRef dir index = fs.entryRef dev nr index := by
  unfold Fs.slotRef entryRef
  rw [holds.dev, holds.zoneOf]

/-- The loop of `find_entry` in a directory whose entries are all in blocks that it has. -/
theorem searchEntries_eq (holds : fs.Holds dir dev nr) (readable : fs.disk.Readable dev nr)
    (inside : index + left ≤ fs.disk.entryCount dev nr)
    (cached : index % blockDentries ≠ 0 → pcache = fs.disk.zone dev nr (index / blockDentries)) :
    fs.searchEntries dir name left index pcache =
      .ok ((List.range' index left).findSome? fun i =>
        if (fs.disk.entry dev nr i).nr = 0 then none
        else (matchName name (fs.disk.entry dev nr i).name).map fun next =>
          ⟨next, fs.entryRef dev nr i⟩) := by
  rw [← holds.zoneOf] at cached
  rw [searchEntries_mapped (fun i below => ?mapped) cached]
  · simp only [holds.slotRef, entry_entryRef]
  case mapped =>
    rw [holds.zoneOf]
    exact readable.mapped i (by omega)

/-- `find_entry` looks up the first component of a path, and what follows it is
left. -/
theorem searchEntries_lookup (holds : fs.Holds dir dev nr)
    (readable : fs.disk.Readable dev nr) (text : Unterminated name) :
    ∃ found, fs.searchEntries dir name (fs.disk.entryCount dev nr) 0 0 = .ok found ∧
      found.map (fun hit => (fs.entry hit.entry).nr) =
        fs.disk.lookup dev nr (first isSeparator name) ∧
      ∀ hit ∈ found, hit.next = rest isSeparator name := by
  refine ⟨_, searchEntries_eq holds readable (by omega) (fun other => absurd rfl other),
    ?_⟩
  unfold Volumes.lookup
  rw [List.range_eq_range']
  have within (i : Nat) (inRange : i ∈ List.range' 0 (fs.disk.entryCount dev nr)) :
      i < fs.disk.entryCount dev nr := by
    have := List.mem_range'_1.mp inRange
    omega
  generalize List.range' 0 (fs.disk.entryCount dev nr) = indices at within
  induction indices with
  | nil => exact ⟨rfl, fun _ impossible => by cases impossible⟩
  | cons i indices inductionHypothesis =>
      have later := inductionHypothesis fun j inRest =>
        within j (List.mem_cons_of_mem _ inRest)
      rw [List.findSome?_cons, List.find?_cons]
      by_cases unused : (fs.disk.entry dev nr i).nr = 0
      · simpa [unused] using later
      · have named := readable.named i (within i List.mem_cons_self) unused
        rw [if_neg unused, matchName_eq named text]
        by_cases equal : first isSeparator name = (fs.disk.entry dev nr i).text
        · simp [equal, unused, entry_entryRef]
        · simpa [equal, unused] using later

end Fs

end LightOS
