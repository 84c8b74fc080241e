import LightOS.Foundation.Transition
import LightOS.Fs.Formatting
import Mathlib.Data.Fintype.Basic
import Mathlib.Tactic.FinCases

/-!
# The root directory of a formatted device

`devmkfs` makes the root directory with `new_inode` and `bmap`, which leave the
zone slots of an inode as they find them.  The root directory is in order exactly
when the slots of its inode were empty before.
-/

namespace LightOS
namespace Fs

variable {dev sb ino j zone mapEnd : Nat} {fs after stage rooted : Fs} {desc : SuperDesc}
  {task : Creds}

/-! ## Making the root directory -/

/-- The block of the root inode. -/
def rootTable (desc : SuperDesc) : Nat :=
  imapBlockNr + desc.imapBlocks + desc.zmapBlocks

/-- The descriptor of the root inode of a device. -/
def rootDesc (fs : Fs) (dev : Nat) (desc : SuperDesc) : InodeDesc :=
  InodeDesc.read (fs.block dev (rootTable desc)) 0

/-- The content of the block of a new root directory. -/
def rootEntries (memory : Memory) : Memory :=
  writeEntry 1 dotDotName
    (writeEntry 1 dotName (memory.fill 0 blockSize 0) 0) 16

/-- An entry of a directory has a number and a name, which is padded with zero
bytes. -/
def EntryIs (memory : Memory) (start nr : Nat) (name : Cursor) : Prop :=
  (Dentry.read memory start).nr = nr ∧
    ∀ i : Fin nameLen, (Dentry.read memory start).name i = name.getD i 0

theorem rootEntries_self (memory : Memory) :
    EntryIs (rootEntries memory) 0 1 dotName :=
  ⟨rfl, fun i => by fin_cases i <;> rfl⟩

theorem rootEntries_parent (memory : Memory) :
    EntryIs (rootEntries memory) 16 1 dotDotName :=
  ⟨rfl, fun i => by fin_cases i <;> rfl⟩

/-- Read as a descriptor, the block of a new root directory has an empty first
slot. -/
theorem rootEntries_zone (memory : Memory) :
    (InodeDesc.read (rootEntries memory) 0).zone 0 = 0 := rfl

/-- The root inode has been taken, and only its block has changed but for its
zones. -/
structure RootTaken (stage taken : Fs) (dev ino : Nat) (desc : SuperDesc) :
    Prop where
  inodeDev : (taken.inodeTable ino).dev = dev
  inodeNr : (taken.inodeTable ino).nr = 1
  inodeBlock : (taken.inodeTable ino).block = rootTable desc
  inodeSlot : (taken.inodeTable ino).slot = 0
  devices : ∀ sb, (taken.superTable sb).dev = (stage.superTable sb).dev
  others : ∀ otherDev number, ¬(otherDev = dev ∧ number = rootTable desc) →
    taken.block otherDev number = stage.block otherDev number
  zone : (taken.rootDesc dev desc).zone = (stage.rootDesc dev desc).zone

namespace RootTaken

variable {taken : Fs}

/-- The descriptor that the inode points to is the one of the root. -/
theorem desc_eq (root : RootTaken stage taken dev ino desc) :
    taken.desc ino = taken.rootDesc dev desc := by
  unfold Fs.desc rootDesc descStart
  rw [root.inodeDev, root.inodeBlock, root.inodeSlot]

/-- An assignment to the descriptor that is not to a zone slot. -/
theorem modifyDesc (root : RootTaken stage taken dev ino desc)
    (change : Memory → Nat → Memory)
    (keeps : ∀ memory start, (InodeDesc.read (change memory start) start).zone =
      (InodeDesc.read memory start).zone) :
    RootTaken stage (taken.modifyDesc ino change) dev ino desc where
  inodeDev := root.inodeDev
  inodeNr := root.inodeNr
  inodeBlock := root.inodeBlock
  inodeSlot := root.inodeSlot
  devices := root.devices
  others := by
    intro otherDev number different
    rw [modifyDesc_block_other _ _ _
      (by rw [root.inodeDev, root.inodeBlock]; exact different)]
    exact root.others otherDev number different
  zone := by
    have isRoot : (taken.modifyDesc ino change).desc ino =
        (taken.modifyDesc ino change).rootDesc dev desc := by
      unfold Fs.desc rootDesc descStart
      rw [modifyDesc_inodeTable, root.inodeDev, root.inodeBlock, root.inodeSlot]
    rw [← isRoot, modifyDesc_desc, keeps]
    exact (congrArg InodeDesc.zone root.desc_eq).trans root.zone

/-- A change of a super block that keeps its device. -/
theorem setSuper (root : RootTaken stage taken dev ino desc)
    (sb : Nat) (super : SuperBlock)
    (sameDev : super.dev = (taken.superTable sb).dev) :
    RootTaken stage (taken.setSuper sb super) dev ino desc where
  inodeDev := root.inodeDev
  inodeNr := root.inodeNr
  inodeBlock := root.inodeBlock
  inodeSlot := root.inodeSlot
  devices := by
    intro other
    rw [setSuper_superTable]
    by_cases same : other = sb
    · subst same
      rw [Function.update_self, sameDev]
      exact root.devices other
    · rw [Function.update_of_ne same]
      exact root.devices other
  others := root.others
  zone := root.zone

end RootTaken

/-- `iget` on a device without inodes in memory loads the inode. -/
theorem iget_idle {nr : Nat}
    (lists : ∀ sb, (fs.superTable sb).dev = dev → (fs.superTable sb).inodeList = [])
    (taken : fs.iget dev nr = .ok (ino, after)) :
    ∃ sb, nr ≤ (fs.superDesc dev).inodes ∧ after = fs.withLoaded sb dev nr ino := by
  unfold iget findInode at taken
  cases isSuper : fs.getSuper dev with
  | none =>
      rw [isSuper, error_bind] at taken
      cases taken
  | some sb =>
      have empty := lists sb (dev_of_getSuper isSuper).1
      rw [isSuper] at taken
      dsimp only at taken
      rw [empty, ok_bind] at taken
      dsimp only [List.find?_nil] at taken
      obtain ⟨inRange, _, _, _, same⟩ := loadInode_cases taken
      exact ⟨sb, inRange, same⟩

/-- The assignments of `new_inode` keep the zone slots. -/
theorem read_initialDesc (fs : Fs) (task : Creds) (memory : Memory)
    (start : Nat) :
    (InodeDesc.read (fs.initialDesc task memory start) start).zone =
      (InodeDesc.read memory start).zone := by
  unfold initialDesc
  simp only [InodeDesc.read_setNlinks, InodeDesc.read_setGid,
    InodeDesc.read_setMtime, InodeDesc.read_setSize, InodeDesc.read_setUid,
    InodeDesc.read_setMode]

/-- A loaded root inode. -/
theorem rootTaken_withLoaded (superDesc : stage.superDesc dev = desc) (sb ino : Nat) :
    RootTaken stage (stage.withLoaded sb dev 1 ino) dev ino desc := by
  have entry : (stage.withLoaded sb dev 1 ino).inodeTable ino =
      stage.loadedInode dev 1 ino := by
    simp [withLoaded]
  constructor
  case inodeDev =>
    rw [entry]
    rfl
  case inodeNr =>
    rw [entry]
    rfl
  case inodeBlock =>
    rw [entry, ← superDesc]
    rfl
  case inodeSlot =>
    rw [entry]
    rfl
  case devices => exact (withLoaded_tablesOnly stage sb dev 1 ino).dev
  case others => exact fun _ _ _ => rfl
  case zone => rfl

/-- What `devmkfs` does to make the root directory. -/
theorem makeRoot_cases (superDesc : stage.superDesc dev = desc)
    (lists : ∀ sb, (stage.superTable sb).dev = dev → (stage.superTable sb).inodeList = [])
    (made : stage.makeRoot task dev sb = .ok rooted) :
    ∃ ino ready zone mapped, RootTaken stage ready dev ino desc ∧
      (ready.rootDesc dev desc).size = 32 ∧
      ready.bmap ino 0 true = .ok (zone, mapped) ∧
      rooted = mapped.writeBlock dev zone
        (writeEntry (mapped.inodeTable ino).nr dotDotName
          (writeEntry (mapped.inodeTable ino).nr dotName
            ((mapped.block dev zone).fill 0 blockSize 0) 0) 16) := by
  unfold makeRoot newInode at made
  simp only [bind_eq_ok] at made
  obtain ⟨_, ⟨⟨ino, taken⟩, get, same⟩, ⟨zone, mapped⟩, map, written⟩ := made
  cases same
  cases written
  obtain ⟨holder, _, rfl⟩ := iget_idle lists get
  have loaded := rootTaken_withLoaded superDesc holder ino
  have created := loaded.modifyDesc
    ((stage.withLoaded holder dev 1 ino).initialDesc task)
    fun memory start => read_initialDesc _ task memory start
  have sized := ((created.setSuper sb
    { (stage.withLoaded holder dev 1 ino).superTable sb with
      iroot := some ino } rfl).modifyDesc
    (InodeDesc.setMode (0o777 &&& (0o777 ^^^ task.umask) ||| ifdir))
      fun memory start => by rw [InodeDesc.read_setMode]).modifyDesc
    (InodeDesc.setSize 32)
      fun memory start => by rw [InodeDesc.read_setSize]
  have ready := sized.modifyDesc (InodeDesc.setNlinks 2)
    fun memory start => by rw [InodeDesc.read_setNlinks]
  refine ⟨ino, _, zone, mapped, ready, ?_, map, rfl⟩
  rw [← ready.desc_eq, modifyDesc_desc, InodeDesc.read_setNlinks]
  change (Fs.desc _ ino).size = 32
  rw [modifyDesc_desc, InodeDesc.read_setSize]
  rfl

/-! ## The zone of the root directory -/

/-- The bit of the zone map for a zone. -/
def zoneBit (desc : SuperDesc) (zone : Nat) : Nat :=
  zone + 1 - desc.firstdatazone

/-- Sizes of a layout on which `devmkfs` returns. -/
structure Sized (desc : SuperDesc) (mapEnd : Nat) : Prop where
  hasZmap : 0 < desc.zmapBlocks
  hasTable : rootTable desc < desc.firstdatazone
  inMap : mapEnd < desc.zmapBlocks * blockBits
  ends : desc.zones + desc.zmapBlocks = desc.firstdatazone + mapEnd
  someZones : desc.firstdatazone < desc.zones
  small : desc.firstdatazone < 2 ^ 16

section Zone

variable {ready mapped : Fs}

theorem RootTaken.superDesc (root : RootTaken stage ready dev ino desc)
    (laid : Laid fs stage dev sb desc) : ready.superDesc dev = desc := by
  have behind : superBlockNr < rootTable desc := by
    unfold rootTable
    have := superBlock_before
    omega
  unfold Fs.superDesc
  rw [root.others _ _ (by omega)]
  exact laid.superDesc

/-- Taking the root inode keeps the zone map. -/
theorem RootTaken.mapBit (root : RootTaken stage ready dev ino desc)
    (inMap : j < desc.zmapBlocks * blockBits) :
    ready.mapBit dev (imapBlockNr + desc.imapBlocks) j =
      stage.mapBit dev (imapBlockNr + desc.imapBlocks) j := by
  have inBlocks := block_of_bit inMap
  unfold Fs.mapBit
  rw [root.others _ _ (by unfold rootTable; omega)]

/-- The first allocation on a new zone map returns the first data zone. -/
theorem balloc_root (root : RootTaken stage ready dev ino desc)
    (prepared : Prepared fs stage dev sb desc mapEnd) (sized : Sized desc mapEnd)
    (allocated : ready.balloc dev = .ok (zone, after)) :
    zone = desc.firstdatazone ∧
      BitWritten ready after dev (imapBlockNr + desc.imapBlocks) 1 true := by
  have bits {j : Nat} (inMap : j < desc.zmapBlocks * blockBits) :
      ready.mapBit dev (imapBlockNr + desc.imapBlocks) j =
        decide (j = 0 ∨ mapEnd ≤ j) := by
    rw [root.mapBit inMap]
    exact prepared.zoneBits j inMap
  have ends := sized.ends
  have someZones := sized.someZones
  have hasZmap := sized.hasZmap
  have inMap := sized.inMap
  have positive := sized.hasTable
  have secondClear :
      ready.mapBit dev (imapBlockNr + desc.imapBlocks) 1 = false := by
    rw [bits (by omega)]
    simp only [decide_eq_false_iff_not]
    omega
  rcases balloc_cases (root.superDesc prepared.toLaid) (by omega) allocated with
    ⟨_, _, full⟩ | ⟨j, isZone, _, below, ⟨_, isClear, full⟩, written⟩
  · rw [full 1 (Nat.zero_le _) (by omega)] at secondClear
    cases secondClear
  · have second : j = 1 := by
      rw [bits below] at isClear
      simp only [decide_eq_false_iff_not] at isClear
      by_contra other
      rw [full 1 (Nat.zero_le _) (by omega)] at secondClear
      cases secondClear
    subst second
    exact ⟨by omega, written⟩

/-- With an empty slot, the root directory gets the first data zone. -/
theorem root_of_empty (root : RootTaken stage ready dev ino desc)
    (prepared : Prepared fs stage dev sb desc mapEnd)
    (sized : Sized desc mapEnd)
    (empty : (stage.rootDesc dev desc).zone 0 = 0)
    (map : ready.bmap ino 0 true = .ok (zone, mapped)) (memory : Memory) :
    let rooted := mapped.writeBlock dev zone memory
    zone = desc.firstdatazone ∧ mapped.inodeTable = ready.inodeTable ∧
      rooted.rootDesc dev desc = { ready.rootDesc dev desc with
        zone := Function.update (ready.rootDesc dev desc).zone 0
          desc.firstdatazone } ∧
      rooted.superDesc dev = desc ∧
      rooted.mapBit dev (imapBlockNr + desc.imapBlocks) 1 = true := by
  intro rooted
  have slot : (ready.desc ino).zone 0 = 0 := by
    rw [root.desc_eq, root.zone]
    exact empty
  rcases bmap_direct 0 (by decide) map with
    ⟨full, _⟩ | ⟨_, _, fresh, allotted, allocated, isZone, rfl⟩
  · exact absurd ⟨slot, rfl⟩ full
  · rw [root.inodeDev] at allocated
    obtain ⟨rfl, written⟩ := balloc_root root prepared sized allocated
    rw [Nat.mod_eq_of_lt sized.small] at isZone
    subst isZone
    have behindTable := sized.hasTable
    have behindMaps : imapBlockNr + desc.imapBlocks < rootTable desc := by
      have := sized.hasZmap
      unfold rootTable
      omega
    have behindSuper := superBlock_before
    have firstBlock : 1 / blockBits = 0 := by decide
    refine ⟨rfl, written.inodeTable, ?_, ?_, ?_⟩
    · have self := allotted.modifyDesc_block_self ino
        (InodeDesc.setZone 0 desc.firstdatazone)
      unfold descStart at self
      rw [written.inodeTable, root.inodeDev, root.inodeBlock, root.inodeSlot] at self
      unfold rootDesc
      rw [writeBlock_block_other _ _ _ _ (by omega), self,
        written.frame _ _ (by omega)]
      refine (InodeDesc.read_setZone _ _ _ 0).trans ?_
      rw [Nat.mod_eq_of_lt sized.small]
    · unfold Fs.superDesc
      rw [writeBlock_block_other _ _ _ _ (by omega), modifyDesc_block_other _ _ _
        (by rw [written.inodeTable, root.inodeBlock]; omega)]
      exact (written.superDesc (by omega) dev).trans
        (root.superDesc prepared.toLaid)
    · unfold Fs.mapBit
      rw [writeBlock_block_other _ _ _ _ (by omega), modifyDesc_block_other _ _ _
        (by rw [written.inodeTable, root.inodeBlock]; omega)]
      exact (written.bit 1).trans (if_pos rfl)

/-- With a slot that is not empty, the block it refers to becomes the root
directory. -/
theorem root_of_stale (root : RootTaken stage ready dev ino desc)
    (stale : (stage.rootDesc dev desc).zone 0 ≠ 0)
    (map : ready.bmap ino 0 true = .ok (zone, mapped)) :
    zone = (stage.rootDesc dev desc).zone 0 ∧ mapped = ready := by
  have slot : (ready.desc ino).zone 0 = (stage.rootDesc dev desc).zone 0 := by
    rw [root.desc_eq, root.zone]
  rcases bmap_direct 0 (by decide) map with
    ⟨_, isZone, rfl⟩ | ⟨empty, _⟩
  · exact ⟨isZone.trans slot, rfl⟩
  · exact absurd (slot.symm.trans empty) stale

end Zone

/-! ## Use of a formatted device -/

/-- A device in use: zones are allocated, and other calls keep the descriptor of
the device and a bit of a bitmap. -/
def inUse (disk : Volumes) (dev first bit : Nat) : System Fs (Option Nat) where
  initial := fun fs => fs.disk = disk
  step := fun before label after =>
    match label with
    | some zone => before.balloc dev = .ok (zone, after)
    | none => after.superDesc dev = before.superDesc dev ∧
        after.mapBit dev first bit = before.mapBit dev first bit

section Disk

variable {before : Fs} (same : after.disk = before.disk) (dev : Nat)

include same

theorem superDesc_congr : after.superDesc dev = before.superDesc dev := by
  unfold superDesc block
  rw [same]

theorem mapBit_congr (first j : Nat) :
    after.mapBit dev first j = before.mapBit dev first j := by
  unfold mapBit block
  rw [same]

theorem rootDesc_congr (desc : SuperDesc) :
    after.rootDesc dev desc = before.rootDesc dev desc := by
  unfold rootDesc block
  rw [same]

end Disk

/-- An allocation clears no bit and does not return a zone whose bit is set. -/
theorem balloc_marked (superDesc : fs.superDesc dev = desc) (positive : 0 < desc.firstdatazone)
    (marked : fs.mapBit dev (imapBlockNr + desc.imapBlocks) j = true)
    (allocated : fs.balloc dev = .ok (zone, after)) :
    after.mapBit dev (imapBlockNr + desc.imapBlocks) j = true ∧
      (zone = eof ∨ zone ≠ desc.firstdatazone - 1 + j) := by
  rcases balloc_cases superDesc positive allocated with
    ⟨isEof, rfl, _⟩ | ⟨k, isZone, _, _, isFirst, written⟩
  · exact ⟨marked, .inl isEof⟩
  · have different : j ≠ k := by
      rintro rfl
      rw [isFirst.2.1] at marked
      cases marked
    refine ⟨?_, .inr (by omega)⟩
    rw [written.bit j, if_neg different]
    exact marked

/-- A zone whose bit is set stays allocated while the device is in use. -/
theorem kept_of_marked {start later : Fs} (superDesc : start.superDesc dev = desc)
    (positive : 0 < desc.firstdatazone)
    (marked : start.mapBit dev (imapBlockNr + desc.imapBlocks) j = true)
    (reached : (inUse start.disk dev (imapBlockNr + desc.imapBlocks) j).Reachable later)
    (allocated : later.balloc dev = .ok (zone, after)) :
    zone = eof ∨ zone ≠ desc.firstdatazone - 1 + j := by
  obtain ⟨isDesc, isMarked⟩ := reached.invariant
    (fun fs => fs.superDesc dev = desc ∧
      fs.mapBit dev (imapBlockNr + desc.imapBlocks) j = true)
    (by
      intro fs same
      exact ⟨(superDesc_congr same dev).trans superDesc,
        (mapBit_congr same dev _ j).trans marked⟩)
    (by
      rintro before label after ⟨isDesc, isMarked⟩ _ taken
      cases label with
      | some other => exact ⟨(balloc_superDesc taken).trans isDesc,
          (balloc_marked isDesc positive isMarked taken).1⟩
      | none => exact ⟨taken.1.trans isDesc, taken.2.trans isMarked⟩)
  exact (balloc_marked isDesc positive isMarked allocated).2

/-- The root directory of a device is a new one: its block is a data zone in use,
it has no other zones, and it contains the entries for itself and its parent. -/
structure RootFresh (fs : Fs) (dev : Nat) (desc : SuperDesc) : Prop where
  inZones : desc.firstdatazone ≤ (fs.rootDesc dev desc).zone 0 ∧
    (fs.rootDesc dev desc).zone 0 < desc.zones
  marked : fs.mapBit dev (imapBlockNr + desc.imapBlocks)
    (zoneBit desc ((fs.rootDesc dev desc).zone 0)) = true
  others : ∀ index, index ≠ 0 → (fs.rootDesc dev desc).zone index = 0
  size : (fs.rootDesc dev desc).size = 32
  self : EntryIs (fs.block dev ((fs.rootDesc dev desc).zone 0)) 0 1 dotName
  parent : EntryIs (fs.block dev ((fs.rootDesc dev desc).zone 0)) 16 1 dotDotName
  /-- While the block is not freed, no allocation returns it. -/
  kept : ∀ later zone after,
    (inUse fs.disk dev (imapBlockNr + desc.imapBlocks)
      (zoneBit desc ((fs.rootDesc dev desc).zone 0))).Reachable later →
    later.balloc dev = .ok (zone, after) → zone ≠ (fs.rootDesc dev desc).zone 0

/-- Whether the root directory is a new one depends on the disk only. -/
theorem RootFresh.congr {before : Fs} (same : after.disk = before.disk)
    (fresh : RootFresh before dev desc) : RootFresh after dev desc := by
  have sameRoot := rootDesc_congr same dev desc
  have sameBlock : after.block = before.block := by
    funext dev number
    unfold block
    rw [same]
  constructor
  case inZones =>
    rw [sameRoot]
    exact fresh.inZones
  case marked =>
    rw [sameRoot, mapBit_congr same]
    exact fresh.marked
  case others =>
    rw [sameRoot]
    exact fresh.others
  case size =>
    rw [sameRoot]
    exact fresh.size
  case self =>
    rw [sameRoot, sameBlock]
    exact fresh.self
  case parent =>
    rw [sameRoot, sameBlock]
    exact fresh.parent
  case kept =>
    rw [sameRoot, same]
    exact fresh.kept

/-- A root directory in a block that the inode referred to before is not a new
one: an allocation may return the block. -/
theorem not_rootFresh_of_stale {ready : Fs} (root : RootTaken stage ready dev ino desc)
    (prepared : Prepared fs stage dev sb desc mapEnd) (sized : Sized desc mapEnd)
    (memory : Memory) :
    ¬RootFresh (ready.writeBlock dev ((stage.rootDesc dev desc).zone 0)
      (rootEntries memory)) dev desc := by
  intro fresh
  generalize isZone : (stage.rootDesc dev desc).zone 0 = zone at fresh
  have positive := sized.hasTable
  obtain ⟨above, below⟩ := fresh.inZones
  by_cases overTable : zone = rootTable desc
  · have cleared : ((ready.writeBlock dev zone (rootEntries memory)).rootDesc dev
        desc).zone 0 = 0 := by
      unfold rootDesc
      rw [overTable, writeBlock_block_self]
      exact rootEntries_zone memory
    omega
  · have kept : ((ready.writeBlock dev zone (rootEntries memory)).rootDesc dev
        desc).zone 0 = zone := by
      unfold rootDesc
      rw [writeBlock_block_other _ _ _ _ (by omega)]
      exact (congrFun root.zone 0).trans isZone
    have ends := sized.ends
    have inMap := sized.inMap
    have hasZmap := sized.hasZmap
    have isMarked := fresh.marked
    rw [kept] at above below isMarked
    have bitInMap : zoneBit desc zone < desc.zmapBlocks * blockBits := by
      unfold zoneBit
      omega
    have inBlocks := block_of_bit bitInMap
    have clear : (ready.writeBlock dev zone (rootEntries memory)).mapBit dev
        (imapBlockNr + desc.imapBlocks) (zoneBit desc zone) = false := by
      have same := root.mapBit bitInMap
      rw [prepared.zoneBits _ bitInMap] at same
      unfold mapBit at same ⊢
      rw [writeBlock_block_other _ _ _ _ (by unfold rootTable at positive; omega),
        same]
      simp only [decide_eq_false_iff_not]
      unfold zoneBit
      omega
    rw [clear] at isMarked
    cases isMarked

/-- With empty slots, the root directory made by `devmkfs` is a new one. -/
theorem rootFresh_of_empty {ready mapped : Fs} (root : RootTaken stage ready dev ino desc)
    (prepared : Prepared fs stage dev sb desc mapEnd) (sized : Sized desc mapEnd)
    (size : (ready.rootDesc dev desc).size = 32)
    (empty : (stage.rootDesc dev desc).zone = fun _ => 0)
    (map : ready.bmap ino 0 true = .ok (zone, mapped)) (memory : Memory) :
    RootFresh (mapped.writeBlock dev zone (rootEntries memory)) dev desc := by
  obtain ⟨rfl, _, isDesc, superDesc, marked⟩ := root_of_empty root prepared sized
    (congrFun empty 0) map (rootEntries memory)
  rw [root.zone, empty] at isDesc
  have positive := sized.hasTable
  have first : ((mapped.writeBlock dev desc.firstdatazone
      (rootEntries memory)).rootDesc dev desc).zone 0 = desc.firstdatazone := by
    rw [isDesc]
    exact Function.update_self (0 : Fin 9) desc.firstdatazone fun _ => 0
  have bit : zoneBit desc desc.firstdatazone = 1 := by
    unfold zoneBit
    omega
  constructor
  case inZones =>
    rw [first]
    exact ⟨Nat.le_refl _, sized.someZones⟩
  case marked =>
    rw [first, bit]
    exact marked
  case others =>
    intro index other
    rw [isDesc]
    exact Function.update_of_ne other desc.firstdatazone fun _ => 0
  case size =>
    rw [isDesc]
    exact size
  case self =>
    rw [first, writeBlock_block_self]
    exact rootEntries_self memory
  case parent =>
    rw [first, writeBlock_block_self]
    exact rootEntries_parent memory
  case kept =>
    intro later zone after reached allocated
    rw [first, bit] at reached
    rw [first]
    have small := sized.small
    rcases kept_of_marked superDesc (by omega) marked reached allocated with
      full | different
    · rw [full]
      simp only [eof]
      omega
    · omega

/-- The root directory made by `devmkfs` is a new one exactly when the slots of
its inode were empty. -/
theorem rootFresh_of_made (prepared : Prepared fs stage dev sb desc mapEnd)
    (sized : Sized desc mapEnd)
    (lists : ∀ sb, (stage.superTable sb).dev = dev → (stage.superTable sb).inodeList = [])
    (made : stage.makeRoot task dev sb = .ok rooted) :
    RootFresh rooted dev desc ↔ (fs.rootDesc dev desc).zone = fun _ => 0 := by
  have same : stage.rootDesc dev desc = fs.rootDesc dev desc := by
    unfold rootDesc
    rw [prepared.others _ _ (by unfold rootTable; omega)]
  obtain ⟨ino, ready, zone, mapped, root, size, map, rfl⟩ :=
    makeRoot_cases prepared.superDesc lists made
  rw [← same]
  by_cases slot : (stage.rootDesc dev desc).zone 0 = 0
  · obtain ⟨isZone, sameInodes, isDesc, _⟩ := root_of_empty root prepared sized
      slot map (rootEntries (mapped.block dev zone))
    rw [sameInodes, root.inodeNr]
    constructor
    · intro fresh
      funext index
      by_cases first : index = 0
      · rw [first]
        exact slot
      · have other := fresh.others index first
        unfold rootEntries at isDesc
        rw [isDesc, root.zone] at other
        exact (Function.update_of_ne first _ _).symm.trans other
    · intro empty
      exact rootFresh_of_empty root prepared sized size empty map _
  · obtain ⟨rfl, rfl⟩ := root_of_stale root slot map
    rw [root.inodeNr]
    constructor
    · intro fresh
      exact absurd fresh (not_rootFresh_of_stale root prepared sized _)
    · intro empty
      exact absurd (congrFun empty 0) slot

/-! ## Formatting -/

/-- `put_super` changes the tables only.  It leaves the devices and the lists of
other super blocks alone and adds no inode to a list. -/
theorem putSuper_spec (put : fs.putSuper sb = .ok after) :
    after.disk = fs.disk ∧
      (∀ other, other ≠ sb →
        (after.superTable other).dev = (fs.superTable other).dev) ∧
      ∀ other, (after.superTable other).inodeList.Sublist
        (fs.superTable other).inodeList := by
  unfold putSuper at put
  simp only [bind_eq_ok, check_eq_ok] at put
  obtain ⟨_, _, put⟩ := put
  split at put
  · cases put
    refine ⟨rfl, fun other different => ?_, fun other => ?_⟩
    · rw [setSuper_superTable, Function.update_of_ne different]
    · rw [setSuper_superTable]
      by_cases same : other = sb
      · subst same
        rw [Function.update_self]
      · rw [Function.update_of_ne same]
  · rw [bind_eq_ok] at put
    obtain ⟨unmounted, first, second⟩ := put
    obtain ⟨firstOnly, firstLists⟩ := iputOption_tablesOnly first
    obtain ⟨secondOnly, secondLists⟩ := iputOption_tablesOnly second
    refine ⟨secondOnly.disk.trans firstOnly.disk, fun other different => ?_,
      fun other => (secondLists other).trans ((firstLists other).trans ?_)⟩
    · rw [secondOnly.dev, firstOnly.dev, setSuper_superTable,
        Function.update_of_ne different]
    · rw [setSuper_superTable]
      by_cases same : other = sb
      · subst same
        rw [Function.update_self]
      · rw [Function.update_of_ne same]

/-- Releasing an earlier super block of an idle device leaves it idle. -/
theorem dropSuper_spec (idle : fs.Idle dev) (dropped : fs.dropSuper dev = .ok after) :
    after.disk = fs.disk ∧ after.Idle dev := by
  unfold dropSuper at dropped
  split at dropped
  · rename_i sb found
    obtain ⟨isDev, _⟩ := dev_of_getSuper found
    obtain ⟨sameDisk, devices, lists⟩ := putSuper_spec dropped
    have sameLists (other : Nat) :
        ((fs.holdSuper sb).superTable other).inodeList =
          (fs.superTable other).inodeList := by
      unfold holdSuper
      rw [setSuper_superTable]
      by_cases same : other = sb
      · subst same
        rw [Function.update_self]
      · rw [Function.update_of_ne same]
    refine ⟨sameDisk, fun other carries => ?_⟩
    have wasEmpty : (fs.superTable other).inodeList = [] := by
      by_cases same : other = sb
      · subst same
        exact idle other (.inl isDev)
      · apply idle other
        rw [devices other same] at carries
        unfold holdSuper at carries
        rw [setSuper_superTable, Function.update_of_ne same] at carries
        exact carries
    have shorter := lists other
    rw [sameLists, wasEmpty] at shorter
    exact List.sublist_nil.mp shorter
  · cases dropped
    exact ⟨rfl, idle⟩

/-- What `devmkfs` does on a device that is not mounted. -/
theorem devmkfs_cases {totalBlock icount : Nat} (idle : fs.Idle dev)
    (formatted : fs.devmkfs task dev totalBlock icount = .ok (0, after)) :
    icount < totalBlock ∧ ∃ dropped : Fs, dropped.disk = fs.disk ∧ dropped.Idle dev ∧
      dropped.format task dev totalBlock
        (if icount = 0 then totalBlock / 3 else icount) = .ok after := by
  unfold devmkfs at formatted
  simp only [bind_eq_ok] at formatted
  obtain ⟨dropped, drop, formatted⟩ := formatted
  split at formatted
  · cases formatted
  · simp only [bind_eq_ok, check_eq_ok] at formatted
    obtain ⟨_, _, _, fewer, result, made, same⟩ := formatted
    cases same
    obtain ⟨sameDisk, nowIdle⟩ := dropSuper_spec idle drop
    exact ⟨fewer, dropped, sameDisk, nowIdle, made⟩

/-- With an empty slot, making the root directory keeps the descriptor of the
device. -/
theorem makeRoot_superDesc (laid : Laid fs stage dev sb desc)
    (lists : ∀ sb, (stage.superTable sb).dev = dev → (stage.superTable sb).inodeList = [])
    (hasTable : rootTable desc < desc.firstdatazone) (zones : desc.zones < 2 ^ 16)
    (empty : (stage.rootDesc dev desc).zone 0 = 0)
    (made : stage.makeRoot task dev sb = .ok rooted) : rooted.superDesc dev = desc := by
  obtain ⟨ino, ready, zone, mapped, root, _, map, rfl⟩ :=
    makeRoot_cases laid.superDesc lists made
  have slot : (ready.desc ino).zone 0 = 0 := by
    rw [root.desc_eq, root.zone]
    exact empty
  have behindTable : superBlockNr < rootTable desc := by
    unfold rootTable
    have := superBlock_before
    omega
  rcases bmap_direct 0 (by decide) map with
    ⟨full, _⟩ | ⟨_, _, fresh, allotted, allocated, isZone, rfl⟩
  · exact absurd ⟨slot, rfl⟩ full
  · rw [root.inodeDev] at allocated
    have behindZone : superBlockNr < zone := by
      rcases balloc_cases (root.superDesc laid) (by omega) allocated with
        ⟨isEof, _⟩ | ⟨j, isFresh, inRange, _⟩
      · rw [isZone, isEof]
        decide
      · rw [isZone, Nat.mod_eq_of_lt (by omega)]
        omega
    unfold Fs.superDesc
    rw [writeBlock_block_other _ _ _ _ (by omega), modifyDesc_block_other _ _ _
      (by rw [(balloc_tables allocated).1, root.inodeBlock]; omega)]
    exact (balloc_superDesc allocated).trans (root.superDesc laid)

/-- The sizes of a layout on which the rest of `devmkfs` returns. -/
theorem sized_of_fits {totalBlock icount : Nat} (sized : totalBlock < 2 ^ 31)
    (fewer : icount < totalBlock)
    (someZones : (newSuperDesc totalBlock icount).firstdatazone <
      (newSuperDesc totalBlock icount).zones)
    (notMultiple : zoneCount totalBlock
      (newSuperDesc totalBlock icount).imapBlocks icount % blockBits ≠ 0)
    (imapFits : (newSuperDesc totalBlock icount).imapBlocks ≤ mapNr)
    (zmapFits : (newSuperDesc totalBlock icount).zmapBlocks ≤ mapNr)
    (hasImap : 0 < (newSuperDesc totalBlock icount).imapBlocks)
    (hasZmap : 0 < (newSuperDesc totalBlock icount).zmapBlocks) :
    Sized (newSuperDesc totalBlock icount) (zoneMapEnd totalBlock icount) := by
  obtain ⟨hasBlocks, _, first⟩ :=
    layout_facts sized fewer imapFits hasImap zmapFits
  have ends := zoneMapEnd_facts sized fewer imapFits hasImap zmapFits hasZmap
    notMultiple someZones
  refine ⟨hasZmap, ?_, ?_, ends, someZones,
    (newSuperDesc_inRange totalBlock icount).firstdatazone⟩
  · unfold rootTable
    omega
  · have tail : zoneCount totalBlock (newSuperDesc totalBlock icount).imapBlocks
        icount % blockBits < blockBits := Nat.mod_lt _ (by decide)
    have split : (newSuperDesc totalBlock icount).zmapBlocks * blockBits =
        ((newSuperDesc totalBlock icount).zmapBlocks - 1) * blockBits +
          blockBits := by
      rw [← Nat.succ_mul]
      congr 1
      omega
    unfold zoneMapEnd
    dsimp only
    omega

/-- After `devmkfs` on a device that is not in use, the root directory is a new one
exactly when the zone slots of its inode were empty before. -/
theorem rootFresh_iff {fs after : Fs} {task : Creds}
    {dev totalBlock icount : Nat} (sized : totalBlock < 2 ^ 31)
    (manyInodes : 8 ≤ icount)
    (manyZones : (newSuperDesc totalBlock icount).firstdatazone + 16 ≤
      (newSuperDesc totalBlock icount).zones)
    (notMultiple : zoneCount totalBlock
      (newSuperDesc totalBlock icount).imapBlocks icount % blockBits ≠ 0)
    (idle : fs.Idle dev)
    (formatted : fs.devmkfs task dev totalBlock icount = .ok (0, after)) :
    RootFresh after dev (newSuperDesc totalBlock icount) ↔
      (fs.rootDesc dev (newSuperDesc totalBlock icount)).zone = fun _ => 0 := by
  obtain ⟨fewer, dropped, sameDisk, nowIdle, made⟩ := devmkfs_cases idle formatted
  rw [if_neg (by omega)] at made
  have someZones : (newSuperDesc totalBlock icount).firstdatazone <
      (newSuperDesc totalBlock icount).zones := by omega
  obtain ⟨imapFits, zmapFits, sb, isFree, _, ⟨steps⟩⟩ := format_steps made
  obtain ⟨hasImap, hasZmap, laid, prepared⟩ := steps.prepared
  have ends := zoneMapEnd_facts sized fewer imapFits hasImap zmapFits hasZmap
    notMultiple someZones
  have layout := sized_of_fits sized fewer someZones notMultiple imapFits zmapFits
    hasImap hasZmap
  have spec := rootFresh_of_made (prepared (by omega)) layout
    (laid.lists nowIdle isFree) steps.made
  obtain ⟨putDisk, _⟩ := putSuper_spec steps.put
  rw [rootDesc_congr sameDisk] at spec
  rw [← spec]
  exact ⟨RootFresh.congr putDisk.symm, RootFresh.congr putDisk⟩

/-- The task that formats a device. -/
def rootCreds : Creds := ⟨0, 0, 0o22, 0, 0⟩

/-- A file system without a device in use, where block 4 of device 2 has a given
content. -/
def unused (table : Memory) : Fs :=
  { small with disk := fun dev number =>
      if dev = 2 ∧ number = 4 then table else bytes [] }

theorem unused_idle (table : Memory) : (unused table).Idle 2 := by
  intro sb carries
  by_cases mounted : sb = 0
  · subst mounted
    simp [unused, small, eof] at carries
  · simp [unused, small, mounted]

theorem rootFresh_iff_zeroed :
    ∃ after, (unused (bytes [])).devmkfs rootCreds 2 40 16 = .ok (0, after) ∧
      (RootFresh after 2 (newSuperDesc 40 16) ↔
        ((unused (bytes [])).rootDesc 2 (newSuperDesc 40 16)).zone =
          fun _ => 0) := by
  obtain ⟨after, formatted⟩ : ∃ after,
    (unused (bytes [])).devmkfs rootCreds 2 40 16 = .ok (0, after) := ⟨_, rfl⟩
  exact ⟨after, formatted, rootFresh_iff (by decide) (by decide) (by decide)
    (by decide) (unused_idle _) formatted⟩

/-- The inode table that an earlier file system of the same size leaves: the first
slot of the root inode refers to block 5. -/
def usedTable : Memory :=
  bytes [0, 0, 0, 0, 0, 0, 0, 0, 0, 0, 0, 0, 0, 0, 5]

/-- Formatting a device again leaves the block of the root directory free. -/
theorem rootFresh_fails :
    8 ≤ 16 ∧ (newSuperDesc 40 16).firstdatazone + 16 ≤ (newSuperDesc 40 16).zones ∧
      (16 + 1) % blockBits ≠ 0 ∧
      zoneCount 40 (newSuperDesc 40 16).imapBlocks 16 % blockBits ≠ 0 ∧
      (unused usedTable).Idle 2 ∧
      ∃ after, (unused usedTable).devmkfs rootCreds 2 40 16 = .ok (0, after) ∧
        ¬RootFresh after 2 (newSuperDesc 40 16) := by
  refine ⟨by decide, by decide, by decide, by decide, unused_idle _, _, rfl, ?_⟩
  intro fresh
  exact absurd fresh.marked (by decide +kernel)

end Fs
end LightOS
