import LightOS.Fs.Lookup
import LightOS.Fs.Descriptors

/-!
# What a file may change

A file with its inode in the inode table of a mounted device takes zones that are
free and gives them back.  Relative to a base state, such a file changes its own
descriptor, the zone map and zones that were free; every other file whose zones
were in use keeps its content.
-/

namespace LightOS
namespace Fs

variable {number j dev sb : Nat} {fs : Fs}

/-- A device is mounted, its zone map is buffered, and the inode table lies
between the zone map and the data zones. -/
structure Mounted (fs : Fs) (dev sb : Nat) : Prop where
  found : fs.getSuper dev = some sb
  hasZmap : 0 < (fs.superDesc dev).zmapBlocks
  fits : (fs.superDesc dev).zmapBlocks ≤ mapNr
  zmaps : ∀ i, i < (fs.superDesc dev).zmapBlocks →
    (fs.superTable sb).zmaps i = some (fs.zmapStart dev + i)
  /-- The first bit of the zone map stands for no zone. -/
  firstBit : fs.mapBit dev (fs.zmapStart dev) 0 = true

/-- The descriptor of an inode lies in the inode table of a device. -/
structure InTable (fs : Fs) (dev ino : Nat) : Prop where
  inodeDev : (fs.inodeTable ino).dev = dev
  behindMaps : fs.zmapStart dev + (fs.superDesc dev).zmapBlocks ≤
    (fs.inodeTable ino).block
  beforeZones : (fs.inodeTable ino).block < (fs.superDesc dev).firstdatazone

/-- A zone whose bit of the zone map is clear. -/
def FreeZone (fs : Fs) (dev number : Nat) : Prop :=
  ∃ j, j < (fs.superDesc dev).zmapBlocks * blockBits ∧
    fs.mapBit dev (fs.zmapStart dev) j = false ∧
    number = (fs.superDesc dev).firstdatazone - 1 + j

/-- A block of the zone map. -/
def InZoneMap (fs : Fs) (dev number : Nat) : Prop :=
  fs.zmapStart dev ≤ number ∧
    number < fs.zmapStart dev + (fs.superDesc dev).zmapBlocks

/-- A free zone is a data zone. -/
theorem FreeZone.above (mounted : Mounted fs dev sb) (free : FreeZone fs dev number) :
    (fs.superDesc dev).firstdatazone ≤ number := by
  obtain ⟨j, _, isClear, rfl⟩ := free
  have notFirst : j ≠ 0 := by
    rintro rfl
    rw [mounted.firstBit] at isClear
    cases isClear
  omega

/-- Since a base state, only what belongs to a file has changed. -/
structure Framed (base fs : Fs) (dev ino : Nat) : Prop where
  inodeTable : fs.inodeTable = base.inodeTable
  superTable : fs.superTable = base.superTable
  blocks : ∀ otherDev number,
    ¬(otherDev = dev ∧ (number = (base.inodeTable ino).block ∨
      base.InZoneMap dev number ∨ base.FreeZone dev number)) →
    fs.block otherDev number = base.block otherDev number
  table : Memory.ChangesIn (base.block dev (base.inodeTable ino).block)
    (fs.block dev (base.inodeTable ino).block) (base.descStart ino) 32
  marks : ∀ j, j < (base.superDesc dev).zmapBlocks * blockBits →
    base.mapBit dev (base.zmapStart dev) j = true →
    fs.mapBit dev (base.zmapStart dev) j = true

namespace Framed

variable {base after : Fs} {ino : Nat}

theorem refl (base : Fs) (dev ino : Nat) : Framed base base dev ino :=
  ⟨rfl, rfl, fun _ _ _ => rfl, .refl _ _ _, fun _ _ isSet => isSet⟩

theorem descStart (framed : Framed base fs dev ino) (other : Nat) :
    fs.descStart other = base.descStart other := by
  unfold Fs.descStart
  rw [framed.inodeTable]

theorem getSuper (framed : Framed base fs dev ino) (otherDev : Nat) :
    fs.getSuper otherDev = base.getSuper otherDev := by
  unfold Fs.getSuper
  rw [framed.superTable]

/-- The blocks of the zone map lie before the block of the inode. -/
theorem mapBlock_lt (inTable : InTable base dev ino)
    (inMap : j < (base.superDesc dev).zmapBlocks * blockBits) :
    base.zmapStart dev + j / blockBits < (base.inodeTable ino).block := by
  have inBlocks := block_of_bit inMap
  have behind := inTable.behindMaps
  omega

section Placed

variable (mounted : Mounted base dev sb) (inTable : InTable base dev ino)

include mounted inTable

/-- The inode table lies between the zone map and every free zone. -/
theorem table_lt (free : base.FreeZone dev number) : (base.inodeTable ino).block < number :=
  Nat.lt_of_lt_of_le inTable.beforeZones (free.above mounted)

theorem superDesc (framed : Framed base fs dev ino) :
    fs.superDesc dev = base.superDesc dev := by
  have hasZmap := mounted.hasZmap
  have behind := inTable.behindMaps
  have start : superBlockNr < base.zmapStart dev :=
    Nat.lt_of_lt_of_le (by decide) (Nat.le_add_right imapBlockNr _)
  unfold Fs.superDesc
  rw [framed.blocks]
  rintro ⟨_, table | inMap | free⟩
  · omega
  · exact absurd inMap.1 (by omega)
  · have above := table_lt mounted inTable free
    omega

theorem zmapStart (framed : Framed base fs dev ino) :
    fs.zmapStart dev = base.zmapStart dev := by
  unfold Fs.zmapStart
  rw [framed.superDesc mounted inTable]

omit mounted in
/-- A change of the descriptor of the file. -/
theorem modifyDesc (framed : Framed base fs dev ino)
    {change : Memory → Nat → Memory} (confined : InodeDesc.Confined change) :
    Framed base (fs.modifyDesc ino change) dev ino where
  inodeTable := framed.inodeTable
  superTable := framed.superTable
  blocks := by
    intro otherDev number outside
    have notTable : ¬(otherDev = dev ∧ number = (base.inodeTable ino).block) :=
      fun inside => outside ⟨inside.1, .inl inside.2⟩
    rw [modifyDesc_block_other _ _ _
      (by rw [framed.inodeTable, inTable.inodeDev]; exact notTable)]
    exact framed.blocks otherDev number outside
  table := by
    have changed := confined (fs.block dev (base.inodeTable ino).block)
      (base.descStart ino)
    have self := fs.modifyDesc_block_self ino change
    rw [framed.inodeTable, inTable.inodeDev, framed.descStart] at self
    refine framed.table.trans ?_
    rw [self]
    exact changed
  marks := by
    intro j inMap isSet
    have below := mapBlock_lt inTable inMap
    have kept := framed.marks j inMap isSet
    unfold mapBit at kept ⊢
    rw [modifyDesc_block_other _ _ _ (by rw [framed.inodeTable]; omega)]
    exact kept

/-- Writing a zone that was free. -/
theorem writeFree (framed : Framed base fs dev ino) (free : base.FreeZone dev number)
    (memory : Memory) :
    Framed base (fs.writeBlock dev number memory) dev ino where
  inodeTable := framed.inodeTable
  superTable := framed.superTable
  blocks := by
    intro otherDev other outside
    have notFree : ¬(otherDev = dev ∧ other = number) := by
      rintro ⟨sameDev, rfl⟩
      exact outside ⟨sameDev, .inr (.inr free)⟩
    rw [writeBlock_block_other _ _ _ _ notFree]
    exact framed.blocks otherDev other outside
  table := by
    have above := table_lt mounted inTable free
    rw [writeBlock_block_other _ _ _ _ (by omega)]
    exact framed.table
  marks := by
    intro j inMap isSet
    have above := table_lt mounted inTable free
    have below := mapBlock_lt inTable inMap
    have kept := framed.marks j inMap isSet
    unfold mapBit at kept ⊢
    rw [writeBlock_block_other _ _ _ _ (by omega)]
    exact kept

omit mounted in
/-- Writing the bit of a zone that was free. -/
theorem bitWritten (framed : Framed base fs dev ino) {value : Bool}
    (inMap : j < (base.superDesc dev).zmapBlocks * blockBits)
    (isClear : base.mapBit dev (base.zmapStart dev) j = false)
    (written : BitWritten fs after dev (base.zmapStart dev) j value) :
    Framed base after dev ino where
  inodeTable := written.inodeTable.trans framed.inodeTable
  superTable := written.superTable.trans framed.superTable
  blocks := by
    intro otherDev other outside
    have inBlocks := block_of_bit inMap
    rw [written.frame otherDev other]
    · exact framed.blocks otherDev other outside
    · rintro ⟨sameDev, rfl⟩
      exact outside ⟨sameDev, .inr (.inl
        ⟨Nat.le_add_right _ _, Nat.add_lt_add_left inBlocks _⟩)⟩
  table := by
    have below := mapBlock_lt inTable inMap
    rw [written.frame dev _ (by omega)]
    exact framed.table
  marks := by
    intro k kInMap isSet
    have different : k ≠ j := by
      rintro rfl
      rw [isClear] at isSet
      cases isSet
    rw [written.bit k, if_neg different]
    exact framed.marks k kInMap isSet

/-- The device stays mounted. -/
theorem staysMounted (framed : Framed base fs dev ino) : Mounted fs dev sb where
  found := (framed.getSuper dev).trans mounted.found
  hasZmap := by
    rw [framed.superDesc mounted inTable]
    exact mounted.hasZmap
  fits := by
    rw [framed.superDesc mounted inTable]
    exact mounted.fits
  zmaps := by
    rw [framed.superDesc mounted inTable, framed.zmapStart mounted inTable,
      framed.superTable]
    exact mounted.zmaps
  firstBit := by
    rw [framed.zmapStart mounted inTable]
    exact framed.marks 0 (Nat.mul_pos mounted.hasZmap (by decide))
      mounted.firstBit

omit mounted inTable in
/-- A bit that is clear now was clear. -/
theorem wasClear (framed : Framed base fs dev ino)
    (inMap : j < (base.superDesc dev).zmapBlocks * blockBits)
    (isClear : fs.mapBit dev (base.zmapStart dev) j = false) :
    base.mapBit dev (base.zmapStart dev) j = false := by
  by_contra isSet
  rw [framed.marks j inMap (by simpa using isSet)] at isClear
  cases isClear

/-- A zone that is free now was free. -/
theorem freeZone (framed : Framed base fs dev ino) (free : fs.FreeZone dev number) :
    base.FreeZone dev number := by
  obtain ⟨j, inMap, isClear, isZone⟩ := free
  rw [framed.superDesc mounted inTable] at inMap isZone
  rw [framed.zmapStart mounted inTable] at isClear
  exact ⟨j, inMap, framed.wasClear inMap isClear, isZone⟩

end Placed

end Framed

/-! ## Taking and releasing zones -/

/-- Releasing a zone of a mounted device clears its bit. -/
theorem bfree_cases {after : Fs} (mounted : Mounted fs dev sb)
    (positive : 0 < (fs.superDesc dev).firstdatazone)
    (inMap : j < (fs.superDesc dev).zmapBlocks * blockBits)
    (freed : fs.bfree dev ((fs.superDesc dev).firstdatazone - 1 + j) = .ok after) :
    BitWritten fs after dev (fs.zmapStart dev) j false := by
  have small := fs.firstdatazone_lt dev
  have inBlocks := block_of_bit inMap
  have base : sub32 (fs.superDesc dev).firstdatazone 1 =
      (fs.superDesc dev).firstdatazone - 1 := sub32_eq positive
  have place : sub32 ((fs.superDesc dev).firstdatazone - 1 + j)
      ((fs.superDesc dev).firstdatazone - 1) = j := by
    rw [sub32_eq (Nat.le_add_right _ _), Nat.add_sub_cancel_left]
  have fits : (fs.superDesc dev).zmapBlocks ≤ 8 := mounted.fits
  have offset : add32 ((fs.superDesc dev).firstdatazone - 1)
      (j / blockBits * blockBits) =
        (fs.superDesc dev).firstdatazone - 1 + j / blockBits * blockBits := by
    simp only [add32, blockBits, blockSize] at inMap ⊢
    omega
  have index : (fs.superDesc dev).firstdatazone - 1 + j =
      (fs.superDesc dev).firstdatazone - 1 + j / blockBits * blockBits +
        j % blockBits := by
    simp only [blockBits, blockSize]
    omega
  unfold bfree at freed
  rw [mounted.found] at freed
  simp only [bind_eq_ok, check_eq_ok, bounded_eq_ok, base, place, offset,
    mounted.zmaps _ inBlocks] at freed
  obtain ⟨_, _, _, _, cleared⟩ := freed
  rw [index] at cleared
  exact (clearBit_cases cleared).2

/-- Another file: its descriptor is a different one, and the blocks that it refers
to are zones in use. -/
structure Foreign (base : Fs) (dev ino other : Nat) : Prop where
  apart : (base.inodeTable other).dev = dev →
    (base.zmapStart dev + (base.superDesc dev).zmapBlocks ≤
        (base.inodeTable other).block ∧
      (base.inodeTable other).block < (base.superDesc dev).firstdatazone) ∧
    ((base.inodeTable other).block = (base.inodeTable ino).block →
      (base.inodeTable other).slot ≠ (base.inodeTable ino).slot)
  marked : (base.inodeTable other).dev = dev → ∀ number,
    base.Refers other number → (base.superDesc dev).firstdatazone ≤ number ∧
      ¬base.FreeZone dev number

/-- Another file is left alone. -/
theorem Framed.leftAlone {base : Fs} {ino other : Nat} (framed : Framed base fs dev ino)
    (mounted : Mounted base dev sb) (inTable : InTable base dev ino)
    (foreign : Foreign base dev ino other) :
    LeftAlone base fs other where
  inode := by rw [framed.inodeTable]
  desc := by
    unfold Fs.desc
    rw [framed.inodeTable, framed.descStart]
    by_cases sameDev : (base.inodeTable other).dev = dev
    · obtain ⟨⟨behindMaps, beforeZones⟩, differs⟩ := foreign.apart sameDev
      rw [sameDev]
      by_cases sameBlock :
          (base.inodeTable other).block = (base.inodeTable ino).block
      · have otherSlot := differs sameBlock
        rw [sameBlock]
        apply InodeDesc.read_congr
        apply framed.table.agreeOn
        unfold Fs.descStart
        omega
      · rw [framed.blocks]
        rintro ⟨_, table | inMap | free⟩
        · exact sameBlock table
        · exact absurd inMap.2 (by omega)
        · have above := free.above mounted
          omega
    · rw [framed.blocks]
      exact fun inside => sameDev inside.1
  blocks := by
    intro number refers
    rw [framed.blocks]
    rintro ⟨sameDev, inside⟩
    obtain ⟨above, notFree⟩ := foreign.marked sameDev number refers
    have behind := inTable.behindMaps
    have before := inTable.beforeZones
    rcases inside with table | inMap | free
    · omega
    · exact absurd inMap.2 (by omega)
    · exact notFree free

end Fs
end LightOS
