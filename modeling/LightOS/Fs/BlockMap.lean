import LightOS.Foundation.Transition
import LightOS.Fs.FileContent
import LightOS.Fs.Pointers
import Mathlib.Data.Set.Card

/-!
# The block map of an inode

`bmap` with `create` fills in the pointers that are missing on the way to a block, one
after another, with the zones that `balloc` hands out.  Each of them replaces one empty
pointer and leaves the others alone, as long as the zones that become index blocks hold
zeros: `bmap` takes over what a free zone holds.
-/

namespace LightOS
namespace Fs

/-- Where an inode keeps the pointer of a place: the block, and the address in it. -/
inductive Located (fs : Fs) (ino : Nat) : Place → Nat → Nat → Prop
  | slot (index : Fin 9) :
      Located fs ino (.slot index) (fs.inodeTable ino).block (fs.zoneStart ino + 2 * index)
  | child {place : Place} (i : Fin blockIndexes) :
      place.IsIndex → fs.pointer ino place ≠ 0 →
      Located fs ino (place.child i) (fs.pointer ino place) (2 * i)

/-- The inode owns its zones, and the clear bits of the zone map stand for zones. -/
structure Charted (fs : Fs) (dev sb ino : Nat) : Prop
    extends ZmapRead fs dev sb, InTable fs dev ino, OwnZones fs dev ino where
  free : ∀ zone ∈ (fs.zoneNumbers dev).clear fs dev,
    (fs.superDesc dev).firstdatazone ≤ zone ∧ zone < (fs.superDesc dev).zones

/-- An entry has been set to a zone, whose bit has been marked. -/
structure Assigned (fs after : Fs) (dev ino cache address zone : Nat) : Prop where
  inodeTable : after.inodeTable = fs.inodeTable
  superTable : after.superTable = fs.superTable
  super : after.superDesc dev = fs.superDesc dev
  blocks : ∀ number, number = (fs.inodeTable ino).block ∨
    (fs.superDesc dev).firstdatazone ≤ number →
    after.block dev number =
      if number = cache then (fs.block dev number).setHalf address zone
      else fs.block dev number
  bits : ∀ other, (fs.zoneNumbers dev).Covers other →
    (fs.zoneNumbers dev).bit after dev other =
      if other = zone then true else (fs.zoneNumbers dev).bit fs dev other

section Assign

variable {fs after : Fs} {dev sb ino cache address zone : Nat} {place : Place}

theorem Located.entry (located : Located fs ino place cache address) :
    fs.indexAt (fs.inodeTable ino).dev cache address = fs.pointer ino place := by
  cases located with
  | slot index => rfl
  | child i isIndex hasZone =>
      rw [fs.pointer_child ino isIndex, follow, if_neg hasZone]

/-- There are no entries behind an empty pointer. -/
theorem Located.parent {i : Fin blockIndexes}
    (located : Located fs ino (place.child i) cache address) (isIndex : place.IsIndex)
    (empty : fs.pointer ino place = 0) : False := by
  generalize isPlace : place.child i = other at located
  cases located with
  | slot index => exact Place.child_ne_slot isIndex i index isPlace
  | child j otherIndex hasZone =>
      obtain ⟨rfl, _⟩ := Place.child_inj isIndex otherIndex isPlace
      exact hasZone empty

/-- The entry lies in the block of the inode or in a zone of its own. -/
theorem Located.block (located : Located fs ino place cache address)
    (own : OwnZones fs dev ino) :
    cache = (fs.inodeTable ino).block ∨ cache ∈ fs.usedZones dev := by
  cases located with
  | slot index => exact .inl rfl
  | child i isIndex hasZone => exact .inr (own.used _ hasZone)

theorem Located.behindMaps (located : Located fs ino place cache address)
    (charted : fs.Charted dev sb ino) :
    fs.zmapStart dev + (fs.superDesc dev).zmapBlocks ≤ cache := by
  have behind := charted.behindMaps
  have before := charted.beforeZones
  rcases located.block charted.toOwnZones with rfl | used
  · exact behind
  · have above := used.2.1
    omega

/-- A free zone is another block. -/
theorem Located.ne_clear (located : Located fs ino place cache address)
    (charted : fs.Charted dev sb ino) (isClear : zone ∈ (fs.zoneNumbers dev).clear fs dev) :
    zone ≠ cache := by
  have before := charted.beforeZones
  have above := (charted.free zone isClear).1
  rintro rfl
  rcases located.block charted.toOwnZones with same | used
  · omega
  · exact Bool.false_ne_true (isClear.2.symm.trans used.1.2)

/-- `fillIndex` puts the least free zone into an empty entry. -/
theorem fillIndex_assigns (charted : fs.Charted dev sb ino)
    (located : Located fs ino place cache address) (empty : fs.pointer ino place = 0)
    (remains : ((fs.zoneNumbers dev).clear fs dev).Nonempty) :
    ∃ zone after, fs.fillIndex dev cache address true = .ok after ∧
      IsLeast ((fs.zoneNumbers dev).clear fs dev) zone ∧
      Assigned fs after dev ino cache address zone := by
  have before := charted.beforeZones
  have behind := charted.behindMaps
  have cacheBehind := located.behindMaps charted
  have start : superBlockNr < fs.zmapStart dev :=
    Nat.lt_of_lt_of_le superBlock_before (Nat.le_add_right _ _)
  have isEntry := located.entry
  rw [charted.inodeDev, empty] at isEntry
  obtain ⟨some, someCovers, _⟩ := remains
  have hasMap : 0 < (fs.superDesc dev).zmapBlocks := by
    have inBlocks : (some - (fs.zoneNumbers dev).base) / blockBits <
        (fs.superDesc dev).zmapBlocks := block_of_bit someCovers.2
    exact Nat.lt_of_le_of_lt (Nat.zero_le _) inBlocks
  rcases balloc_allocates (by rw [charted.found]; rfl)
      (fun zone isClear => (charted.free zone isClear).2) hasMap (by omega) with
    ⟨zone, allotted, call, least, writes⟩ | ⟨_, full⟩
  · have covers := least.1.1
    have inBlocks : (zone - (fs.zoneNumbers dev).base) / blockBits <
        (fs.superDesc dev).zmapBlocks := block_of_bit covers.2
    have kept (number : Nat)
        (outside : fs.zmapStart dev + (fs.superDesc dev).zmapBlocks ≤ number) :
        allotted.block dev number = fs.block dev number := by
      apply BitWritten.frame writes
      rintro ⟨_, same⟩
      dsimp only [zoneNumbers] at same inBlocks
      omega
    refine ⟨zone, allotted.writeBlock dev cache ((allotted.block dev cache).setHalf address zone),
      ?_, least, ?_⟩
    · unfold fillIndex
      rw [if_pos ⟨isEntry, rfl⟩, call]
      rfl
    · constructor
      · have same := BitWritten.inodeTable writes
        exact same
      · have same := BitWritten.superTable writes
        exact same
      · have same := BitWritten.superDesc writes (fs.zmap_behind dev) dev
        rw [← same]
        unfold Fs.superDesc
        rw [writeBlock_block_other]
        omega
      · intro number outside
        have numberBehind : fs.zmapStart dev + (fs.superDesc dev).zmapBlocks ≤ number := by
          omega
        split
        · rename_i same
          rw [same, writeBlock_block_self, kept cache cacheBehind]
        · rename_i different
          rw [writeBlock_block_other _ _ _ _ fun both => different both.2,
            kept number numberBehind]
      · intro other alsoCovers
        have otherBlocks : (other - (fs.zoneNumbers dev).base) / blockBits <
            (fs.superDesc dev).zmapBlocks := block_of_bit alsoCovers.2
        rw [← writes.bit_self covers alsoCovers]
        unfold NumberMap.bit mapBit
        rw [writeBlock_block_other]
        rintro ⟨_, same⟩
        dsimp only [zoneNumbers] at same otherBlocks
        omega
  · exact absurd (full ▸ ⟨someCovers, ‹_›⟩ : some ∈ (∅ : Set Nat)) (Set.notMem_empty some)

/-- A zone that holds no entries. -/
def NoEntries (fs : Fs) (dev zone : Nat) : Prop :=
  ∀ i : Fin blockIndexes, fs.indexAt dev zone (2 * i) = 0

/-- The slots of the inode. -/
theorem Assigned.slot (charted : fs.Charted dev sb ino)
    (located : Located fs ino place cache address) (small : zone < 2 ^ 16)
    (assigned : Assigned fs after dev ino cache address zone) (index : Fin 9) :
    after.pointer ino (.slot index) =
      if Place.slot index = place then zone else fs.pointer ino (.slot index) := by
  have before := charted.beforeZones
  have written := assigned.blocks (fs.inodeTable ino).block (.inl rfl)
  have start : after.descStart ino = fs.descStart ino := by
    unfold descStart
    rw [assigned.inodeTable]
  unfold pointer
  dsimp only
  unfold desc
  rw [start, assigned.inodeTable, charted.inodeDev, written]
  cases located with
  | slot other =>
      rw [if_pos rfl]
      have change : (fs.block dev (fs.inodeTable ino).block).setHalf
          (fs.zoneStart ino + 2 * other) zone =
          InodeDesc.setZone other zone (fs.block dev (fs.inodeTable ino).block)
            (fs.descStart ino) := rfl
      rw [change, InodeDesc.read_setZone, Nat.mod_eq_of_lt small]
      by_cases same : index = other
      · rw [same, if_pos rfl]
        exact Function.update_self _ _ _
      · rw [if_neg fun equal => same (Place.slot.inj equal)]
        exact Function.update_of_ne same _ _
  | child i isIndex hasZone =>
      have above := (charted.used _ hasZone).2.1
      rw [if_neg (by omega), if_neg fun same => Place.child_ne_slot isIndex i index same.symm]

/-- Only the pointer of the entry is another one. -/
theorem Assigned.pointer (charted : fs.Charted dev sb ino)
    (located : Located fs ino place cache address) (empty : fs.pointer ino place = 0)
    (isClear : zone ∈ (fs.zoneNumbers dev).clear fs dev)
    (noEntries : place.IsIndex → fs.NoEntries dev zone)
    (assigned : Assigned fs after dev ino cache address zone) (other : Place) :
    after.pointer ino other = if other = place then zone else fs.pointer ino other := by
  have before := charted.beforeZones
  obtain ⟨inData, inZones⟩ := charted.free zone isClear
  have zones : (fs.superDesc dev).zones < 2 ^ 16 := Memory.half_lt _ _
  have small : zone < 2 ^ 16 := Nat.lt_trans inZones zones
  induction other using Place.child_induction with
  | slots index => exact assigned.slot charted located small index
  | children parent i isIndex inductionHypothesis =>
      rw [after.pointer_child ino isIndex, fs.pointer_child ino isIndex, assigned.inodeTable,
        charted.inodeDev, inductionHypothesis]
      by_cases isParent : parent = place
      · subst isParent
        have different := located.ne_clear charted isClear
        have written := assigned.blocks zone (.inr inData)
        rw [if_neg different] at written
        rw [if_pos rfl, if_neg (Place.child_ne isIndex i), empty, follow_zero, follow]
        split
        · rfl
        · unfold indexAt
          rw [written]
          exact noEntries isIndex i
      · rw [if_neg isParent]
        by_cases hollow : fs.pointer ino parent = 0
        · have otherPlace : parent.child i ≠ place := by
            rintro rfl
            exact located.parent isIndex hollow
          rw [hollow, if_neg otherPlace]
          rfl
        · have used := charted.used _ hollow
          have written := assigned.blocks _ (.inr used.2.1)
          rw [follow, follow, if_neg hollow, if_neg hollow]
          unfold indexAt
          rw [written]
          cases located with
          | slot index =>
              have above := used.2.1
              rw [if_neg (by omega), if_neg (Place.child_ne_slot isIndex i index)]
          | @child otherParent j otherIndex hasZone =>
              by_cases sameParent : parent = otherParent
              · subst sameParent
                rw [if_pos rfl]
                by_cases same : i = j
                · rw [if_pos (by rw [same]), same, Memory.half_setHalf,
                    Nat.mod_eq_of_lt small]
                · have apart : i.val ≠ j.val := fun equal => same (Fin.ext equal)
                  rw [if_neg fun equal => same (Place.child_inj isIndex otherIndex equal).2]
                  exact Memory.half_setHalf_other zone (by omega)
              · rw [if_neg fun equal => sameParent (charted.distinct _ _ hollow equal),
                  if_neg fun equal => sameParent (Place.child_inj isIndex otherIndex equal).1]

theorem Assigned.zoneNumbers (assigned : Assigned fs after dev ino cache address zone) :
    after.zoneNumbers dev = fs.zoneNumbers dev := by
  unfold Fs.zoneNumbers zmapStart
  rw [assigned.super]

/-- The zone is not free any more. -/
theorem Assigned.clear (assigned : Assigned fs after dev ino cache address zone) :
    (after.zoneNumbers dev).clear after dev =
      (fs.zoneNumbers dev).clear fs dev \ {zone} := by
  rw [assigned.zoneNumbers]
  ext other
  constructor
  · rintro ⟨covers, isClear⟩
    rw [assigned.bits other covers] at isClear
    split at isClear
    · cases isClear
    · rename_i different
      exact ⟨⟨covers, isClear⟩, different⟩
  · rintro ⟨⟨covers, isClear⟩, different⟩
    have notZone : other ≠ zone := different
    refine ⟨covers, ?_⟩
    rw [assigned.bits other covers, if_neg notZone]
    exact isClear

theorem Assigned.usedZones (assigned : Assigned fs after dev ino cache address zone)
    {other : Nat} (used : other ∈ fs.usedZones dev) : other ∈ after.usedZones dev := by
  obtain ⟨⟨covers, isSet⟩, isZone⟩ := used
  refine ⟨⟨?_, ?_⟩, ?_⟩
  · rw [assigned.zoneNumbers]
    exact covers
  · rw [assigned.zoneNumbers, assigned.bits other covers, isSet]
    exact ite_self true
  · rw [assigned.super]
    exact isZone

/-- The inode owns the new zone as well. -/
theorem Assigned.charted (charted : fs.Charted dev sb ino)
    (isClear : zone ∈ (fs.zoneNumbers dev).clear fs dev)
    (pointers : ∀ other, after.pointer ino other =
      if other = place then zone else fs.pointer ino other)
    (assigned : Assigned fs after dev ino cache address zone) :
    after.Charted dev sb ino := by
  have start : after.zmapStart dev = fs.zmapStart dev := by
    unfold zmapStart
    rw [assigned.super]
  have isNew (other : Place) : fs.pointer ino other ≠ 0 → fs.pointer ino other ≠ zone := by
    intro hasZone same
    have used := charted.used other hasZone
    rw [same] at used
    exact Bool.false_ne_true (isClear.2.symm.trans used.1.2)
  have zoneUsed : zone ∈ after.usedZones dev := by
    have isZone := charted.free zone isClear
    refine ⟨⟨?_, ?_⟩, ?_⟩
    · rw [assigned.zoneNumbers]
      exact isClear.1
    · rw [assigned.zoneNumbers, assigned.bits zone isClear.1, if_pos rfl]
    · rw [assigned.super]
      exact isZone
  refine ⟨⟨?_, ?_, ?_⟩, ⟨?_, ?_, ?_⟩, ⟨?_, ?_⟩, ?_⟩
  · unfold Fs.getSuper
    rw [assigned.superTable]
    exact charted.found
  · rw [assigned.super]
    exact charted.fits
  · rw [assigned.super, start, assigned.superTable]
    exact charted.zmaps
  · rw [assigned.inodeTable]
    exact charted.inodeDev
  · rw [assigned.inodeTable, assigned.super, start]
    exact charted.behindMaps
  · rw [assigned.inodeTable, assigned.super]
    exact charted.beforeZones
  · intro other hasZone
    rw [pointers] at hasZone ⊢
    split at hasZone
    · rw [if_pos ‹_›]
      exact zoneUsed
    · rw [if_neg ‹_›]
      exact assigned.usedZones (charted.used other hasZone)
  · intro first second hasZone same
    rw [pointers] at hasZone same
    rw [pointers second] at same
    by_cases isFirst : first = place
    · by_cases isSecond : second = place
      · rw [isFirst, isSecond]
      · rw [if_pos isFirst, if_neg isSecond] at same
        rw [if_pos isFirst] at hasZone
        exact absurd same.symm (isNew second (same ▸ hasZone))
    · rw [if_neg isFirst] at hasZone same
      by_cases isSecond : second = place
      · rw [if_pos isSecond] at same
        exact absurd same (isNew first hasZone)
      · rw [if_neg isSecond] at same
        exact charted.distinct first second hasZone same
  · rw [assigned.clear, assigned.super]
    exact fun other present => charted.free other present.1

/-- Pointers of an inode have been filled in, and everything else of it is as before. -/
structure Kept (fs after : Fs) (dev ino : Nat) : Prop where
  inodeTable : after.inodeTable = fs.inodeTable
  superTable : after.superTable = fs.superTable
  time : after.time = fs.time
  super : after.superDesc dev = fs.superDesc dev
  mode : (after.desc ino).mode = (fs.desc ino).mode
  size : (after.desc ino).size = (fs.desc ino).size
  data : ∀ place, ¬place.IsIndex → fs.pointer ino place ≠ 0 →
    after.block dev (fs.pointer ino place) = fs.block dev (fs.pointer ino place)
  others : ∀ otherDev ≠ dev, after.block otherDev = fs.block otherDev

theorem Kept.refl (fs : Fs) (dev ino : Nat) : Kept fs fs dev ino :=
  ⟨rfl, rfl, rfl, rfl, rfl, rfl, fun _ _ _ => rfl, fun _ _ => rfl⟩

/-- `fillIndex` writes to one device. -/
theorem fillIndex_others {create : Bool}
    (filled : fs.fillIndex dev cache address create = .ok after) :
    after.time = fs.time ∧ ∀ otherDev ≠ dev, after.block otherDev = fs.block otherDev := by
  unfold fillIndex at filled
  split at filled
  · rw [bind_eq_ok] at filled
    obtain ⟨⟨fresh, allotted⟩, allocated, same⟩ := filled
    cases same
    rcases balloc_written allocated with ⟨rfl, _⟩ | ⟨_, _, _, written⟩
    · refine ⟨rfl, fun otherDev other => funext fun number => ?_⟩
      exact writeBlock_block_other _ _ _ _ fun both => other both.1
    · refine ⟨written.time, fun otherDev other => funext fun number => ?_⟩
      rw [writeBlock_block_other _ _ _ _ fun both => other both.1]
      exact written.frame _ _ fun both => other both.1
  · cases filled
    exact ⟨rfl, fun _ _ => rfl⟩

theorem Assigned.kept (charted : fs.Charted dev sb ino)
    (located : Located fs ino place cache address)
    (assigned : Assigned fs after dev ino cache address zone)
    (others : after.time = fs.time ∧
      ∀ otherDev ≠ dev, after.block otherDev = fs.block otherDev) :
    Kept fs after dev ino := by
  have before := charted.beforeZones
  have written := assigned.blocks (fs.inodeTable ino).block (.inl rfl)
  have isDesc : (after.desc ino).mode = (fs.desc ino).mode ∧
      (after.desc ino).size = (fs.desc ino).size := by
    unfold desc descStart
    rw [assigned.inodeTable, charted.inodeDev, written]
    cases located with
    | slot index =>
        have change : (fs.block dev (fs.inodeTable ino).block).setHalf
            (fs.zoneStart ino + 2 * index) zone =
            InodeDesc.setZone index zone (fs.block dev (fs.inodeTable ino).block)
              (32 * (fs.inodeTable ino).slot) := rfl
        rw [if_pos rfl, change, InodeDesc.read_setZone]
        exact ⟨rfl, rfl⟩
    | child i isIndex hasZone =>
        have above := (charted.used _ hasZone).2.1
        rw [if_neg (by omega)]
        exact ⟨rfl, rfl⟩
  refine ⟨assigned.inodeTable, assigned.superTable, others.1, assigned.super, isDesc.1,
    isDesc.2, ?_, others.2⟩
  intro other notIndex hasZone
  have inData := (charted.used other hasZone).2.1
  rw [assigned.blocks _ (.inr inData), if_neg]
  intro same
  cases located with
  | slot index => omega
  | child i isIndex _ => exact notIndex (charted.distinct _ _ hasZone same ▸ isIndex)

end Assign

/-! ## Free zones -/

section Free

variable {fs after : Fs} {dev sb ino zone : Nat}

/-- The first free zones, as many as a number says, hold zeros. -/
def ZerosFirst (fs : Fs) (dev count : Nat) : Prop :=
  ∀ zone ∈ (fs.zoneNumbers dev).clear fs dev,
    ({other ∈ (fs.zoneNumbers dev).clear fs dev | other < zone}).ncard < count →
    ∀ offset < blockSize, fs.block dev zone offset = 0

/-- At least as many zones are free as a number says. -/
def Remain (fs : Fs) (dev count : Nat) : Prop :=
  count ≤ ((fs.zoneNumbers dev).clear fs dev).ncard

theorem ZerosFirst.mono {count fewer : Nat} (zeros : fs.ZerosFirst dev count)
    (le : fewer ≤ count) : fs.ZerosFirst dev fewer :=
  fun zone isClear first => zeros zone isClear (Nat.lt_of_lt_of_le first le)

theorem Remain.nonempty {count : Nat} (remain : fs.Remain dev (count + 1)) :
    ((fs.zoneNumbers dev).clear fs dev).Nonempty :=
  Set.nonempty_of_ncard_ne_zero (Nat.ne_of_gt (Nat.lt_of_lt_of_le (Nat.succ_pos _) remain))

/-- The least free zone holds zeros. -/
theorem ZerosFirst.noEntries {count : Nat} (zeros : fs.ZerosFirst dev (count + 1))
    (least : IsLeast ((fs.zoneNumbers dev).clear fs dev) zone) : fs.NoEntries dev zone := by
  have none : {other ∈ (fs.zoneNumbers dev).clear fs dev | other < zone} = ∅ := by
    rw [Set.eq_empty_iff_forall_notMem]
    rintro other ⟨isClear, below⟩
    exact absurd (least.2 isClear) (Nat.not_le_of_lt below)
  have bytes := zeros zone least.1 (by rw [none, Set.ncard_empty]; exact Nat.succ_pos _)
  intro i
  have inBlock := i.isLt
  have size : blockIndexes * 2 = blockSize := by decide
  have first := bytes (2 * i) (by omega)
  have second := bytes (2 * i + 1) (by omega)
  unfold indexAt Memory.half
  rw [first, second]
  rfl

section Taken

variable {cache address count : Nat} (charted : fs.Charted dev sb ino)
  (least : IsLeast ((fs.zoneNumbers dev).clear fs dev) zone)
  (assigned : Assigned fs after dev ino cache address zone)

include least assigned

/-- One zone fewer is free. -/
theorem Assigned.remain (remain : fs.Remain dev (count + 1)) : after.Remain dev count := by
  unfold Remain at remain ⊢
  rw [assigned.clear, Set.ncard_sdiff_singleton_of_mem least.1]
  omega

include charted

/-- The next free zones are the first ones now. -/
theorem Assigned.zerosFirst {place : Place} (located : Located fs ino place cache address)
    (zeros : fs.ZerosFirst dev (count + 1)) : after.ZerosFirst dev count := by
  intro other isClear first offset inBlock
  rw [assigned.clear] at isClear first
  obtain ⟨wasClear, different⟩ := isClear
  have notZone : other ≠ zone := different
  have below : zone < other := Nat.lt_of_le_of_ne (least.2 wasClear) notZone.symm
  have inData := (charted.free other wasClear).1
  rw [assigned.blocks other (.inr inData), if_neg (located.ne_clear charted wasClear)]
  apply zeros other wasClear _ offset inBlock
  have removed : {another ∈ (fs.zoneNumbers dev).clear fs dev \ {zone} | another < other} =
      {another ∈ (fs.zoneNumbers dev).clear fs dev | another < other} \ {zone} := by
    ext another
    constructor
    · rintro ⟨⟨isClear, apart⟩, below⟩
      exact ⟨⟨isClear, below⟩, apart⟩
    · rintro ⟨⟨isClear, below⟩, apart⟩
      exact ⟨⟨isClear, apart⟩, below⟩
  have present : zone ∈ {another ∈ (fs.zoneNumbers dev).clear fs dev | another < other} :=
    ⟨least.1, below⟩
  rw [removed, Set.ncard_sdiff_singleton_of_mem present] at first
  omega

end Taken

end Free

end Fs

/-! ## The way to a block -/

namespace Place

/-- The places on the way to a place, from the slot on. -/
def above : Place → List Place
  | slot _ => []
  | single _ => [slot 7]
  | middle _ => [slot 8]
  | leaf outer _ => [slot 8, middle outer]

/-- From a place, the divisions of `bmap` lead to another one through index blocks. -/
inductive Leads (target : Place) : List Place → Place → Nat → Nat → Prop
  | here {block divider : Nat} : Leads target [] target block divider
  | under {rest : List Place} {place : Place} {block divider : Nat} (isIndex : place.IsIndex)
      (inside : block / divider < blockIndexes) :
      Leads target rest (place.child ⟨block / divider, inside⟩) (block % divider)
        (divider / blockIndexes) →
      Leads target (place :: rest) place block divider

theorem leads_single {block : Nat} (inside : block < blockIndexes) :
    Leads (single ⟨block, inside⟩) [slot 7] (slot 7) block 1 := by
  have inBlock : block / 1 < blockIndexes := by rwa [Nat.div_one]
  have isChild : (slot 7).child ⟨block / 1, inBlock⟩ = single ⟨block, inside⟩ := by
    simp [child]
  refine .under (Nat.le_refl 7) inBlock ?_
  rw [isChild]
  exact .here

theorem leads_leaf {block : Nat} (outer : block / blockIndexes < blockIndexes)
    (inner : block % blockIndexes < blockIndexes) :
    Leads (leaf ⟨block / blockIndexes, outer⟩ ⟨block % blockIndexes, inner⟩)
      [slot 8, middle ⟨block / blockIndexes, outer⟩] (slot 8) block blockIndexes := by
  have unit : blockIndexes / blockIndexes = 1 := by decide
  have inside : block % blockIndexes / (blockIndexes / blockIndexes) < blockIndexes := by
    rwa [unit, Nat.div_one]
  have isChild : (middle ⟨block / blockIndexes, outer⟩).child
      ⟨block % blockIndexes / (blockIndexes / blockIndexes), inside⟩ =
      leaf ⟨block / blockIndexes, outer⟩ ⟨block % blockIndexes, inner⟩ := by
    simp only [child, unit, Nat.div_one]
  refine .under (Nat.le_succ 7) outer (.under trivial inside ?_)
  rw [isChild]
  exact .here

end Place

namespace Fs

section Reckon

variable {fs after : Fs} {dev sb ino : Nat} {target : Place}

/-- The pointers of an inode have grown: the old ones are as before, and of the places of
its blocks only one has a new one. -/
structure Grown (fs after : Fs) (ino : Nat) (target : Place) : Prop where
  kept : ∀ place, fs.pointer ino place ≠ 0 → after.pointer ino place = fs.pointer ino place
  others : ∀ place, ¬place.IsIndex → place ≠ target → fs.pointer ino place = 0 →
    after.pointer ino place = 0

theorem Grown.refl (fs : Fs) (ino : Nat) (target : Place) : Grown fs fs ino target :=
  ⟨fun _ _ => rfl, fun _ _ _ empty => empty⟩

theorem Grown.trans {middle : Fs} (first : Grown fs middle ino target)
    (second : Grown middle after ino target) : Grown fs after ino target where
  kept := by
    intro place hasZone
    have same := first.kept place hasZone
    rw [← same] at hasZone ⊢
    exact second.kept place hasZone
  others := fun place notIndex different empty =>
    second.others place notIndex different (first.others place notIndex different empty)

theorem Kept.trans {middle : Fs} (first : Kept fs middle dev ino)
    (grown : Grown fs middle ino target) (second : Kept middle after dev ino) :
    Kept fs after dev ino where
  inodeTable := second.inodeTable.trans first.inodeTable
  superTable := second.superTable.trans first.superTable
  time := second.time.trans first.time
  super := second.super.trans first.super
  mode := second.mode.trans first.mode
  size := second.size.trans first.size
  data := by
    intro place notIndex hasZone
    have same := grown.kept place hasZone
    rw [← first.data place notIndex hasZone, ← same]
    exact second.data place notIndex (same ▸ hasZone)
  others := fun otherDev other =>
    (second.others otherDev other).trans (first.others otherDev other)

/-- The pointers among some places that are empty. -/
def missing (fs : Fs) (ino : Nat) (places : List Place) : Nat :=
  places.countP fun place => fs.pointer ino place = 0

theorem Grown.missing (grown : Grown fs after ino target) (places : List Place) :
    after.missing ino places ≤ fs.missing ino places := by
  unfold Fs.missing
  refine List.countP_mono_left fun place _ empty => ?_
  by_contra hasZone
  have wasZone : fs.pointer ino place ≠ 0 := by simpa using hasZone
  have same := grown.kept place wasZone
  simp only [decide_eq_true_eq] at empty
  exact wasZone (same.symm.trans empty)

theorem missing_cons (fs : Fs) (ino : Nat) (place : Place) (places : List Place) :
    fs.missing ino (place :: places) =
      fs.missing ino places + if fs.pointer ino place = 0 then 1 else 0 := by
  unfold missing
  rw [List.countP_cons]
  simp

variable {place : Place} {cache address : Nat}

/-- `fillIndex` on the way to a block gives the place a pointer. -/
theorem fillIndex_grows (target : Place) (clean : Nat) (charted : fs.Charted dev sb ino)
    (located : Located fs ino place cache address) (role : place.IsIndex ∨ place = target)
    {free : Nat}
    (remain : fs.Remain dev (free + if fs.pointer ino place = 0 then 1 else 0))
    (zeros : place.IsIndex →
      fs.ZerosFirst dev (clean + if fs.pointer ino place = 0 then 1 else 0)) :
    ∃ after, fs.fillIndex dev cache address true = .ok after ∧
      after.Charted dev sb ino ∧ Grown fs after ino target ∧
      after.pointer ino place ≠ 0 ∧
      after.indexAt dev cache address = after.pointer ino place ∧
      after.Remain dev free ∧ (place.IsIndex → after.ZerosFirst dev clean) ∧
      Kept fs after dev ino := by
  have isEntry := located.entry
  rw [charted.inodeDev] at isEntry
  by_cases empty : fs.pointer ino place = 0
  · rw [if_pos empty] at remain zeros
    obtain ⟨zone, after, call, least, assigned⟩ :=
      fillIndex_assigns charted located empty remain.nonempty
    have pointers := assigned.pointer charted located empty least.1 fun isIndex =>
      (zeros isIndex).noEntries least
    have before := charted.beforeZones
    obtain ⟨inData, inZones⟩ := charted.free zone least.1
    have zones : (fs.superDesc dev).zones < 2 ^ 16 := Memory.half_lt _ _
    have isZone : after.pointer ino place = zone := by rw [pointers, if_pos rfl]
    refine ⟨after, call, assigned.charted charted least.1 pointers, ⟨?_, ?_⟩, ?_, ?_,
      assigned.remain least remain,
      fun isIndex => assigned.zerosFirst charted least located (zeros isIndex),
      assigned.kept charted located (fillIndex_others call)⟩
    · intro other hasZone
      rw [pointers, if_neg]
      rintro rfl
      exact hasZone empty
    · intro other notIndex different stillEmpty
      rw [pointers, if_neg, stillEmpty]
      rintro rfl
      exact role.elim notIndex different
    · rw [isZone]
      omega
    · have inBlocks : cache = (fs.inodeTable ino).block ∨
          (fs.superDesc dev).firstdatazone ≤ cache :=
        (located.block charted.toOwnZones).imp id fun used => used.2.1
      rw [isZone]
      unfold indexAt
      rw [assigned.blocks cache inBlocks, if_pos rfl, Memory.half_setHalf,
        Nat.mod_eq_of_lt (Nat.lt_trans inZones zones)]
  · rw [if_neg empty] at remain zeros
    refine ⟨fs, ?_, charted, .refl fs ino target, empty, isEntry, remain, zeros,
      .refl fs dev ino⟩
    unfold fillIndex
    rw [isEntry, if_neg fun both => empty both.1]
    rfl

/-- The loop of `bmap` leads to a new pointer for the target. -/
theorem reckon_grows {rest : List Place} {block divider array index : Nat}
    (notIndex : ¬target.IsIndex) (leads : Place.Leads target rest place block divider)
    (charted : fs.Charted dev sb ino)
    (located : Located fs ino place cache (array + 2 * index))
    (remain : fs.Remain dev (fs.missing ino (rest ++ [target])))
    (zeros : fs.ZerosFirst dev (fs.missing ino rest)) :
    ∃ zone after, reckon dev true rest.length fs cache array index block divider =
        .ok (zone, after) ∧
      after.Charted dev sb ino ∧ Grown fs after ino target ∧
      after.pointer ino target = zone ∧ zone ≠ 0 ∧ Kept fs after dev ino := by
  induction leads generalizing fs cache array index with
  | here =>
      rw [List.nil_append, missing_cons] at remain
      obtain ⟨after, call, chartedAfter, grown, hasZone, entry, _, _, kept⟩ :=
        fillIndex_grows target 0 charted located (.inr rfl) remain fun isIndex =>
          absurd isIndex notIndex
      refine ⟨_, after, ?_, chartedAfter, grown, rfl, hasZone, kept⟩
      rw [List.length_nil, reckon, call, ok_bind, entry]
      rfl
  | @under rest place block divider isIndex inside _ inductionHypothesis =>
      rw [List.cons_append, missing_cons] at remain
      rw [missing_cons] at zeros
      obtain ⟨filled, call, chartedFilled, grown, hasZone, entry, remainFilled, zerosFilled,
        kept⟩ :=
        fillIndex_grows target (fs.missing ino rest) charted located (.inl isIndex) remain
          fun _ => zeros
      have located : Located filled ino (place.child ⟨block / divider, inside⟩)
          (filled.pointer ino place) (0 + 2 * (block / divider)) := by
        rw [Nat.zero_add]
        exact .child ⟨block / divider, inside⟩ isIndex hasZone
      obtain ⟨zone, after, loop, chartedAfter, grownAfter, found, notZero, keptAfter⟩ :=
        inductionHypothesis chartedFilled located
          (Nat.le_trans (grown.missing _) remainFilled)
          ((zerosFilled isIndex).mono (grown.missing _))
      refine ⟨zone, after, ?_, chartedAfter, grown.trans grownAfter, found, notZero,
        kept.trans grown keptAfter⟩
      rw [List.length_cons, reckon, call, ok_bind]
      dsimp only
      rw [entry, if_neg hasZone]
      exact loop

/-- `bmap` with `create` gives a block of the file a zone, as long as enough zones are free
and those that become index blocks hold zeros. -/
theorem bmap_grows (block : Fin totalBlocks) (charted : fs.Charted dev sb ino)
    (remain : fs.Remain dev
      (fs.missing ino ((Place.ofBlock block).above ++ [.ofBlock block])))
    (zeros : fs.ZerosFirst dev (fs.missing ino (Place.ofBlock block).above)) :
    ∃ zone after, fs.bmap ino block true = .ok (zone, after) ∧
      after.Charted dev sb ino ∧ Grown fs after ino (.ofBlock block) ∧
      after.pointer ino (.ofBlock block) = zone ∧ zone ≠ 0 ∧ Kept fs after dev ino := by
  have notIndex := Place.not_isIndex_ofBlock block
  unfold bmap
  rw [check_true block.isLt, ok_bind]
  dsimp only
  rw [charted.inodeDev]
  unfold Place.ofBlock at remain zeros notIndex ⊢
  by_cases direct : block.val < directBlocks
  · rw [if_pos direct]
    rw [dif_pos direct] at remain zeros notIndex ⊢
    exact reckon_grows notIndex .here charted
      (.slot ⟨block, by simp only [directBlocks] at direct; omega⟩) remain zeros
  · rw [if_neg direct]
    rw [dif_neg direct] at remain zeros notIndex ⊢
    by_cases near : block.val - directBlocks < blockIndexes
    · rw [if_pos near]
      rw [dif_pos near] at remain zeros notIndex ⊢
      exact reckon_grows notIndex (Place.leads_single near) charted (.slot 7) remain zeros
    · rw [if_neg near]
      rw [dif_neg near] at remain zeros notIndex ⊢
      exact reckon_grows notIndex (Place.leads_leaf _ _) charted (.slot 8) remain zeros

end Reckon

/-! ## Runs -/

/-- The file systems, and what the last creation of each block of an inode has returned. -/
structure BlockMap where
  fs : Fs
  created : Fin totalBlocks → Option Nat

namespace BlockMap

/-- Calls of `bmap` with `create` for an inode, while zones remain.  Blocks that have a
zone in the beginning count as created. -/
def runs (dev sb ino : Nat) : System BlockMap (Fin totalBlocks) where
  initial s := s.fs.Charted dev sb ino ∧ ∀ block, s.created block =
    if s.fs.zoneOf ino block = 0 then none else some (s.fs.zoneOf ino block)
  step before block after :=
    before.fs.Remain dev
      (before.fs.missing ino ((Place.ofBlock block).above ++ [.ofBlock block])) ∧
    ∃ zone, before.fs.bmap ino block true = .ok (zone, after.fs) ∧
      after.created = Function.update before.created block (some zone)

/-- The zones that the call makes index blocks of hold zeros: as many of the first free
ones as index blocks are missing on the way to the block. -/
def CleanIndexes (dev ino : Nat) (s : BlockMap) (block : Fin totalBlocks) : Prop :=
  s.fs.ZerosFirst dev (s.fs.missing ino (Place.ofBlock block).above)

/-- `bmap` finds what has been created, different zones for different blocks and no index
blocks, and nothing for the other blocks. -/
structure Lawful (ino : Nat) (s : BlockMap) : Prop where
  found : ∀ block : Fin totalBlocks,
    s.fs.bmap ino block false = .ok ((s.created block).getD 0, s.fs)
  distinct : ∀ block other zone, s.created block = some zone → s.created other = some zone →
    block = other
  noIndex : ∀ block zone, s.created block = some zone →
    zone ≠ 0 ∧ ∀ place : Place, place.IsIndex → s.fs.pointer ino place ≠ zone

/-- The inode owns its zones, and those of its blocks are what has been created. -/
structure Holds (dev sb ino : Nat) (s : BlockMap) : Prop where
  charted : s.fs.Charted dev sb ino
  created : ∀ block, s.created block =
    if s.fs.pointer ino (.ofBlock block) = 0 then none
    else some (s.fs.pointer ino (.ofBlock block))

variable {dev sb ino : Nat} {s after : BlockMap}

theorem Holds.pointer (holds : Holds dev sb ino s) {block : Fin totalBlocks} {zone : Nat}
    (created : s.created block = some zone) :
    zone ≠ 0 ∧ s.fs.pointer ino (.ofBlock block) = zone := by
  rw [holds.created] at created
  split at created
  · cases created
  · rename_i hasZone
    cases created
    exact ⟨hasZone, rfl⟩

theorem Holds.lawful (holds : Holds dev sb ino s) : Lawful ino s where
  found := by
    intro block
    rw [bmap_false _ _ block.isLt, s.fs.zoneOf_eq_pointer ino block, holds.created]
    split
    · rename_i empty
      rw [empty]
      rfl
    · rfl
  distinct := by
    intro block other zone created alsoCreated
    obtain ⟨hasZone, isZone⟩ := holds.pointer created
    obtain ⟨_, alsoZone⟩ := holds.pointer alsoCreated
    apply Place.ofBlock_injective
    refine holds.charted.distinct _ _ ?_ (isZone.trans alsoZone.symm)
    rwa [isZone]
  noIndex := by
    intro block zone created
    obtain ⟨hasZone, isZone⟩ := holds.pointer created
    refine ⟨hasZone, fun place isIndex same => Place.not_isIndex_ofBlock block ?_⟩
    have samePlace := holds.charted.distinct _ place (by rwa [isZone]) (isZone.trans same.symm)
    rwa [samePlace]

/-- A call that takes clean index blocks keeps the block map. -/
theorem Holds.step (holds : Holds dev sb ino s) {block : Fin totalBlocks}
    (clean : CleanIndexes dev ino s block) (taken : (runs dev sb ino).step s block after) :
    Holds dev sb ino after := by
  obtain ⟨remain, zone, call, created⟩ := taken
  obtain ⟨returned, grown, alsoCall, charted, grows, isZone, hasZone, _⟩ :=
    bmap_grows block holds.charted remain clean
  obtain ⟨rfl, same⟩ := Prod.mk.inj (Except.ok.inj (call.symm.trans alsoCall))
  subst same
  refine ⟨charted, fun other => ?_⟩
  rw [created]
  by_cases sameBlock : other = block
  · subst sameBlock
    rw [Function.update_self, isZone, if_neg hasZone]
  · rw [Function.update_of_ne sameBlock, holds.created]
    by_cases empty : s.fs.pointer ino (.ofBlock other) = 0
    · have stillEmpty := grows.others _ (Place.not_isIndex_ofBlock other)
        (fun same => sameBlock (Place.ofBlock_injective same)) empty
      rw [if_pos empty, if_pos stillEmpty]
    · rw [grows.kept _ empty]

/-- In every run whose calls take clean zones as index blocks, the block map is lawful. -/
theorem lawful_of_cleanIndexes (dev sb ino : Nat) (s : BlockMap)
    (reached : (runs dev sb ino).ReachableWithin (CleanIndexes dev ino) s) :
    Lawful ino s := by
  refine (reached.invariant (Holds dev sb ino) ?_ ?_).lawful
  · rintro start ⟨charted, created⟩
    refine ⟨charted, fun block => ?_⟩
    rw [created, start.fs.zoneOf_eq_pointer ino block]
  · intro before block after holds clean taken
    exact holds.step clean taken

/-! ## A new index block -/

/-- The small device with 8196 zones and a new file, inode 3, in entry 1 of the inode
table.  The first free zone is block 7. -/
def roomy (content : List UInt8) : Fs :=
  { newFile content with
    disk := (newFile content).disk.write 1 1
      (bytes [16, 0, 4, 32, 1, 0, 1, 0, 5, 0, 0, 0, 0, 28, 8, 16, 0x7F, 0x13]) }

/-- The file has no zones in the beginning. -/
def unmapped (content : List UInt8) : BlockMap where
  fs := roomy content
  created := fun _ => none

theorem roomy_desc (content : List UInt8) : (roomy content).superDesc 1 =
    ⟨16, 8196, 1, 1, 5, 0, 0x10081C00, minixMagic⟩ := by
  have isSuper : (roomy content).block 1 superBlockNr =
      bytes [16, 0, 4, 32, 1, 0, 1, 0, 5, 0, 0, 0, 0, 28, 8, 16, 0x7F, 0x13] := rfl
  unfold superDesc
  rw [isSuper]
  decide +kernel

theorem roomy_pointer (content : List UInt8) (place : Place) :
    (roomy content).pointer 1 place = 0 := by
  have slots (index : Fin 9) : ((roomy content).desc 1).zone index = 0 := by
    fin_cases index <;> rfl
  cases place with
  | slot index => exact slots index
  | single index =>
      unfold pointer
      rw [slots 7]
      rfl
  | middle index =>
      unfold pointer
      rw [slots 8]
      rfl
  | leaf outer inner =>
      unfold pointer
      rw [slots 8]
      rfl

/-- The zones from 7 on are free. -/
theorem roomy_clear (content : List UInt8) :
    ((roomy content).zoneNumbers 1).clear (roomy content) 1 = {zone | 7 ≤ zone ∧ zone < 8196} := by
  have numbers : (roomy content).zoneNumbers 1 = ⟨3, 1, 4⟩ := rfl
  have first : ∀ j : Fin 8, Bitmap.byteBit 7 j = decide (j.val < 3) := by decide
  have bits (j : Nat) (inMap : j < blockBits) :
      (roomy content).mapBit 1 3 j = decide (j < 3) := by
    have isMap : (roomy content).block 1 3 = bytes [7] := rfl
    unfold mapBit
    rw [Nat.div_eq_of_lt inMap, Nat.mod_eq_of_lt inMap, Nat.add_zero, isMap]
    unfold Bitmap.bit
    by_cases inByte : j < 8
    · have isByte : (bytes [7]) ((blockMap 0).bits + j / 8) = 7 := by
        rw [Nat.div_eq_of_lt inByte]
        rfl
      rw [isByte, Nat.mod_eq_of_lt inByte]
      exact first ⟨j, inByte⟩
    · have isByte : (bytes [7]) ((blockMap 0).bits + j / 8) = 0 := by
        obtain ⟨k, isSucc⟩ : ∃ k, j / 8 = k + 1 := ⟨j / 8 - 1, by omega⟩
        rw [isSucc]
        show [(7 : UInt8)].getD (0 + (k + 1)) 0 = 0
        rw [Nat.zero_add]
        rfl
      rw [isByte, decide_eq_false (by omega)]
      exact Nat.zero_testBit _
  rw [numbers]
  ext zone
  constructor
  · rintro ⟨⟨above, inMap⟩, isClear⟩
    dsimp only [NumberMap.bit] at above inMap isClear
    rw [Nat.one_mul] at inMap
    rw [bits _ inMap, decide_eq_false_iff_not] at isClear
    simp only [blockBits, blockSize] at inMap
    constructor
    · omega
    · omega
  · rintro ⟨above, below⟩
    have inMap : zone - 4 < blockBits := by
      simp only [blockBits, blockSize]
      omega
    refine ⟨⟨?_, ?_⟩, ?_⟩
    · dsimp only
      omega
    · dsimp only
      rwa [Nat.one_mul]
    · dsimp only [NumberMap.bit]
      rw [bits _ inMap, decide_eq_false_iff_not]
      omega

theorem roomy_charted (content : List UInt8) : (roomy content).Charted 1 0 1 where
  found := rfl
  fits := by rw [roomy_desc]; decide
  zmaps := by
    rw [roomy_desc]
    intro i only
    have zero : i = 0 := Nat.lt_one_iff.mp only
    subst zero
    unfold zmapStart
    rw [roomy_desc]
    rfl
  inodeDev := rfl
  behindMaps := by
    unfold zmapStart
    rw [roomy_desc]
    exact Nat.le_refl 4
  beforeZones := by
    rw [roomy_desc]
    exact Nat.lt_succ_self 4
  used := fun place hasZone => absurd (roomy_pointer content place) hasZone
  distinct := fun place _ hasZone => absurd (roomy_pointer content place) hasZone
  free := by
    rw [roomy_clear, roomy_desc]
    rintro zone ⟨above, below⟩
    exact ⟨Nat.le_trans (by decide) above, below⟩

theorem unmapped_initial (content : List UInt8) : (runs 1 0 1).initial (unmapped content) := by
  refine ⟨roomy_charted content, fun block => ?_⟩
  have empty : (unmapped content).fs.zoneOf 1 block = 0 := by
    rw [zoneOf_eq_pointer]
    exact roomy_pointer content _
  rw [if_pos empty]
  rfl

/-- Two zones are free. -/
theorem roomy_remain (content : List UInt8) : (roomy content).Remain 1 2 := by
  unfold Remain
  rw [roomy_clear]
  have pair : ({7, 8} : Set Nat) ⊆ {zone | 7 ≤ zone ∧ zone < 8196} := by
    rintro zone (rfl | rfl)
    · exact ⟨by decide, by decide⟩
    · exact ⟨by decide, by decide⟩
  have finite : ({zone | 7 ≤ zone ∧ zone < 8196} : Set Nat).Finite :=
    (Set.finite_lt_nat 8196).subset fun _ inside => inside.2
  rw [← Set.ncard_pair (by decide : (7 : Nat) ≠ 8)]
  exact Set.ncard_le_ncard pair finite

/-- The second block behind slot 7. -/
def eighth : Fin totalBlocks := ⟨8, by decide⟩

theorem unmapped_remain (content : List UInt8) : (unmapped content).fs.Remain 1
    ((unmapped content).fs.missing 1 ((Place.ofBlock eighth).above ++ [.ofBlock eighth])) :=
  Nat.le_trans List.countP_le_length (roomy_remain content)

/-- With zeros in block 7, that block becomes a clean index block. -/
theorem unmapped_clean : CleanIndexes 1 1 (unmapped []) eighth := by
  intro zone isClear _ offset _
  have isFree : zone ∈ {zone | 7 ≤ zone ∧ zone < 8196} := by
    rw [← roomy_clear []]
    exact isClear
  obtain ⟨k, rfl⟩ := Nat.exists_eq_add_of_le' isFree.1
  cases k with
  | zero => rfl
  | succ k => rfl

theorem lawful_of_cleanIndexes_unmapped :
    ∃ after, (runs 1 0 1).step (unmapped []) eighth after ∧ Lawful 1 after := by
  obtain ⟨zone, after, call, _⟩ :=
    bmap_grows eighth (roomy_charted []) (unmapped_remain []) unmapped_clean
  have taken : (runs 1 0 1).step (unmapped []) eighth
      ⟨after, Function.update (unmapped []).created eighth (some zone)⟩ :=
    ⟨unmapped_remain [], zone, call, rfl⟩
  exact ⟨_, taken, lawful_of_cleanIndexes 1 0 1 _
    (.step (.initial (unmapped_initial [])) unmapped_clean taken)⟩

/-- With two bytes in block 7, the block before the one created seems to have a zone. -/
theorem lawful_fails :
    ¬∀ (dev sb ino : Nat) (s : BlockMap), (runs dev sb ino).Reachable s → Lawful ino s := by
  intro always
  have returns : ((roomy [9, 9]).bmap 1 8 true).map
      (fun result => (result.1, result.2.zoneOf 1 7)) = .ok (8, 2313) := by rfl
  obtain ⟨⟨zone, after⟩, call, same⟩ : ∃ result, (roomy [9, 9]).bmap 1 8 true = .ok result ∧
      (result.1, result.2.zoneOf 1 7) = (8, 2313) := by
    cases call : (roomy [9, 9]).bmap 1 8 true with
    | error fault =>
        rw [call] at returns
        cases returns
    | ok result =>
        rw [call] at returns
        exact ⟨result, rfl, Except.ok.inj returns⟩
  have taken : (runs 1 0 1).step (unmapped [9, 9]) eighth
      ⟨after, Function.update (unmapped [9, 9]).created eighth (some zone)⟩ :=
    ⟨unmapped_remain [9, 9], zone, call, rfl⟩
  have lawful := always 1 0 1 _
    (.step (.initial (unmapped_initial [9, 9])) trivial taken)
  have found := lawful.found ⟨7, by decide⟩
  rw [bmap_false _ _ (by decide)] at found
  have isStale : after.zoneOf 1 7 = 2313 := (Prod.mk.inj same).2
  have isZero : after.zoneOf 1 7 = 0 := congrArg Prod.fst (Except.ok.inj found)
  rw [isStale] at isZero
  cases isZero

end BlockMap

end Fs
end LightOS
