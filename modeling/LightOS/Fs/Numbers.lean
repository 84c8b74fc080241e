import LightOS.Foundation.Transition
import LightOS.Fs.Format
import LightOS.Fs.Formatting
import LightOS.Fs.Maps
import LightOS.Fs.SuperTable
import Mathlib.Order.Bounds.Basic

/-!
# Numbers of zones and inodes

The allocations and releases on one device, in any order.  Each of the two bitmaps hands
out the least number whose bit is clear, and the release of a number clears the bit that
its allocation has set, in whatever block of the bitmap it lies.
-/

namespace LightOS
namespace Fs

variable {fs : Fs} {another dev : Nat}

/-- A bitmap of a device: its first block, the number of its blocks, and the number that
its first bit stands for. -/
structure NumberMap where
  first : Nat
  blocks : Nat
  base : Nat

/-- The zone map of a device. -/
def zoneNumbers (fs : Fs) (dev : Nat) : NumberMap where
  first := fs.zmapStart dev
  blocks := (fs.superDesc dev).zmapBlocks
  base := (fs.superDesc dev).firstdatazone - 1

/-- The inode map of a device. -/
def inodeNumbers (fs : Fs) (dev : Nat) : NumberMap where
  first := imapBlockNr
  blocks := (fs.superDesc dev).imapBlocks
  base := 0

namespace NumberMap

/-- The bitmap has a bit for a number. -/
def Covers (map : NumberMap) (number : Nat) : Prop :=
  map.base ≤ number ∧ number - map.base < map.blocks * blockBits

/-- The bit of a number. -/
def bit (map : NumberMap) (fs : Fs) (dev number : Nat) : Bool :=
  fs.mapBit dev map.first (number - map.base)

/-- The numbers whose bit is clear. -/
def clear (map : NumberMap) (fs : Fs) (dev : Nat) : Set Nat :=
  {number | map.Covers number ∧ map.bit fs dev number = false}

/-- The numbers whose bit is set. -/
def marked (map : NumberMap) (fs : Fs) (dev : Nat) : Set Nat :=
  {number | map.Covers number ∧ map.bit fs dev number = true}

/-- The bit of a number has been written, and nothing else has changed. -/
def Writes (map : NumberMap) (before after : Fs) (dev number : Nat) (value : Bool) : Prop :=
  BitWritten before after dev map.first (number - map.base) value

/-- What an allocation should do: hand out the least number whose bit is clear and set
that bit, or return `EOF` when no bit is clear. -/
def Allocates (map : NumberMap) (fs : Fs) (dev : Nat)
    (result : Except Fault (Nat × Fs)) : Prop :=
  (∃ number after, result = .ok (number, after) ∧
    IsLeast (map.clear fs dev) number ∧ map.Writes fs after dev number true) ∨
  result = .ok (eof, fs) ∧ map.clear fs dev = ∅

/-- What a release should do: clear the bit of the number. -/
def Releases (map : NumberMap) (fs : Fs) (dev number : Nat) (result : Except Fault Fs) :
    Prop :=
  ∃ after, result = .ok after ∧ map.Writes fs after dev number false

/-- Two bitmaps take up different blocks. -/
def Apart (map other : NumberMap) : Prop :=
  ∀ i < map.blocks, ∀ j < other.blocks, map.first + i ≠ other.first + j

section Bits

variable {map other : NumberMap} {before after : Fs} {number : Nat} {value : Bool}

theorem Writes.bit_self (writes : map.Writes before after dev number value)
    (covers : map.Covers number) (alsoCovers : map.Covers another) :
    map.bit after dev another =
      if another = number then value else map.bit before dev another := by
  have same : another - map.base = number - map.base ↔ another = number := by
    have first := covers.1
    have second := alsoCovers.1
    omega
  unfold bit
  rw [BitWritten.bit writes]
  simp only [same]

theorem Writes.bit_other (writes : map.Writes before after dev number value)
    (covers : map.Covers number) (apart : map.Apart other) (alsoCovers : other.Covers another) :
    other.bit after dev another = other.bit before dev another :=
  BitWritten.mapBit_other writes fun same =>
    apart _ (block_of_bit covers.2) _ (block_of_bit alsoCovers.2) same.symm

/-- Setting a bit leaves fewer numbers clear, and clearing it one more. -/
theorem Writes.clear_subset (writes : map.Writes before after dev number value)
    (covers : map.Covers number) (isClear : another ∈ map.clear after dev) :
    another ∈ map.clear before dev ∨ another = number ∧ value = false := by
  obtain ⟨alsoCovers, isClear⟩ := isClear
  rw [writes.bit_self covers alsoCovers] at isClear
  split at isClear
  · rename_i same
    exact .inr ⟨same, isClear⟩
  · exact .inl ⟨alsoCovers, isClear⟩

theorem Writes.marked_iff (writes : map.Writes before after dev number value)
    (covers : map.Covers number) :
    another ∈ map.marked after dev ↔
      if another = number then value = true else another ∈ map.marked before dev := by
  split
  · rename_i same
    subst same
    have isValue := writes.bit_self covers covers
    rw [if_pos rfl] at isValue
    constructor
    · rintro ⟨_, isSet⟩
      exact isValue.symm.trans isSet
    · exact fun isSet => ⟨covers, isValue.trans isSet⟩
  · rename_i different
    constructor
    · rintro ⟨alsoCovers, isSet⟩
      rw [writes.bit_self covers alsoCovers, if_neg different] at isSet
      exact ⟨alsoCovers, isSet⟩
    · rintro ⟨alsoCovers, isSet⟩
      refine ⟨alsoCovers, ?_⟩
      rwa [writes.bit_self covers alsoCovers, if_neg different]

/-- A bitmap that takes up other blocks keeps its bits. -/
theorem Writes.marked_other (writes : map.Writes before after dev number value)
    (covers : map.Covers number) (apart : map.Apart other) :
    other.marked after dev = other.marked before dev := by
  ext another
  exact and_congr_right fun alsoCovers => by
    rw [writes.bit_other covers apart alsoCovers]

theorem Writes.clear_other (writes : map.Writes before after dev number value)
    (covers : map.Covers number) (apart : map.Apart other) :
    other.clear after dev = other.clear before dev := by
  ext another
  exact and_congr_right fun alsoCovers => by
    rw [writes.bit_other covers apart alsoCovers]

end Bits

end NumberMap

/-- Clear bits stand for valid numbers only, and there is a zone for every inode. -/
structure ValidNumbers (fs : Fs) (dev : Nat) : Prop where
  inodes : (fs.superDesc dev).inodes ≤ (fs.superDesc dev).zones
  clearInodes : ∀ nr ∈ (fs.inodeNumbers dev).clear fs dev, nr < (fs.superDesc dev).inodes
  clearZones : ∀ zone ∈ (fs.zoneNumbers dev).clear fs dev,
    (fs.superDesc dev).firstdatazone ≤ zone ∧ zone < (fs.superDesc dev).zones

/-- The zones in use. -/
def usedZones (fs : Fs) (dev : Nat) : Set Nat :=
  {zone | zone ∈ (fs.zoneNumbers dev).marked fs dev ∧
    (fs.superDesc dev).firstdatazone ≤ zone ∧ zone < (fs.superDesc dev).zones}

/-- The numbers of the inodes in use. -/
def usedInodes (fs : Fs) (dev : Nat) : Set Nat :=
  {nr | nr ∈ (fs.inodeNumbers dev).marked fs dev ∧ nr < (fs.superDesc dev).inodes}

/-- The file systems, and the numbers that are outstanding: in use from the start, or
handed out and not released since. -/
structure Numbering where
  fs : Fs
  zones : Set Nat
  inodes : Set Nat

/-- A call that allocates or releases a number. -/
inductive NumberCall
  | balloc
  | bfree (zone : Nat)
  | ialloc
  | ifree (nr : Nat)

namespace Numbering

/-- Carry out a call on a device. -/
def next (s : Numbering) (dev : Nat) : NumberCall → Except Fault Numbering
  | .balloc => do
      let (zone, fs) ← s.fs.balloc dev
      return { s with fs := fs, zones := if zone = eof then s.zones else insert zone s.zones }
  | .bfree zone => do
      return { s with fs := ← s.fs.bfree dev zone, zones := s.zones \ {zone} }
  | .ialloc => do
      let (nr, fs) ← s.fs.ialloc dev
      return { s with fs := fs, inodes := if nr = eof then s.inodes else insert nr s.inodes }
  | .ifree nr => do
      return { s with fs := ← s.fs.ifree dev nr, inodes := s.inodes \ {nr} }

/-- Only outstanding numbers are released. -/
def Legal (s : Numbering) : NumberCall → Prop
  | .bfree zone => zone ∈ s.zones
  | .ifree nr => nr ∈ s.inodes
  | _ => True

/-- The call does what it should, and a number that it hands out is not outstanding. -/
def Serves (s : Numbering) (dev : Nat) : NumberCall → Prop
  | .balloc => (s.fs.zoneNumbers dev).Allocates s.fs dev (s.fs.balloc dev) ∧
      ∀ zone after, s.fs.balloc dev = .ok (zone, after) → zone ∉ s.zones
  | .bfree zone => (s.fs.zoneNumbers dev).Releases s.fs dev zone (s.fs.bfree dev zone)
  | .ialloc => (s.fs.inodeNumbers dev).Allocates s.fs dev (s.fs.ialloc dev) ∧
      ∀ nr after, s.fs.ialloc dev = .ok (nr, after) → nr ∉ s.inodes
  | .ifree nr => (s.fs.inodeNumbers dev).Releases s.fs dev nr (s.fs.ifree dev nr)

/-- The runs on a device whose super block has been read. -/
def runs (dev : Nat) : System Numbering NumberCall where
  initial s := ∃ (before : Fs) (sb : Nat), before.getSuper dev = none ∧
    before.readSuper dev = .ok (some sb, s.fs) ∧ s.fs.ValidNumbers dev ∧
      s.zones = s.fs.usedZones dev ∧ s.inodes = s.fs.usedInodes dev
  step before call after := before.Legal call ∧ before.next dev call = .ok after

/-- The bitmap that a call is about has a block, and the first bit of the zone map stands
for a number. -/
def HasMap (dev : Nat) (s : Numbering) : NumberCall → Prop
  | .balloc => 0 < (s.fs.superDesc dev).zmapBlocks ∧ 0 < (s.fs.superDesc dev).firstdatazone
  | .bfree _ => 0 < (s.fs.superDesc dev).firstdatazone
  | .ialloc => 0 < (s.fs.superDesc dev).imapBlocks
  | .ifree _ => True

end Numbering

/-! ## Calls on a device in order -/

/-- The super block of a device has been read, and its bitmaps are in order. -/
structure Numbered (fs : Fs) (dev : Nat) : Prop where
  super : ∃ sb, fs.getSuper dev = some sb ∧
    (fs.superTable sb).imaps =
      setBuffers (fun _ => none) imapBlockNr (fs.superDesc dev).imapBlocks ∧
    (fs.superTable sb).zmaps =
      setBuffers (fun _ => none) (fs.zmapStart dev) (fs.superDesc dev).zmapBlocks
  imapFits : (fs.superDesc dev).imapBlocks ≤ mapNr
  zmapFits : (fs.superDesc dev).zmapBlocks ≤ mapNr
  valid : fs.ValidNumbers dev

namespace NumberMap

variable {map : NumberMap} {j : Nat}

theorem clear_eq_empty (full : fs.FullBetween dev map.first 0 (map.blocks * blockBits)) :
    map.clear fs dev = ∅ := by
  rw [Set.eq_empty_iff_forall_notMem]
  rintro number ⟨⟨_, inMap⟩, isClear⟩
  have isSet := full _ (Nat.zero_le _) inMap
  exact Bool.false_ne_true (isClear.symm.trans isSet)

theorem isLeast_clear (map : NumberMap) (inMap : j < map.blocks * blockBits)
    (isFirst : fs.FirstClear dev map.first 0 j) :
    IsLeast (map.clear fs dev) (map.base + j) := by
  obtain ⟨_, isClear, full⟩ := isFirst
  constructor
  · refine ⟨⟨Nat.le_add_right _ _, ?_⟩, ?_⟩
    · rwa [Nat.add_sub_cancel_left]
    · unfold bit
      rwa [Nat.add_sub_cancel_left]
  · rintro number ⟨⟨above, _⟩, alsoClear⟩
    by_contra below
    have isSet := full (number - map.base) (Nat.zero_le _) (by omega)
    exact Bool.false_ne_true (alsoClear.symm.trans isSet)

theorem writes_of_bit (map : NumberMap) {after : Fs} {value : Bool}
    (written : BitWritten fs after dev map.first j value) :
    map.Writes fs after dev (map.base + j) value := by
  unfold Writes
  rwa [Nat.add_sub_cancel_left]

end NumberMap

section Calls

variable {number : Nat}

/-- `balloc` hands out the least number whose bit is clear. -/
theorem balloc_allocates (present : (fs.getSuper dev).isSome)
    (valid : ∀ zone ∈ (fs.zoneNumbers dev).clear fs dev, zone < (fs.superDesc dev).zones)
    (hasMap : 0 < (fs.superDesc dev).zmapBlocks)
    (positive : 0 < (fs.superDesc dev).firstdatazone) :
    (fs.zoneNumbers dev).Allocates fs dev (fs.balloc dev) := by
  rcases fs.balloc_spec dev present hasMap positive with
    ⟨full, call⟩ | ⟨j, after, inMap, isFirst, written, call⟩
  · exact .inr ⟨call, NumberMap.clear_eq_empty full⟩
  · have least := (fs.zoneNumbers dev).isLeast_clear inMap isFirst
    refine .inl ⟨_, after, ?_, least, NumberMap.writes_of_bit _ written⟩
    rw [call]
    exact if_pos (valid _ least.1)

theorem Numbered.balloc (numbered : fs.Numbered dev)
    (hasMap : 0 < (fs.superDesc dev).zmapBlocks)
    (positive : 0 < (fs.superDesc dev).firstdatazone) :
    (fs.zoneNumbers dev).Allocates fs dev (fs.balloc dev) := by
  obtain ⟨sb, isSuper, _⟩ := numbered.super
  have present : (fs.getSuper dev).isSome := by rw [isSuper]; rfl
  exact balloc_allocates present (fun zone isClear =>
    (numbered.valid.clearZones zone isClear).2) hasMap positive

/-- `ialloc` hands out the least number whose bit is clear. -/
theorem Numbered.ialloc (numbered : fs.Numbered dev)
    (hasMap : 0 < (fs.superDesc dev).imapBlocks) :
    (fs.inodeNumbers dev).Allocates fs dev (fs.ialloc dev) := by
  obtain ⟨sb, isSuper, _⟩ := numbered.super
  have present : (fs.getSuper dev).isSome := by rw [isSuper]; rfl
  rcases fs.ialloc_spec dev present hasMap with
    ⟨full, call⟩ | ⟨j, after, inMap, isFirst, written, call⟩
  · exact .inr ⟨call, NumberMap.clear_eq_empty full⟩
  · have least := (fs.inodeNumbers dev).isLeast_clear inMap isFirst
    have inside := numbered.valid.clearInodes _ least.1
    have sameNumber : (fs.inodeNumbers dev).base + j = j := Nat.zero_add j
    refine .inl ⟨_, after, ?_, least, NumberMap.writes_of_bit _ written⟩
    rw [call, if_pos (by rwa [sameNumber] at inside), sameNumber]

/-- Clearing a set bit of a bitmap succeeds. -/
theorem clearBit_marked (offset : Nat) {first j : Nat} (isSet : fs.mapBit dev first j = true) :
    ∃ after, fs.clearBit dev (some (first + j / blockBits)) offset
        (offset + j % blockBits) = .ok after ∧
      BitWritten fs after dev first j false := by
  have inMap : j % blockBits < (blockMap offset).length * 8 :=
    Nat.mod_lt j (by decide)
  have test := Bitmap.test_eq (fs.block dev (first + j / blockBits)) inMap
  obtain ⟨memory, set, bits, _⟩ :=
    Bitmap.set_spec (fs.block dev (first + j / blockBits)) inMap false
  have taken : (blockMap offset).bit (fs.block dev (first + j / blockBits))
      (j % blockBits) = true := isSet
  have sameOffset : (blockMap offset).offset = offset := rfl
  rw [sameOffset] at test set
  refine ⟨_, ?_, bitWritten_writeBlock fs dev first j false memory fun k _ => bits k⟩
  unfold clearBit
  dsimp only
  rw [test, ok_bind, check_true taken, ok_bind, set]
  rfl

/-- A device in use: its super block and its zone map have been read. -/
structure ZmapRead (fs : Fs) (dev sb : Nat) : Prop where
  found : fs.getSuper dev = some sb
  fits : (fs.superDesc dev).zmapBlocks ≤ mapNr
  zmaps : ∀ i, i < (fs.superDesc dev).zmapBlocks →
    (fs.superTable sb).zmaps i = some (fs.zmapStart dev + i)

/-- `bfree` clears the bit of a zone in use. -/
theorem ZmapRead.bfree {sb : Nat} (read : fs.ZmapRead dev sb)
    (positive : 0 < (fs.superDesc dev).firstdatazone)
    (used : number ∈ fs.usedZones dev) :
    (fs.zoneNumbers dev).Releases fs dev number (fs.bfree dev number) := by
  obtain ⟨⟨⟨above, inMap⟩, isSet⟩, _, below⟩ := used
  have small := fs.firstdatazone_lt dev
  have fits := read.fits
  dsimp only [zoneNumbers] at above inMap
  obtain ⟨j, rfl⟩ := Nat.exists_eq_add_of_le above
  rw [Nat.add_sub_cancel_left] at inMap
  have inBlocks := block_of_bit inMap
  have base : sub32 (fs.superDesc dev).firstdatazone 1 =
      (fs.superDesc dev).firstdatazone - 1 := sub32_eq positive
  have place : sub32 ((fs.superDesc dev).firstdatazone - 1 + j)
      ((fs.superDesc dev).firstdatazone - 1) = j := by
    rw [sub32_eq (Nat.le_add_right _ _), Nat.add_sub_cancel_left]
  have offset : add32 ((fs.superDesc dev).firstdatazone - 1)
      (j / blockBits * blockBits) =
        (fs.superDesc dev).firstdatazone - 1 + j / blockBits * blockBits := by
    simp only [add32, blockBits, blockSize, mapNr] at inMap fits ⊢
    omega
  have index : (fs.superDesc dev).firstdatazone - 1 + j =
      (fs.superDesc dev).firstdatazone - 1 + j / blockBits * blockBits +
        j % blockBits := by
    simp only [blockBits, blockSize]
    omega
  have buffer := read.zmaps _ inBlocks
  have isMarked : fs.mapBit dev (fs.zmapStart dev) j = true := by
    unfold NumberMap.bit zoneNumbers at isSet
    rwa [Nat.add_sub_cancel_left] at isSet
  obtain ⟨after, cleared, written⟩ := clearBit_marked
    ((fs.superDesc dev).firstdatazone - 1 + j / blockBits * blockBits) isMarked
  refine ⟨after, ?_, (fs.zoneNumbers dev).writes_of_bit written⟩
  have inside : j / blockBits < mapNr := by omega
  unfold Fs.bfree
  rw [read.found]
  dsimp only
  rw [check_true below, ok_bind, base, place, bounded_true inside, ok_bind, offset, buffer]
  rw [index]
  exact cleared

/-- The zone map of a device in order has been read. -/
theorem Numbered.zmapRead (numbered : fs.Numbered dev) : ∃ sb, fs.ZmapRead dev sb := by
  obtain ⟨sb, isSuper, _, zmaps⟩ := numbered.super
  refine ⟨sb, isSuper, numbered.zmapFits, fun i inMap => ?_⟩
  rw [zmaps, setBuffers, if_pos inMap]

theorem Numbered.bfree (numbered : fs.Numbered dev)
    (positive : 0 < (fs.superDesc dev).firstdatazone)
    (used : number ∈ fs.usedZones dev) :
    (fs.zoneNumbers dev).Releases fs dev number (fs.bfree dev number) :=
  have ⟨_, read⟩ := numbered.zmapRead
  read.bfree positive used

/-- `ifree` clears the bit of the number of an inode in use. -/
theorem Numbered.ifree (numbered : fs.Numbered dev) (used : number ∈ fs.usedInodes dev) :
    (fs.inodeNumbers dev).Releases fs dev number (fs.ifree dev number) := by
  obtain ⟨⟨⟨_, inMap⟩, isSet⟩, below⟩ := used
  obtain ⟨sb, isSuper, imaps, _⟩ := numbered.super
  have fits := numbered.imapFits
  have isZone := Nat.lt_of_lt_of_le below numbered.valid.inodes
  have inBlocks : number / blockBits < (fs.superDesc dev).imapBlocks := block_of_bit inMap
  have inside : number / blockBits < mapNr := by omega
  have index : number = number / blockBits * blockBits + number % blockBits := by
    simp only [blockBits, blockSize]
    omega
  have buffer : (fs.superTable sb).imaps (number / blockBits) =
      some (imapBlockNr + number / blockBits) := by
    rw [imaps, setBuffers, if_pos inBlocks]
  obtain ⟨after, cleared, written⟩ := clearBit_marked
    (number / blockBits * blockBits) (show fs.mapBit dev imapBlockNr number = true from isSet)
  refine ⟨after, ?_, written⟩
  unfold Fs.ifree
  rw [isSuper]
  dsimp only
  rw [check_true isZone, ok_bind, bounded_true inside, ok_bind, buffer]
  rw [← index] at cleared
  exact cleared

end Calls

/-! ## Written bits -/

/-- The two bitmaps of a device lie in different blocks. -/
theorem zones_apart (fs : Fs) (dev : Nat) :
    (fs.zoneNumbers dev).Apart (fs.inodeNumbers dev) := by
  intro i _ j inMap
  dsimp only [zoneNumbers, inodeNumbers, zmapStart] at inMap ⊢
  omega

theorem inodes_apart (fs : Fs) (dev : Nat) :
    (fs.inodeNumbers dev).Apart (fs.zoneNumbers dev) := by
  intro i inMap j _
  dsimp only [zoneNumbers, inodeNumbers, zmapStart] at inMap ⊢
  omega

section Written

variable {before after : Fs} {first j number : Nat} {value : Bool}

/-- Writing a bit behind the super block keeps both bitmaps where they are. -/
theorem BitWritten.maps (written : BitWritten before after dev first j value)
    (behind : superBlockNr < first) :
    after.zoneNumbers dev = before.zoneNumbers dev ∧
      after.inodeNumbers dev = before.inodeNumbers dev := by
  unfold zoneNumbers inodeNumbers zmapStart
  rw [written.superDesc behind]
  exact ⟨rfl, rfl⟩

/-- The super block is still the one read. -/
theorem BitWritten.numbered (written : BitWritten before after dev first j value)
    (behind : superBlockNr < first) (numbered : before.Numbered dev)
    (valid : after.ValidNumbers dev) : after.Numbered dev := by
  obtain ⟨sb, isSuper, imaps, zmaps⟩ := numbered.super
  have desc := written.superDesc behind dev
  have start : after.zmapStart dev = before.zmapStart dev := by
    unfold zmapStart
    rw [desc]
  constructor
  case super =>
    refine ⟨sb, ?_, ?_, ?_⟩
    · rw [written.getSuper, isSuper]
    · rw [written.superTable, imaps, desc]
    · rw [written.superTable, zmaps, desc, start]
  case imapFits =>
    rw [desc]
    exact numbered.imapFits
  case zmapFits =>
    rw [desc]
    exact numbered.zmapFits
  case valid => exact valid

theorem zmap_behind (fs : Fs) (dev : Nat) : superBlockNr < (fs.zoneNumbers dev).first :=
  Nat.lt_of_lt_of_le superBlock_before (Nat.le_add_right _ _)

theorem imap_behind (fs : Fs) (dev : Nat) : superBlockNr < (fs.inodeNumbers dev).first :=
  superBlock_before

/-- A written bit of the zone map: the device stays in order, that zone is in use or not
any more, and the others and the inodes are as before. -/
theorem Numbered.zoneWritten (numbered : before.Numbered dev)
    (covers : (before.zoneNumbers dev).Covers number)
    (isZone : (before.superDesc dev).firstdatazone ≤ number ∧
      number < (before.superDesc dev).zones)
    (writes : (before.zoneNumbers dev).Writes before after dev number value) :
    after.Numbered dev ∧
      (∀ zone, zone ∈ after.usedZones dev ↔
        if zone = number then value = true else zone ∈ before.usedZones dev) ∧
      after.usedInodes dev = before.usedInodes dev := by
  have behind := before.zmap_behind dev
  have apart := before.zones_apart dev
  obtain ⟨sameZones, sameInodes⟩ := BitWritten.maps writes behind
  have desc := BitWritten.superDesc writes behind dev
  refine ⟨BitWritten.numbered writes behind numbered ?_, ?_, ?_⟩
  · constructor
    · rw [desc]
      exact numbered.valid.inodes
    · rw [sameInodes, desc, writes.clear_other covers apart]
      exact numbered.valid.clearInodes
    · rw [sameZones, desc]
      intro zone isClear
      rcases writes.clear_subset covers isClear with wasClear | ⟨rfl, _⟩
      · exact numbered.valid.clearZones zone wasClear
      · exact isZone
  · intro zone
    unfold usedZones
    rw [sameZones, desc, Set.mem_ofPred_eq, writes.marked_iff covers]
    split
    · rename_i same
      subst same
      exact and_iff_left isZone
    · exact Iff.rfl
  · unfold usedInodes
    rw [sameInodes, desc, writes.marked_other covers apart]

/-- A written bit of the inode map. -/
theorem Numbered.inodeWritten (numbered : before.Numbered dev)
    (covers : (before.inodeNumbers dev).Covers number)
    (isInode : number < (before.superDesc dev).inodes)
    (writes : (before.inodeNumbers dev).Writes before after dev number value) :
    after.Numbered dev ∧
      (∀ nr, nr ∈ after.usedInodes dev ↔
        if nr = number then value = true else nr ∈ before.usedInodes dev) ∧
      after.usedZones dev = before.usedZones dev := by
  have behind := before.imap_behind dev
  have apart := before.inodes_apart dev
  obtain ⟨sameZones, sameInodes⟩ := BitWritten.maps writes behind
  have desc := BitWritten.superDesc writes behind dev
  refine ⟨BitWritten.numbered writes behind numbered ?_, ?_, ?_⟩
  · constructor
    · rw [desc]
      exact numbered.valid.inodes
    · rw [sameInodes, desc]
      intro nr isClear
      rcases writes.clear_subset covers isClear with wasClear | ⟨rfl, _⟩
      · exact numbered.valid.clearInodes nr wasClear
      · exact isInode
    · rw [sameZones, desc, writes.clear_other covers apart]
      exact numbered.valid.clearZones
  · intro nr
    unfold usedInodes
    rw [sameInodes, desc, Set.mem_ofPred_eq, writes.marked_iff covers]
    split
    · rename_i same
      subst same
      exact and_iff_left isInode
    · exact Iff.rfl
  · unfold usedZones
    rw [sameZones, desc, writes.marked_other covers apart]

end Written

/-! ## Runs -/

/-- A device whose super block has just been read is in order. -/
theorem readSuper_numbered {before after : Fs} {sb : Nat} (absent : before.getSuper dev = none)
    (read : before.readSuper dev = .ok (some sb, after)) (valid : after.ValidNumbers dev) :
    after.Numbered dev := by
  have fits : (after.superDesc dev).imapBlocks ≤ mapNr ∧
      (after.superDesc dev).zmapBlocks ≤ mapNr := by
    have reading := read
    unfold readSuper at reading
    rw [absent, bind_eq_ok] at reading
    obtain ⟨_, _, reading⟩ := reading
    dsimp only at reading
    split at reading
    · cases reading
    · simp only [bind_eq_ok, check_eq_ok] at reading
      obtain ⟨_, imapFits, _, zmapFits, same⟩ := reading
      cases same
      exact ⟨imapFits, zmapFits⟩
  rcases readSuper_cases read with ⟨_, isSuper, _, _⟩ |
    ⟨_, ⟨_, none⟩ | ⟨_, other, _, inTable, same, rfl⟩⟩
  · rw [absent] at isSuper
    cases isSuper
  · cases none
  · cases same
    have isEntry : (before.setSuper sb (before.readEntry dev sb)).superTable sb =
        before.readEntry dev sb := by simp
    have isSuper : (before.setSuper sb (before.readEntry dev sb)).getSuper dev = some sb := by
      have isDev : ((before.setSuper sb (before.readEntry dev sb)).superTable sb).dev =
          dev := by rw [isEntry]; rfl
      obtain ⟨found, isFound⟩ := Option.isSome_iff_exists.mp (getSuper_isSome inTable isDev)
      obtain ⟨carries, foundInTable⟩ := dev_of_getSuper isFound
      by_cases isSame : found = sb
      · rw [isFound, isSame]
      · rw [setSuper_superTable, Function.update_of_ne isSame] at carries
        have someBefore := getSuper_isSome foundInTable carries
        rw [absent] at someBefore
        cases someBefore
    refine ⟨⟨sb, isSuper, ?_, ?_⟩, fits.1, fits.2, valid⟩
    · rw [isEntry]
      rfl
    · rw [isEntry]
      rfl

/-- `EOF` is neither a zone nor the number of an inode. -/
theorem eof_not_zone : eof ∉ fs.usedZones dev := by
  rintro ⟨_, _, below⟩
  have small : (fs.superDesc dev).zones < 2 ^ 16 := Memory.half_lt _ _
  have large : 2 ^ 16 ≤ eof := by decide
  omega

theorem eof_not_inode : eof ∉ fs.usedInodes dev := by
  rintro ⟨_, below⟩
  have small : (fs.superDesc dev).inodes < 2 ^ 16 := Memory.half_lt _ _
  have large : 2 ^ 16 ≤ eof := by decide
  omega

namespace Numbering

/-- The device is in order, and the outstanding numbers are in use. -/
structure Holds (s : Numbering) (dev : Nat) : Prop where
  numbered : s.fs.Numbered dev
  zones : s.zones ⊆ s.fs.usedZones dev
  inodes : s.inodes ⊆ s.fs.usedInodes dev

variable {s after : Numbering}

/-- A number whose bit is clear is not outstanding, and neither is `EOF`. -/
theorem fresh_of_allocates {map : NumberMap} {outstanding : Set Nat}
    {result : Except Fault (Nat × Fs)} (allocates : map.Allocates fs dev result)
    (marked : ∀ number ∈ outstanding, number ∈ map.marked fs dev) (noEof : eof ∉ outstanding)
    {number : Nat} {allotted : Fs} (call : result = .ok (number, allotted)) :
    number ∉ outstanding := by
  intro present
  rcases allocates with ⟨least, _, ends, isLeast, _⟩ | ⟨ends, _⟩
  · obtain ⟨rfl, _⟩ := Prod.mk.inj (Except.ok.inj (ends.symm.trans call))
    exact Bool.false_ne_true (isLeast.1.2.symm.trans (marked _ present).2)
  · obtain ⟨rfl, _⟩ := Prod.mk.inj (Except.ok.inj (ends.symm.trans call))
    exact noEof present

/-- A call on a device in order does what it should. -/
theorem Holds.serves (holds : s.Holds dev) {call : NumberCall} (legal : s.Legal call)
    (hasMap : HasMap dev s call) : s.Serves dev call := by
  cases call with
  | balloc =>
      have allocates := holds.numbered.balloc hasMap.1 hasMap.2
      exact ⟨allocates, fun zone fs => fresh_of_allocates allocates
        (fun _ present => (holds.zones present).1) fun present =>
          eof_not_zone (holds.zones present)⟩
  | bfree zone => exact holds.numbered.bfree hasMap (holds.zones legal)
  | ialloc =>
      have allocates := holds.numbered.ialloc hasMap
      exact ⟨allocates, fun nr fs => fresh_of_allocates allocates
        (fun _ present => (holds.inodes present).1) fun present =>
          eof_not_inode (holds.inodes present)⟩
  | ifree nr => exact holds.numbered.ifree (holds.inodes legal)

section Outstanding

variable {outstanding used written : Set Nat} {number : Nat}

/-- A number that has been handed out is in use with the others. -/
theorem insert_subset_of_written
    (isWritten : ∀ another, another ∈ written ↔
      if another = number then true = true else another ∈ used)
    (inUse : outstanding ⊆ used) : insert number outstanding ⊆ written := by
  rintro another (rfl | present)
  · rw [isWritten, if_pos rfl]
  · rw [isWritten]
    split
    · rfl
    · exact inUse present

/-- The numbers that have not been released are still in use. -/
theorem diff_subset_of_written
    (isWritten : ∀ another, another ∈ written ↔
      if another = number then false = true else another ∈ used)
    (inUse : outstanding ⊆ used) : outstanding \ {number} ⊆ written := by
  rintro another ⟨present, different⟩
  have apart : another ≠ number := different
  rw [isWritten, if_neg apart]
  exact inUse present

end Outstanding

/-- An allocation keeps the device in order, and what it hands out is in use. -/
theorem Holds.balloc (holds : s.Holds dev) {zone : Nat}
    (allocates : (s.fs.zoneNumbers dev).Allocates s.fs dev (.ok (zone, fs))) :
    Holds ⟨fs, if zone = eof then s.zones else insert zone s.zones, s.inodes⟩ dev := by
  rcases allocates with ⟨least, fs, same, ⟨isClear, _⟩, writes⟩ | ⟨same, _⟩
  · cases same
    have isZone := holds.numbered.valid.clearZones _ isClear
    obtain ⟨numbered, zones, inodes⟩ := holds.numbered.zoneWritten isClear.1 isZone writes
    refine ⟨numbered, ?_, ?_⟩
    · split
      · exact (Set.subset_insert _ _).trans (insert_subset_of_written zones holds.zones)
      · exact insert_subset_of_written zones holds.zones
    · rw [inodes]
      exact holds.inodes
  · cases same
    rw [if_pos rfl]
    exact holds

theorem Holds.ialloc (holds : s.Holds dev) {nr : Nat}
    (allocates : (s.fs.inodeNumbers dev).Allocates s.fs dev (.ok (nr, fs))) :
    Holds ⟨fs, s.zones, if nr = eof then s.inodes else insert nr s.inodes⟩ dev := by
  rcases allocates with ⟨least, fs, same, ⟨isClear, _⟩, writes⟩ | ⟨same, _⟩
  · cases same
    have isInode := holds.numbered.valid.clearInodes _ isClear
    obtain ⟨numbered, inodes, zones⟩ :=
      holds.numbered.inodeWritten isClear.1 isInode writes
    refine ⟨numbered, ?_, ?_⟩
    · rw [zones]
      exact holds.zones
    · split
      · exact (Set.subset_insert _ _).trans (insert_subset_of_written inodes holds.inodes)
      · exact insert_subset_of_written inodes holds.inodes
  · cases same
    rw [if_pos rfl]
    exact holds

/-- A release keeps the other numbers in use. -/
theorem Holds.bfree (holds : s.Holds dev) {zone : Nat} (legal : zone ∈ s.zones)
    (writes : (s.fs.zoneNumbers dev).Writes s.fs fs dev zone false) :
    Holds ⟨fs, s.zones \ {zone}, s.inodes⟩ dev := by
  obtain ⟨marked, isZone⟩ := holds.zones legal
  obtain ⟨numbered, zones, inodes⟩ := holds.numbered.zoneWritten marked.1 isZone writes
  refine ⟨numbered, ?_, ?_⟩
  · exact diff_subset_of_written zones holds.zones
  · rw [inodes]
    exact holds.inodes

theorem Holds.ifree (holds : s.Holds dev) {nr : Nat} (legal : nr ∈ s.inodes)
    (writes : (s.fs.inodeNumbers dev).Writes s.fs fs dev nr false) :
    Holds ⟨fs, s.zones, s.inodes \ {nr}⟩ dev := by
  obtain ⟨marked, isInode⟩ := holds.inodes legal
  obtain ⟨numbered, inodes, zones⟩ := holds.numbered.inodeWritten marked.1 isInode writes
  refine ⟨numbered, ?_, ?_⟩
  · rw [zones]
    exact holds.zones
  · exact diff_subset_of_written inodes holds.inodes

/-- A call that does what it should keeps the device in order. -/
theorem Holds.next (holds : s.Holds dev) {call : NumberCall} (legal : s.Legal call)
    (serves : s.Serves dev call) (taken : s.next dev call = .ok after) :
    after.Holds dev := by
  cases call with
  | balloc =>
      unfold Numbering.next at taken
      rw [bind_eq_ok] at taken
      obtain ⟨⟨zone, fs⟩, allocated, same⟩ := taken
      cases same
      exact holds.balloc (allocated ▸ serves.1)
  | bfree zone =>
      unfold Numbering.next at taken
      rw [bind_eq_ok] at taken
      obtain ⟨fs, freed, same⟩ := taken
      cases same
      obtain ⟨_, ends, writes⟩ := serves
      cases freed.symm.trans ends
      exact holds.bfree legal writes
  | ialloc =>
      unfold Numbering.next at taken
      rw [bind_eq_ok] at taken
      obtain ⟨⟨nr, fs⟩, allocated, same⟩ := taken
      cases same
      exact holds.ialloc (allocated ▸ serves.1)
  | ifree nr =>
      unfold Numbering.next at taken
      rw [bind_eq_ok] at taken
      obtain ⟨fs, freed, same⟩ := taken
      cases same
      obtain ⟨_, ends, writes⟩ := serves
      cases freed.symm.trans ends
      exact holds.ifree legal writes

/-- The invariant of the runs. -/
theorem holds_of_reachable (reached : (runs dev).ReachableWithin (HasMap dev) s) :
    s.Holds dev := by
  apply reached.invariant (Holds · dev)
  · rintro start ⟨before, sb, absent, read, valid, zones, inodes⟩
    exact ⟨readSuper_numbered absent read valid, zones.le, inodes.le⟩
  · rintro before call after holds hasMap ⟨legal, taken⟩
    exact holds.next legal (holds.serves legal hasMap) taken

/-- In every run on a device, each call that finds a block of its bitmap does what it
should, and no number is handed out twice without being released in between. -/
theorem numbers_served (dev : Nat) (s : Numbering)
    (reached : (runs dev).ReachableWithin (HasMap dev) s) (call : NumberCall)
    (legal : s.Legal call) (hasMap : HasMap dev s call) : s.Serves dev call :=
  (holds_of_reachable reached).serves legal hasMap

/-- A device with 8192 inodes that has an inode map, and a zone map of some blocks. -/
def mapDisk (zmaps : UInt8) (number : Nat) : Memory :=
  match number with
  | 1 => bytes [0, 32, 0, 64, 1, 0, zmaps, 0, 5, 0, 0, 0, 0, 0, 0, 0, 0x7F, 0x13]
  | 2 => bytes [3]
  | 3 => bytes [3]
  | _ => bytes []

/-- The file systems before the super block of that device is read. -/
def unread (zmaps : UInt8) : Fs where
  disk := fun dev => if dev = 1 then mapDisk zmaps else fun _ => bytes []
  inodeTable := fun _ => ⟨eof, 0, 0, 0, false, 0, 0⟩
  superTable := fun _ => ⟨eof, 0, fun _ => none, fun _ => none, [], none, none⟩
  time := 0

/-- The state in which the super block of that device has been read. -/
def loaded (zmaps : UInt8) : Numbering where
  fs := (unread zmaps).setSuper 0 ((unread zmaps).readEntry 1 0)
  zones := ((unread zmaps).setSuper 0 ((unread zmaps).readEntry 1 0)).usedZones 1
  inodes := ((unread zmaps).setSuper 0 ((unread zmaps).readEntry 1 0)).usedInodes 1

theorem loaded_desc (zmaps : UInt8) : (loaded zmaps).fs.superDesc 1 =
    ⟨8192, 16384, 1, zmaps.toNat, 5, 0, 0, 0x137F⟩ := by
  have isDesc : (loaded zmaps).fs.superDesc 1 = SuperDesc.read (bytes
    [0, 32, 0, 64, 1, 0, zmaps, 0, 5, 0, 0, 0, 0, 0, 0, 0, 0x7F, 0x13]) := rfl
  rw [isDesc]
  simp [SuperDesc.read, Memory.half, Memory.word, bytes]

/-- With at most one block of the zone map its bits stand for zones of the device. -/
theorem loaded_initial {zmaps : UInt8} (few : zmaps.toNat ≤ 1) :
    (runs 1).initial (loaded zmaps) := by
  have desc := loaded_desc zmaps
  refine ⟨unread zmaps, 0, rfl, ?_, ?_, rfl, rfl⟩
  · have before (super : SuperBlock) :
        ((unread zmaps).setSuper 0 super).superDesc 1 = (loaded zmaps).fs.superDesc 1 := rfl
    unfold readSuper
    have absent : (unread zmaps).getSuper 1 = none := rfl
    have found : (unread zmaps).getFreeSuper = .ok 0 := rfl
    rw [absent, found]
    dsimp only
    rw [ok_bind, before, desc, if_neg (not_not.mpr rfl), check_true (by simp only [mapNr]; omega),
      ok_bind, check_true (by simp only [mapNr]; omega), ok_bind]
    have same : (unread zmaps).superDesc 1 = (loaded zmaps).fs.superDesc 1 := rfl
    rw [loaded, readEntry, same, desc]
    simp only [setSuper, Function.update_idem]
    rfl
  · constructor
    · rw [desc]
      show 8192 ≤ 16384
      decide
    · rintro nr ⟨⟨_, inMap⟩, _⟩
      simpa [inodeNumbers, desc, blockBits, blockSize] using inMap
    · rintro zone ⟨⟨above, inMap⟩, isClear⟩
      have notFirst : zone ≠ 4 := by
        rintro rfl
        have isSet : (loaded zmaps).fs.mapBit 1 3 0 = true := by
          have isMap : (loaded zmaps).fs.block 1 3 = bytes [3] := rfl
          unfold mapBit
          rw [Nat.zero_div, isMap]
          decide
        simp only [NumberMap.bit, zoneNumbers, zmapStart, desc] at isClear
        exact Bool.false_ne_true (isClear.symm.trans isSet)
      simp only [zoneNumbers, desc, blockBits, blockSize] at above inMap ⊢
      have atMost : zmaps.toNat * (1024 * 8) ≤ 1 * (1024 * 8) := Nat.mul_le_mul_right _ few
      omega

/-- `balloc` has handed out zone 6 of the device with a zone map, `bfree` takes it back, and
the next `balloc` does not hand it out before that. -/
theorem numbers_served_released : ∃ s, (runs 1).ReachableWithin (HasMap 1) s ∧ 6 ∈ s.zones ∧
    s.Serves 1 (.bfree 6) ∧ s.Serves 1 .balloc := by
  have computed : ((loaded 1).fs.balloc 1).map (fun result =>
      (result.1, (result.2.superDesc 1).zmapBlocks, (result.2.superDesc 1).firstdatazone)) =
        .ok (6, 1, 5) := by decide +kernel
  cases call : (loaded 1).fs.balloc 1 with
  | error fault =>
      rw [call] at computed
      cases computed
  | ok result =>
      obtain ⟨zone, after⟩ := result
      rw [call] at computed
      obtain ⟨rfl, fields⟩ := Prod.mk.inj (Except.ok.inj computed)
      obtain ⟨blocks, isFirst⟩ := Prod.mk.inj fields
      have desc := loaded_desc 1
      have hasMap : HasMap 1 (loaded 1) .balloc := by
        refine ⟨?_, ?_⟩
        · rw [desc]
          decide
        · rw [desc]
          decide
      have taken : (runs 1).step (loaded 1) .balloc
          ⟨after, insert 6 (loaded 1).zones, (loaded 1).inodes⟩ :=
        ⟨trivial, by rw [next, call]; rfl⟩
      have reached := System.ReachableWithin.step (.initial (loaded_initial (by decide))) hasMap
        taken
      exact ⟨_, reached, Set.mem_insert 6 _,
        numbers_served 1 _ reached (.bfree 6) (Set.mem_insert 6 _) (by
          rw [HasMap, isFirst]
          decide),
        numbers_served 1 _ reached .balloc trivial (by
          rw [HasMap, blocks, isFirst]
          decide)⟩

/-- `balloc` on the device without a zone map fails an assertion where it should return
`EOF`. -/
theorem numbers_not_served :
    ¬∀ (dev : Nat) (s : Numbering), (runs dev).Reachable s →
      ∀ call, s.Legal call → s.Serves dev call := by
  intro always
  have noMap : ¬0 < ((loaded 0).fs.superDesc 1).zmapBlocks := by decide
  obtain ⟨allocates, _⟩ :=
    always 1 (loaded 0) (.initial (loaded_initial (by decide))) .balloc trivial
  rcases allocates with ⟨_, _, ends, _⟩ | ⟨ends, _⟩
  · exact noMap (balloc_checked ends).2
  · exact noMap (balloc_checked ends).2

end Numbering

end Fs
end LightOS
