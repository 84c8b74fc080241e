import LightOS.Fs.Zones

/-!
# The bitmaps of a device

A bitmap that takes several blocks is seen as one sequence of bits.  An
allocation marks the first clear bit and returns its number, unless the number is
out of bounds; a release clears a set bit.  No other bit of the bitmap and no
other block changes.
-/

namespace LightOS
namespace Fs

variable {dev j first zone : Nat} {fs after before : Fs} {value : Bool}

/-- The block and the place in it of a numbered bit. -/
theorem place_of_bit {size i start : Nat} (inBlock : start < size) :
    (i * size + start) / size = i ∧ (i * size + start) % size = start := by
  constructor
  · rw [Nat.add_comm (i * size) start, Nat.add_mul_div_right _ _ (by omega),
      Nat.div_eq_of_lt inBlock, Nat.zero_add]
  · rw [Nat.add_comm (i * size) start, Nat.add_mul_mod_self_right,
      Nat.mod_eq_of_lt inBlock]

/-- Bit `j` of the bitmap whose blocks begin with `first`. -/
def mapBit (fs : Fs) (dev first j : Nat) : Bool :=
  (blockMap 0).bit (fs.block dev (first + j / blockBits)) (j % blockBits)

/-- The bit of a block does not depend on the number of its first bit. -/
theorem blockMap_bit (offset : Nat) (memory : Memory) (index : Nat) :
    (blockMap offset).bit memory index = (blockMap 0).bit memory index := rfl

/-- One bit of a bitmap has been written, and nothing else has changed. -/
structure BitWritten (before after : Fs) (dev first j : Nat) (value : Bool) :
    Prop where
  inodeTable : after.inodeTable = before.inodeTable
  superTable : after.superTable = before.superTable
  time : after.time = before.time
  bit : ∀ k, after.mapBit dev first k =
    if k = j then value else before.mapBit dev first k
  frame : ∀ otherDev number, ¬(otherDev = dev ∧ number = first + j / blockBits) →
    after.block otherDev number = before.block otherDev number

/-- Replacing the block of a bit by one that differs in that bit only. -/
theorem bitWritten_writeBlock
    (fs : Fs) (dev first j : Nat) (value : Bool) (memory : Memory)
    (bits : ∀ k, k < blockBits → (blockMap 0).bit memory k =
      if k = j % blockBits then value
      else (blockMap 0).bit (fs.block dev (first + j / blockBits)) k) :
    BitWritten fs (fs.writeBlock dev (first + j / blockBits) memory)
      dev first j value where
  inodeTable := rfl
  superTable := rfl
  time := rfl
  bit := by
    intro k
    have positive : 0 < blockBits := by decide
    unfold mapBit
    by_cases sameBlock : k / blockBits = j / blockBits
    · have sameBit : k % blockBits = j % blockBits ↔ k = j := by
        have first := Nat.div_add_mod k blockBits
        have second := Nat.div_add_mod j blockBits
        constructor
        · intro same
          rw [← first, ← second, sameBlock, same]
        · rintro rfl
          rfl
      rw [sameBlock, writeBlock_block_self, bits _ (Nat.mod_lt k positive)]
      simp only [sameBit]
    · have different : k ≠ j := by
        rintro rfl
        exact sameBlock rfl
      have otherBlock : ¬(dev = dev ∧
          first + k / blockBits = first + j / blockBits) := by omega
      rw [writeBlock_block_other _ _ _ _ otherBlock]
      simp only [different, if_false]
  frame := fun _ _ different => writeBlock_block_other _ _ _ _ different

/-- All bits of a bitmap from one to another are set. -/
def FullBetween (fs : Fs) (dev first start stop : Nat) : Prop :=
  ∀ j, start ≤ j → j < stop → fs.mapBit dev first j = true

/-- Bit `j` is the first clear bit of a bitmap from a bit on. -/
def FirstClear (fs : Fs) (dev first start j : Nat) : Prop :=
  start ≤ j ∧ fs.mapBit dev first j = false ∧ fs.FullBetween dev first start j

/-- A bitmap has one first clear bit at most. -/
theorem FirstClear.unique {start k : Nat} (isFirst : fs.FirstClear dev first start j)
    (otherFirst : fs.FirstClear dev first start k) : j = k := by
  obtain ⟨above, isClear, full⟩ := isFirst
  obtain ⟨otherAbove, otherClear, otherFull⟩ := otherFirst
  rcases Nat.lt_trichotomy j k with before | same | behind
  · rw [otherFull j above before] at isClear
    cases isClear
  · exact same
  · rw [full k otherAbove behind] at otherClear
    cases otherClear

/-- The number that the scan gives a bit of a bitmap. -/
def bitNumber (offset j : Nat) : Nat :=
  (offset + j / blockBits * blockBits) % 2 ^ 32 + j % blockBits

/-- A scan of the bitmap marks the first clear bit, whose number has to be below
the limit, or finds all bits set. -/
theorem scanMaps_spec (fs : Fs) (dev first offset limit left i : Nat) :
    (fs.FullBetween dev first (i * blockBits) ((i + left) * blockBits) ∧
      fs.scanMaps dev first offset limit left i = .ok (eof, fs)) ∨
    ∃ j after, j < (i + left) * blockBits ∧
      fs.FirstClear dev first (i * blockBits) j ∧
      BitWritten fs after dev first j true ∧
      fs.scanMaps dev first offset limit left i =
        if bitNumber offset j < limit then .ok (bitNumber offset j, after)
        else .error .assertion := by
  have positive : 0 < blockBits := by decide
  induction left generalizing i with
  | zero =>
      refine .inl ⟨fun j above below => ?_, rfl⟩
      rw [Nat.add_zero] at below
      omega
  | succ left inductionHypothesis =>
      have next : (i + 1) * blockBits = i * blockBits + blockBits :=
        Nat.succ_mul i blockBits
      rw [scanMaps]
      rcases (blockMap ((offset + i * blockBits) % 2 ^ 32)).scan_spec
          (fs.block dev (first + i)) Nat.one_pos with
        ⟨none, full⟩ | ⟨start, memory, found, inside, clear, least, bits, _⟩
      · have blockFull : fs.FullBetween dev first (i * blockBits)
            ((i + 1) * blockBits) := by
          intro j above below
          have quotient : j / blockBits = i :=
            Nat.div_eq_of_lt_le (by omega) (by omega)
          have inBlock := Nat.mod_lt j positive
          by_contra isClear
          apply full (j % blockBits) inBlock
          intro index atLeast atMost
          have same : index = j % blockBits := by omega
          rw [same, blockMap_bit]
          unfold mapBit at isClear
          rw [quotient] at isClear
          simpa using isClear
        rw [none, ok_bind]
        dsimp only
        have shift : i + 1 + left = i + (left + 1) := by omega
        rcases inductionHypothesis (i + 1) with
          ⟨restFull, rest⟩ | ⟨j, after, below, isFirst, marked, rest⟩
        · rw [shift] at restFull
          refine .inl ⟨fun j above below => ?_, rest⟩
          by_cases inBlock : j < (i + 1) * blockBits
          · exact blockFull j above inBlock
          · exact restFull j (Nat.le_of_not_lt inBlock) below
        · rw [shift] at below
          obtain ⟨above, isClear, restFull⟩ := isFirst
          have atLeastHere : i * blockBits ≤ j :=
            Nat.le_trans (Nat.mul_le_mul_right _ (Nat.le_succ i)) above
          refine .inr ⟨j, after, below, ⟨atLeastHere, isClear, ?_⟩, marked, rest⟩
          intro k atLeast atMost
          by_cases inBlock : k < (i + 1) * blockBits
          · exact blockFull k atLeast inBlock
          · exact restFull k (Nat.le_of_not_lt inBlock) atMost
      · have inBlock : start < blockBits := by
          have size : (blockMap ((offset + i * blockBits) % 2 ^ 32)).length * 8 =
              blockBits := rfl
          omega
        obtain ⟨quotient, remainder⟩ := place_of_bit (i := i) inBlock
        have number : start + (blockMap ((offset + i * blockBits) % 2 ^ 32)).offset =
            bitNumber offset (i * blockBits + start) := by
          unfold bitNumber
          rw [quotient, remainder]
          exact Nat.add_comm _ _
        have written := bitWritten_writeBlock fs dev first
          (i * blockBits + start) true memory (by
            intro k inMap
            rw [quotient, remainder, ← blockMap_bit
              ((offset + i * blockBits) % 2 ^ 32), bits]
            by_cases same : k = start
            · simp [same]
            · have apart : ¬(start ≤ k ∧ k < start + 1) := by omega
              simp only [apart, same, decide_false, Bool.false_or, if_false]
              rfl)
        rw [quotient] at written
        refine .inr ⟨i * blockBits + start, _, ?_, ⟨by omega, ?_, ?_⟩, written, ?_⟩
        · have total : (i + (left + 1)) * blockBits =
              i * blockBits + blockBits + left * blockBits := by
            rw [Nat.add_mul, Nat.succ_mul]
            omega
          omega
        · unfold mapBit
          rw [quotient, remainder]
          exact clear start (Nat.le_refl _) (by omega)
        · intro j above below
          have sameBlock : j / blockBits = i :=
            Nat.div_eq_of_lt_le (by omega) (by omega)
          have place := Nat.div_add_mod j blockBits
          rw [sameBlock, Nat.mul_comm] at place
          unfold mapBit
          rw [sameBlock]
          by_contra isClear
          apply least (j % blockBits) (by omega)
          intro index atLeast atMost
          have same : index = j % blockBits := by omega
          rw [same, blockMap_bit]
          simpa using isClear
        · rw [found, ok_bind]
          dsimp only
          rw [number]
          unfold check
          by_cases inLimit : bitNumber offset (i * blockBits + start) < limit
          · simp only [inLimit, if_true, ok_bind, pure_eq_ok]
          · simp only [inLimit, if_false, error_bind]

/-! ## Allocation -/

/-- The number of a bit of the zone map. -/
theorem bitNumber_zone {firstdatazone : Nat} (positive : 0 < firstdatazone)
    (small : firstdatazone < 2 ^ 16) (inMap : j < 2 ^ 16 * blockBits) :
    bitNumber (firstdatazone + (2 ^ 32 - 1)) j = firstdatazone - 1 + j := by
  unfold bitNumber
  simp only [blockBits, blockSize] at inMap ⊢
  omega

/-- The number of a bit of the inode map. -/
theorem bitNumber_inode (inMap : j < 2 ^ 16 * blockBits) : bitNumber 0 j = j := by
  unfold bitNumber
  simp only [blockBits, blockSize] at inMap ⊢
  omega

section Allocation

variable (fs : Fs) (dev : Nat)

theorem firstdatazone_lt : (fs.superDesc dev).firstdatazone < 2 ^ 16 :=
  Memory.half_lt _ _

theorem zmapBlocks_lt : (fs.superDesc dev).zmapBlocks < 2 ^ 16 :=
  Memory.half_lt _ _

theorem imapBlocks_lt : (fs.superDesc dev).imapBlocks < 2 ^ 16 :=
  Memory.half_lt _ _

/-- The first block of the zone map. -/
def zmapStart : Nat :=
  imapBlockNr + (fs.superDesc dev).imapBlocks

/-- `balloc` on a device in use marks the first clear bit of the zone map, unless
its zone is out of bounds, or finds all bits set. -/
theorem balloc_spec
    (present : (fs.getSuper dev).isSome)
    (hasMap : 0 < (fs.superDesc dev).zmapBlocks)
    (positive : 0 < (fs.superDesc dev).firstdatazone) :
    let desc := fs.superDesc dev
    (fs.FullBetween dev (fs.zmapStart dev) 0 (desc.zmapBlocks * blockBits) ∧
      fs.balloc dev = .ok (eof, fs)) ∨
    ∃ j after, j < desc.zmapBlocks * blockBits ∧
      fs.FirstClear dev (fs.zmapStart dev) 0 j ∧
      BitWritten fs after dev (fs.zmapStart dev) j true ∧
      fs.balloc dev =
        if desc.firstdatazone - 1 + j < desc.zones then
          .ok (desc.firstdatazone - 1 + j, after)
        else
          .error .assertion := by
  intro desc
  have scanned := fs.scanMaps_spec dev (fs.zmapStart dev)
    (desc.firstdatazone + (2 ^ 32 - 1)) desc.zones desc.zmapBlocks 0
  rw [Nat.zero_mul, Nat.zero_add] at scanned
  have call : fs.balloc dev =
      fs.scanMaps dev (fs.zmapStart dev)
        (desc.firstdatazone + (2 ^ 32 - 1)) desc.zones desc.zmapBlocks 0 := by
    unfold balloc zmapStart
    simp only [check_true present, check_true hasMap, ok_bind, pure_eq_ok]
    cases fs.scanMaps dev (imapBlockNr + (fs.superDesc dev).imapBlocks)
      ((fs.superDesc dev).firstdatazone + (2 ^ 32 - 1))
      (fs.superDesc dev).zones (fs.superDesc dev).zmapBlocks 0 with
    | error fault => rfl
    | ok result => rfl
  rw [call]
  rcases scanned with ⟨full, ends⟩ | ⟨j, after, inMap, isFirst, written, ends⟩
  · exact .inl ⟨full, ends⟩
  · have bound : j < 2 ^ 16 * blockBits :=
      Nat.lt_of_lt_of_le inMap
        (Nat.mul_le_mul_right _ (Nat.le_of_lt (fs.zmapBlocks_lt dev)))
    rw [bitNumber_zone positive (fs.firstdatazone_lt dev) bound] at ends
    exact .inr ⟨j, after, inMap, isFirst, written, ends⟩

/-- `ialloc` on a device in use marks the first clear bit of the inode map, unless
its number is out of bounds, or finds all bits set. -/
theorem ialloc_spec
    (present : (fs.getSuper dev).isSome)
    (hasMap : 0 < (fs.superDesc dev).imapBlocks) :
    let desc := fs.superDesc dev
    (fs.FullBetween dev imapBlockNr 0 (desc.imapBlocks * blockBits) ∧
      fs.ialloc dev = .ok (eof, fs)) ∨
    ∃ j after, j < desc.imapBlocks * blockBits ∧
      fs.FirstClear dev imapBlockNr 0 j ∧
      BitWritten fs after dev imapBlockNr j true ∧
      fs.ialloc dev =
        if j < desc.inodes then .ok (j, after) else .error .assertion := by
  intro desc
  have scanned := fs.scanMaps_spec dev imapBlockNr 0 desc.inodes
    desc.imapBlocks 0
  rw [Nat.zero_mul, Nat.zero_add] at scanned
  have call : fs.ialloc dev =
      fs.scanMaps dev imapBlockNr 0 desc.inodes desc.imapBlocks 0 := by
    unfold ialloc
    simp only [check_true present, check_true hasMap, ok_bind, pure_eq_ok]
    cases fs.scanMaps dev imapBlockNr 0 (fs.superDesc dev).inodes
      (fs.superDesc dev).imapBlocks 0 with
    | error fault => rfl
    | ok result => rfl
  rw [call]
  rcases scanned with ⟨full, ends⟩ | ⟨j, after, inMap, isFirst, written, ends⟩
  · exact .inl ⟨full, ends⟩
  · have bound : j < 2 ^ 16 * blockBits :=
      Nat.lt_of_lt_of_le inMap
        (Nat.mul_le_mul_right _ (Nat.le_of_lt (fs.imapBlocks_lt dev)))
    rw [bitNumber_inode bound] at ends
    exact .inr ⟨j, after, inMap, isFirst, written, ends⟩

end Allocation

/-- Writing a bit of a bitmap behind the super block keeps the descriptor. -/
theorem BitWritten.superDesc (written : BitWritten before after dev first j value)
    (behind : superBlockNr < first) (otherDev : Nat) :
    after.superDesc otherDev = before.superDesc otherDev := by
  unfold Fs.superDesc
  rw [written.frame otherDev superBlockNr (by
    have := Nat.zero_le (j / blockBits)
    omega)]

/-- Writing a bit of a bitmap keeps the super blocks that `get_super` finds. -/
theorem BitWritten.getSuper (written : BitWritten before after dev first j value) (otherDev : Nat) :
    after.getSuper otherDev = before.getSuper otherDev := by
  unfold Fs.getSuper
  rw [written.superTable]

/-- Writing a bit of one bitmap keeps the bits of another. -/
theorem BitWritten.mapBit_other (written : BitWritten before after dev first j value)
    {other k : Nat} (apart : other + k / blockBits ≠ first + j / blockBits) :
    after.mapBit dev other k = before.mapBit dev other k := by
  unfold mapBit
  rw [written.frame dev _ (by omega)]

/-- The super block lies before the bitmaps. -/
theorem superBlock_before : superBlockNr < imapBlockNr := by decide

/-- The block of a bit of a bitmap with `blocks` blocks. -/
theorem block_of_bit {blocks : Nat} (inMap : j < blocks * blockBits) : j / blockBits < blocks :=
  (Nat.div_lt_iff_lt_mul (by decide)).mpr inMap

/-! ## Allocations that return -/

/-- `balloc` returns on a device in use that has a zone map. -/
theorem balloc_checked {result : Nat × Fs} (allocated : fs.balloc dev = .ok result) :
    (fs.getSuper dev).isSome ∧ 0 < (fs.superDesc dev).zmapBlocks := by
  unfold balloc at allocated
  simp only [bind_eq_ok, check_eq_ok] at allocated
  obtain ⟨_, present, _, _, _, hasMap, _⟩ := allocated
  exact ⟨present, hasMap⟩

/-- `ialloc` returns on a device in use that has an inode map. -/
theorem ialloc_checked {result : Nat × Fs} (allocated : fs.ialloc dev = .ok result) :
    (fs.getSuper dev).isSome ∧ 0 < (fs.superDesc dev).imapBlocks := by
  unfold ialloc at allocated
  simp only [bind_eq_ok, check_eq_ok] at allocated
  obtain ⟨_, present, _, _, _, hasMap, _⟩ := allocated
  exact ⟨present, hasMap⟩

/-- `balloc` marks the first clear bit of the zone map, or finds all bits set. -/
theorem balloc_written (allocated : fs.balloc dev = .ok (zone, after)) :
    (after = fs ∧ fs.FullBetween dev (fs.zmapStart dev) 0
        ((fs.superDesc dev).zmapBlocks * blockBits)) ∨
      ∃ j, j < (fs.superDesc dev).zmapBlocks * blockBits ∧
        fs.FirstClear dev (fs.zmapStart dev) 0 j ∧
        BitWritten fs after dev (fs.zmapStart dev) j true := by
  unfold balloc at allocated
  simp only [bind_eq_ok, check_eq_ok] at allocated
  obtain ⟨_, _, result, scanned, _, _, same⟩ := allocated
  cases same
  have spec := fs.scanMaps_spec dev (fs.zmapStart dev)
    ((fs.superDesc dev).firstdatazone + (2 ^ 32 - 1)) (fs.superDesc dev).zones
    (fs.superDesc dev).zmapBlocks 0
  rw [Nat.zero_mul, Nat.zero_add] at spec
  unfold zmapStart at spec ⊢
  rcases spec with ⟨full, call⟩ | ⟨j, marked, inMap, isFirst, written, call⟩
  · rw [call] at scanned
    obtain ⟨_, rfl⟩ := Prod.mk.inj (Except.ok.inj scanned)
    exact .inl ⟨rfl, full⟩
  · rw [call] at scanned
    split at scanned
    · obtain ⟨_, rfl⟩ := Prod.mk.inj (Except.ok.inj scanned)
      exact .inr ⟨j, inMap, isFirst, written⟩
    · cases scanned

/-- What an allocation does on a device with a known descriptor. -/
theorem balloc_cases {desc : SuperDesc} (superDesc : fs.superDesc dev = desc)
    (positive : 0 < desc.firstdatazone) (allocated : fs.balloc dev = .ok (zone, after)) :
    (zone = eof ∧ after = fs ∧
      fs.FullBetween dev (imapBlockNr + desc.imapBlocks) 0
        (desc.zmapBlocks * blockBits)) ∨
      ∃ j, zone = desc.firstdatazone - 1 + j ∧ zone < desc.zones ∧
        j < desc.zmapBlocks * blockBits ∧
        fs.FirstClear dev (imapBlockNr + desc.imapBlocks) 0 j ∧
        BitWritten fs after dev (imapBlockNr + desc.imapBlocks) j true := by
  obtain ⟨present, hasMap⟩ := balloc_checked allocated
  have spec := fs.balloc_spec dev present hasMap (by rw [superDesc]; exact positive)
  unfold zmapStart at spec
  rw [superDesc] at spec
  rcases spec with ⟨full, call⟩ | ⟨j, marked, inMap, isFirst, written, call⟩
  · rw [call] at allocated
    cases allocated
    exact .inl ⟨rfl, rfl, full⟩
  · rw [call] at allocated
    split at allocated
    · rename_i inRange
      cases allocated
      exact .inr ⟨j, rfl, inRange, inMap, isFirst, written⟩
    · cases allocated

/-- `balloc` keeps the descriptor of the device. -/
theorem balloc_superDesc (allocated : fs.balloc dev = .ok (zone, after)) :
    after.superDesc dev = fs.superDesc dev := by
  rcases balloc_written allocated with ⟨rfl, _⟩ | ⟨_, _, _, written⟩
  · rfl
  · exact written.superDesc
      (Nat.lt_of_lt_of_le superBlock_before (Nat.le_add_right _ _)) dev

/-- `ialloc` marks the first clear bit of the inode map, or finds all bits set. -/
theorem ialloc_cases {nr : Nat} (allocated : fs.ialloc dev = .ok (nr, after)) :
    (nr = eof ∧ after = fs ∧ fs.FullBetween dev imapBlockNr 0
        ((fs.superDesc dev).imapBlocks * blockBits)) ∨
      (nr < (fs.superDesc dev).imapBlocks * blockBits ∧
        nr < (fs.superDesc dev).inodes ∧
        fs.FirstClear dev imapBlockNr 0 nr ∧
        BitWritten fs after dev imapBlockNr nr true) := by
  obtain ⟨present, hasMap⟩ := ialloc_checked allocated
  rcases fs.ialloc_spec dev present hasMap with
    ⟨full, call⟩ | ⟨j, marked, inMap, isFirst, written, call⟩
  · rw [call] at allocated
    cases allocated
    exact .inl ⟨rfl, rfl, full⟩
  · rw [call] at allocated
    split at allocated
    · rename_i inRange
      cases allocated
      exact .inr ⟨inMap, inRange, isFirst, written⟩
    · cases allocated

/-! ## Release -/

/-- Clearing a bit of a bitmap needs the bit to be set. -/
theorem clearBit_cases {offset : Nat}
    (cleared : fs.clearBit dev (some (first + j / blockBits)) offset
      (offset + j % blockBits) = .ok after) :
    fs.mapBit dev first j = true ∧ BitWritten fs after dev first j false := by
  have inMap : j % blockBits < (blockMap offset).length * 8 :=
    Nat.mod_lt j (by decide)
  unfold clearBit at cleared
  simp only [bind_eq_ok, check_eq_ok] at cleared
  obtain ⟨taken, tested, _, isSet, memory, written, same⟩ := cleared
  cases same
  have test := Bitmap.test_eq (fs.block dev (first + j / blockBits)) inMap
  obtain ⟨other, set, bits, _⟩ :=
    Bitmap.set_spec (fs.block dev (first + j / blockBits)) inMap false
  have isTaken := Except.ok.inj (test.symm.trans tested)
  obtain rfl := Except.ok.inj (set.symm.trans written)
  refine ⟨isTaken.trans isSet, ?_⟩
  exact bitWritten_writeBlock fs dev first j false other fun k _ => bits k

/-! ## Zones of an inode -/

/-- `balloc` leaves the tables alone. -/
theorem balloc_tables (allocated : fs.balloc dev = .ok (zone, after)) :
    after.inodeTable = fs.inodeTable ∧ after.superTable = fs.superTable := by
  rcases balloc_written allocated with ⟨rfl, _⟩ | ⟨_, _, _, written⟩
  · exact ⟨rfl, rfl⟩
  · exact ⟨written.inodeTable, written.superTable⟩

/-- `bmap` for a block that the inode refers to directly: the slot is read, after
an empty one has been filled in. -/
theorem bmap_direct {ino : Nat} {create : Bool} (index : Fin 9) (direct : index.val < directBlocks)
    (mapped : fs.bmap ino index create = .ok (zone, after)) : let slot := (fs.desc ino).zone index
    (¬(slot = 0 ∧ create = true) ∧ zone = slot ∧ after = fs) ∨
    (slot = 0 ∧ create = true ∧ ∃ fresh allotted,
      fs.balloc (fs.inodeTable ino).dev = .ok (fresh, allotted) ∧
      zone = fresh % 2 ^ 16 ∧
      after = allotted.modifyDesc ino (InodeDesc.setZone index fresh)) := by
  intro slot
  have isSlot : fs.indexAt (fs.inodeTable ino).dev (fs.inodeTable ino).block
      (fs.zoneStart ino + 2 * index) = slot := rfl
  unfold bmap at mapped
  simp only [bind_eq_ok, check_eq_ok, direct, if_true, reckon, fillIndex]
    at mapped
  obtain ⟨_, _, filled, filling, read⟩ := mapped
  rw [isSlot] at filling
  by_cases empty : slot = 0 ∧ create = true
  · rw [if_pos empty, bind_eq_ok] at filling
    obtain ⟨⟨fresh, allotted⟩, allocated, same⟩ := filling
    cases same
    cases read
    obtain ⟨sameInodes, _⟩ := balloc_tables allocated
    refine .inr ⟨empty.1, empty.2, fresh, allotted, allocated, ?_, ?_⟩
    · unfold indexAt
      rw [writeBlock_block_self, Memory.half_setHalf]
    · unfold modifyDesc zoneStart descStart
      rw [sameInodes]
      rfl
  · rw [if_neg empty] at filling
    cases filling
    cases read
    exact .inl ⟨empty, rfl, rfl⟩

end Fs
end LightOS
