import LightOS.Fs.Format
import LightOS.Fs.Maps
import LightOS.Fs.Tables

/-!
# A formatted device

What `devmkfs` leaves on a device: the descriptor of the super block, the zone map
and the root directory, in terms of what was there before.
-/

namespace LightOS
namespace Fs

variable {fs after : Fs} {dev sb totalBlock icount j first : Nat}

/-! ## Sizes -/

theorem newSuperDesc_inRange (totalBlock icount : Nat) :
    (newSuperDesc totalBlock icount).InRange := by
  constructor
  case inodes => exact Nat.mod_lt _ (by decide)
  case zones => exact Nat.mod_lt _ (by decide)
  case imapBlocks => exact Nat.mod_lt _ (by decide)
  case zmapBlocks => exact Nat.mod_lt _ (by decide)
  case firstdatazone => exact Nat.mod_lt _ (by decide)
  case logZoneSize => exact (by decide : 0 < 2 ^ 16)
  case maxSize => exact (by decide : blockSize * totalBlocks < 2 ^ 32)
  case magic => exact (by decide : minixMagic < 2 ^ 16)

/-- The part of the zone map that `devmkfs` leaves for zones: the bits before the
tail of the last block. -/
def zoneMapEnd (totalBlock icount : Nat) : Nat :=
  let desc := newSuperDesc totalBlock icount
  (desc.zmapBlocks - 1) * blockBits +
    zoneCount totalBlock desc.imapBlocks icount % blockBits

/-- Rounding up a number that does not wrap. -/
theorem divRoundUp_eq {num size : Nat} (positive : 0 < size)
    (small : num + size < 2 ^ 32) :
    divRoundUp num size = (num + size - 1) / size := by
  unfold divRoundUp add32
  rw [Nat.mod_eq_of_lt small, sub32_eq (by omega)]

/-- The sizes of a layout whose bitmaps fit into the arrays of the super block. -/
theorem layout_facts (sized : totalBlock < 2 ^ 31) (fewer : icount < totalBlock)
    (imapFits : (newSuperDesc totalBlock icount).imapBlocks ≤ mapNr)
    (hasImap : 0 < (newSuperDesc totalBlock icount).imapBlocks)
    (zmapFits : (newSuperDesc totalBlock icount).zmapBlocks ≤ mapNr) :
    let desc := newSuperDesc totalBlock icount
    0 < inodeBlocks icount ∧ inodeBlocks icount ≤ 2048 ∧
      desc.firstdatazone = imapBlockNr + desc.imapBlocks + desc.zmapBlocks +
        inodeBlocks icount := by
  intro desc
  have imapBlocks : desc.imapBlocks = (icount + 8192 - 1) / 8192 % 65536 := by
    have rounded : divRoundUp icount 8192 = (icount + 8192 - 1) / 8192 :=
      divRoundUp_eq (by decide) (by omega)
    rw [← rounded]
    rfl
  have fits : desc.imapBlocks ≤ 8 := imapFits
  have has : 0 < desc.imapBlocks := hasImap
  have zmapFew : desc.zmapBlocks ≤ 8 := zmapFits
  have few : icount % 2 ^ 27 ≤ 65536 ∧ 0 < icount % 2 ^ 27 := by omega
  have table : inodeBlocks icount = (icount % 2 ^ 27 * 32 + 1024 - 1) / 1024 := by
    have wrapped : icount * 32 % 2 ^ 32 = icount % 2 ^ 27 * 32 := by omega
    unfold inodeBlocks
    rw [wrapped]
    exact divRoundUp_eq (by decide) (by simp only [blockSize]; omega)
  have zone : desc.firstdatazone = (2 + desc.imapBlocks + desc.zmapBlocks +
      inodeBlocks icount) % 2 ^ 16 := rfl
  refine ⟨by omega, by omega, ?_⟩
  simp only [imapBlockNr]
  omega

/-- With some data zones, the zones of the device end before the tail of the zone
map. -/
theorem zoneMapEnd_facts (sized : totalBlock < 2 ^ 31) (fewer : icount < totalBlock)
    (imapFits : (newSuperDesc totalBlock icount).imapBlocks ≤ mapNr)
    (hasImap : 0 < (newSuperDesc totalBlock icount).imapBlocks)
    (zmapFits : (newSuperDesc totalBlock icount).zmapBlocks ≤ mapNr)
    (hasZmap : 0 < (newSuperDesc totalBlock icount).zmapBlocks) (notMultiple : zoneCount totalBlock
      (newSuperDesc totalBlock icount).imapBlocks icount % blockBits ≠ 0)
    (someZones : (newSuperDesc totalBlock icount).firstdatazone <
      (newSuperDesc totalBlock icount).zones) : let desc := newSuperDesc totalBlock icount
    desc.zones + desc.zmapBlocks =
      desc.firstdatazone + zoneMapEnd totalBlock icount := by
  intro desc
  obtain ⟨_, few, first⟩ :=
    layout_facts sized fewer imapFits hasImap zmapFits
  have zones : desc.zones = totalBlock % 65536 := rfl
  have count : zoneCount totalBlock desc.imapBlocks icount =
      sub32 (sub32 (sub32 totalBlock 2) desc.imapBlocks) (inodeBlocks icount) :=
    rfl
  have blocks : desc.zmapBlocks =
      divRoundUp (zoneCount totalBlock desc.imapBlocks icount) 8192 % 65536 := rfl
  have fits : desc.imapBlocks ≤ 8 := imapFits
  have zmapFew : desc.zmapBlocks ≤ 8 := zmapFits
  have has : 0 < desc.zmapBlocks := hasZmap
  have place : desc.firstdatazone = 2 + desc.imapBlocks + desc.zmapBlocks +
      inodeBlocks icount := first
  have some : desc.firstdatazone < desc.zones := someZones
  have enough : 2 + desc.imapBlocks + inodeBlocks icount ≤ totalBlock := by
    omega
  have behindBoot : sub32 totalBlock 2 = totalBlock - 2 := sub32_eq (by omega)
  have behindImap : sub32 (totalBlock - 2) desc.imapBlocks =
      totalBlock - 2 - desc.imapBlocks := sub32_eq (by omega)
  rw [behindBoot, behindImap, sub32_eq (by omega)] at count
  rw [divRoundUp_eq (by decide) (by omega)] at blocks
  have apart : zoneCount totalBlock desc.imapBlocks icount % 8192 ≠ 0 :=
    notMultiple
  have ends : zoneMapEnd totalBlock icount =
      (desc.zmapBlocks - 1) * 8192 +
        zoneCount totalBlock desc.imapBlocks icount % 8192 := rfl
  rw [ends]
  omega

/-! ## Bitmaps -/

/-- The bits of the bytes that `devmkfs` writes to the tail of a bitmap. -/
theorem byteBit_tail :
    ∀ offset bit : Fin 8,
      Bitmap.byteBit (UInt8.ofNat (tailByte offset.val)) bit.val =
          decide (offset.val ≤ bit.val) ∧
        Bitmap.byteBit 0xFF bit.val = true := by
  decide

/-- Filling the tail of a bitmap block sets its bits from a count on.  The bits
before it in the same byte are cleared, and the earlier bytes are kept. -/
theorem fillTail_bit (count : Nat) (memory : Memory) {k : Nat}
    (inBlock : k < blockBits) :
    (blockMap 0).bit (fillTail count memory) k =
      if k / 8 < count % blockBits / 8 then
        (blockMap 0).bit memory k
      else
        decide (count % blockBits ≤ k) := by
  have bounded : count % blockBits < blockBits := Nat.mod_lt _ (by decide)
  generalize isOffset : count % blockBits = offset at bounded
  simp only [blockBits, blockSize] at inBlock bounded
  obtain ⟨tail, ones⟩ := byteBit_tail ⟨offset % 8, by omega⟩ ⟨k % 8, by omega⟩
  dsimp only at tail ones
  have bit (memory : Memory) :
      (blockMap 0).bit memory k = Bitmap.byteBit (memory (k / 8)) (k % 8) := by
    unfold Bitmap.bit blockMap
    rw [Nat.zero_add]
  rw [bit, bit]
  unfold fillTail
  dsimp only
  rw [isOffset]
  unfold Memory.setByte Memory.fill
  by_cases before : k / 8 < offset / 8
  · rw [Memory.store_outside _ (.inl before),
      Memory.store_outside _ (.inl (by omega))]
    simp only [before, if_true]
  · simp only [before, if_false]
    by_cases here : k / 8 = offset / 8
    · rw [here, Memory.store_inside _ (by omega) (by omega), tail]
      have compare : offset % 8 ≤ k % 8 ↔ offset ≤ k := by omega
      simp only [compare]
    · rw [Memory.store_outside _ (.inr (by omega)),
        Memory.store_inside _ (by omega) (by simp only [blockSize]; omega), ones]
      have behind : offset ≤ k := by omega
      simp only [behind, decide_true]

section Clear

variable (fs : Fs) (dev first count : Nat)

theorem clearMaps_tables :
    (fs.clearMaps dev first count).inodeTable = fs.inodeTable ∧
      (fs.clearMaps dev first count).superTable = fs.superTable ∧
      (fs.clearMaps dev first count).time = fs.time := by
  induction count with
  | zero => exact ⟨rfl, rfl, rfl⟩
  | succ count inductionHypothesis => exact inductionHypothesis

/-- Clearing bitmaps leaves the other blocks alone. -/
theorem clearMaps_other {otherDev number : Nat}
    (outside : ¬(otherDev = dev ∧ first ≤ number ∧ number < first + count)) :
    (fs.clearMaps dev first count).block otherDev number =
      fs.block otherDev number := by
  induction count with
  | zero => rfl
  | succ count inductionHypothesis =>
      rw [clearMaps]
      rw [writeBlock_block_other _ _ _ _ (by omega)]
      exact inductionHypothesis (by omega)

/-- The bytes of a cleared bitmap are zero. -/
theorem clearMaps_byte {number address : Nat}
    (above : first ≤ number) (below : number < first + count)
    (inBlock : address < blockSize) :
    (fs.clearMaps dev first count).block dev number address = 0 := by
  induction count with
  | zero => omega
  | succ count inductionHypothesis =>
      rw [clearMaps]
      by_cases last : number = first + count
      · rw [last, writeBlock_block_self]
        exact Memory.store_inside _ (Nat.zero_le _) (by omega)
      · rw [writeBlock_block_other _ _ _ _ (by omega)]
        exact inductionHypothesis (by omega)

/-- The bits of a cleared bitmap are clear. -/
theorem clearMaps_bit {map : Nat} (above : first ≤ map + j / blockBits)
    (below : map + j / blockBits < first + count) :
    (fs.clearMaps dev first count).mapBit dev map j = false := by
  have inBlock : j % blockBits / 8 < blockSize := by
    have bounded : j % blockBits < blockBits := Nat.mod_lt _ (by decide)
    simp only [blockBits, blockSize] at bounded ⊢
    omega
  unfold mapBit Bitmap.bit
  have byte := fs.clearMaps_byte dev first count above below inBlock
  have address : (blockMap 0).bits + j % blockBits / 8 = j % blockBits / 8 :=
    Nat.zero_add _
  rw [address, byte]
  unfold Bitmap.byteBit
  exact Nat.zero_testBit _

end Clear

/-! ## Before the root directory -/

theorem getFreeSuper_cases (found : fs.getFreeSuper = .ok sb) :
    (fs.superTable sb).dev = eof ∧ sb < superNr := by
  unfold getFreeSuper at found
  split at found
  · rename_i other isFree
    cases found
    have free := List.find?_some isFree
    have inTable := List.mem_of_find?_eq_some isFree
    exact ⟨by simpa using free, List.mem_range.mp inTable⟩
  · cases found

/-- A device with an entry of `super_table` has a super block. -/
theorem getSuper_isSome (inTable : sb < superNr) (carries : (fs.superTable sb).dev = dev) :
    (fs.getSuper dev).isSome := by
  unfold getSuper
  rw [List.find?_isSome]
  exact ⟨sb, List.mem_range.mpr inTable, by simpa using carries⟩

/-- No inode of a device is in memory, and free entries of `super_table` have no
inodes. -/
def Idle (fs : Fs) (dev : Nat) : Prop :=
  ∀ sb, (fs.superTable sb).dev = dev ∨ (fs.superTable sb).dev = eof →
    (fs.superTable sb).inodeList = []

/-- `balloc` on a cleared zone map takes its first bit. -/
theorem balloc_first {zone : Nat} (clear : fs.mapBit dev (fs.zmapStart dev) 0 = false)
    (allocated : fs.balloc dev = .ok (zone, after)) :
    BitWritten fs after dev (fs.zmapStart dev) 0 true := by
  obtain ⟨_, hasMap⟩ := balloc_checked allocated
  have someBits : 0 < (fs.superDesc dev).zmapBlocks * blockBits :=
    Nat.mul_pos hasMap (by decide)
  rcases balloc_written allocated with ⟨_, full⟩ | ⟨j, _, isFirst, written⟩
  · rw [full 0 (Nat.le_refl _) someBits] at clear
    cases clear
  · have zero : j = 0 := by
      by_contra later
      rw [isFirst.2.2 0 (Nat.le_refl _) (Nat.pos_of_ne_zero later)] at clear
      cases clear
    subst zero
    exact written

/-- `fillMap` sets the tail of the last block of a bitmap. -/
theorem fillMap_cases {blocks count : Nat} {maps : Nat → Option Nat}
    (filled : fs.fillMap dev (setBuffers maps first blocks) blocks count = .ok after) :
    0 < blocks ∧ after = fs.writeBlock dev (first + (blocks - 1))
      (fillTail count (fs.block dev (first + (blocks - 1)))) := by
  unfold fillMap at filled
  simp only [bind_eq_ok, bounded_eq_ok] at filled
  obtain ⟨_, positive, filled⟩ := filled
  have last : setBuffers maps first blocks (blocks - 1) =
      some (first + (blocks - 1)) := by
    unfold setBuffers
    rw [if_pos (by omega)]
  rw [last] at filled
  cases filled
  exact ⟨positive, rfl⟩

/-- The bits of the last block of a bitmap after its tail has been filled. -/
theorem mapBit_fillTail (fs : Fs) (dev first count last : Nat) (j : Nat) :
    (fs.writeBlock dev (first + last)
      (fillTail count (fs.block dev (first + last)))).mapBit dev first j =
      if j / blockBits = last then
        if j % blockBits / 8 < count % blockBits / 8 then
          fs.mapBit dev first j
        else
          decide (count % blockBits ≤ j % blockBits)
      else
        fs.mapBit dev first j := by
  unfold mapBit
  by_cases inLast : j / blockBits = last
  · rw [inLast, writeBlock_block_self,
      fillTail_bit _ _ (Nat.mod_lt j (by decide))]
    simp only [if_true]
  · rw [writeBlock_block_other _ _ _ _ (by omega)]
    simp only [inLast, if_false]

/-- The entry of `super_table` that `devmkfs` takes. -/
def formatSuper (fs : Fs) (dev sb : Nat) (desc : SuperDesc) : SuperBlock :=
  { fs.superTable sb with
    dev := dev
    count := 1
    imaps := setBuffers (fs.superTable sb).imaps imapBlockNr desc.imapBlocks
    zmaps := setBuffers (fs.superTable sb).zmaps (imapBlockNr + desc.imapBlocks)
      desc.zmapBlocks }

/-- The device carries a new descriptor, and `devmkfs` has changed its super block
and its bitmaps only. -/
structure Laid (fs stage : Fs) (dev sb : Nat) (desc : SuperDesc) : Prop where
  superDesc : stage.superDesc dev = desc
  others : ∀ otherDev number,
    ¬(otherDev = dev ∧ superBlockNr ≤ number ∧
      number < imapBlockNr + desc.imapBlocks + desc.zmapBlocks) →
    stage.block otherDev number = fs.block otherDev number
  inodeTable : stage.inodeTable = fs.inodeTable
  superTable : stage.superTable =
    Function.update fs.superTable sb (fs.formatSuper dev sb desc)

namespace Laid

variable {stage : Fs} {desc : SuperDesc}

/-- Writing a block of the bitmaps. -/
theorem writeBlock (laid : Laid fs stage dev sb desc) (number : Nat)
    (above : imapBlockNr ≤ number)
    (below : number < imapBlockNr + desc.imapBlocks + desc.zmapBlocks)
    (memory : Memory) :
    Laid fs (stage.writeBlock dev number memory) dev sb desc where
  superDesc := by
    have := superBlock_before
    unfold Fs.superDesc
    rw [writeBlock_block_other _ _ _ _ (by omega)]
    exact laid.superDesc
  others := by
    have := superBlock_before
    intro otherDev other outside
    rw [writeBlock_block_other _ _ _ _ (by omega)]
    exact laid.others otherDev other outside
  inodeTable := laid.inodeTable
  superTable := laid.superTable

/-- Writing a bit of the bitmaps. -/
theorem bitWritten (laid : Laid fs stage dev sb desc) {value : Bool} (above : imapBlockNr ≤ first)
    (below : first + j / blockBits < imapBlockNr + desc.imapBlocks + desc.zmapBlocks)
    (written : BitWritten stage after dev first j value) :
    Laid fs after dev sb desc where
  superDesc := by
    rw [written.superDesc (Nat.lt_of_lt_of_le superBlock_before above)]
    exact laid.superDesc
  others := by
    have := superBlock_before
    have := Nat.zero_le (j / blockBits)
    intro otherDev other outside
    rw [written.frame otherDev other (by omega)]
    exact laid.others otherDev other outside
  inodeTable := written.inodeTable.trans laid.inodeTable
  superTable := written.superTable.trans laid.superTable

/-- The super blocks of the device have no inodes in memory. -/
theorem lists (laid : Laid fs stage dev sb desc) (idle : fs.Idle dev)
    (isFree : (fs.superTable sb).dev = eof) (other : Nat)
    (carries : (stage.superTable other).dev = dev) :
    (stage.superTable other).inodeList = [] := by
  rw [laid.superTable] at carries ⊢
  by_cases same : other = sb
  · subst same
    rw [Function.update_self]
    exact idle other (.inr isFree)
  · rw [Function.update_of_ne same] at carries ⊢
    exact idle other (.inl carries)

end Laid

/-- What `devmkfs` has left on the device when it makes the root directory: the
zone map has bit 0 and the bits from `mapEnd` on set. -/
structure Prepared (fs stage : Fs) (dev sb : Nat) (desc : SuperDesc)
    (mapEnd : Nat) : Prop extends Laid fs stage dev sb desc where
  zoneBits : ∀ j, j < desc.zmapBlocks * blockBits →
    stage.mapBit dev (imapBlockNr + desc.imapBlocks) j =
      decide (j = 0 ∨ mapEnd ≤ j)

/-- The device with its new descriptor and cleared bitmaps. -/
theorem laid_clearMaps (fs : Fs) (dev sb totalBlock icount : Nat) :
    let desc := newSuperDesc totalBlock icount
    Laid fs ((((fs.writeBlock dev superBlockNr
      (SuperDesc.store (fs.block dev superBlockNr) desc)).setSuper sb
        (fs.formatSuper dev sb desc))).clearMaps dev imapBlockNr
          (desc.imapBlocks + desc.zmapBlocks)) dev sb desc := by
  intro desc
  have before := superBlock_before
  constructor
  case superDesc =>
    unfold superDesc
    rw [clearMaps_other _ _ _ _ (by omega), setSuper_block,
      writeBlock_block_self]
    exact SuperDesc.read_store _ (newSuperDesc_inRange totalBlock icount)
  case others =>
    intro otherDev number outside
    rw [clearMaps_other _ _ _ _ (by omega), setSuper_block,
      writeBlock_block_other _ _ _ _ (by omega)]
  case inodeTable => exact (clearMaps_tables _ _ _ _).1
  case superTable => exact (clearMaps_tables _ _ _ _).2.1

/-- `ialloc` keeps the layout and the bits of the zone map. -/
theorem Laid.ialloc {stage : Fs} {nr : Nat} {desc : SuperDesc} (laid : Laid fs stage dev sb desc)
    (allocated : stage.ialloc dev = .ok (nr, after)) :
    Laid fs after dev sb desc ∧ ∀ j,
      after.mapBit dev (imapBlockNr + desc.imapBlocks) j =
        stage.mapBit dev (imapBlockNr + desc.imapBlocks) j := by
  rcases ialloc_cases allocated with ⟨_, rfl, _⟩ | ⟨inMap, _, _, written⟩
  · exact ⟨laid, fun _ => rfl⟩
  · rw [laid.superDesc] at inMap
    have inBlocks := block_of_bit inMap
    refine ⟨laid.bitWritten (Nat.le_refl _) (by omega) written, fun j => ?_⟩
    have := Nat.zero_le (j / blockBits)
    exact written.mapBit_other (by omega)

/-- Filling the tail of a bitmap with bit 0 set keeps that bit, unless it lies in
the first byte of the tail. -/
theorem tail_bits {blocks count : Nat} (long : 8 ≤ (blocks - 1) * blockBits + count % blockBits)
    (inBlocks : j / blockBits < blocks) :
    (if j / blockBits = blocks - 1 then
      if j % blockBits / 8 < count % blockBits / 8 then
        decide (j = 0)
      else
        decide (count % blockBits ≤ j % blockBits)
    else
      decide (j = 0)) =
      decide (j = 0 ∨ (blocks - 1) * blockBits + count % blockBits ≤ j) := by
  simp only [blockBits, blockSize] at *
  have bounded : count % 8192 < 8192 := Nat.mod_lt _ (by decide)
  split
  · split
    · rw [decide_eq_decide]
      omega
    · rw [decide_eq_decide]
      omega
  · rw [decide_eq_decide]
    omega

/-- The allocations that follow the clearing of the bitmaps, and the tails. -/
theorem Laid.prepared {wiped zoned once twice inodesFilled zonesFilled : Fs}
    {zone second inodeCount zoneCount : Nat} {desc : SuperDesc} (laid : Laid fs wiped dev sb desc)
    (clear : ∀ j, j < desc.zmapBlocks * blockBits →
      wiped.mapBit dev (imapBlockNr + desc.imapBlocks) j = false)
    (allotted : wiped.balloc dev = .ok (zone, zoned))
    (firstMarked : zoned.ialloc dev = .ok (first, once))
    (secondMarked : once.ialloc dev = .ok (second, twice))
    (fillInodes : twice.fillMap dev (twice.superTable sb).imaps
      desc.imapBlocks inodeCount = .ok inodesFilled)
    (fillZones : inodesFilled.fillMap dev (twice.superTable sb).zmaps
      desc.zmapBlocks zoneCount = .ok zonesFilled) :
    0 < desc.imapBlocks ∧ 0 < desc.zmapBlocks ∧
      Laid fs zonesFilled dev sb desc ∧
      (8 ≤ (desc.zmapBlocks - 1) * blockBits + zoneCount % blockBits →
        Prepared fs zonesFilled dev sb desc
          ((desc.zmapBlocks - 1) * blockBits + zoneCount % blockBits)) := by
  obtain ⟨_, hasZmap⟩ := balloc_checked allotted
  rw [laid.superDesc] at hasZmap
  have start : wiped.zmapStart dev = imapBlockNr + desc.imapBlocks := by
    unfold zmapStart
    rw [laid.superDesc]
  have someBits : 0 < desc.zmapBlocks * blockBits :=
    Nat.mul_pos hasZmap (by decide)
  have marked := balloc_first (by rw [start]; exact clear 0 someBits) allotted
  rw [start] at marked
  have firstBlock := block_of_bit someBits
  have zonedLaid := laid.bitWritten (by omega) (by omega) marked
  obtain ⟨onceLaid, onceBits⟩ := zonedLaid.ialloc firstMarked
  obtain ⟨twiceLaid, twiceBits⟩ := onceLaid.ialloc secondMarked
  have super : twice.superTable sb = fs.formatSuper dev sb desc := by
    rw [twiceLaid.superTable, Function.update_self]
  rw [super] at fillInodes fillZones
  obtain ⟨hasImap, rfl⟩ := fillMap_cases fillInodes
  obtain ⟨_, rfl⟩ := fillMap_cases fillZones
  have inodesLaid := twiceLaid.writeBlock
    (imapBlockNr + (desc.imapBlocks - 1)) (by omega) (by omega)
    (fillTail inodeCount (twice.block dev (imapBlockNr + (desc.imapBlocks - 1))))
  have zonesLaid := inodesLaid.writeBlock
    (imapBlockNr + desc.imapBlocks + (desc.zmapBlocks - 1)) (by omega)
    (by omega) (fillTail zoneCount
      ((twice.writeBlock dev (imapBlockNr + (desc.imapBlocks - 1))
        (fillTail inodeCount (twice.block dev
          (imapBlockNr + (desc.imapBlocks - 1))))).block dev
            (imapBlockNr + desc.imapBlocks + (desc.zmapBlocks - 1))))
  refine ⟨hasImap, hasZmap, zonesLaid, fun long => ⟨zonesLaid, fun j inMap => ?_⟩⟩
  have before : (twice.writeBlock dev (imapBlockNr + (desc.imapBlocks - 1))
      (fillTail inodeCount (twice.block dev
        (imapBlockNr + (desc.imapBlocks - 1))))).mapBit dev
          (imapBlockNr + desc.imapBlocks) j = decide (j = 0) := by
    have := Nat.zero_le (j / blockBits)
    unfold mapBit
    rw [writeBlock_block_other _ _ _ _ (by omega)]
    have bits := (twiceBits j).trans ((onceBits j).trans (marked.bit j))
    unfold mapBit at bits
    rw [bits]
    by_cases zero : j = 0
    · simp only [zero, if_true, decide_true]
    · simp only [zero, if_false, decide_false]
      exact clear j inMap
  rw [mapBit_fillTail, before]
  exact tail_bits long (block_of_bit inMap)

/-- The steps of `devmkfs` after the bitmaps have been cleared. -/
structure FormatSteps (fs after : Fs) (task : Creds)
    (dev sb totalBlock icount : Nat) where
  wiped : Fs
  zoned : Nat × Fs
  once : Nat × Fs
  twice : Nat × Fs
  inodesFilled : Fs
  stage : Fs
  rooted : Fs
  laid : Laid fs wiped dev sb (newSuperDesc totalBlock icount)
  clear : ∀ map j, imapBlockNr ≤ map →
    map + j / blockBits < imapBlockNr +
      (newSuperDesc totalBlock icount).imapBlocks +
      (newSuperDesc totalBlock icount).zmapBlocks →
    wiped.mapBit dev map j = false
  allotted : wiped.balloc dev = .ok zoned
  firstMarked : zoned.2.ialloc dev = .ok once
  secondMarked : once.2.ialloc dev = .ok twice
  fillInodes : twice.2.fillMap dev (twice.2.superTable sb).imaps
    (newSuperDesc totalBlock icount).imapBlocks (icount + 1) = .ok inodesFilled
  fillZones : inodesFilled.fillMap dev (twice.2.superTable sb).zmaps
    (newSuperDesc totalBlock icount).zmapBlocks
    (zoneCount totalBlock (newSuperDesc totalBlock icount).imapBlocks icount) =
      .ok stage
  made : stage.makeRoot task dev sb = .ok rooted
  put : rooted.putSuper sb = .ok after

/-- `devmkfs` consists of its steps. -/
theorem format_steps {task : Creds} (formatted : fs.format task dev totalBlock icount = .ok after) :
    (newSuperDesc totalBlock icount).imapBlocks ≤ mapNr ∧
      (newSuperDesc totalBlock icount).zmapBlocks ≤ mapNr ∧
      ∃ sb, (fs.superTable sb).dev = eof ∧ sb < superNr ∧
        Nonempty (FormatSteps fs after task dev sb totalBlock icount) := by
  unfold format at formatted
  simp only [bind_eq_ok, bounded_eq_ok] at formatted
  obtain ⟨sb, free, _, ⟨imapFits, zmapFits⟩, zoned, allotted, once, firstMarked,
    twice, secondMarked, inodesFilled, fillInodes, stage, fillZones, rooted, made,
    put⟩ := formatted
  obtain ⟨isFree, inTable⟩ := getFreeSuper_cases free
  exact ⟨imapFits, zmapFits, sb, isFree, inTable,
    ⟨_, zoned, once, twice, inodesFilled, stage, rooted,
      fs.laid_clearMaps dev sb totalBlock icount,
      fun _ _ above below => clearMaps_bit _ _ _ _
        (Nat.le_trans above (Nat.le_add_right _ _))
        (Nat.lt_of_lt_of_eq below (Nat.add_assoc _ _ _)),
      allotted, firstMarked, secondMarked, fillInodes, fillZones, made, put⟩⟩

/-- What `devmkfs` has done when it makes the root directory. -/
theorem FormatSteps.prepared {task : Creds}
    (steps : FormatSteps fs after task dev sb totalBlock icount) :
    0 < (newSuperDesc totalBlock icount).imapBlocks ∧
      0 < (newSuperDesc totalBlock icount).zmapBlocks ∧
      Laid fs steps.stage dev sb (newSuperDesc totalBlock icount) ∧
      (8 ≤ zoneMapEnd totalBlock icount →
        Prepared fs steps.stage dev sb (newSuperDesc totalBlock icount)
          (zoneMapEnd totalBlock icount)) :=
  steps.laid.prepared (fun j inMap => by
    have inBlocks := block_of_bit inMap
    exact steps.clear _ j (Nat.le_add_right _ _) (by omega)) steps.allotted
    steps.firstMarked steps.secondMarked steps.fillInodes steps.fillZones

end Fs
end LightOS
