import LightOS.Foundation.ByteFile
import LightOS.Foundation.Transition
import LightOS.Fs.Frame
import LightOS.Fs.Offsets
import Mathlib.Data.Fintype.Basic
import Mathlib.Tactic.FinCases

/-!
# Content of a new file

A file that has just been created is read and written as a byte array, and the
other files of the device keep their content.  The blocks that a file takes are
not cleared, so that positions skipped by a write show what the block held before
unless it was zero.
-/

namespace LightOS
namespace Fs

/-! ## Reads and writes of the first block -/

section FirstBlock

variable {offset : Nat}

theorem blockIndex_first (inBlock : offset < blockSize) :
    blockIndex (offset : Int) = 0 := by
  unfold blockIndex
  simp only [blockSize] at inBlock ⊢
  rw [← Int.ofNat_tdiv, toUnsigned_natCast (by omega)]
  omega

theorem blockOffset_first (inBlock : offset < blockSize) :
    blockOffset (offset : Int) = offset := by
  unfold blockOffset
  simp only [blockSize] at inBlock ⊢
  rw [← Int.ofNat_tmod, toUnsigned_natCast (by omega)]
  omega

theorem roundLength_first {left : Nat} (inBlock : offset + left ≤ blockSize)
    (some : 0 < left) : roundLength (offset : Int) left = left := by
  unfold roundLength
  rw [blockOffset_first (by omega), sub32_eq (by omega)]
  omega

theorem advance_first {left : Nat} (inBlock : offset + left ≤ blockSize) :
    advance (offset : Int) left = (offset + left : Nat) := by
  unfold advance
  simp only [blockSize] at inBlock
  rw [toUnsigned_natCast (by omega), toSigned_of_lt (by omega)]

theorem transferred_first {count : Nat} (small : offset + count < 2 ^ 31) :
    transferred ((offset + count : Nat) : Int) offset = count := by
  rw [Int.natCast_add]
  exact transferred_eq (Int.natCast_nonneg _) (by omega)

end FirstBlock

/-- Reading inside the first block of a file. -/
theorem readLoop_first {fs : Fs} {ino offset left : Nat} (rounds : Nat)
    (inBlock : offset + (left + 1) ≤ blockSize) (mapped : fs.zoneOf ino 0 ≠ 0) :
    fs.readLoop ino (rounds + 1) (offset : Int) (left + 1) =
      .ok ((offset + (left + 1) : Nat), (List.range (left + 1)).map fun i =>
        fs.block (fs.inodeTable ino).dev (fs.zoneOf ino 0) (offset + i)) := by
  have ends (start : Int) : fs.readLoop ino rounds start 0 = .ok (start, []) := by
    cases rounds <;> simp [readLoop]
  rw [readLoop, if_neg (Nat.succ_ne_zero left), blockIndex_first (by omega),
    bmap_false _ _ (by decide), ok_bind]
  dsimp only
  rw [blockOffset_first (by omega), roundLength_first inBlock (Nat.succ_pos left),
    advance_first inBlock, check_true mapped, bounded_true inBlock, ok_bind,
    ok_bind, Nat.sub_self, ends, ok_bind]
  dsimp only
  rw [List.append_nil, pure_eq_ok]

/-- The first zone of a file. -/
theorem zoneOf_first (fs : Fs) (ino : Nat) :
    fs.zoneOf ino 0 = (fs.desc ino).zone 0 := rfl

/-- `inode_read` of a file that fits into its first block. -/
theorem inodeRead_first {fs : Fs} {ino : Nat} (regular : isFile (fs.desc ino).mode)
    (short : (fs.desc ino).size < blockSize)
    (mapped : 0 < (fs.desc ino).size → (fs.desc ino).zone 0 ≠ 0)
    (len offset : Nat) (small : offset < 2 ^ 31) :
    fs.inodeRead ino len (offset : Int) =
      if (fs.desc ino).size ≤ offset then
        .ok (-1, [])
      else
        .ok ((min len ((fs.desc ino).size - offset) : Nat),
          (List.range (min len ((fs.desc ino).size - offset))).map fun i =>
            fs.block (fs.inodeTable ino).dev ((fs.desc ino).zone 0)
              (offset + i)) := by
  unfold inodeRead
  dsimp only
  rw [check_true (.inl regular), ok_bind, toUnsigned_natCast (by omega)]
  by_cases atEnd : (fs.desc ino).size ≤ offset
  · rw [if_pos atEnd, if_pos atEnd, pure_eq_ok]
  · rw [if_neg atEnd, if_neg atEnd, sub32_eq (by omega)]
    cases count : min len ((fs.desc ino).size - offset) with
    | zero =>
        have none : len = 0 := by omega
        rw [if_pos none, pure_eq_ok]
        rfl
    | succ left =>
        have some : len ≠ 0 := by omega
        rw [if_neg some, readLoop_first left (by omega) (mapped (by omega)), ok_bind]
        dsimp only
        rw [transferred_first (by simp only [blockSize] at short; omega),
          zoneOf_first, pure_eq_ok]

/-- A write that returns without `EOF` fits into the first block.  It has taken the
zone of the block, copied the bytes and updated the descriptor. -/
theorem inodeWrite_first {fs after : Fs} {ino len offset : Nat}
    {buf : Nat → UInt8} {value : Int} (small : offset < 2 ^ 31)
    (word : len < 2 ^ 32)
    (written : fs.inodeWrite ino buf len (offset : Int) = .ok (value, after)) :
    (fileMaxSize ≤ add32 len offset ∧ value = -1 ∧ after = fs) ∨
    (offset + len < blockSize ∧ value = len ∧
      ((len = 0 ∧ after = fs.modifyDesc ino (InodeDesc.setMtime fs.time)) ∨
        0 < len ∧ ∃ nr mapped, fs.bmap ino 0 true = .ok (nr, mapped) ∧
          after = (mapped.writeRound ino nr buf (offset : Int) len).modifyDesc ino
            (InodeDesc.setMtime
              (mapped.writeRound ino nr buf (offset : Int) len).time))) := by
  unfold inodeWrite at written
  simp only [bind_eq_ok, check_eq_ok, toUnsigned_natCast (by omega : offset < 2 ^ 32)]
    at written
  obtain ⟨_, _, written⟩ := written
  split at written
  · rename_i refused
    cases written
    exact .inl ⟨refused, rfl, rfl⟩
  · rename_i accepted
    rw [bind_eq_ok] at written
    obtain ⟨⟨final, looped⟩, loop, same⟩ := written
    obtain ⟨ends, below⟩ := (writeLoop_inside ino len fs buf offset len
      (Int.natCast_nonneg _) (by omega)).2 _ _ loop
    have fits : offset + len < blockSize := by
      simp only [fileMaxSize, blockSize, add32] at accepted ⊢
      omega
    cases same
    rw [ends, ← Int.natCast_add, transferred_first (by omega)]
    refine .inr ⟨fits, rfl, ?_⟩
    cases len with
    | zero =>
        cases loop
        exact .inl ⟨rfl, rfl⟩
    | succ left =>
        rw [writeLoop, if_neg (Nat.succ_ne_zero left),
          blockIndex_first (by omega), bind_eq_ok] at loop
        obtain ⟨⟨nr, mapped⟩, map, loop⟩ := loop
        simp only [bind_eq_ok, check_eq_ok, bounded_eq_ok] at loop
        obtain ⟨_, _, _, _, loop⟩ := loop
        rw [roundLength_first (by omega) (Nat.succ_pos left), Nat.sub_self,
          advance_first (by omega)] at loop
        have ends : writeLoop ino left
            (mapped.writeRound ino nr buf (offset : Int) (left + 1))
            (fun i => buf (left + 1 + i)) ((offset + (left + 1) : Nat) : Int) 0 =
          .ok (((offset + (left + 1) : Nat) : Int),
            mapped.writeRound ino nr buf (offset : Int) (left + 1)) := by
          cases left <;> rfl
        rw [ends] at loop
        cases loop
        exact .inr ⟨Nat.succ_pos left, nr, mapped, map, rfl⟩

/-! ## The invariant of a new file -/

/-- The inode holds a file: only what belongs to it has changed since a base
state, its zone was free there, and the bytes of the zone are those of the
file. -/
structure Held (base fs : Fs) (dev ino : Nat) (file : ByteFile) : Prop where
  framed : Framed base fs dev ino
  regular : isFile (fs.desc ino).mode
  size : (fs.desc ino).size = file.size
  short : file.size < blockSize
  slots : ∀ index, index ≠ 0 → (fs.desc ino).zone index = 0
  free : (fs.desc ino).zone 0 ≠ 0 → base.FreeZone dev ((fs.desc ino).zone 0)
  unmapped : (fs.desc ino).zone 0 = 0 → file.size = 0
  bytes : (fs.desc ino).zone 0 ≠ 0 → ∀ i, i < file.size →
    fs.block dev ((fs.desc ino).zone 0) i = file.byte i

/-- The positions that a write at an offset skips hold zero already, in the zone
of the file or in the one that it will get. -/
def GapClean (fs : Fs) (ino offset : Nat) : Prop :=
  let dev := (fs.inodeTable ino).dev
  let desc := fs.desc ino
  (desc.zone 0 ≠ 0 → ∀ i, desc.size ≤ i → i < offset →
    fs.block dev (desc.zone 0) i = 0) ∧
  (desc.zone 0 = 0 → ∃ j, j < (fs.superDesc dev).zmapBlocks * blockBits ∧
    fs.FirstClear dev (fs.zmapStart dev) 0 j ∧
    ∀ i, i < offset →
      fs.block dev ((fs.superDesc dev).firstdatazone - 1 + j) i = 0)

/-- Writing a block that does not hold the descriptor of an inode keeps it. -/
theorem writeBlock_desc (fs : Fs) {dev number ino : Nat} (memory : Memory)
    (different : (fs.inodeTable ino).block ≠ number) :
    (fs.writeBlock dev number memory).desc ino = fs.desc ino := by
  unfold desc
  rw [writeBlock_inodeTable, writeBlock_block_other _ _ _ _
    (fun same => different same.2)]
  rfl

/-- Clearing the only slot in use leaves no slot in use. -/
theorem cleared_slots {zone : Fin 9 → Nat}
    (slots : ∀ index, index ≠ 0 → zone index = 0) (index : Fin 9) :
    Function.update zone 0 (0 % 2 ^ 16) index = 0 := by
  by_cases first : index = 0
  · rw [first]
    exact Function.update_self (0 : Fin 9) 0 zone
  · exact (Function.update_of_ne first 0 zone).trans (slots index first)

theorem inodeBfree_empty {fs : Fs} {dev cache address : Nat} (level : Nat)
    (empty : fs.indexAt dev cache address = 0) :
    inodeBfree dev level fs cache address = .ok fs := by
  cases level <;> simp [inodeBfree, empty]

/-- Releasing an empty slot writes the slot only. -/
theorem releaseZone_empty {fs after : Fs} {ino level : Nat} {index : Fin 9}
    (empty : (fs.desc ino).zone index = 0)
    (released : fs.releaseZone ino level index = .ok after) :
    after = fs.modifyDesc ino (InodeDesc.setZone index 0) := by
  have slot : fs.indexAt (fs.inodeTable ino).dev (fs.inodeTable ino).block
      (fs.zoneStart ino + 2 * index) = 0 := empty
  unfold releaseZone at released
  dsimp only at released
  rw [inodeBfree_empty level slot, ok_bind] at released
  cases released
  rfl

section Invariant

variable {base fs : Fs} {dev sb ino : Nat} {file : ByteFile}
  (mounted : Mounted base dev sb) (inTable : InTable base dev ino)

include mounted inTable

/-- `bmap` gives the file a zone that was free. -/
theorem Held.claim {mapped : Fs} {nr offset : Nat} (held : Held base fs dev ino file)
    (clean : fs.GapClean ino offset)
    (map : fs.bmap ino 0 true = .ok (nr, mapped)) :
    base.FreeZone dev nr ∧ Framed base mapped dev ino ∧
      mapped.desc ino = { fs.desc ino with
        zone := Function.update (fs.desc ino).zone 0 nr } ∧
      mapped.block dev nr = fs.block dev nr ∧
      ∀ i, i < file.size ∨ i < offset → fs.block dev nr i = file.byte i := by
  have framed := held.framed
  have inodeDev : (fs.inodeTable ino).dev = dev := by
    rw [framed.inodeTable, inTable.inodeDev]
  obtain ⟨gap, fresh⟩ := clean
  rw [inodeDev] at gap fresh
  rcases bmap_direct 0 (by decide) map with
    ⟨full, rfl, rfl⟩ | ⟨empty, _, zone, allotted, allocated, rfl, rfl⟩
  · have hasZone : (mapped.desc ino).zone 0 ≠ 0 := fun empty => full ⟨empty, rfl⟩
    refine ⟨held.free hasZone, framed, ?_, rfl, fun i inside => ?_⟩
    · rw [Function.update_eq_self]
    · by_cases inFile : i < file.size
      · exact held.bytes hasZone i inFile
      · rw [gap hasZone i (by rw [held.size]; omega) (by omega),
          file.beyond i (by omega)]
  · obtain ⟨j, inMap, isFirst, zeros⟩ := fresh empty
    rw [inodeDev] at allocated
    have sameDesc := framed.superDesc mounted inTable
    have sameStart := framed.zmapStart mounted inTable
    have positive : 0 < (fs.superDesc dev).firstdatazone := by
      rw [sameDesc]
      exact Nat.lt_of_le_of_lt (Nat.zero_le _) inTable.beforeZones
    have isFree : fs.FreeZone dev ((fs.superDesc dev).firstdatazone - 1 + j) :=
      ⟨j, inMap, isFirst.2.1, rfl⟩
    have wasFree := framed.freeZone mounted inTable isFree
    rcases balloc_cases rfl positive allocated with
      ⟨_, _, full⟩ | ⟨k, isZone, inRange, _, otherFirst, written⟩
    · have isSet : fs.mapBit dev (fs.zmapStart dev) j = true :=
        full j (Nat.zero_le _) inMap
      rw [isFirst.2.1] at isSet
      cases isSet
    · obtain rfl := isFirst.unique otherFirst
      have small : zone % 2 ^ 16 = zone := by
        have zones : (fs.superDesc dev).zones < 2 ^ 16 := Memory.half_lt _ _
        exact Nat.mod_eq_of_lt (by omega)
      rw [← isZone] at wasFree zeros
      have above := Framed.table_lt mounted inTable wasFree
      rw [sameDesc] at inMap
      have below := Framed.mapBlock_lt inTable inMap
      change BitWritten fs allotted dev (fs.zmapStart dev) j true at written
      have isClear := isFirst.2.1
      rw [sameStart] at isClear written
      have table : (allotted.inodeTable ino).block = (base.inodeTable ino).block := by
        rw [written.inodeTable, framed.inodeTable]
      have sameInode : allotted.desc ino = fs.desc ino := by
        unfold desc descStart
        rw [written.inodeTable, written.frame _ _
          (by rw [framed.inodeTable]; omega)]
      rw [small]
      refine ⟨wasFree, (framed.bitWritten inTable inMap
        (framed.wasClear inMap isClear) written).modifyDesc inTable
          (InodeDesc.confined_setZone zone 0), ?_, ?_, fun i inside => ?_⟩
      · rw [setZone_desc, small, sameInode]
      · rw [modifyDesc_block_other _ _ _ (by rw [table]; omega),
          written.frame _ _ (by omega)]
      · have unsized := held.unmapped empty
        rw [zeros i (by omega), file.beyond i (by omega)]

/-- A round of `inode_write` in a free zone. -/
theorem Framed.writeRound (framed : Framed base fs dev ino) {nr offset len : Nat}
    (free : base.FreeZone dev nr) (fits : offset + len < blockSize)
    (buf : Nat → UInt8) :
    Framed base (fs.writeRound ino nr buf (offset : Int) len) dev ino ∧
      (fs.writeRound ino nr buf (offset : Int) len).desc ino =
        { fs.desc ino with size := max (fs.desc ino).size (offset + len) } ∧
      (fs.writeRound ino nr buf (offset : Int) len).block dev nr =
        (fs.block dev nr).store offset len buf := by
  have inodeDev : (fs.inodeTable ino).dev = dev := by
    rw [framed.inodeTable, inTable.inodeDev]
  have above := Framed.table_lt mounted inTable free
  have apart : (fs.inodeTable ino).block ≠ nr := by
    rw [framed.inodeTable]
    omega
  have reached : toUnsigned (advance (offset : Int) len) = offset + len := by
    simp only [blockSize] at fits
    rw [advance_first (by simp only [blockSize]; omega),
      toUnsigned_natCast (by omega)]
  unfold Fs.writeRound
  rw [reached, inodeDev, blockOffset_first (by omega)]
  dsimp only
  by_cases grows : (fs.desc ino).size < offset + len
  · rw [if_pos grows]
    have sameBlock : (fs.modifyDesc ino (InodeDesc.setSize (offset + len))).block
        dev nr = fs.block dev nr :=
      modifyDesc_block_other _ _ _ (fun same => apart same.2.symm)
    refine ⟨(framed.modifyDesc inTable (InodeDesc.confined_setSize _)).writeFree
      mounted inTable free _, ?_, ?_⟩
    · rw [writeBlock_desc (fs.modifyDesc ino _) _ apart, setSize_desc,
        Nat.max_eq_right (by omega),
        Nat.mod_eq_of_lt (by simp only [blockSize] at fits; omega)]
    · rw [writeBlock_block_self, sameBlock]
  · rw [if_neg grows]
    refine ⟨framed.writeFree mounted inTable free _, ?_, ?_⟩
    · rw [writeBlock_desc _ _ apart, Nat.max_eq_left (by omega)]
    · rw [writeBlock_block_self]

/-- A write keeps the invariant. -/
theorem Held.write {mapped : Fs} {nr offset len : Nat} {buf : Nat → UInt8}
    (held : Held base fs dev ino file) (clean : fs.GapClean ino offset)
    (fits : offset + len < blockSize) (some : 0 < len) (time : Nat)
    (map : fs.bmap ino 0 true = .ok (nr, mapped)) :
    Held base ((mapped.writeRound ino nr buf (offset : Int) len).modifyDesc ino
      (InodeDesc.setMtime time)) dev ino (file.write offset len buf) := by
  obtain ⟨free, framed, mappedDesc, sameBlock, before⟩ :=
    held.claim mounted inTable clean map
  have size : (mapped.desc ino).size = file.size := by
    rw [mappedDesc, ← held.size]
  obtain ⟨written, isDesc, isBlock⟩ :=
    framed.writeRound mounted inTable free fits buf
  have above := Framed.table_lt mounted inTable free
  have notZero : nr ≠ 0 := by omega
  have finalDesc : ((mapped.writeRound ino nr buf (offset : Int) len).modifyDesc ino
      (InodeDesc.setMtime time)).desc ino =
    { fs.desc ino with
      size := max file.size (offset + len)
      mtime := time % 2 ^ 32
      zone := Function.update (fs.desc ino).zone 0 nr } := by
    rw [setMtime_desc, isDesc, size, mappedDesc]
  have zone : (((mapped.writeRound ino nr buf (offset : Int) len).modifyDesc ino
      (InodeDesc.setMtime time)).desc ino).zone 0 = nr := by
    rw [finalDesc]
    exact Function.update_self (0 : Fin 9) nr (fs.desc ino).zone
  have isSize := file.write_size offset len buf some
  have bytes (i : Nat) (inside : i < (file.write offset len buf).size) :
      ((fs.block dev nr).store offset len buf) i =
        (file.write offset len buf).byte i := by
    by_cases inWrite : offset ≤ i ∧ i < offset + len
    · rw [Memory.store_inside _ inWrite.1 inWrite.2,
        file.write_inside _ _ _ inWrite.1 inWrite.2]
    · rw [Memory.store_outside _ (by omega), file.write_outside _ _ _ (by omega)]
      exact before i (by omega)
  constructor
  case framed => exact written.modifyDesc inTable (InodeDesc.confined_setMtime time)
  case regular =>
    rw [finalDesc]
    exact held.regular
  case size => rw [finalDesc, isSize]
  case short =>
    rw [isSize]
    exact Nat.max_lt.mpr ⟨held.short, fits⟩
  case slots =>
    intro index other
    rw [finalDesc]
    exact (Function.update_of_ne other nr (fs.desc ino).zone).trans
      (held.slots index other)
  case free =>
    intro _
    rw [zone]
    exact free
  case unmapped =>
    intro empty
    exact absurd (zone.symm.trans empty) notZero
  case bytes =>
    intro _ i inside
    rw [zone, modifyDesc_block_other _ _ _
      (by rw [written.inodeTable]; omega), isBlock, sameBlock]
    exact bytes i inside

/-- The zones of the file have been given back. -/
structure Emptied (base fs : Fs) (dev ino : Nat) : Prop where
  framed : Framed base fs dev ino
  regular : isFile (fs.desc ino).mode
  slots : ∀ index, (fs.desc ino).zone index = 0

/-- Releasing the first slot of a file gives its zone back. -/
theorem Held.releaseFirst {after : Fs} (held : Held base fs dev ino file)
    (released : fs.releaseZone ino 0 0 = .ok after) :
    Emptied base after dev ino := by
  have framed := held.framed
  have inodeDev : (fs.inodeTable ino).dev = dev := by
    rw [framed.inodeTable, inTable.inodeDev]
  by_cases empty : (fs.desc ino).zone 0 = 0
  · obtain rfl := releaseZone_empty empty released
    refine ⟨framed.modifyDesc inTable (InodeDesc.confined_setZone 0 0), ?_, ?_⟩
    · rw [setZone_desc]
      exact held.regular
    · rw [setZone_desc]
      exact cleared_slots held.slots
  · obtain ⟨j, inMap, wasClear, isZone⟩ := held.free empty
    have sameDesc := framed.superDesc mounted inTable
    have sameStart := framed.zmapStart mounted inTable
    have slot : fs.indexAt (fs.inodeTable ino).dev (fs.inodeTable ino).block
        (fs.zoneStart ino + 2 * (0 : Fin 9)) = (fs.desc ino).zone 0 := rfl
    unfold releaseZone at released
    dsimp only at released
    rw [inodeBfree, slot, if_neg empty, bind_eq_ok] at released
    obtain ⟨freed, free, same⟩ := released
    cases same
    rw [inodeDev, isZone, ← sameDesc] at free
    have written := bfree_cases (framed.staysMounted mounted inTable)
      (by
        rw [sameDesc]
        exact Nat.lt_of_le_of_lt (Nat.zero_le _) inTable.beforeZones)
      (by rw [sameDesc]; exact inMap) free
    rw [sameStart] at written
    have below := Framed.mapBlock_lt inTable inMap
    have sameInode : freed.desc ino = fs.desc ino := by
      unfold desc descStart
      rw [written.inodeTable, written.frame _ _
        (by rw [framed.inodeTable]; omega)]
    refine ⟨(framed.bitWritten inTable inMap wasClear written).modifyDesc inTable
      (InodeDesc.confined_setZone 0 0), ?_, ?_⟩
    · rw [setZone_desc, sameInode]
      exact held.regular
    · rw [setZone_desc, sameInode]
      exact cleared_slots held.slots

omit mounted in
/-- Releasing a slot of a file without zones. -/
theorem Emptied.release {after : Fs} {level : Nat} {index : Fin 9}
    (emptied : Emptied base fs dev ino)
    (released : fs.releaseZone ino level index = .ok after) :
    Emptied base after dev ino := by
  obtain rfl := releaseZone_empty (emptied.slots index) released
  refine ⟨emptied.framed.modifyDesc inTable (InodeDesc.confined_setZone 0 index),
    ?_, ?_⟩
  · rw [setZone_desc]
    exact emptied.regular
  · rw [setZone_desc]
    intro other
    by_cases same : other = index
    · rw [same]
      exact Function.update_self index 0 (fs.desc ino).zone
    · exact (Function.update_of_ne same 0 (fs.desc ino).zone).trans
        (emptied.slots other)

/-- Truncating a file keeps the invariant and leaves an empty file. -/
theorem Held.truncate {after : Fs} (held : Held base fs dev ino file)
    (truncated : fs.inodeTruncate ino = .ok after) :
    Held base after dev ino .empty := by
  unfold inodeTruncate at truncated
  rw [if_neg (fun special => special.1 held.regular), bind_eq_ok] at truncated
  obtain ⟨released, loop, same⟩ := truncated
  cases same
  have emptied : Emptied base released dev ino := by
    rw [List.finRange_succ, List.foldlM_cons, bind_eq_ok] at loop
    obtain ⟨first, firstReleased, rest⟩ := loop
    exact foldlM_invariant (fun fs => Emptied base fs dev ino)
      (fun _ _ _ _ emptied => emptied.release inTable)
      (held.releaseFirst mounted inTable firstReleased) rest
  have finalDesc : ((released.modifyDesc ino (InodeDesc.setSize 0)).modifyDesc ino
      (InodeDesc.setMtime released.time)).desc ino =
    { released.desc ino with size := 0, mtime := released.time % 2 ^ 32 } := by
    rw [setMtime_desc, setSize_desc]
    rfl
  have framed := (emptied.framed.modifyDesc inTable
    (InodeDesc.confined_setSize 0)).modifyDesc inTable
      (InodeDesc.confined_setMtime released.time)
  rw [modifyDesc_time]
  generalize (released.modifyDesc ino (InodeDesc.setSize 0)).modifyDesc ino
    (InodeDesc.setMtime released.time) = final at finalDesc framed ⊢
  have slots (index : Fin 9) : (final.desc ino).zone index = 0 := by
    rw [finalDesc]
    exact emptied.slots index
  constructor
  case framed => exact framed
  case regular =>
    rw [finalDesc]
    exact emptied.regular
  case size =>
    rw [finalDesc]
    rfl
  case short => exact (by decide : 0 < blockSize)
  case slots => exact fun index _ => slots index
  case free => exact fun hasZone => absurd (slots 0) hasZone
  case unmapped => exact fun _ => rfl
  case bytes => exact fun hasZone => absurd (slots 0) hasZone

end Invariant

/-! ## Runs -/

/-- A call on the file of an inode. -/
inductive FileCall
  | read (len : Nat) (offset : Int)
  | write (buf : Nat → UInt8) (len : Nat) (offset : Int)
  | truncate

namespace FileCall

/-- The arguments have the types of the functions, and no offset is negative. -/
def Wellformed : FileCall → Prop
  | .read len offset => len < 2 ^ 32 ∧ 0 ≤ offset ∧ offset < 2 ^ 31
  | .write _ len offset => len < 2 ^ 32 ∧ 0 ≤ offset ∧ offset < 2 ^ 31
  | .truncate => True

/-- What a call does to the file systems and to the file that the inode stands
for. -/
def Returns (ino : Nat) (before : Fs × ByteFile) : FileCall → Fs × ByteFile → Prop
  | .read len offset, after =>
      (∃ result, before.1.inodeRead ino len offset = .ok result) ∧ after = before
  | .write buf len offset, after =>
      ∃ value, before.1.inodeWrite ino buf len offset = .ok (value, after.1) ∧
        after.2 = if value = -1 then before.2
          else before.2.write offset.toNat len buf
  | .truncate, after =>
      before.1.inodeTruncate ino = .ok after.1 ∧ after.2 = .empty

end FileCall

/-- Sequences of calls on a file that has just been created. -/
def fileCalls (base : Fs) (ino : Nat) : System (Fs × ByteFile) FileCall where
  initial := fun state => state = (base, .empty)
  step := fun before call after =>
    call.Wellformed ∧ call.Returns ino before after

/-- A write that is carried out skips only positions that hold zero. -/
def SkipsZeros (ino : Nat) (state : Fs × ByteFile) : FileCall → Prop
  | .write _ len offset =>
      0 < len → add32 len (toUnsigned offset) < fileMaxSize →
        state.1.GapClean ino offset.toNat
  | _ => True

/-- Reads return what the file holds, and every other file reads as it did in the
base state. -/
structure Faithful (base : Fs) (dev ino : Nat) (state : Fs × ByteFile) : Prop where
  size : (state.1.desc ino).size = state.2.size
  reads : ∀ len offset : Nat, len < 2 ^ 32 → offset < 2 ^ 31 →
    state.1.inodeRead ino len (offset : Int) =
      if state.2.size ≤ offset then
        .ok (-1, [])
      else
        .ok ((min len (state.2.size - offset) : Nat), state.2.read offset len)
  others : ∀ other, Foreign base dev ino other → ∀ len offset,
    state.1.inodeRead other len offset = base.inodeRead other len offset

/-- A regular file that has just been created: it is empty. -/
structure Created (base : Fs) (dev ino : Nat) : Prop extends InTable base dev ino where
  regular : isFile (base.desc ino).mode
  size : (base.desc ino).size = 0

section Runs

variable {base : Fs} {dev sb ino : Nat} (mounted : Mounted base dev sb)

include mounted

theorem Held.faithful {state : Fs × ByteFile} (inTable : InTable base dev ino)
    (held : Held base state.1 dev ino state.2) : Faithful base dev ino state where
  size := held.size
  reads := by
    intro len offset _ small
    have inodeDev : (state.1.inodeTable ino).dev = dev := by
      rw [held.framed.inodeTable, inTable.inodeDev]
    rw [inodeRead_first held.regular (by rw [held.size]; exact held.short) (by
      intro some empty
      rw [held.size, held.unmapped empty] at some
      omega) len offset small, held.size, inodeDev]
    by_cases atEnd : state.2.size ≤ offset
    · rw [if_pos atEnd, if_pos atEnd]
    · rw [if_neg atEnd, if_neg atEnd]
      have hasZone : (state.1.desc ino).zone 0 ≠ 0 := by
        intro empty
        have unsized := held.unmapped empty
        omega
      have same : (List.range (min len (state.2.size - offset))).map (fun i =>
          state.1.block dev ((state.1.desc ino).zone 0) (offset + i)) =
            state.2.read offset len := by
        refine List.map_congr_left fun i inRange => ?_
        have below := List.mem_range.mp inRange
        exact held.bytes hasZone (offset + i) (by omega)
      rw [same]
  others := by
    intro other foreign len offset
    exact (held.framed.leftAlone mounted inTable foreign).inodeRead len offset

/-- A change of the times of a file keeps the invariant. -/
theorem Held.touch {fs : Fs} {file : ByteFile} (inTable : InTable base dev ino)
    (held : Held base fs dev ino file) (time : Nat) :
    Held base (fs.modifyDesc ino (InodeDesc.setMtime time)) dev ino file := by
  have isDesc := fs.setMtime_desc ino time
  have beforeZone (hasZone : (fs.desc ino).zone 0 ≠ 0) :
      (fs.inodeTable ino).block ≠ (fs.desc ino).zone 0 := by
    have above := Framed.table_lt mounted inTable (held.free hasZone)
    rw [held.framed.inodeTable]
    omega
  constructor
  case framed => exact held.framed.modifyDesc inTable (InodeDesc.confined_setMtime time)
  case regular =>
    rw [isDesc]
    exact held.regular
  case size =>
    rw [isDesc]
    exact held.size
  case short => exact held.short
  case slots =>
    rw [isDesc]
    exact held.slots
  case free =>
    rw [isDesc]
    exact held.free
  case unmapped =>
    rw [isDesc]
    exact held.unmapped
  case bytes =>
    rw [isDesc]
    intro hasZone i inside
    rw [modifyDesc_block_other _ _ _ (fun same => beforeZone hasZone same.2.symm)]
    exact held.bytes hasZone i inside

omit mounted in
theorem Created.held (created : Created base dev ino)
    (unmapped : (base.desc ino).zone = fun _ => 0) :
    Held base base dev ino .empty where
  framed := .refl _ _ _
  regular := created.regular
  size := created.size
  short := by decide
  slots := by
    intro index _
    rw [unmapped]
  free := by
    intro hasZone
    exact absurd (congrFun unmapped 0) hasZone
  unmapped := fun _ => rfl
  bytes := by
    intro hasZone
    exact absurd (congrFun unmapped 0) hasZone

/-- A call that skips only zeros keeps the invariant. -/
theorem Held.step {before after : Fs × ByteFile} {call : FileCall}
    (inTable : InTable base dev ino)
    (held : Held base before.1 dev ino before.2)
    (skips : SkipsZeros ino before call) (wellformed : call.Wellformed)
    (returns : call.Returns ino before after) :
    Held base after.1 dev ino after.2 := by
  cases call with
  | read len offset =>
      obtain ⟨_, rfl⟩ := returns
      exact held
  | write buf len offset =>
      obtain ⟨word, nonneg, small⟩ := wellformed
      obtain ⟨value, written, file⟩ := returns
      obtain ⟨place, rfl⟩ := Int.eq_ofNat_of_zero_le nonneg
      rw [Int.toNat_natCast] at file
      rcases inodeWrite_first (by omega) word written with
        ⟨_, rfl, same⟩ | ⟨fits, rfl, ⟨rfl, same⟩ | ⟨some, nr, mapped, map, same⟩⟩
      · rw [file, if_pos rfl, same]
        exact held
      · rw [file, if_neg (by omega), same, ByteFile.write_none]
        exact held.touch mounted inTable before.1.time
      · have accepted : add32 len (toUnsigned (place : Int)) < fileMaxSize := by
          rw [toUnsigned_natCast (by omega)]
          simp only [add32, fileMaxSize, blockSize] at fits ⊢
          omega
        rw [file, if_neg (by omega), same]
        exact held.write mounted inTable (skips some accepted) fits some _ map
  | truncate =>
      obtain ⟨truncated, file⟩ := returns
      rw [file]
      exact held.truncate mounted inTable truncated

/-- While writes skip only positions that hold zero, a new file without stale zones
is read and written as a byte array, and the other files stay as they are. -/
theorem faithful_of_skipsZeros (created : Created base dev ino)
    (unmapped : (base.desc ino).zone = fun _ => 0) {state : Fs × ByteFile}
    (reached : (fileCalls base ino).ReachableWithin (SkipsZeros ino) state) :
    Faithful base dev ino state := by
  have held := reached.invariant
    (fun state => Held base state.1 dev ino state.2)
    (by
      rintro state rfl
      exact created.held unmapped)
    (by
      intro before call after held skips taken
      exact held.step mounted created.toInTable skips taken.1 taken.2)
  exact held.faithful mounted created.toInTable

end Runs

/-! ## A write past the end -/

/-- The small device with a new file, inode 3, in entry 1 of the inode table.  The
first free zone is block 7. -/
def newFile (content : List UInt8) : Fs :=
  { small with
    disk := (small.disk.write 1 4
      (((smallDisk 4).setHalf 64 0x81A4).setByte 77 1)).write 1 7 (bytes content)
    inodeTable := Function.update small.inodeTable 1 ⟨1, 3, 1, 0, false, 4, 2⟩ }

theorem newFile_mounted {content : List UInt8}
    (cases : content = [] ∨ content = [9, 9, 9, 9]) :
    (newFile content).Mounted 1 0 where
  found := rfl
  hasZmap := by rcases cases with rfl | rfl <;> decide +kernel
  fits := by rcases cases with rfl | rfl <;> decide +kernel
  zmaps := by
    intro i only
    have zero : i = 0 := Nat.lt_one_iff.mp only
    subst zero
    rfl
  firstBit := by rcases cases with rfl | rfl <;> decide +kernel

theorem newFile_created {content : List UInt8}
    (cases : content = [] ∨ content = [9, 9, 9, 9]) :
    (newFile content).Created 1 1 where
  inodeDev := rfl
  behindMaps := by rcases cases with rfl | rfl <;> decide +kernel
  beforeZones := by rcases cases with rfl | rfl <;> decide +kernel
  regular := by rcases cases with rfl | rfl <;> decide +kernel
  size := rfl

/-- The write of one byte at offset 3. -/
def pastEnd : FileCall :=
  .write (fun _ => 104) 1 3

theorem faithful_of_skipsZeros_pastEnd :
    ∃ after, (newFile []).inodeWrite 1 (fun _ => 104) 1 3 = .ok (1, after) ∧
      Faithful (newFile []) 1 1 (after, ByteFile.empty.write 3 1 fun _ => 104) := by
  obtain ⟨after, written⟩ : ∃ after,
    (newFile []).inodeWrite 1 (fun _ => 104) 1 3 = .ok (1, after) := ⟨_, rfl⟩
  have step : (fileCalls (newFile []) 1).step (newFile [], .empty) pastEnd
      (after, ByteFile.empty.write 3 1 fun _ => 104) :=
    ⟨⟨by decide, by decide, by decide⟩, 1, written, rfl⟩
  have full : ∀ j : Fin 3, (newFile []).mapBit 1 ((newFile []).zmapStart 1) j =
    true := by decide +kernel
  have zeros : ∀ i : Fin 3, (newFile []).block 1
    (((newFile []).superDesc 1).firstdatazone - 1 + 3) i = 0 := by decide +kernel
  have clean : (newFile []).GapClean 1 3 :=
    ⟨fun hasZone => absurd rfl hasZone, fun _ => ⟨3, by decide +kernel,
      ⟨Nat.zero_le 3, by decide +kernel, fun j _ below => full ⟨j, below⟩⟩,
      fun i below => zeros ⟨i, below⟩⟩⟩
  have skips : SkipsZeros 1 (newFile [], .empty) pastEnd := fun _ _ => clean
  exact ⟨after, written, faithful_of_skipsZeros (newFile_mounted (.inl rfl))
    (newFile_created (.inl rfl)) (by funext index; fin_cases index <;> rfl)
    (.step (.initial rfl) skips step)⟩

/-- With bytes in the free zone, the positions skipped do not read as zero. -/
theorem faithful_fails :
    ∃ state, (newFile [9, 9, 9, 9]).Mounted 1 0 ∧
      (newFile [9, 9, 9, 9]).Created 1 1 ∧
      (fileCalls (newFile [9, 9, 9, 9]) 1).Reachable state ∧
      ¬Faithful (newFile [9, 9, 9, 9]) 1 1 state := by
  obtain ⟨after, written, read⟩ : ∃ after,
    (newFile [9, 9, 9, 9]).inodeWrite 1 (fun _ => 104) 1 3 = .ok (1, after) ∧
      after.inodeRead 1 4 0 = .ok (4, [9, 9, 9, 104]) := ⟨_, rfl, rfl⟩
  have step : (fileCalls (newFile [9, 9, 9, 9]) 1).step
      (newFile [9, 9, 9, 9], .empty) pastEnd
      (after, ByteFile.empty.write 3 1 fun _ => 104) :=
    ⟨⟨by decide, by decide, by decide⟩, 1, written, rfl⟩
  refine ⟨_, newFile_mounted (.inr rfl), newFile_created (.inr rfl),
    .step (.initial rfl) trivial step, fun faithful => ?_⟩
  have reads := faithful.reads 4 0 (by decide) (by decide)
  have same : [9, 9, 9, 104] = (ByteFile.empty.write 3 1 fun _ => 104).read 0 4 :=
    congrArg Prod.snd (Except.ok.inj (read.symm.trans reads))
  exact absurd same (by decide)

end Fs
end LightOS
