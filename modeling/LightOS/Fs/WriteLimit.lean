import LightOS.Fs.BlockMap

/-!
# The limit on the size of a file

`inode_write` refuses a write that would reach `FILE_MAX_SIZE`.  It adds the length and
the offset as 32-bit words, and when the sum wraps around, the loop goes on with the length
as it is.
-/

namespace LightOS

/-- The arguments of `inode_write` besides the inode. -/
structure Write where
  buf : Nat → UInt8
  len : Nat
  offset : Nat
  word : len < 2 ^ 32
  nonneg : offset < 2 ^ 31

variable {args : Write} {number : Nat}

namespace Fs

open BlockMap

/-- `inode_write` with given arguments. -/
def write (fs : Fs) (ino : Nat) (args : Write) : Except Fault (Int × Fs) :=
  fs.inodeWrite ino args.buf args.len args.offset

/-- The loop of `inode_write` comes by a state, an offset and a number of bytes left. -/
inductive LoopVisits (ino : Nat) :
    Fs → (Nat → UInt8) → Int → Nat → Fs → Int → Nat → Prop
  | here {fs : Fs} {buf : Nat → UInt8} {offset : Int} {left : Nat} :
      LoopVisits ino fs buf offset left fs offset left
  | round {fs mapped now : Fs} {buf : Nat → UInt8} {offset nowOffset : Int}
      {left nowLeft nr : Nat} :
      left ≠ 0 → fs.bmap ino (blockIndex offset) true = .ok (nr, mapped) → nr ≠ 0 →
      blockOffset offset + roundLength offset left ≤ blockSize →
      LoopVisits ino (mapped.writeRound ino nr buf offset (roundLength offset left))
        (fun i => buf (roundLength offset left + i))
        (advance offset (roundLength offset left)) (left - roundLength offset left)
        now nowOffset nowLeft →
      LoopVisits ino fs buf offset left now nowOffset nowLeft

/-- A call of `inode_write` comes by a state of its loop. -/
def WriteVisits (fs : Fs) (ino : Nat) (args : Write) (now : Fs) (offset : Int)
    (left : Nat) : Prop :=
  add32 args.len args.offset < fileMaxSize ∧
    LoopVisits ino fs args.buf args.offset args.len now offset left

/-- A write has stored its bytes in the first zone of a file, a zone of the device: the rest
of the zone and all blocks besides the zone, the block of the inode and the zone map are as
before. -/
structure Stored (before after : Fs) (dev ino : Nat) (args : Write) : Prop where
  desc : after.desc ino = { before.desc ino with
    size := if args.len = 0 then (before.desc ino).size
      else max (before.desc ino).size (args.offset + args.len)
    mtime := before.time % 2 ^ 32
    zone := Function.update (before.desc ino).zone 0 ((after.desc ino).zone 0) }
  mapped : 0 < args.len → (after.desc ino).zone 0 ≠ 0 ∧
    (after.desc ino).zone 0 < (before.superDesc dev).zones
  inside : ∀ i, args.offset ≤ i → i < args.offset + args.len →
    after.block dev ((after.desc ino).zone 0) i = args.buf (i - args.offset)
  outside : 0 < args.len → ∀ i, i < args.offset ∨ args.offset + args.len ≤ i →
    after.block dev ((after.desc ino).zone 0) i =
      before.block dev ((after.desc ino).zone 0) i
  frame : ∀ otherDev number, ¬(otherDev = dev ∧ (number = (before.inodeTable ino).block ∨
    before.InZoneMap dev number ∨ number = (after.desc ino).zone 0)) →
    after.block otherDev number = before.block otherDev number

/-- A write obeys the limit: it is refused and changes nothing when it would reach the
limit, it is carried out otherwise, and its loop never comes by a size or a block outside
the limit. -/
structure Limited (fs : Fs) (dev ino : Nat) (args : Write) : Prop where
  refused : fileMaxSize ≤ args.offset + args.len → fs.write ino args = .ok (-1, fs)
  stored : args.offset + args.len < fileMaxSize →
    ∃ after, fs.write ino args = .ok ((args.len : Int), after) ∧ Stored fs after dev ino args
  inside : ∀ now offset left, fs.WriteVisits ino args now offset left →
    (now.desc ino).size ≤ max (fs.desc ino).size fileMaxSize ∧
      (left ≠ 0 → blockIndex offset * blockSize < fileMaxSize)

/-- The sum of the length and the offset does not wrap around to a value below the limit. -/
def Unwrapped (args : Write) : Prop :=
  args.offset + args.len < 2 ^ 32 ∨ 2 ^ 32 + fileMaxSize ≤ args.offset + args.len

/-- A write that stores bytes finds the first zone of the file, or `balloc` a free one for
it.  On a full device `bmap` takes the `EOF` of `balloc` for a zone. -/
def Supplied (fs : Fs) (dev ino : Nat) (args : Write) : Prop :=
  0 < args.len → args.offset + args.len < fileMaxSize →
    (fs.desc ino).zone 0 ≠ 0 ∨ ∃ number, fs.FreeZone dev number

/-- The first zone of a file, if it has one, is a zone of the device. -/
def InDevice (fs : Fs) (dev ino : Nat) : Prop :=
  (fs.desc ino).zone 0 ≠ 0 → (fs.desc ino).zone 0 < (fs.superDesc dev).zones

/-- A regular file in the inode table of a mounted device.  If it has a first zone, that is
a data zone, and the clear bits of the zone map stand for zones of the device. -/
structure Placed (fs : Fs) (dev sb ino : Nat) : Prop
    extends Mounted fs dev sb, InTable fs dev ino where
  regular : isFile (fs.desc ino).mode
  dataZone : (fs.desc ino).zone 0 ≠ 0 →
    (fs.superDesc dev).firstdatazone ≤ (fs.desc ino).zone 0
  tail : ∀ j < (fs.superDesc dev).zmapBlocks * blockBits,
    fs.mapBit dev (fs.zmapStart dev) j = false →
      (fs.superDesc dev).firstdatazone - 1 + j < (fs.superDesc dev).zones

namespace Placed

variable {fs : Fs} {dev sb ino : Nat}

theorem framed (placed : Placed fs dev sb ino) {after : Fs}
    (framed : Framed fs after dev ino) (regular : isFile (after.desc ino).mode)
    (dataZone : (after.desc ino).zone 0 ≠ 0 →
      (fs.superDesc dev).firstdatazone ≤ (after.desc ino).zone 0) :
    Placed after dev sb ino := by
  have sameDesc := framed.superDesc placed.toMounted placed.toInTable
  have sameStart := framed.zmapStart placed.toMounted placed.toInTable
  refine ⟨framed.staysMounted placed.toMounted placed.toInTable,
    ⟨?inodeDev, ?behindMaps, ?beforeZones⟩, regular, ?dataZone, ?tail⟩
  case inodeDev =>
    rw [framed.inodeTable]
    exact placed.inodeDev
  case behindMaps =>
    rw [sameStart, sameDesc, framed.inodeTable]
    exact placed.behindMaps
  case beforeZones =>
    rw [sameDesc, framed.inodeTable]
    exact placed.beforeZones
  case dataZone =>
    rw [sameDesc]
    exact dataZone
  case tail =>
    rw [sameStart, sameDesc]
    exact fun j inMap isClear => placed.tail j inMap (framed.wasClear inMap isClear)

/-- A change of the descriptor that keeps the mode and the first zone. -/
theorem modifyDesc (placed : Placed fs dev sb ino) {change : Memory → Nat → Memory}
    (confined : InodeDesc.Confined change)
    (mode : ((fs.modifyDesc ino change).desc ino).mode = (fs.desc ino).mode)
    (zone : ((fs.modifyDesc ino change).desc ino).zone 0 ≠ 0 →
      (fs.superDesc dev).firstdatazone ≤ ((fs.modifyDesc ino change).desc ino).zone 0) :
    Placed (fs.modifyDesc ino change) dev sb ino := by
  apply placed.framed ((Framed.refl fs dev ino).modifyDesc placed.toInTable confined)
  · rw [mode]
    exact placed.regular
  · exact zone

/-- Data zones lie behind the block of the inode and the zone map. -/
theorem block_lt (placed : Placed fs dev sb ino)
    (isData : (fs.superDesc dev).firstdatazone ≤ number) :
    (fs.inodeTable ino).block < number ∧ fs.zmapStart dev < number ∧ superBlockNr < number := by
  have before := placed.beforeZones
  have behind := placed.behindMaps
  have hasZmap := placed.hasZmap
  have start : imapBlockNr ≤ fs.zmapStart dev := Nat.le_add_right _ _
  simp only [superBlockNr, imapBlockNr] at start ⊢
  omega

theorem writeBlock_superDesc (placed : Placed fs dev sb ino)
    (isData : (fs.superDesc dev).firstdatazone ≤ number) (memory : Memory) :
    (fs.writeBlock dev number memory).superDesc dev = fs.superDesc dev := by
  have behindSuper := (placed.block_lt isData).2.2
  unfold superDesc
  rw [writeBlock_block_other _ _ _ _ (by omega)]

/-- Storing in a data zone. -/
theorem writeBlock (placed : Placed fs dev sb ino)
    (isData : (fs.superDesc dev).firstdatazone ≤ number) (memory : Memory) :
    Placed (fs.writeBlock dev number memory) dev sb ino := by
  obtain ⟨behindInode, _, _⟩ := placed.block_lt isData
  have sameSuper := placed.writeBlock_superDesc isData memory
  have sameStart : (fs.writeBlock dev number memory).zmapStart dev = fs.zmapStart dev := by
    unfold zmapStart
    rw [sameSuper]
  have sameDesc : (fs.writeBlock dev number memory).desc ino = fs.desc ino :=
    writeBlock_desc fs memory (Nat.ne_of_lt behindInode)
  have sameBit (j : Nat) (inMap : j < (fs.superDesc dev).zmapBlocks * blockBits) :
      (fs.writeBlock dev number memory).mapBit dev (fs.zmapStart dev) j =
        fs.mapBit dev (fs.zmapStart dev) j := by
    have below := Framed.mapBlock_lt placed.toInTable inMap
    unfold mapBit
    rw [writeBlock_block_other _ _ _ _ (by omega)]
  refine ⟨⟨placed.found, ?hasZmap, ?fits, ?zmaps, ?firstBit⟩,
    ⟨placed.inodeDev, ?behindMaps, ?beforeZones⟩, ?regular, ?dataZone, ?tail⟩
  case hasZmap =>
    rw [sameSuper]
    exact placed.hasZmap
  case fits =>
    rw [sameSuper]
    exact placed.fits
  case zmaps =>
    rw [sameSuper, sameStart]
    exact placed.zmaps
  case firstBit =>
    rw [sameStart, sameBit 0 (Nat.mul_pos placed.hasZmap (by decide))]
    exact placed.firstBit
  case behindMaps =>
    rw [sameStart, sameSuper]
    exact placed.behindMaps
  case beforeZones =>
    rw [sameSuper]
    exact placed.beforeZones
  case regular =>
    rw [sameDesc]
    exact placed.regular
  case dataZone =>
    rw [sameDesc, sameSuper]
    exact placed.dataZone
  case tail =>
    rw [sameSuper, sameStart]
    intro j inMap isClear
    rw [sameBit j inMap] at isClear
    exact placed.tail j inMap isClear

end Placed

/-- `bmap` has given a file its first zone. -/
structure FirstZone (before after : Fs) (dev sb ino nr : Nat) : Prop where
  placed : Placed after dev sb ino
  isData : (before.superDesc dev).firstdatazone ≤ nr
  source : (before.desc ino).zone 0 ≠ 0 ∧ nr = (before.desc ino).zone 0 ∨
    before.FreeZone dev nr ∨
    ((before.desc ino).zone 0 = 0 ∧ ¬∃ number, before.FreeZone dev number) ∧
      nr = eof % 2 ^ 16
  superDesc : after.superDesc dev = before.superDesc dev
  inodeTable : after.inodeTable = before.inodeTable
  time : after.time = before.time
  desc : after.desc ino = { before.desc ino with
    zone := Function.update (before.desc ino).zone 0 nr }
  frame : ∀ otherDev number, ¬(otherDev = dev ∧
    (number = (before.inodeTable ino).block ∨ before.InZoneMap dev number)) →
    after.block otherDev number = before.block otherDev number

namespace Placed

variable {fs : Fs} {dev sb ino : Nat}

/-- A zone that has been allotted goes to the first slot. -/
theorem setFirst (placed : Placed fs dev sb ino) {allotted : Fs} {fresh : Nat}
    (framed : Framed fs allotted dev ino) (sameDesc : allotted.desc ino = fs.desc ino)
    (sameTime : allotted.time = fs.time)
    (frame : ∀ otherDev number, ¬(otherDev = dev ∧ fs.InZoneMap dev number) →
      allotted.block otherDev number = fs.block otherDev number)
    (isData : (fs.superDesc dev).firstdatazone ≤ fresh % 2 ^ 16)
    (source : fs.FreeZone dev (fresh % 2 ^ 16) ∨
      ((fs.desc ino).zone 0 = 0 ∧ ¬∃ number, fs.FreeZone dev number) ∧
        fresh % 2 ^ 16 = eof % 2 ^ 16) :
    FirstZone fs (allotted.modifyDesc ino (InodeDesc.setZone 0 fresh)) dev sb ino
      (fresh % 2 ^ 16) := by
  have confined := InodeDesc.confined_setZone fresh 0
  have slot : (allotted.modifyDesc ino (InodeDesc.setZone 0 fresh)).desc ino =
      { fs.desc ino with
        zone := Function.update (fs.desc ino).zone 0 (fresh % 2 ^ 16) } := by
    rw [setZone_desc, sameDesc]
  have final := framed.modifyDesc placed.toInTable confined
  refine ⟨placed.framed final ?regular ?dataZone, isData, .inr source,
    final.superDesc placed.toMounted placed.toInTable, framed.inodeTable, sameTime, slot,
    ?frame⟩
  case regular =>
    rw [slot]
    exact placed.regular
  case dataZone =>
    intro _
    rw [slot]
    exact isData
  case frame =>
    intro otherDev number outside
    rw [modifyDesc_block_other _ _ _ (by
      rw [framed.inodeTable, placed.inodeDev]
      exact fun same => outside ⟨same.1, .inl same.2⟩)]
    exact frame otherDev number fun inMap => outside ⟨inMap.1, .inr inMap.2⟩

/-- A zone that is allotted for the first slot: the first free one, or the value that a full
device gives. -/
theorem takeFirst (placed : Placed fs dev sb ino) (empty : (fs.desc ino).zone 0 = 0) :
    ∃ fresh allotted,
    fs.balloc dev = .ok (fresh, allotted) ∧
      FirstZone fs (allotted.modifyDesc ino (InodeDesc.setZone 0 fresh)) dev sb ino
        (fresh % 2 ^ 16) := by
  have mounted := placed.toMounted
  have inTable := placed.toInTable
  have positive : 0 < (fs.superDesc dev).firstdatazone :=
    Nat.lt_of_le_of_lt (Nat.zero_le _) placed.beforeZones
  have small := fs.firstdatazone_lt dev
  have present : (fs.getSuper dev).isSome := by
    rw [placed.found]
    rfl
  rcases fs.balloc_spec dev present placed.hasZmap positive with
    ⟨full, call⟩ | ⟨j, allotted, inMap, isFirst, written, call⟩
  · refine ⟨eof, fs, call, placed.setFirst (.refl _ _ _) rfl rfl (fun _ _ _ => rfl) ?_
      (.inr ⟨⟨empty, ?_⟩, rfl⟩)⟩
    · have last : eof % 2 ^ 16 = 2 ^ 16 - 1 := rfl
      omega
    · rintro ⟨_, j, inMap, isClear, _⟩
      rw [full j (Nat.zero_le j) inMap] at isClear
      cases isClear
  · have isClear := isFirst.2.1
    have inRange := placed.tail j inMap isClear
    have zones : (fs.superDesc dev).zones < 2 ^ 16 := Memory.half_lt _ _
    have free : fs.FreeZone dev ((fs.superDesc dev).firstdatazone - 1 + j) :=
      ⟨j, inMap, isClear, rfl⟩
    have above := free.above mounted
    have below := Framed.mapBlock_lt inTable inMap
    have inBlocks := block_of_bit inMap
    rw [if_pos inRange] at call
    refine ⟨_, allotted, call, placed.setFirst
      ((Framed.refl fs dev ino).bitWritten inTable inMap isClear written) ?_ written.time
      ?_ ?_ ?_⟩
    · unfold desc descStart
      rw [written.inodeTable, written.frame _ _ (by omega)]
    · intro otherDev number outside
      apply written.frame
      rintro ⟨rfl, rfl⟩
      exact outside ⟨rfl, Nat.le_add_right _ _, Nat.add_lt_add_left inBlocks _⟩
    · rw [Nat.mod_eq_of_lt (by omega)]
      exact above
    · left
      rw [Nat.mod_eq_of_lt (by omega)]
      exact free

/-- `bmap` finds or takes the first zone of a file. -/
theorem bmap_first (placed : Placed fs dev sb ino) :
    ∃ nr mapped, fs.bmap ino 0 true = .ok (nr, mapped) ∧
      FirstZone fs mapped dev sb ino nr := by
  have isSlot : fs.indexAt (fs.inodeTable ino).dev (fs.inodeTable ino).block
      (fs.zoneStart ino + 2 * 0) = (fs.desc ino).zone 0 := rfl
  by_cases empty : (fs.desc ino).zone 0 = 0
  · obtain ⟨fresh, allotted, allocated, first⟩ := placed.takeFirst empty
    refine ⟨fresh % 2 ^ 16, _, ?_, first⟩
    unfold bmap
    rw [check_true (by decide), ok_bind]
    dsimp only
    rw [if_pos (by decide), reckon, fillIndex, isSlot, if_pos ⟨empty, rfl⟩, placed.inodeDev,
      allocated, ok_bind]
    dsimp only
    rw [pure_eq_ok, ok_bind, pure_eq_ok]
    unfold indexAt Fs.modifyDesc zoneStart descStart
    dsimp only
    rw [writeBlock_block_self, Memory.half_setHalf, (balloc_tables allocated).1,
      placed.inodeDev]
    rfl
  · refine ⟨(fs.desc ino).zone 0, fs, ?_, placed, placed.dataZone empty, .inl ⟨empty, rfl⟩,
      rfl, rfl, rfl, ?_, fun _ _ _ => rfl⟩
    · unfold bmap
      rw [check_true (by decide), ok_bind]
      dsimp only
      rw [if_pos (by decide), reckon, fillIndex, isSlot, if_neg (fun both => empty both.1)]
      rfl
    · rw [Function.update_eq_self]

end Placed

/-- The first zone is one of the device, unless the device is full. -/
theorem FirstZone.lt_zones {fs mapped : Fs} {dev sb ino nr : Nat}
    (first : FirstZone fs mapped dev sb ino nr) (placed : Placed fs dev sb ino)
    (inDevice : fs.InDevice dev ino)
    (supplied : (fs.desc ino).zone 0 ≠ 0 ∨ ∃ number, fs.FreeZone dev number) :
    nr < (fs.superDesc dev).zones := by
  rcases first.source with ⟨present, same⟩ | free | ⟨⟨empty, full⟩, _⟩
  · rw [same]
    exact inDevice present
  · obtain ⟨j, inMap, isClear, rfl⟩ := free
    exact placed.tail j inMap isClear
  · exact supplied.elim (fun present => absurd empty present) fun free => absurd free full

section InRange

variable {fs mapped : Fs} {dev sb ino nr offset : Nat}

/-- The round of a write in the first zone. -/
structure RoundWritten (mapped after : Fs) (dev sb ino nr offset len : Nat)
    (buf : Nat → UInt8) : Prop where
  placed : Placed after dev sb ino
  superDesc : after.superDesc dev = mapped.superDesc dev
  inodeTable : after.inodeTable = mapped.inodeTable
  time : after.time = mapped.time
  desc : after.desc ino =
    { mapped.desc ino with size := max (mapped.desc ino).size (offset + len) }
  content : after.block dev nr = (mapped.block dev nr).store offset len buf
  frame : ∀ otherDev number,
    ¬(otherDev = dev ∧ (number = (mapped.inodeTable ino).block ∨ number = nr)) →
    after.block otherDev number = mapped.block otherDev number

theorem Placed.writeRound (placed : Placed mapped dev sb ino)
    (isData : (mapped.superDesc dev).firstdatazone ≤ nr) {len : Nat}
    (fits : offset + len < blockSize) (buf : Nat → UInt8) :
    RoundWritten mapped (mapped.writeRound ino nr buf (offset : Int) len) dev sb ino nr
      offset len buf := by
  have apart := (placed.block_lt isData).1
  have reached : toUnsigned (advance (offset : Int) len) = offset + len := by
    simp only [blockSize] at fits
    rw [advance_first (by simp only [blockSize]; omega), toUnsigned_natCast (by omega)]
  unfold Fs.writeRound
  rw [reached, placed.inodeDev, blockOffset_first (by omega)]
  dsimp only
  by_cases grows : (mapped.desc ino).size < offset + len
  · rw [if_pos grows]
    have resized := mapped.setSize_desc ino (offset + len)
    have other : ∀ otherDev number,
        ¬(otherDev = dev ∧ number = (mapped.inodeTable ino).block) →
        (mapped.modifyDesc ino (InodeDesc.setSize (offset + len))).block otherDev number =
          mapped.block otherDev number := by
      intro otherDev number outside
      exact modifyDesc_block_other _ _ _ (by rw [placed.inodeDev]; exact outside)
    have stays := placed.modifyDesc (InodeDesc.confined_setSize (offset + len))
      (by rw [resized]) (by rw [resized]; exact placed.dataZone)
    have sameSuper := ((Framed.refl mapped dev ino).modifyDesc placed.toInTable
      (InodeDesc.confined_setSize (offset + len))).superDesc placed.toMounted placed.toInTable
    refine ⟨stays.writeBlock (by rw [sameSuper]; exact isData) _,
      (stays.writeBlock_superDesc (by rw [sameSuper]; exact isData) _).trans sameSuper, rfl, rfl,
      ?_, ?_, ?_⟩
    · rw [writeBlock_desc (mapped.modifyDesc ino _) _ (Nat.ne_of_lt apart), resized,
        Nat.max_eq_right (by omega),
        Nat.mod_eq_of_lt (by simp only [blockSize] at fits; omega)]
    · rw [writeBlock_block_self, other _ _ (fun same => Nat.ne_of_gt apart same.2)]
    · intro otherDev number outside
      rw [writeBlock_block_other _ _ _ _ (fun same => outside ⟨same.1, .inr same.2⟩),
        other _ _ (fun same => outside ⟨same.1, .inl same.2⟩)]
  · rw [if_neg grows]
    refine ⟨placed.writeBlock isData _, placed.writeBlock_superDesc isData _, rfl, rfl, ?_, ?_,
      ?_⟩
    · rw [writeBlock_desc _ _ (Nat.ne_of_lt apart), Nat.max_eq_left (by omega)]
    · rw [writeBlock_block_self]
    · intro otherDev number outside
      rw [writeBlock_block_other _ _ _ _ (fun same => outside ⟨same.1, .inr same.2⟩)]

/-- A write that ends in front of the limit, step by step. -/
structure WriteSteps (fs mapped : Fs) (dev sb ino nr : Nat) (args : Write) : Prop where
  maps : fs.bmap ino 0 true = .ok (nr, mapped)
  first : FirstZone fs mapped dev sb ino nr
  round : RoundWritten mapped (mapped.writeRound ino nr args.buf (args.offset : Int) args.len)
    dev sb ino nr args.offset args.len args.buf

theorem Placed.writeSteps (placed : Placed fs dev sb ino) (args : Write)
    (inLimit : args.offset + args.len < fileMaxSize) :
    ∃ nr mapped, WriteSteps fs mapped dev sb ino nr args := by
  obtain ⟨nr, mapped, maps, first⟩ := placed.bmap_first
  exact ⟨nr, mapped, maps, first, first.placed.writeRound
    (by rw [first.superDesc]; exact first.isData) inLimit args.buf⟩

/-- A write in front of the limit passes the guard. -/
theorem accepted_of_inLimit (args : Write) (inLimit : args.offset + args.len < fileMaxSize) :
    add32 args.len args.offset < fileMaxSize := by
  have word := args.word
  simp only [add32, fileMaxSize, blockSize] at inLimit ⊢
  omega

/-- A write without bytes changes the time of the file only. -/
theorem write_none (regular : isFile (fs.desc ino).mode) (args : Write)
    (inLimit : args.offset + args.len < fileMaxSize) (none : args.len = 0) :
    fs.write ino args = .ok ((args.len : Int),
      fs.modifyDesc ino (InodeDesc.setMtime fs.time)) := by
  have nonneg := args.nonneg
  have accepted := accepted_of_inLimit args inLimit
  unfold write inodeWrite
  rw [check_true regular, ok_bind, toUnsigned_natCast (by omega),
    if_neg (Nat.not_le.mpr accepted), none]
  have same : transferred (args.offset : Int) args.offset = 0 := by
    unfold transferred
    rw [toUnsigned_natCast (by omega), sub32_eq (Nat.le_refl _), Nat.sub_self]
    rfl
  simp only [writeLoop, if_true, ok_bind, same, pure_eq_ok]
  rfl

/-- A write of bytes in front of the limit takes one round. -/
theorem WriteSteps.write (steps : WriteSteps fs mapped dev sb ino nr args)
    (regular : isFile (fs.desc ino).mode) (inLimit : args.offset + args.len < fileMaxSize)
    (some : 0 < args.len) (notZero : nr ≠ 0) :
    fs.write ino args = .ok ((args.len : Int),
      (mapped.writeRound ino nr args.buf (args.offset : Int) args.len).modifyDesc ino
        (InodeDesc.setMtime fs.time)) := by
  have nonneg := args.nonneg
  have fits : args.offset + args.len < blockSize := inLimit
  have accepted := accepted_of_inLimit args inLimit
  have ends (buf : Nat → UInt8) (now : Fs) (left : Nat) (final : Int) :
      writeLoop ino left now buf final 0 = .ok (final, now) := by
    cases left <;> rfl
  unfold Fs.write inodeWrite
  rw [check_true regular, ok_bind, toUnsigned_natCast (by omega),
    if_neg (Nat.not_le.mpr accepted)]
  obtain ⟨left, more⟩ : ∃ left, args.len = left + 1 := ⟨args.len - 1, by omega⟩
  have round : writeLoop ino args.len fs args.buf (args.offset : Int) args.len =
      .ok (((args.offset + args.len : Nat) : Int),
        mapped.writeRound ino nr args.buf (args.offset : Int) args.len) := by
    rw [more] at fits ⊢
    rw [writeLoop, if_neg (Nat.succ_ne_zero left), blockIndex_first (by omega), steps.maps,
      ok_bind]
    dsimp only
    rw [blockOffset_first (by omega), roundLength_first (by omega) (Nat.succ_pos left),
      check_true notZero, ok_bind, bounded_true (by omega), ok_bind,
      advance_first (by omega), Nat.sub_self, ends]
  rw [round, ok_bind]
  dsimp only
  rw [transferred_first (by simp only [blockSize] at fits; omega), steps.round.time,
    steps.first.time, pure_eq_ok]

/-- Setting the time of a file. -/
theorem Placed.touch (placed : Placed fs dev sb ino) (time : Nat) :
    Placed (fs.modifyDesc ino (InodeDesc.setMtime time)) dev sb ino := by
  have touched := fs.setMtime_desc ino time
  apply placed.modifyDesc (InodeDesc.confined_setMtime time)
  · rw [touched]
  · rw [touched]
    exact placed.dataZone

theorem Placed.touch_frame (placed : Placed fs dev sb ino) (time : Nat) {otherDev : Nat}
    (outside : ¬(otherDev = dev ∧ number = (fs.inodeTable ino).block)) :
    (fs.modifyDesc ino (InodeDesc.setMtime time)).block otherDev number =
      fs.block otherDev number :=
  modifyDesc_block_other _ _ _ (by rw [placed.inodeDev]; exact outside)

/-- The zone of a file after a write. -/
theorem WriteSteps.zone (steps : WriteSteps fs mapped dev sb ino nr args) (time : Nat) :
    (((mapped.writeRound ino nr args.buf (args.offset : Int) args.len).modifyDesc
      ino (InodeDesc.setMtime time)).desc ino).zone 0 = nr := by
  rw [setMtime_desc, steps.round.desc, steps.first.desc]
  exact Function.update_self (0 : Fin 9) nr (fs.desc ino).zone

theorem WriteSteps.stored (steps : WriteSteps fs mapped dev sb ino nr args)
    (placed : Placed fs dev sb ino) (some : 0 < args.len) (notZero : nr ≠ 0)
    (inZones : nr < (fs.superDesc dev).zones) :
    Stored fs ((mapped.writeRound ino nr args.buf (args.offset : Int) args.len).modifyDesc ino
      (InodeDesc.setMtime fs.time)) dev ino args := by
  have round := steps.round
  have first := steps.first
  have sameTable : (mapped.writeRound ino nr args.buf (args.offset : Int) args.len).inodeTable =
      fs.inodeTable := round.inodeTable.trans first.inodeTable
  have apart := (placed.block_lt first.isData).1
  have isDesc : ((mapped.writeRound ino nr args.buf (args.offset : Int) args.len).modifyDesc ino
      (InodeDesc.setMtime fs.time)).desc ino = { fs.desc ino with
        size := max (fs.desc ino).size (args.offset + args.len)
        mtime := fs.time % 2 ^ 32
        zone := Function.update (fs.desc ino).zone 0 nr } := by
    rw [setMtime_desc, round.desc, first.desc]
  have isZone := steps.zone fs.time
  have content : ((mapped.writeRound ino nr args.buf (args.offset : Int) args.len).modifyDesc ino
      (InodeDesc.setMtime fs.time)).block dev nr =
        (mapped.block dev nr).store args.offset args.len args.buf := by
    rw [round.placed.touch_frame _ (by rw [sameTable]; exact fun same => Nat.ne_of_gt apart same.2),
      round.content]
  refine ⟨?desc, ?mapped, ?inside, ?outside, ?frame⟩
  case desc =>
    rw [isZone, isDesc, if_neg (by omega)]
  case mapped =>
    intro _
    rw [isZone]
    exact ⟨notZero, inZones⟩
  case inside =>
    intro i above below
    rw [isZone, content, Memory.store_inside _ above below]
  case outside =>
    intro _ i beside
    rw [isZone, content, Memory.store_outside _ beside, first.frame]
    have behind := placed.behindMaps
    rintro ⟨_, table | inMap⟩
    · omega
    · exact absurd inMap.2 (by omega)
  case frame =>
    rw [isZone]
    intro otherDev number outside
    rw [round.placed.touch_frame _ (by
        rw [sameTable]
        exact fun same => outside ⟨same.1, .inl same.2⟩),
      round.frame _ _ (by
        rw [first.inodeTable]
        rintro ⟨rfl, same | same⟩
        · exact outside ⟨rfl, .inl same⟩
        · exact outside ⟨rfl, .inr (.inr same)⟩),
      first.frame _ _ (by
        rintro ⟨rfl, same | same⟩
        · exact outside ⟨rfl, .inl same⟩
        · exact outside ⟨rfl, .inr (.inl same)⟩)]

/-- A write in front of the limit is carried out, if there is a zone for it. -/
theorem Placed.write (placed : Placed fs dev sb ino) (inDevice : fs.InDevice dev ino)
    (args : Write) (supplied : Supplied fs dev ino args)
    (inLimit : args.offset + args.len < fileMaxSize) :
    ∃ after, fs.write ino args = .ok ((args.len : Int), after) ∧
      Stored fs after dev ino args ∧ Placed after dev sb ino ∧ after.InDevice dev ino := by
  rcases Nat.eq_zero_or_pos args.len with none | some
  · have touched := fs.setMtime_desc ino fs.time
    have sameSuper := ((Framed.refl fs dev ino).modifyDesc placed.toInTable
      (InodeDesc.confined_setMtime fs.time)).superDesc placed.toMounted placed.toInTable
    refine ⟨_, write_none placed.regular args inLimit none,
      ⟨?_, fun some => absurd none (by omega), ?_, fun some => absurd none (by omega), ?_⟩,
      placed.touch _, ?_⟩
    · rw [if_pos none, touched]
      exact (congrArg _ (Function.update_eq_self _ _)).symm
    · intro i above below
      omega
    · intro otherDev number outside
      exact placed.touch_frame _ fun same => outside ⟨same.1, .inl same.2⟩
    · rw [InDevice, touched, sameSuper]
      exact inDevice
  · obtain ⟨nr, mapped, steps⟩ := placed.writeSteps args inLimit
    have above := (placed.block_lt steps.first.isData).1
    have inZones := steps.first.lt_zones placed inDevice (supplied some inLimit)
    have stays := steps.round.placed
    have sameSuper := ((Framed.refl _ dev ino).modifyDesc stays.toInTable
      (InodeDesc.confined_setMtime fs.time)).superDesc stays.toMounted stays.toInTable
    refine ⟨_, steps.write placed.regular inLimit some (by omega),
      steps.stored placed some (by omega) inZones, stays.touch _, fun _ => ?_⟩
    rw [steps.zone, sameSuper, steps.round.superDesc, steps.first.superDesc]
    exact inZones

/-- On a full device no zone of the device takes the bytes of a write. -/
theorem Placed.not_limited (placed : Placed fs dev sb ino)
    (unsupplied : ¬Supplied fs dev ino args) : ¬Limited fs dev ino args := by
  unfold Supplied at unsupplied
  push Not at unsupplied
  obtain ⟨some, inLimit, empty, full⟩ := unsupplied
  intro limited
  obtain ⟨after, written, stored⟩ := limited.stored inLimit
  obtain ⟨nr, mapped, steps⟩ := placed.writeSteps args inLimit
  have above := (placed.block_lt steps.first.isData).1
  have call := steps.write placed.regular inLimit some (by omega)
  obtain ⟨_, rfl⟩ := Prod.mk.inj (Except.ok.inj (call.symm.trans written))
  have inZones := (stored.mapped some).2
  rw [steps.zone] at inZones
  have zones : (fs.superDesc dev).zones < 2 ^ 16 := Memory.half_lt _ _
  have last : eof % 2 ^ 16 = 2 ^ 16 - 1 := rfl
  rcases steps.first.source with ⟨present, _⟩ | free | ⟨_, same⟩
  · exact present empty
  · exact full _ free
  · omega

/-- A write in front of the limit grows the file up to the limit at most, and asks for the
first block only. -/
theorem Placed.visits_inside (placed : Placed fs dev sb ino)
    (inLimit : args.offset + args.len < fileMaxSize) {now : Fs} {at' : Int} {left : Nat}
    (visits : fs.WriteVisits ino args now at' left) :
    (now.desc ino).size ≤ max (fs.desc ino).size fileMaxSize ∧
      (left ≠ 0 → blockIndex at' * blockSize < fileMaxSize) := by
  obtain ⟨nr, mapped, steps⟩ := placed.writeSteps args inLimit
  have fits : args.offset + args.len < blockSize := inLimit
  cases visits.2 with
  | here =>
      refine ⟨Nat.le_max_left _ _, fun _ => ?_⟩
      rw [blockIndex_first (by omega), Nat.zero_mul]
      decide
  | round some maps _ _ rest =>
      rw [blockIndex_first (by omega), steps.maps] at maps
      obtain ⟨rfl, rfl⟩ := Prod.mk.inj (Except.ok.inj maps)
      rw [roundLength_first (by omega) (by omega), Nat.sub_self] at rest
      cases rest with
      | here =>
          refine ⟨?_, fun more => absurd rfl more⟩
          rw [steps.round.desc, steps.first.desc]
          exact Nat.max_le.mpr ⟨Nat.le_max_left _ _,
            Nat.le_trans (Nat.le_of_lt inLimit) (Nat.le_max_right _ _)⟩
      | round more => exact absurd rfl more

/-- A write whose sum does not wrap around obeys the limit, if there is a zone for it. -/
theorem Placed.limited (placed : Placed fs dev sb ino) (inDevice : fs.InDevice dev ino)
    (unwrapped : Unwrapped args) (supplied : Supplied fs dev ino args) :
    Limited fs dev ino args := by
  have word := args.word
  have nonneg := args.nonneg
  refine ⟨fun reaches => ?_, fun inLimit => ?_, fun now at' left visits => ?_⟩
  · have refused : fileMaxSize ≤ add32 args.len args.offset := by
      unfold Unwrapped at unwrapped
      simp only [add32, fileMaxSize, blockSize] at reaches unwrapped ⊢
      omega
    unfold Fs.write inodeWrite
    rw [check_true placed.regular, ok_bind, toUnsigned_natCast (by omega), if_pos refused,
      pure_eq_ok]
  · obtain ⟨after, written, stored, _⟩ := placed.write inDevice args supplied inLimit
    exact ⟨after, written, stored⟩
  · have inLimit : args.offset + args.len < fileMaxSize := by
      have accepted := visits.1
      unfold Unwrapped at unwrapped
      simp only [add32, fileMaxSize, blockSize] at accepted unwrapped ⊢
      omega
    exact placed.visits_inside inLimit visits

/-- A write whose sum wraps around to a value below the limit is not refused. -/
theorem not_limited_of_wrapped (wrapped : ¬Unwrapped args) : ¬Limited fs dev ino args := by
  have word := args.word
  have nonneg := args.nonneg
  intro limited
  have beyond : fileMaxSize ≤ args.offset + args.len := by
    unfold Unwrapped at wrapped
    simp only [fileMaxSize, blockSize] at wrapped ⊢
    omega
  rcases inodeWrite_first nonneg word (limited.refused beyond) with
    ⟨refused, _⟩ | ⟨_, isLen, _⟩
  · unfold Unwrapped at wrapped
    simp only [add32, fileMaxSize, blockSize] at refused wrapped
    omega
  · omega

/-- A write that returns keeps the file in its place and below the limit. -/
theorem Placed.step (placed : Placed fs dev sb ino) (inDevice : fs.InDevice dev ino) {value : Int}
    {after : Fs} (supplied : Supplied fs dev ino args)
    (written : fs.write ino args = .ok (value, after)) :
    (Placed after dev sb ino ∧ after.InDevice dev ino) ∧
      (after.desc ino).size ≤ max (fs.desc ino).size fileMaxSize := by
  rcases inodeWrite_first args.nonneg args.word written with
    ⟨_, _, same⟩ | ⟨inLimit, _, _⟩
  · rw [same]
    exact ⟨⟨placed, inDevice⟩, Nat.le_max_left _ _⟩
  · obtain ⟨final, call, stored, stays⟩ := placed.write inDevice args supplied inLimit
    obtain ⟨_, rfl⟩ := Prod.mk.inj (Except.ok.inj (call.symm.trans written))
    refine ⟨stays, ?_⟩
    rw [stored.desc]
    dsimp only
    split
    · exact Nat.le_max_left _ _
    · exact Nat.max_le.mpr ⟨Nat.le_max_left _ _,
        Nat.le_trans (Nat.le_of_lt inLimit) (Nat.le_max_right _ _)⟩

end InRange

/-! ## Runs -/

/-- Sequences of writes to a file. -/
def writes (base : Fs) (ino : Nat) : System Fs Write where
  initial := fun fs => fs = base
  step := fun before args after => ∃ value, before.write ino args = .ok (value, after)

theorem roomy_placed (content : List UInt8) : Placed (roomy content) 1 0 1 where
  found := rfl
  hasZmap := by
    rw [roomy_desc]
    decide
  fits := (roomy_charted content).fits
  zmaps := (roomy_charted content).zmaps
  firstBit := by
    have isMap : (roomy content).block 1 3 = bytes [7] := rfl
    unfold zmapStart mapBit
    rw [roomy_desc]
    dsimp only
    rw [Nat.zero_div, isMap]
    decide
  inodeDev := rfl
  behindMaps := (roomy_charted content).behindMaps
  beforeZones := (roomy_charted content).beforeZones
  regular := by
    have same : (roomy content).desc 1 = (roomy []).desc 1 := rfl
    rw [same]
    decide +kernel
  dataZone := fun hasZone => absurd (roomy_pointer content (.slot 0)) hasZone
  tail := by
    rw [roomy_desc]
    intro j inMap _
    simp only [blockBits, blockSize] at inMap ⊢
    omega

/-- The write of two bytes at offset 3. -/
def shortWrite : Write where
  buf := fun _ => 104
  len := 2
  offset := 3
  word := by decide
  nonneg := by decide

/-- The file has no zone yet. -/
theorem roomy_inDevice : (roomy []).InDevice 1 1 := fun present =>
  absurd (roomy_pointer [] (.slot 0)) present

/-- The device has free zones. -/
theorem roomy_supplied (args : Write) : Supplied (roomy []) 1 1 args := by
  intro _ _
  right
  refine ⟨_, 3, ?_, ?_, rfl⟩
  · rw [roomy_desc]
    decide
  · unfold zmapStart mapBit
    rw [roomy_desc]
    decide +kernel

/-- The write of the largest number of bytes at offset 1. -/
def longWrite : Write where
  buf := fun _ => 104
  len := 2 ^ 32 - 1
  offset := 1
  word := by decide
  nonneg := by decide

end Fs
end LightOS
