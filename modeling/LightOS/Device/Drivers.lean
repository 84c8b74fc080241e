import LightOS.Foundation.Words
import LightOS.Kernel.Fault
import LightOS.Kernel.Regions

/-!
# Drivers of block devices

The ramdisks are parts of the memory of the kernel, and the partitions of an IDE disk are
ranges of its sectors.  A driver does not look at the bytes that it moves, so that a call of
it is described by the places that it moves them from or to, in the order of the buffer.
-/

namespace LightOS

/-- `SECTOR_SIZE`. -/
abbrev sectorSize : Nat := 512

/-- `RAMDISK_NR`. -/
abbrev ramdiskNr : Nat := 4

/-- The place of a byte: an address of the kernel or a byte of an IDE disk. -/
inductive BytePlace
  | memory (address : Nat)
  | disk (drive byte : Nat)
  deriving DecidableEq

/-- What a call of a driver moves: byte `k` of the buffer from or to `place k`. -/
structure Transfer where
  length : Nat
  place : Nat → BytePlace
  result : Except Fault Int

namespace Transfer

/-- The buffer after a read. -/
def fill (transfer : Transfer) (content : BytePlace → UInt8) (buf : Nat → UInt8) :
    Nat → UInt8 :=
  fun k => if k < transfer.length then content (transfer.place k) else buf k

/-- The devices after a write. -/
def store (transfer : Transfer) (content : BytePlace → UInt8) (buf : Nat → UInt8) :
    BytePlace → UInt8 :=
  (List.range transfer.length).foldl
    (fun content k => Function.update content (transfer.place k) (buf k)) content

end Transfer

/-! ## Ramdisks -/

/-- The structure `ramdisk_t`. -/
structure Ramdisk where
  start : Nat
  size : Nat

/-- The entry of `ramdisks` that `ramdisk_init` fills in. -/
def ramdisk (nr : Fin ramdiskNr) : Ramdisk :=
  let size := kernelRamdiskSize / ramdiskNr
  ⟨kernelRamdiskVaddr + size * nr, size⟩

/-- `ramdisk_read` and `ramdisk_write`: the sums are words, and the test is about the region
of all ramdisks. -/
def Ramdisk.transfer (disk : Ramdisk) (count : UInt8) (lba : UInt32) : Transfer :=
  let addr := add32 disk.start (lba.toNat * sectorSize)
  let len := count.toNat * sectorSize
  if kernelRamdiskVaddr + kernelRamdiskSize ≤ add32 addr len then
    ⟨0, .memory, .error .panic⟩
  else
    ⟨len, fun k => .memory (add32 addr k), .ok count.toNat⟩

/-! ## IDE disks -/

/-- The structure `ide_disk_t`.  `total_lba` counts the sectors that commands with 28 bits
reach. -/
structure IdeDisk where
  drive : Nat
  totalLba : Nat
  addressable : totalLba ≤ 2 ^ 28

/-- The structure `ide_part_t`. -/
structure IdePart where
  disk : IdeDisk
  start : UInt32
  count : UInt32

/-- The sector that `ide_select_sector` leaves in the registers of the drive. -/
def selectSector (lba : UInt32) : Nat :=
  let low := lba.toNat % 256
  let mid := lba.toNat / 2 ^ 8 % 256
  let high := lba.toNat / 2 ^ 16 % 256
  let device := lba.toNat / 2 ^ 24 % 16
  low + 2 ^ 8 * mid + 2 ^ 16 * high + 2 ^ 24 * device

/-- `ide_pio_read` and `ide_pio_write`.  The drive is not ready again when it has come to its
last sector. -/
def IdeDisk.transfer (disk : IdeDisk) (count : UInt8) (lba : UInt32) : Transfer :=
  if count.toNat = 0 then
    ⟨0, .disk disk.drive, .error .assertion⟩
  else
    let sector := selectSector lba
    let served := min count.toNat (disk.totalLba - sector)
    ⟨served * sectorSize, fun k => .disk disk.drive (sector * sectorSize + k),
      if served = count.toNat then .ok 0 else .error .blocked⟩

/-- `ide_pio_part_read` and `ide_pio_part_write`. -/
def IdePart.transfer (part : IdePart) (count : UInt8) (lba : UInt32) : Transfer :=
  part.disk.transfer count (part.start + lba)

/-! ## Block devices -/

/-- A device of type `DEV_BLOCK`. -/
inductive Storage
  | ramdisk (nr : Fin ramdiskNr)
  | ideDisk (disk : IdeDisk)
  | idePart (part : IdePart)

namespace Storage

/-- The functions `read` and `write` of a device. -/
def transfer : Storage → UInt8 → UInt32 → Transfer
  | .ramdisk nr => (LightOS.ramdisk nr).transfer
  | .ideDisk disk => disk.transfer
  | .idePart part => part.transfer

/-- `DEV_CMD_SECTOR_COUNT`. -/
def sectorCount : Storage → Nat
  | .ramdisk nr => (LightOS.ramdisk nr).size / sectorSize
  | .ideDisk disk => disk.totalLba
  | .idePart part => part.count.toNat

/-- The place of a byte of a device. -/
def byteAt : Storage → Nat → BytePlace
  | .ramdisk nr, k => .memory ((LightOS.ramdisk nr).start + k)
  | .ideDisk disk, k => .disk disk.drive k
  | .idePart part, k => .disk part.disk.drive (part.start.toNat * sectorSize + k)

/-- A call that ends inside a device moves its sectors, and no other call leaves it. -/
structure Contained (device : Storage) (count : UInt8) (lba : UInt32) : Prop where
  inside : lba.toNat + count.toNat ≤ device.sectorCount →
    (∃ result, (device.transfer count lba).result = .ok result) ∧
    (device.transfer count lba).length = count.toNat * sectorSize ∧
    ∀ k < count.toNat * sectorSize,
      (device.transfer count lba).place k = device.byteAt (lba.toNat * sectorSize + k)
  beyond : device.sectorCount < lba.toNat + count.toNat →
    ∀ k < (device.transfer count lba).length, ∃ own < device.sectorCount * sectorSize,
      (device.transfer count lba).place k = device.byteAt own

/-- The calls that the drivers carry out as they should.  For a ramdisk, the test for the end
of the region of all ramdisks must not reject the last sector of the last one, and beyond the
end of a ramdisk it has to reject the call, unless the words wrap to sectors of the same
ramdisk.  A partition makes no test, so that the sectors in reach have to be its own. -/
def Fits (device : Storage) (count lba : Nat) : Prop :=
  match device with
  | .ramdisk nr =>
      (lba + count ≤ 2048 → nr.val = 3 → lba + count < 2048) ∧
      (2048 < lba + count →
        kernelRamdiskVaddr + kernelRamdiskSize ≤
          add32 (LightOS.ramdisk nr).start ((lba + count) * sectorSize) ∨
        count = 0 ∨ lba % 2 ^ 23 + count ≤ 2048)
  | .ideDisk disk => lba + count ≤ disk.totalLba → 0 < count
  | .idePart part =>
      let first := (part.start.toNat + lba) % 2 ^ 28
      (lba + count ≤ part.count.toNat →
        0 < count ∧ part.start.toNat + lba + count ≤ part.disk.totalLba) ∧
      (part.count.toNat < lba + count →
        count = 0 ∨ part.disk.totalLba ≤ first ∨
        part.start.toNat ≤ first ∧
          min (first + count) part.disk.totalLba ≤ part.start.toNat + part.count.toNat)

end Storage

theorem ramdisk_start (nr : Fin ramdiskNr) :
    (ramdisk nr).start = 0xC0C00000 + 0x100000 * nr := rfl

theorem Storage.sectorCount_ramdisk (nr : Fin ramdiskNr) :
    (Storage.ramdisk nr).sectorCount = 2048 := by
  simp only [sectorCount, LightOS.ramdisk, kernelRamdiskSize, ramdiskNr, sectorSize]

/-- Only 28 bits of a sector's number reach the drive. -/
theorem selectSector_eq (lba : UInt32) : selectSector lba = lba.toNat % 2 ^ 28 := by
  unfold selectSector
  have small := lba.toNat_lt
  dsimp only
  omega

namespace Storage

section Ramdisks

variable (nr : Fin ramdiskNr) (count : UInt8) (lba : UInt32)

/-- The test of the driver rejects a call. -/
theorem ramdisk_rejected
    (rejected : kernelRamdiskVaddr + kernelRamdiskSize ≤
      add32 (LightOS.ramdisk nr).start ((lba.toNat + count.toNat) * sectorSize)) :
    (ramdisk nr).transfer count lba = ⟨0, .memory, .error .panic⟩ := by
  have sum : add32 (add32 (LightOS.ramdisk nr).start (lba.toNat * sectorSize))
      (count.toNat * sectorSize) =
      add32 (LightOS.ramdisk nr).start ((lba.toNat + count.toNat) * sectorSize) := by
    simp only [add32, sectorSize]
    omega
  unfold transfer Ramdisk.transfer
  dsimp only
  rw [sum, if_pos rejected]

/-- The test of the driver lets a call pass. -/
theorem ramdisk_passed
    (passed : add32 (LightOS.ramdisk nr).start ((lba.toNat + count.toNat) * sectorSize) <
      kernelRamdiskVaddr + kernelRamdiskSize) :
    (ramdisk nr).transfer count lba = ⟨count.toNat * sectorSize,
      fun k => .memory (add32 (LightOS.ramdisk nr).start (lba.toNat * sectorSize + k)),
      .ok count.toNat⟩ := by
  have sum (k : Nat) : add32 (add32 (LightOS.ramdisk nr).start (lba.toNat * sectorSize)) k =
      add32 (LightOS.ramdisk nr).start (lba.toNat * sectorSize + k) := by
    simp only [add32, sectorSize]
    omega
  unfold transfer Ramdisk.transfer
  dsimp only
  simp only [sum]
  rw [← Nat.add_mul, if_neg (Nat.not_le_of_lt passed)]

/-- The words wrap to the sectors of the same ramdisk, or the call moves nothing. -/
theorem ramdisk_own_iff (start sector number : Nat) (inKernel : start % sectorSize = 0)
    (small : start + 2048 * sectorSize < 2 ^ 32) :
    (∀ k < number * sectorSize, ∃ own < 2048 * sectorSize,
      BytePlace.memory (add32 start (sector * sectorSize + k)) = .memory (start + own)) ↔
    number = 0 ∨ sector % 2 ^ 23 + number ≤ 2048 := by
  simp only [BytePlace.memory.injEq, add32, sectorSize] at inKernel small ⊢
  refine ⟨fun own => ?own, fun fits k inside => ?fits⟩
  case own =>
    by_contra outside
    obtain ⟨first, inDisk, isFirst⟩ := own 0 (by omega)
    have begins : sector % 2 ^ 23 < 2048 := by omega
    obtain ⟨last, alsoInDisk, isLast⟩ := own ((2048 - sector % 2 ^ 23) * 512) (by omega)
    omega
  case fits =>
    refine ⟨sector % 2 ^ 23 * 512 + k, ?_, ?_⟩
    · omega
    · omega

theorem ramdisk_contained_iff :
    (ramdisk nr).Contained count lba ↔ (ramdisk nr).Fits count.toNat lba.toNat := by
  have starts := ramdisk_start nr
  have inTable : nr.val < 4 := nr.isLt
  have sectors := sectorCount_ramdisk nr
  by_cases rejected : kernelRamdiskVaddr + kernelRamdiskSize ≤
      add32 (LightOS.ramdisk nr).start ((lba.toNat + count.toNat) * sectorSize)
  · have call := ramdisk_rejected nr count lba rejected
    refine ⟨fun contained => ⟨fun ends => ?last, fun _ => .inl rejected⟩, fun fits => ?contained⟩
    case last =>
      rw [← sectors] at ends
      obtain ⟨⟨result, returns⟩, _⟩ := contained.inside ends
      rw [call] at returns
      cases returns
    case contained =>
      refine ⟨fun ends => ?_, fun _ k inside => ?_⟩
      · rw [sectors] at ends
        have before := fits.1 ends
        rw [starts] at rejected
        simp only [add32, sectorSize, kernelRamdiskVaddr, kernelRamdiskSize,
          kernelPageCacheVaddr, kernelPageCacheSize, kernelVaddrOffset] at rejected
        omega
      · rw [call] at inside
        cases inside
  · have passed := Nat.lt_of_not_le rejected
    have call := ramdisk_passed nr count lba passed
    have own := ramdisk_own_iff (LightOS.ramdisk nr).start lba.toNat count.toNat
      (by rw [starts]; simp only [sectorSize]; omega)
      (by rw [starts]; simp only [sectorSize]; omega)
    refine ⟨fun contained => ⟨fun ends isLast => ?last, fun leaves => .inr ?own⟩,
      fun fits => ⟨fun ends => ⟨⟨count.toNat, ?returns⟩, ?length, fun k inside => ?place⟩,
        fun leaves => ?beyond⟩⟩
    case last =>
      rw [starts, isLast] at passed
      simp only [add32, sectorSize, kernelRamdiskVaddr, kernelRamdiskSize,
        kernelPageCacheVaddr, kernelPageCacheSize, kernelVaddrOffset] at passed
      omega
    case own =>
      have moved := contained.beyond (by rw [sectors]; exact leaves)
      rw [call, sectors] at moved
      exact own.mp moved
    case returns => rw [call]
    case length => rw [call]
    case place =>
      rw [sectors] at ends
      rw [call]
      have unwrapped : add32 (LightOS.ramdisk nr).start (lba.toNat * sectorSize + k) =
          (LightOS.ramdisk nr).start + (lba.toNat * sectorSize + k) := by
        rw [starts]
        simp only [add32, sectorSize] at inside ⊢
        omega
      exact congrArg BytePlace.memory unwrapped
    case beyond =>
      rw [sectors] at leaves ⊢
      rw [call]
      exact own.mpr ((fits.2 leaves).resolve_left rejected)

end Ramdisks

section Ide

variable (disk : IdeDisk) (part : IdePart) (count : UInt8) (lba : UInt32)

/-- A call of the driver moves sectors as long as the drive has them. -/
theorem ide_transfer (positive : 0 < count.toNat) :
    disk.transfer count lba =
      ⟨min count.toNat (disk.totalLba - lba.toNat % 2 ^ 28) * sectorSize,
        fun k => .disk disk.drive (lba.toNat % 2 ^ 28 * sectorSize + k),
        if min count.toNat (disk.totalLba - lba.toNat % 2 ^ 28) = count.toNat then .ok 0
        else .error .blocked⟩ := by
  unfold IdeDisk.transfer
  rw [if_neg (Nat.ne_of_gt positive), selectSector_eq]

theorem ide_empty (empty : count.toNat = 0) :
    disk.transfer count lba = ⟨0, .disk disk.drive, .error .assertion⟩ := by
  unfold IdeDisk.transfer
  rw [if_pos empty]

theorem disk_contained_iff :
    (ideDisk disk).Contained count lba ↔ (ideDisk disk).Fits count.toNat lba.toNat := by
  have addressable := disk.addressable
  refine ⟨fun contained ends => ?positive, fun fits => ⟨fun ends => ?inside, fun _ k moved => ?own⟩⟩
  case positive =>
    apply Nat.pos_of_ne_zero
    intro empty
    obtain ⟨⟨result, returns⟩, _⟩ := contained.inside ends
    rw [transfer, ide_empty _ _ _ empty] at returns
    cases returns
  case inside =>
    have positive := fits ends
    have unwrapped : lba.toNat % 2 ^ 28 = lba.toNat := by
      have ends : lba.toNat + count.toNat ≤ disk.totalLba := ends
      omega
    have served : min count.toNat (disk.totalLba - lba.toNat) = count.toNat := by
      have ends : lba.toNat + count.toNat ≤ disk.totalLba := ends
      omega
    rw [transfer, ide_transfer _ _ _ positive, unwrapped, served, if_pos rfl]
    exact ⟨⟨0, rfl⟩, rfl, fun k _ => rfl⟩
  case own =>
    by_cases empty : count.toNat = 0
    · rw [transfer, ide_empty _ _ _ empty] at moved
      cases moved
    · rw [transfer, ide_transfer _ _ _ (Nat.pos_of_ne_zero empty)] at moved ⊢
      refine ⟨lba.toNat % 2 ^ 28 * sectorSize + k, ?_, rfl⟩
      simp only [sectorCount, sectorSize] at moved ⊢
      omega

theorem part_contained_iff :
    (idePart part).Contained count lba ↔ (idePart part).Fits count.toNat lba.toNat := by
  have addressable := part.disk.addressable
  have sum : (part.start + lba).toNat % 2 ^ 28 = (part.start.toNat + lba.toNat) % 2 ^ 28 := by
    rw [UInt32.toNat_add]
    omega
  by_cases empty : count.toNat = 0
  · have call : (idePart part).transfer count lba = ⟨0, .disk part.disk.drive, .error .assertion⟩ :=
      ide_empty _ _ _ empty
    refine ⟨fun contained => ⟨fun ends => ?_, fun _ => .inl empty⟩,
      fun fits => ⟨fun ends => ?_, fun _ k moved => ?_⟩⟩
    · obtain ⟨⟨result, returns⟩, _⟩ := contained.inside ends
      rw [call] at returns
      cases returns
    · exact absurd empty (Nat.ne_of_gt (fits.1 ends).1)
    · rw [call] at moved
      cases moved
  · have positive := Nat.pos_of_ne_zero empty
    have call : (idePart part).transfer count lba = _ :=
      ide_transfer part.disk count (part.start + lba) positive
    rw [sum] at call
    refine ⟨fun contained => ⟨fun ends => ⟨positive, ?inReach⟩, fun leaves => .inr ?own⟩,
      fun fits => ⟨fun ends => ?inside, fun leaves k moved => ?beyond⟩⟩
    case inReach =>
      obtain ⟨⟨result, returns⟩, _, places⟩ := contained.inside ends
      have first := places 0 (by simp only [sectorSize]; omega)
      rw [call] at returns first
      dsimp only at returns
      split at returns
      · rename_i served
        simp only [byteAt, BytePlace.disk.injEq, sectorSize] at first
        omega
      · cases returns
    case own =>
      have own := contained.beyond leaves
      rw [call] at own
      simp only [byteAt, BytePlace.disk.injEq, sectorSize, sectorCount, true_and] at own
      by_cases behind : part.disk.totalLba ≤ (part.start.toNat + lba.toNat) % 2 ^ 28
      · exact .inl behind
      · obtain ⟨low, _, isLow⟩ := own 0 (by omega)
        obtain ⟨high, isOwn, isHigh⟩ := own
          (min count.toNat (part.disk.totalLba - (part.start.toNat + lba.toNat) % 2 ^ 28) * 512 - 1)
          (by omega)
        exact .inr ⟨by omega, by omega⟩
    case inside =>
      have inReach := (fits.1 ends).2
      have unwrapped : (part.start.toNat + lba.toNat) % 2 ^ 28 = part.start.toNat + lba.toNat := by
        omega
      have served : min count.toNat (part.disk.totalLba - (part.start.toNat + lba.toNat)) =
          count.toNat := by omega
      rw [call, unwrapped, served, if_pos rfl]
      refine ⟨⟨0, rfl⟩, rfl, fun k _ => ?_⟩
      simp only [byteAt, Nat.add_mul, Nat.add_assoc]
    case beyond =>
      rw [call] at moved ⊢
      simp only [byteAt, BytePlace.disk.injEq, sectorSize, sectorCount, true_and] at moved ⊢
      have own := (fits.2 leaves).resolve_left empty
      refine ⟨((part.start.toNat + lba.toNat) % 2 ^ 28 - part.start.toNat) * 512 + k, ?_, ?_⟩
      · omega
      · omega

end Ide

/-- The calls that stay in their device. -/
theorem contained_iff_fits (device : Storage) (count : UInt8) (lba : UInt32) :
    device.Contained count lba ↔ device.Fits count.toNat lba.toNat := by
  cases device with
  | ramdisk nr => exact ramdisk_contained_iff nr count lba
  | ideDisk disk => exact disk_contained_iff disk count lba
  | idePart part => exact part_contained_iff part count lba

/-- The first of two partitions of 16 sectors each. -/
def firstPart : IdePart :=
  ⟨⟨0, 33, by decide⟩, 1, 16⟩

/-- A call that leaves the first ramdisk moves a sector of the second one, the last sector of
the last ramdisk is out of reach, and a call that leaves a partition moves a sector of the
next one. -/
theorem contained_fails :
    ¬(ramdisk 0).Contained 2 2047 ∧ ¬(ramdisk 3).Contained 1 2047 ∧
      ¬(idePart firstPart).Contained 2 15 := by
  refine ⟨fun contained => ?crosses, fun contained => ?last, fun contained => ?leaves⟩
  case crosses =>
    have fits := (ramdisk_contained_iff 0 2 2047).mp contained
    exact absurd (fits.2 (by decide)) (by decide)
  case last =>
    have fits := (ramdisk_contained_iff 3 1 2047).mp contained
    exact absurd (fits.1 (by decide) rfl) (by decide)
  case leaves =>
    have fits := (part_contained_iff firstPart 2 15).mp contained
    exact absurd (fits.2 (by decide)) (by decide)

end Storage

end LightOS
