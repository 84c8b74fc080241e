import LightOS.Device.Drivers
import LightOS.Fs.Files

/-!
# Files of block devices

`sys_read` and `sys_write` count in blocks of 1024 bytes when they call a driver, and the
drivers count in sectors of 512 bytes.
-/

namespace LightOS

/-- `DEVICE_NR`. -/
abbrev deviceNr : Nat := 64

/-- The bytes that `device_read` and `device_write` move, for a buffer that is not null. -/
def deviceTransfer (devices : Nat → Option Storage) (dev count idx : Nat) : Transfer :=
  if count = 0 then
    ⟨0, .memory, .ok (-1)⟩
  else
    match if dev < deviceNr then devices dev else none with
    | none => ⟨0, .memory, .error .assertion⟩
    | some device => device.transfer (UInt8.ofNat count) (UInt32.ofNat idx)

/-- The block devices in `device_list` and what they hold. -/
structure Hardware where
  devices : Nat → Option Storage
  content : BytePlace → UInt8

namespace Hardware

/-- `sys_read` of an open block device: the value returned and the buffer afterwards. -/
def readBlocks (hardware : Hardware) (file : File) (zone : Nat) (buf : Nat → UInt8)
    (count : Nat) : Except Fault (Int × (Nat → UInt8)) := do
  check (0 < count)
  if file.flags &&& oAccmode = oWronly then
    return (-1, buf)
  check (zone ≠ 0)
  check (file.offset.tmod 2 = 0)
  check (count % blockSize = 0)
  let transfer := deviceTransfer hardware.devices zone (count / blockSize)
    (toUnsigned (file.offset.tdiv blockSize))
  let result ← transfer.result
  return (result, transfer.fill hardware.content buf)

/-- `sys_write` of an open block device: the value returned and what the devices hold
afterwards. -/
def writeBlocks (hardware : Hardware) (file : File) (zone : Nat) (buf : Nat → UInt8)
    (count : Nat) : Except Fault (Int × (BytePlace → UInt8)) := do
  check (0 < count)
  if file.flags &&& oAccmode = oRdonly then
    return (-1, hardware.content)
  check (zone ≠ 0)
  check (file.offset.tmod 2 = 0)
  check (count % blockSize = 0)
  let transfer := deviceTransfer hardware.devices zone (count / blockSize)
    (toUnsigned (file.offset.tdiv blockSize))
  let result ← transfer.result
  return (result, transfer.store hardware.content buf)

/-- The devices as `sys_read` and `sys_write` call them. -/
def asDevices (hardware : Hardware) (pipes : Devices) : Devices :=
  { pipes with
    deviceRead := fun fs dev count idx => do
      let transfer := deviceTransfer hardware.devices dev count idx
      let result ← transfer.result
      return (result, (List.range transfer.length).map fun k =>
        hardware.content (transfer.place k), fs)
    deviceWrite := fun fs dev _ count idx => do
      let result ← (deviceTransfer hardware.devices dev count idx).result
      return (result, fs) }

end Hardware

/-- A call that `sys_read` and `sys_write` accept for a block device. -/
structure OnBlocks (devices : Nat → Option Storage) (device : Storage) (file : File)
    (zone count : Nat) : Prop where
  listed : zone < deviceNr ∧ devices zone = some device
  notNull : zone ≠ 0
  positive : 0 < count
  whole : count % blockSize = 0
  atBlock : ∃ block : Nat, file.offset = (block * blockSize : Nat)

/-- `sys_read` fills the buffer with the bytes of the device from the offset on. -/
def ReadsAsked (devices : Nat → Option Storage) (device : Storage) (file : File)
    (zone count : Nat) : Prop :=
  ∀ content buf, ∃ result after,
    (Hardware.mk devices content).readBlocks file zone buf count = .ok (result, after) ∧
      ∀ k < count, after k = content (device.byteAt (file.offset.toNat + k))

/-- `sys_write` stores the buffer on the device from the offset on, and nothing else. -/
def WritesAsked (devices : Nat → Option Storage) (device : Storage) (file : File)
    (zone count : Nat) : Prop :=
  ∀ content buf, ∃ result after,
    (Hardware.mk devices content).writeBlocks file zone buf count = .ok (result, after) ∧
      (∀ k < count, after (device.byteAt (file.offset.toNat + k)) = buf k) ∧
      ∀ place, (∀ k < count, place ≠ device.byteAt (file.offset.toNat + k)) →
        after place = content place

/-- What `sys_write` stores at an offset is what `sys_read` then finds there. -/
def RoundTrips (devices : Nat → Option Storage) (file : File) (zone count : Nat) : Prop :=
  ∀ content data buf, ∃ result written found after,
    (Hardware.mk devices content).writeBlocks file zone data count = .ok (result, written) ∧
      (Hardware.mk devices written).readBlocks file zone buf count = .ok (found, after) ∧
      ∀ k < count, after k = data k

/-! ## What a driver moves -/

namespace Transfer

variable (transfer : Transfer) (content : BytePlace → UInt8) (buf : Nat → UInt8)

theorem fill_other {k : Nat} (beyond : transfer.length ≤ k) :
    transfer.fill content buf k = buf k := by
  unfold fill
  rw [if_neg (Nat.not_lt_of_le beyond)]

theorem store_other {place : BytePlace} (other : ∀ k < transfer.length, transfer.place k ≠ place) :
    transfer.store content buf place = content place := by
  unfold store
  generalize transfer.length = length at other ⊢
  induction length with
  | zero => rfl
  | succ length inductionHypothesis =>
      rw [List.range_succ, List.foldl_append, List.foldl_cons, List.foldl_nil,
        Function.update_of_ne (other length (Nat.lt_succ_self _)).symm]
      exact inductionHypothesis fun k below => other k (Nat.lt_succ_of_lt below)

end Transfer

namespace Storage

variable (device : Storage) (count : UInt8) (lba : UInt32)

/-- A driver moves no more than the sectors it is asked for. -/
theorem transfer_length_le : (device.transfer count lba).length ≤ count.toNat * sectorSize := by
  have ide (disk : IdeDisk) (sector : UInt32) :
      (disk.transfer count sector).length ≤ count.toNat * sectorSize := by
    by_cases empty : count.toNat = 0
    · rw [ide_empty _ _ _ empty]
      exact Nat.zero_le _
    · rw [ide_transfer _ _ _ (Nat.pos_of_ne_zero empty)]
      exact Nat.mul_le_mul_right _ (Nat.min_le_left _ _)
  cases device with
  | ramdisk nr =>
      by_cases rejected : kernelRamdiskVaddr + kernelRamdiskSize ≤
          add32 (LightOS.ramdisk nr).start ((lba.toNat + count.toNat) * sectorSize)
      · rw [ramdisk_rejected nr count lba rejected]
        exact Nat.zero_le _
      · rw [ramdisk_passed nr count lba (Nat.lt_of_not_le rejected)]
  | ideDisk disk => exact ide disk lba
  | idePart part => exact ide part.disk (part.start + lba)

/-- A byte of the device that a driver moves is not behind the sectors it is asked for. -/
theorem le_of_transfer {k own : Nat} (moved : k < (device.transfer count lba).length)
    (isOwn : (device.transfer count lba).place k = device.byteAt own) :
    own ≤ lba.toNat * sectorSize + k := by
  cases device with
  | ramdisk nr =>
      by_cases rejected : kernelRamdiskVaddr + kernelRamdiskSize ≤
          add32 (LightOS.ramdisk nr).start ((lba.toNat + count.toNat) * sectorSize)
      · rw [ramdisk_rejected nr count lba rejected] at moved
        cases moved
      · rw [ramdisk_passed nr count lba (Nat.lt_of_not_le rejected)] at isOwn
        simp only [byteAt, BytePlace.memory.injEq, add32] at isOwn
        omega
  | ideDisk disk =>
      by_cases empty : count.toNat = 0
      · rw [transfer, ide_empty _ _ _ empty] at moved
        cases moved
      · rw [transfer, ide_transfer _ _ _ (Nat.pos_of_ne_zero empty)] at isOwn
        simp only [byteAt, BytePlace.disk.injEq, true_and, sectorSize] at isOwn ⊢
        omega
  | idePart part =>
      by_cases empty : count.toNat = 0
      · rw [transfer, IdePart.transfer, ide_empty _ _ _ empty] at moved
        cases moved
      · rw [transfer, IdePart.transfer, ide_transfer _ _ _ (Nat.pos_of_ne_zero empty),
          UInt32.toNat_add] at isOwn
        simp only [byteAt, BytePlace.disk.injEq, true_and, sectorSize] at isOwn ⊢
        omega

end Storage

/-! ## The calls -/

section Calls

variable {devices : Nat → Option Storage} {device : Storage} {file : File} {zone count : Nat}

/-- The driver is asked for as many sectors as there are blocks. -/
theorem OnBlocks.transfer (onBlocks : OnBlocks devices device file zone count) :
    ∃ (number : UInt8) (sector : UInt32),
      deviceTransfer devices zone (count / blockSize) (toUnsigned (file.offset.tdiv blockSize)) =
        device.transfer number sector ∧
      number.toNat ≤ count / blockSize ∧ sector.toNat * blockSize ≤ file.offset.toNat := by
  have positive := onBlocks.positive
  have whole := onBlocks.whole
  have some : count / blockSize ≠ 0 := by
    simp only [blockSize] at whole ⊢
    omega
  obtain ⟨block, isOffset⟩ := onBlocks.atBlock
  refine ⟨UInt8.ofNat (count / blockSize), UInt32.ofNat (toUnsigned (file.offset.tdiv blockSize)),
    ?call, ?number, ?sector⟩
  case call =>
    unfold deviceTransfer
    rw [if_neg some, if_pos onBlocks.listed.1, onBlocks.listed.2]
  case number =>
    rw [UInt8.toNat_ofNat']
    exact Nat.mod_le _ _
  case sector =>
    rw [UInt32.toNat_ofNat', isOffset, ← Int.ofNat_tdiv, Int.toNat_natCast]
    unfold toUnsigned
    simp only [blockSize]
    omega

/-- The last byte of the buffer is not read. -/
theorem OnBlocks.readBlocks_last (onBlocks : OnBlocks devices device file zone count)
    {content : BytePlace → UInt8} {buf after : Nat → UInt8} {result : Int}
    (call : (Hardware.mk devices content).readBlocks file zone buf count = .ok (result, after)) :
    after (count - 1) = buf (count - 1) := by
  obtain ⟨number, sector, isTransfer, atMost, _⟩ := onBlocks.transfer
  have length := device.transfer_length_le number sector
  have positive := onBlocks.positive
  unfold Hardware.readBlocks at call
  simp only [bind_eq_ok, check_eq_ok] at call
  obtain ⟨_, _, rest⟩ := call
  split at rest
  · cases rest
    rfl
  · simp only [bind_eq_ok, check_eq_ok] at rest
    obtain ⟨_, _, _, _, _, _, value, _, same⟩ := rest
    cases same
    rw [isTransfer]
    apply Transfer.fill_other
    simp only [blockSize, sectorSize] at atMost length
    omega

/-- The last byte that should be stored is not. -/
theorem OnBlocks.writeBlocks_last (onBlocks : OnBlocks devices device file zone count)
    {content after : BytePlace → UInt8} {buf : Nat → UInt8} {result : Int}
    (call : (Hardware.mk devices content).writeBlocks file zone buf count = .ok (result, after)) :
    after (device.byteAt (file.offset.toNat + (count - 1))) =
      content (device.byteAt (file.offset.toNat + (count - 1))) := by
  obtain ⟨number, sector, isTransfer, atMost, begins⟩ := onBlocks.transfer
  have length := device.transfer_length_le number sector
  have positive := onBlocks.positive
  unfold Hardware.writeBlocks at call
  simp only [bind_eq_ok, check_eq_ok] at call
  obtain ⟨_, _, rest⟩ := call
  split at rest
  · cases rest
    rfl
  · simp only [bind_eq_ok, check_eq_ok] at rest
    obtain ⟨_, _, _, _, _, _, value, _, same⟩ := rest
    cases same
    rw [isTransfer]
    apply Transfer.store_other
    intro k moved isOwn
    have inReach := device.le_of_transfer number sector moved isOwn
    simp only [blockSize, sectorSize] at atMost length begins inReach
    omega

theorem OnBlocks.not_readsAsked (onBlocks : OnBlocks devices device file zone count) :
    ¬ReadsAsked devices device file zone count := by
  intro asked
  obtain ⟨result, after, call, same⟩ := asked (fun _ => 0) fun _ => 1
  have last := onBlocks.readBlocks_last call
  rw [same (count - 1) (Nat.sub_one_lt_of_lt onBlocks.positive)] at last
  exact absurd last (by decide)

theorem OnBlocks.not_writesAsked (onBlocks : OnBlocks devices device file zone count) :
    ¬WritesAsked devices device file zone count := by
  intro asked
  obtain ⟨result, after, call, same, _⟩ := asked (fun _ => 0) fun _ => 1
  have last := onBlocks.writeBlocks_last call
  rw [same (count - 1) (Nat.sub_one_lt_of_lt onBlocks.positive)] at last
  exact absurd last (by decide)

theorem OnBlocks.not_roundTrips (onBlocks : OnBlocks devices device file zone count) :
    ¬RoundTrips devices file zone count := by
  intro roundTrips
  obtain ⟨_, _, _, after, _, call, same⟩ := roundTrips (fun _ => 0) (fun _ => 0) fun _ => 1
  have last := onBlocks.readBlocks_last call
  rw [same (count - 1) (Nat.sub_one_lt_of_lt onBlocks.positive)] at last
  exact absurd last (by decide)

/-- No call does what it was asked for: the drivers are asked for half of the sectors, at half
of the offset. -/
theorem never_asked (onBlocks : OnBlocks devices device file zone count) :
    ¬ReadsAsked devices device file zone count ∧ ¬WritesAsked devices device file zone count ∧
      ¬RoundTrips devices file zone count :=
  ⟨onBlocks.not_readsAsked, onBlocks.not_writesAsked, onBlocks.not_roundTrips⟩

/-- The first ramdisk is the only device. -/
def oneRamdisk (dev : Nat) : Option Storage :=
  if dev = 1 then some (.ramdisk 0) else none

/-- The second block of the first ramdisk. -/
theorem onBlocks_oneRamdisk :
    OnBlocks oneRamdisk (.ramdisk 0) ⟨0, 1, 1024, 2, 0⟩ 1 1024 where
  listed := ⟨by decide, rfl⟩
  notNull := by decide
  positive := by decide
  whole := rfl
  atBlock := ⟨1, rfl⟩

theorem never_asked_oneRamdisk :
    ¬ReadsAsked oneRamdisk (.ramdisk 0) ⟨0, 1, 1024, 2, 0⟩ 1 1024 ∧
      ¬WritesAsked oneRamdisk (.ramdisk 0) ⟨0, 1, 1024, 2, 0⟩ 1 1024 ∧
      ¬RoundTrips oneRamdisk ⟨0, 1, 1024, 2, 0⟩ 1 1024 :=
  never_asked onBlocks_oneRamdisk

theorem asked_fails :
    ¬∀ (devices : Nat → Option Storage) (device : Storage) (file : File) (zone count : Nat),
      OnBlocks devices device file zone count →
        ReadsAsked devices device file zone count ∧ WritesAsked devices device file zone count ∧
          RoundTrips devices file zone count :=
  fun always => onBlocks_oneRamdisk.not_readsAsked (always _ _ _ _ _ onBlocks_oneRamdisk).1

end Calls

/-! ## The calls in a task -/

section Tasks

variable (hardware : Hardware) (pipes : Devices) (buf : Nat → UInt8) {state : FileState}
  {pid index count : Nat} {fd : Int}

/-- The file behind a descriptor is a block device. -/
structure FileState.OpenBlocks (state : FileState) (pid : Nat) (fd : Int) (index : Nat) : Prop where
  opened : state.fileOf pid fd = some index
  noPipe : (state.fs.inodeTable (state.fileTable index).inode).pipe = false
  notChr : isChr (state.fs.desc (state.fileTable index).inode).mode = false
  blk : isBlk (state.fs.desc (state.fileTable index).inode).mode = true

theorem FileState.OpenBlocks.inRange (openBlocks : state.OpenBlocks pid fd index) :
    0 ≤ fd ∧ fd < taskFileNr := by
  have opened := openBlocks.opened
  unfold FileState.fileOf at opened
  split at opened
  · assumption
  · cases opened

theorem map_bind {α β γ : Type} (call : Except Fault α) (next : α → Except Fault β)
    (convert : β → γ) :
    (call >>= next).map convert = call >>= fun value => (next value).map convert := by
  cases call with
  | error fault => rfl
  | ok value => rfl

/-- Two calls that make the same check agree if they agree behind it. -/
theorem check_congr {α : Type} {condition : Prop} [Decidable condition]
    {first second : Unit → Except Fault α} (same : condition → first () = second ()) :
    (check condition >>= first) = check condition >>= second := by
  unfold check
  by_cases holds : condition
  · rw [if_pos holds, ok_bind, ok_bind]
    exact same holds
  · rw [if_neg holds]
    rfl

/-- `sys_read` of a block device, with the bytes it returns laid over the buffer. -/
theorem sysRead_blocks (openBlocks : state.OpenBlocks pid fd index) :
    (state.sysRead (hardware.asDevices pipes) pid fd count).map
        (fun result => (result.1, fun k => result.2.1.getD k (buf k))) =
      hardware.readBlocks (state.fileTable index)
        ((state.fs.desc (state.fileTable index).inode).zone 0) buf count := by
  obtain ⟨least, inTable⟩ := openBlocks.inRange
  unfold FileState.sysRead Hardware.readBlocks
  rw [if_neg (by omega), openBlocks.opened]
  dsimp only
  rw [openBlocks.noPipe, openBlocks.notChr, openBlocks.blk, map_bind]
  refine check_congr fun positive => ?_
  by_cases closed : (state.fileTable index).flags &&& oAccmode = oWronly
  · rw [if_pos closed, if_pos closed]
    simp [Except.map]
  rw [if_neg closed, if_neg closed, if_neg Bool.false_ne_true, if_neg Bool.false_ne_true,
    if_pos rfl, map_bind]
  refine check_congr fun notNull => ?_
  rw [map_bind]
  refine check_congr fun even => ?_
  rw [map_bind]
  refine check_congr fun whole => ?_
  unfold Hardware.asDevices
  dsimp only
  cases (deviceTransfer hardware.devices _ _ _).result with
  | error fault => rfl
  | ok result =>
      simp only [ok_bind, pure_eq_ok, Except.map, Except.ok.injEq, Prod.mk.injEq, true_and]
      funext k
      unfold Transfer.fill
      by_cases moved : k < (deviceTransfer hardware.devices
          ((state.fs.desc (state.fileTable index).inode).zone 0) (count / blockSize)
          (toUnsigned ((state.fileTable index).offset.tdiv blockSize))).length
      · rw [if_pos moved, List.getD_eq_getElem?_getD, List.getElem?_map,
          List.getElem?_range moved]
        rfl
      · rw [if_neg moved, List.getD_eq_getElem?_getD, List.getElem?_eq_none]
        · rfl
        · rw [List.length_map, List.length_range]
          exact Nat.le_of_not_lt moved

/-- `sys_write` of a block device returns what the driver makes of it. -/
theorem sysWrite_blocks (openBlocks : state.OpenBlocks pid fd index) (positive : 0 < fd) :
    (state.sysWrite (hardware.asDevices pipes) pid fd buf count).map Prod.fst =
      (hardware.writeBlocks (state.fileTable index)
        ((state.fs.desc (state.fileTable index).inode).zone 0) buf count).map Prod.fst := by
  obtain ⟨least, inTable⟩ := openBlocks.inRange
  unfold FileState.sysWrite Hardware.writeBlocks
  rw [if_neg (by omega), openBlocks.opened]
  dsimp only
  rw [openBlocks.noPipe, openBlocks.notChr, openBlocks.blk, map_bind, map_bind]
  refine check_congr fun some => ?_
  by_cases closed : (state.fileTable index).flags &&& oAccmode = oRdonly
  · rw [if_pos closed, if_pos closed]
    rfl
  rw [if_neg closed, if_neg closed, if_neg Bool.false_ne_true, if_neg Bool.false_ne_true,
    if_pos rfl]
  simp only [map_bind]
  refine check_congr fun notNull => check_congr fun even => check_congr fun whole => ?_
  unfold Hardware.asDevices
  dsimp only
  cases (deviceTransfer hardware.devices _ _ _).result with
  | error fault => rfl
  | ok result => rfl

end Tasks

end LightOS
