import LightOS.Fs.Inodes
import LightOS.Kernel.Strings

/-!
# Super blocks and formatting

The functions of `super.c` that read, release and make the super block of a
device.  `devmkfs` is divided at its comments: the descriptor, the bitmaps, the
tails of the bitmaps and the root directory.
-/

namespace LightOS
namespace Fs

/-- `get_free_super`. -/
def getFreeSuper (fs : Fs) : Except Fault Nat :=
  match (List.range superNr).find? fun sb => (fs.superTable sb).dev = eof with
  | some sb => .ok sb
  | none => .error .panic

/-- The reference that `get_super` takes. -/
def holdSuper (fs : Fs) (sb : Nat) : Fs :=
  fs.setSuper sb { fs.superTable sb with
    count := add32 (fs.superTable sb).count 1 }

/-- `put_super` of a super block. -/
def putSuper (fs : Fs) (sb : Nat) : Except Fault Fs := do
  let super := fs.superTable sb
  check (0 < super.count)
  if super.count - 1 ≠ 0 then
    return fs.setSuper sb { super with count := super.count - 1 }
  let fs := fs.setSuper sb { super with count := 0, dev := eof }
  let fs ← fs.iputOption super.imount
  fs.iputOption super.iroot

/-- Replace the first entries of an array of buffers by consecutive blocks. -/
def setBuffers (maps : Nat → Option Nat) (first count : Nat) (i : Nat) :
    Option Nat :=
  if i < count then some (first + i) else maps i

/-- `read_super`.  A device with another magic number keeps the entry of
`super_table` that was taken for it. -/
def readSuper (fs : Fs) (dev : Nat) : Except Fault (Option Nat × Fs) := do
  match fs.getSuper dev with
  | some sb => return (some sb, fs.holdSuper sb)
  | none =>
      let sb ← fs.getFreeSuper
      let super := { fs.superTable sb with dev := dev, count := 1 }
      let fs := fs.setSuper sb super
      let desc := fs.superDesc dev
      if desc.magic ≠ minixMagic then
        return (none, fs)
      check (desc.imapBlocks ≤ mapNr)
      check (desc.zmapBlocks ≤ mapNr)
      return (some sb, fs.setSuper sb { super with
        imaps := setBuffers (fun _ => none) imapBlockNr desc.imapBlocks
        zmaps := setBuffers (fun _ => none) (imapBlockNr + desc.imapBlocks)
          desc.zmapBlocks })

/-- `div_round_up`. -/
def divRoundUp (num size : Nat) : Nat :=
  sub32 (add32 num size) 1 / size

/-- The number of blocks of the inode table. -/
def inodeBlocks (icount : Nat) : Nat :=
  divRoundUp (icount * 32 % 2 ^ 32) blockSize

/-- The bits of the zone map that `devmkfs` takes to be in use. -/
def zoneCount (totalBlock imapBlocks icount : Nat) : Nat :=
  sub32 (sub32 (sub32 totalBlock imapBlockNr) imapBlocks) (inodeBlocks icount)

/-- The descriptor that `devmkfs` stores.  Its fields are 16 bits wide, except
for `max_size`. -/
def newSuperDesc (totalBlock icount : Nat) : SuperDesc :=
  let imapBlocks := divRoundUp icount blockBits % 2 ^ 16
  let zmapBlocks :=
    divRoundUp (zoneCount totalBlock imapBlocks icount) blockBits % 2 ^ 16
  { inodes := icount % 2 ^ 16
    zones := totalBlock % 2 ^ 16
    imapBlocks := imapBlocks
    zmapBlocks := zmapBlocks
    firstdatazone :=
      (imapBlockNr + imapBlocks + zmapBlocks + inodeBlocks icount) % 2 ^ 16
    logZoneSize := 0
    maxSize := blockSize * totalBlocks
    magic := minixMagic }

/-- The loop of `devmkfs` that clears the bitmaps. -/
def clearMaps (fs : Fs) (dev first : Nat) : Nat → Fs
  | 0 => fs
  | count + 1 =>
      let fs := clearMaps fs dev first count
      fs.writeBlock dev (first + count)
        ((fs.block dev (first + count)).fill 0 blockSize 0)

/-- The byte with its `8 - offset` highest bits set. -/
def tailByte (offset : Nat) : Nat :=
  256 - 2 ^ offset

/-- The body of the loop of `devmkfs` that sets the bits of a bitmap block from
`count` on. -/
def fillTail (count : Nat) (memory : Memory) : Memory :=
  let offset := count % blockBits
  let start := offset / 8
  let memory := memory.fill (start + 1) (blockSize - start - 1) 0xFF
  memory.setByte start (tailByte (offset % 8))

/-- Set the bits of the last block of a bitmap from `count` on. -/
def fillMap (fs : Fs) (dev : Nat) (maps : Nat → Option Nat)
    (blocks count : Nat) : Except Fault Fs := do
  bounded (0 < blocks)
  match maps (blocks - 1) with
  | none => throw .wild
  | some number =>
      return fs.writeBlock dev number
        (fillTail count (fs.block dev number))

/-- An entry with a number and a name, written by `strcpy`. -/
def writeEntry (nr : Nat) (name : Cursor) (memory : Memory) (start : Nat) :
    Memory :=
  let memory := strcpy memory (start + 2) name
  Dentry.setNr nr memory start

/-- The name of the entry of a directory for itself. -/
abbrev dotName : Cursor := [46]

/-- The name of the entry of a directory for its parent. -/
abbrev dotDotName : Cursor := [46, 46]

/-- The part of `devmkfs` that makes the root directory. -/
def makeRoot (fs : Fs) (task : Creds) (dev sb : Nat) : Except Fault Fs := do
  let (iroot, fs) ← fs.newInode task dev 1
  let fs := fs.setSuper sb { fs.superTable sb with iroot := some iroot }
  let fs := fs.modifyDesc iroot
    (InodeDesc.setMode (0o777 &&& (0o777 ^^^ task.umask) ||| ifdir))
  let fs := fs.modifyDesc iroot (InodeDesc.setSize 32)
  let fs := fs.modifyDesc iroot (InodeDesc.setNlinks 2)
  let (zone, fs) ← fs.bmap iroot 0 true
  let memory := (fs.block dev zone).fill 0 blockSize 0
  let nr := (fs.inodeTable iroot).nr
  let memory := writeEntry nr dotName memory 0
  return fs.writeBlock dev zone (writeEntry nr dotDotName memory 16)

/-- The part of `devmkfs` that follows its checks. -/
def format (fs : Fs) (task : Creds) (dev totalBlock icount : Nat) :
    Except Fault Fs := do
  let sb ← fs.getFreeSuper
  let desc := newSuperDesc totalBlock icount
  let fs := fs.writeBlock dev superBlockNr
    (SuperDesc.store (fs.block dev superBlockNr) desc)
  bounded (desc.imapBlocks ≤ mapNr ∧ desc.zmapBlocks ≤ mapNr)
  let super := fs.superTable sb
  let fs := fs.setSuper sb { super with
    dev := dev
    count := 1
    imaps := setBuffers super.imaps imapBlockNr desc.imapBlocks
    zmaps := setBuffers super.zmaps (imapBlockNr + desc.imapBlocks)
      desc.zmapBlocks }
  let fs := fs.clearMaps dev imapBlockNr (desc.imapBlocks + desc.zmapBlocks)
  let (_, fs) ← fs.balloc dev
  let (_, fs) ← fs.ialloc dev
  let (_, fs) ← fs.ialloc dev
  let super := fs.superTable sb
  let fs ← fs.fillMap dev super.imaps desc.imapBlocks (icount + 1)
  let fs ← fs.fillMap dev super.zmaps desc.zmapBlocks
    (zoneCount totalBlock desc.imapBlocks icount)
  let fs ← fs.makeRoot task dev sb
  fs.putSuper sb

/-- The part of `devmkfs` that releases the super block of an earlier use. -/
def dropSuper (fs : Fs) (dev : Nat) : Except Fault Fs :=
  match fs.getSuper dev with
  | some sb => (fs.holdSuper sb).putSuper sb
  | none => .ok fs

/-- The device is mounted. -/
def isMounted (fs : Fs) (dev : Nat) : Bool :=
  match fs.getSuper dev with
  | some sb => (fs.superTable sb).imount.isSome
  | none => false

/-- `devmkfs` on a device with `totalBlock` blocks.  The result is the value
returned. -/
def devmkfs (fs : Fs) (task : Creds) (dev totalBlock icount : Nat) :
    Except Fault (Int × Fs) := do
  let mounted := fs.isMounted dev
  let fs ← fs.dropSuper dev
  if mounted then
    return (-1, fs)
  check (totalBlock ≠ 0)
  check (icount < totalBlock)
  let icount := if icount = 0 then totalBlock / 3 else icount
  return (0, ← fs.format task dev totalBlock icount)

end Fs

end LightOS
