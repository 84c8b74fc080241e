import LightOS.Fs.State
import LightOS.Kernel.Bitmap

/-!
# Zones and inode numbers

The functions of `bmap.c`.  The bitmaps of a device are scanned block by block;
`balloc` and `ialloc` differ in the blocks they scan, in the number that the first
bit stands for and in the bound they assert.
-/

namespace LightOS
namespace Fs

/-- A bitmap that takes up a block. -/
def blockMap (offset : Nat) : Bitmap where
  bits := 0
  length := blockSize
  offset := offset

/-- The loop that `balloc` and `ialloc` share: `left` bitmap blocks of the device
are still to be scanned, the next one being `first + i`. -/
def scanMaps (fs : Fs) (dev first offset limit : Nat) :
    Nat → Nat → Except Fault (Nat × Fs)
  | 0, _ => .ok (eof, fs)
  | left + 1, i => do
      let map := blockMap ((offset + i * blockBits) % 2 ^ 32)
      match ← map.scan (fs.block dev (first + i)) 1 with
      | some (bit, memory) =>
          check (bit < limit)
          return (bit, fs.writeBlock dev (first + i) memory)
      | none => scanMaps fs dev first offset limit left (i + 1)

/-- `balloc`.  The buffer that `bwrite` asserts to be there is that of the last
block scanned. -/
def balloc (fs : Fs) (dev : Nat) : Except Fault (Nat × Fs) := do
  check (fs.getSuper dev).isSome
  let desc := fs.superDesc dev
  let result ← fs.scanMaps dev (imapBlockNr + desc.imapBlocks)
    (desc.firstdatazone + (2 ^ 32 - 1)) desc.zones desc.zmapBlocks 0
  check (0 < desc.zmapBlocks)
  return result

/-- `ialloc`. -/
def ialloc (fs : Fs) (dev : Nat) : Except Fault (Nat × Fs) := do
  check (fs.getSuper dev).isSome
  let desc := fs.superDesc dev
  let result ← fs.scanMaps dev imapBlockNr 0 desc.inodes desc.imapBlocks 0
  check (0 < desc.imapBlocks)
  return result

/-- What `bfree` and `ifree` do with the bitmap block that covers an index. -/
def clearBit (fs : Fs) (dev : Nat) (buffer : Option Nat) (offset idx : Nat) :
    Except Fault Fs := do
  match buffer with
  | none => throw .assertion
  | some number =>
      let map := blockMap offset
      let taken ← map.test (fs.block dev number) idx
      check (taken = true)
      let memory ← map.set (fs.block dev number) idx false
      return fs.writeBlock dev number memory

/-- `bfree`. -/
def bfree (fs : Fs) (dev idx : Nat) : Except Fault Fs := do
  match fs.getSuper dev with
  | none => throw .assertion
  | some sb =>
      let desc := fs.superDesc dev
      check (idx < desc.zones)
      let base := sub32 desc.firstdatazone 1
      let blockIdx := sub32 idx base / blockBits
      bounded (blockIdx < mapNr)
      fs.clearBit dev ((fs.superTable sb).zmaps blockIdx)
        (add32 base (blockIdx * blockBits)) idx

/-- `ifree`. -/
def ifree (fs : Fs) (dev idx : Nat) : Except Fault Fs := do
  match fs.getSuper dev with
  | none => throw .assertion
  | some sb =>
      let desc := fs.superDesc dev
      check (idx < desc.zones)
      let blockIdx := idx / blockBits
      bounded (blockIdx < mapNr)
      fs.clearBit dev ((fs.superTable sb).imaps blockIdx)
        (blockIdx * blockBits) idx

/-- The entry of an array of block numbers, at an address of a block. -/
def indexAt (fs : Fs) (dev cache address : Nat) : Nat :=
  (fs.block dev cache).half address

/-- The body of the loop of `bmap`: fill in an entry that is still empty. -/
def fillIndex (fs : Fs) (dev cache address : Nat) (create : Bool) :
    Except Fault Fs := do
  if fs.indexAt dev cache address = 0 ∧ create = true then
    let (zone, fs) ← fs.balloc dev
    return fs.writeBlock dev cache
      ((fs.block dev cache).setHalf address zone)
  else
    return fs

/-- The loop at the label `reckon`.  The array of a level lies at an address of
the block `cache`. -/
def reckon (dev : Nat) (create : Bool) :
    Nat → Fs → Nat → Nat → Nat → Nat → Nat → Except Fault (Nat × Fs)
  | 0, fs, cache, array, index, _, _ => do
      let fs ← fs.fillIndex dev cache (array + 2 * index) create
      return (fs.indexAt dev cache (array + 2 * index), fs)
  | level + 1, fs, cache, array, index, block, divider => do
      let fs ← fs.fillIndex dev cache (array + 2 * index) create
      let next := fs.indexAt dev cache (array + 2 * index)
      if next = 0 then
        return (0, fs)
      else
        reckon dev create level fs next 0 (block / divider) (block % divider)
          (divider / blockIndexes)

/-- Address in its block of the zone array of an inode. -/
def zoneStart (fs : Fs) (ino : Nat) : Nat :=
  fs.descStart ino + 14

/-- `bmap`. -/
def bmap (fs : Fs) (ino block : Nat) (create : Bool) :
    Except Fault (Nat × Fs) := do
  check (block < totalBlocks)
  let inode := fs.inodeTable ino
  let array := fs.zoneStart ino
  if block < directBlocks then
    reckon inode.dev create 0 fs inode.block array block block 1
  else if block - directBlocks < blockIndexes then
    reckon inode.dev create 1 fs inode.block array directBlocks
      (block - directBlocks) 1
  else
    reckon inode.dev create 2 fs inode.block array (directBlocks + 1)
      (block - directBlocks - blockIndexes) blockIndexes

end Fs

end LightOS
