import LightOS.Foundation.Accounts
import LightOS.Fs.Content

/-!
# Buffers

The functions of `bmap.c`, `inode.c` and `namei.c` on one inode, with the references that
they take to buffers and give back.  A buffer is named by its device and its block.  What a
function that never calls `bread` or `brelse` does is taken over as it stands.

`balloc` and `ialloc` pass a guard before they scan a map, so that a run tells whether it
comes to them.
-/

namespace LightOS
namespace Fs

/-- A buffer: the device and the number of its block. -/
abbrev BufferId := Nat × Nat

/-- The file systems, with the counts of the buffers. -/
abbrev Buffers := Counted Fs BufferId

/-- Computations that take and give back references to buffers. -/
abbrev Buffered := Counting Fs BufferId

/-- The buffer that `cache` of an inode points to. -/
def cache (fs : Fs) (ino : Nat) : BufferId :=
  ((fs.inodeTable ino).dev, (fs.inodeTable ino).block)

namespace Buffered

open Counting (view replace)

/-- `bread`. -/
def bread (dev number : Nat) : Buffered BufferId := do
  Counting.acquire (dev, number)
  return (dev, number)

theorem bread_bind {Value : Type} (dev number : Nat) (next : BufferId → Buffered Value) :
    (bread dev number >>= next) =
      Counting.acquire (dev, number) >>= fun _ => next (dev, number) :=
  rfl

/-- `brelse`. -/
def brelse (pcache : BufferId) : Buffered Unit :=
  Counting.release pcache

/-- `brelse` of a pointer that may be null. -/
def brelseOption : Option BufferId → Buffered Unit
  | none => return
  | some pcache => brelse pcache

/-! ## Zones and inode numbers -/

/-- The loop that `balloc` and `ialloc` share.  The buffer of a round is not given back. -/
def scanMaps (dev first offset limit : Nat) : Nat → Nat → Buffered Nat
  | 0, _ => return eof
  | left + 1, i => do
      let pcache ← bread dev (first + i)
      let fs ← view
      let map := blockMap ((offset + i * blockBits) % 2 ^ 32)
      match ← map.scan (fs.block dev pcache.2) 1 with
      | some (bit, memory) =>
          check (bit < limit)
          replace (fs.writeBlock dev pcache.2 memory)
          return bit
      | none => scanMaps dev first offset limit left (i + 1)

/-- `balloc`. -/
def balloc (dev : Nat) : Buffered Nat := do
  let fs ← view
  check (fs.getSuper dev).isSome
  let desc := fs.superDesc dev
  Counting.guarded
  let bit ← scanMaps dev (imapBlockNr + desc.imapBlocks)
    (desc.firstdatazone + (2 ^ 32 - 1)) desc.zones desc.zmapBlocks 0
  check (0 < desc.zmapBlocks)
  return bit

/-- `ialloc`. -/
def ialloc (dev : Nat) : Buffered Nat := do
  let fs ← view
  check (fs.getSuper dev).isSome
  let desc := fs.superDesc dev
  Counting.guarded
  let bit ← scanMaps dev imapBlockNr 0 desc.inodes desc.imapBlocks 0
  check (0 < desc.imapBlocks)
  return bit

/-- `bfree`.  The map is in a buffer of the super block. -/
def bfree (dev idx : Nat) : Buffered Unit := do
  let fs ← view
  let fs ← fs.bfree dev idx
  replace fs

/-- `ifree`.  The map is in a buffer of the super block. -/
def ifree (dev idx : Nat) : Buffered Unit := do
  let fs ← view
  let fs ← fs.ifree dev idx
  replace fs

/-- The body of the loop of `bmap`: fill in an entry that is still empty. -/
def fillIndex (pcache : BufferId) (address : Nat) (create : Bool) : Buffered Unit := do
  let fs ← view
  if fs.indexAt pcache.1 pcache.2 address = 0 ∧ create = true then
    let zone ← balloc pcache.1
    let fs ← view
    replace (fs.writeBlock pcache.1 pcache.2
      ((fs.block pcache.1 pcache.2).setHalf address zone))
  else
    return

/-- The loop at the label `reckon`. -/
def reckon (create : Bool) :
    Nat → BufferId → Nat → Nat → Nat → Nat → Buffered Nat
  | 0, pcache, array, index, _, _ => do
      fillIndex pcache (array + 2 * index) create
      let fs ← view
      brelse pcache
      return fs.indexAt pcache.1 pcache.2 (array + 2 * index)
  | level + 1, pcache, array, index, block, divider => do
      fillIndex pcache (array + 2 * index) create
      let fs ← view
      brelse pcache
      let next := fs.indexAt pcache.1 pcache.2 (array + 2 * index)
      if next = 0 then
        return 0
      else
        let pcache ← bread pcache.1 next
        reckon create level pcache 0 (block / divider) (block % divider)
          (divider / blockIndexes)

/-- `bmap`.  The buffer of the inode is held once more, as it is given back in the loop. -/
def bmap (ino block : Nat) (create : Bool) : Buffered Nat := do
  check (block < totalBlocks)
  let fs ← view
  let pcache := fs.cache ino
  let array := fs.zoneStart ino
  Counting.acquire pcache
  if block < directBlocks then
    reckon create 0 pcache array block block 1
  else if block - directBlocks < blockIndexes then
    reckon create 1 pcache array directBlocks (block - directBlocks) 1
  else
    reckon create 2 pcache array (directBlocks + 1)
      (block - directBlocks - blockIndexes) blockIndexes

/-! ## Inodes -/

/-- `inode_bfree` of the entry at an address of the block `cache`. -/
def inodeBfree (dev : Nat) : Nat → Nat → Nat → Buffered Unit
  | 0, cache, address => do
      let fs ← view
      if fs.indexAt dev cache address = 0 then
        return
      else
        bfree dev (fs.indexAt dev cache address)
  | level + 1, cache, address => do
      let fs ← view
      let next := fs.indexAt dev cache address
      if next = 0 then
        return
      else
        let pcache ← bread dev next
        forM (List.range blockIndexes) fun i => inodeBfree dev level pcache.2 (2 * i)
        brelse pcache
        let fs ← view
        bfree dev (fs.indexAt dev cache address)

/-- Free what one slot of the zone array refers to and clear the slot. -/
def releaseZone (ino level : Nat) (index : Fin 9) : Buffered Unit := do
  let fs ← view
  let inode := fs.inodeTable ino
  inodeBfree inode.dev level inode.block (fs.zoneStart ino + 2 * index)
  let fs ← view
  replace (fs.modifyDesc ino (InodeDesc.setZone index 0))

/-- `inode_truncate`. -/
def inodeTruncate (ino : Nat) : Buffered Unit := do
  let fs ← view
  if ¬isFile (fs.desc ino).mode ∧ ¬isDir (fs.desc ino).mode then
    return
  else
    forM (List.finRange 9) fun index => releaseZone ino (zoneLevel index) index
    let fs ← view
    let fs := fs.modifyDesc ino (InodeDesc.setSize 0)
    replace (fs.modifyDesc ino (InodeDesc.setMtime fs.time))

/-- `iput` of an inode.  The memory of a pipe is not a buffer. -/
def iput (ino : Nat) : Buffered Unit := do
  let fs ← view
  if (fs.inodeTable ino).pipe then
    let fs ← fs.putPipeInode ino
    replace fs
  else
    let fs := fs.setCount ino (sub32 (fs.inodeTable ino).count 1)
    if (fs.inodeTable ino).count ≠ 0 then
      replace fs
    else
      brelse (fs.cache ino)
      let fs ← fs.unlistInode ino
      let fs ← fs.putFreeInode ino
      replace fs

/-- `iput` of a pointer that may be null. -/
def iputOption : Option Nat → Buffered Unit
  | none => return
  | some ino => iput ino

/-- `fit_inode`. -/
def fitInode (ino : Nat) : Buffered Nat := do
  let fs ← view
  if (fs.inodeTable ino).mount = 0 then
    return ino
  else
    match fs.getSuper (fs.inodeTable ino).mount with
    | none => throw .assertion
    | some sb =>
        iput ino
        let fs ← view
        match (fs.superTable sb).iroot with
        | none => throw .wild
        | some root =>
            replace (fs.setCount root (add32 (fs.inodeTable root).count 1))
            return root

/-- The part of `iget` for an inode that is not in memory. -/
def loadInode (sb dev nr : Nat) : Buffered Nat := do
  let fs ← view
  let (ino, fs) ← fs.loadInode sb dev nr
  replace fs
  let _ ← bread dev (fs.inodeTable ino).block
  return ino

/-- `iget`. -/
def iget (dev nr : Nat) : Buffered Nat := do
  let fs ← view
  match ← fs.findInode dev nr with
  | some ino =>
      replace (fs.setCount ino (add32 (fs.inodeTable ino).count 1))
      fitInode ino
  | none =>
      match fs.getSuper dev with
      | none => throw .assertion
      | some sb => loadInode sb dev nr

/-- `new_inode`. -/
def newInode (task : Creds) (dev nr : Nat) : Buffered Nat := do
  let ino ← iget dev nr
  let fs ← view
  replace (fs.modifyDesc ino (fs.initialDesc task))
  return ino

/-! ## Content of files -/

/-- The loop of `inode_read`. -/
def readLoop (ino : Nat) : Nat → Int → Nat → Buffered (Int × List UInt8)
  | 0, offset, left => if left = 0 then return (offset, []) else throw .blocked
  | rounds + 1, offset, left => do
      if left = 0 then
        return (offset, [])
      else
        let nr ← bmap ino (blockIndex offset) false
        check (nr ≠ 0)
        let fs ← view
        let pcache ← bread (fs.inodeTable ino).dev nr
        let start := blockOffset offset
        let chars := roundLength offset left
        bounded (start + chars ≤ blockSize)
        let data := fs.block pcache.1 pcache.2
        let copied := (List.range chars).map fun i => data (start + i)
        brelse pcache
        let (final, rest) ←
          readLoop ino rounds (advance offset chars) (left - chars)
        return (final, copied ++ rest)

/-- `inode_read`: the value returned and the bytes copied to the caller. -/
def inodeRead (ino len : Nat) (offset : Int) : Buffered (Int × List UInt8) := do
  let fs ← view
  let desc := fs.desc ino
  check (isFile desc.mode ∨ isDir desc.mode)
  if desc.size ≤ toUnsigned offset then
    return (-1, [])
  else if len = 0 then
    return (0, [])
  else
    let left := min len (sub32 desc.size (toUnsigned offset))
    let (final, bytes) ← readLoop ino left offset left
    return (transferred final offset, bytes)

/-- The loop of `inode_write`. -/
def writeLoop (ino : Nat) : Nat → (Nat → UInt8) → Int → Nat → Buffered Int
  | 0, _, offset, left => if left = 0 then return offset else throw .blocked
  | rounds + 1, buf, offset, left => do
      if left = 0 then
        return offset
      else
        let nr ← bmap ino (blockIndex offset) true
        check (nr ≠ 0)
        let fs ← view
        let pcache ← bread (fs.inodeTable ino).dev nr
        let chars := roundLength offset left
        bounded (blockOffset offset + chars ≤ blockSize)
        replace (fs.writeRound ino pcache.2 buf offset chars)
        brelse pcache
        writeLoop ino rounds (fun i => buf (chars + i)) (advance offset chars)
          (left - chars)

/-- `inode_write` of `len` bytes of a buffer. -/
def inodeWrite (ino : Nat) (buf : Nat → UInt8) (len : Nat) (offset : Int) :
    Buffered Int := do
  let fs ← view
  check (isFile (fs.desc ino).mode)
  if fileMaxSize ≤ add32 len (toUnsigned offset) then
    return -1
  else
    let final ← writeLoop ino len buf offset len
    let fs ← view
    replace (fs.modifyDesc ino (InodeDesc.setMtime fs.time))
    return transferred final offset

end Buffered

end Fs
end LightOS
