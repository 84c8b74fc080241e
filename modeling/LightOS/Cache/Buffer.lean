import LightOS.Kernel.Fault
import Mathlib.Algebra.GroupWithZero.Nat
import Mathlib.Logic.Function.Basic
import Mathlib.Data.List.Basic

/-!
# The buffer cache

The data model of `cache.h` and the functions of `cache.c` that run without
giving up the processor.  A `cache_t` is named by its index in the pool; its two
list nodes are represented by the sequences of the lists they are linked into,
so a node that is on no list is one whose links are null.  A device is an array
of sectors.
-/

namespace LightOS
namespace Cache

abbrev sectorSize : Nat := 512

abbrev blockSize : Nat := sectorSize * 2

abbrev blockSecs : Nat := blockSize / sectorSize

/-- Number of chains of the hash table. -/
abbrev hashCount : Nat := 101

/-- Size of the structure `cache_t` on the 32-bit target. -/
abbrev sizeofCache : Nat := 56

/-- A device number. -/
abbrev Dev := Nat

/-- A block number.  Sectors are numbered by 32-bit words, so a block of a
device has a number below this bound, and `block * BLOCK_SECS` does not wrap. -/
abbrev BlockNo := Fin (2 ^ 32 / blockSecs)

instance : NeZero blockSecs := ⟨by decide⟩

instance : NeZero (2 ^ 32 / blockSecs) := ⟨by decide⟩

/-- Content of one sector. -/
abbrev Sector := Fin sectorSize → UInt8

/-- Content of the data area of a buffer. -/
abbrev Data := Fin blockSecs → Sector

/-- Content of all block devices, by device number and sector index.  No two of them share a
sector, so that of a disk and its partitions only the one or the others are in use. -/
abbrev Disk := Dev → Nat → Sector

/-- Index of a sector of a block. -/
def sectorIndex (block : BlockNo) (offset : Fin blockSecs) : Nat :=
  block.val * blockSecs + offset.val

/-- Content of one block of a device. -/
def Disk.readBlock (disk : Disk) (dev : Dev) (block : BlockNo) : Data :=
  fun offset => disk dev (sectorIndex block offset)

/-- Replace one sector of a device. -/
def Disk.writeSector
    (disk : Disk) (dev : Dev) (index : Nat) (sector : Sector) : Disk :=
  Function.update disk dev (Function.update (disk dev) index sector)

/-- The structure `cache_t`.  `lockValue` and `lockWaiters` are the fields of
its mutex; waiting tasks are named by number. -/
structure Buffer where
  data : Data
  dev : Dev
  block : BlockNo
  count : Nat
  lockValue : Bool
  lockWaiters : List Nat
  dirty : Bool
  valid : Bool

/-- The static variables of `cache.c`, with the devices behind them.  Buffers
with an index from `cacheCount` on have not been carved from the pool. -/
structure PageCache where
  cacheCount : Nat
  buffer : Nat → Buffer
  freeList : List Nat
  hashTable : Nat → List Nat
  disk : Disk

/-- Change one buffer of the pool. -/
def PageCache.modify
    (cache : PageCache) (id : Nat) (change : Buffer → Buffer) : PageCache :=
  { cache with
    buffer := Function.update cache.buffer id (change (cache.buffer id)) }

/-- Change one chain of the hash table. -/
def PageCache.setChain
    (cache : PageCache) (index : Nat) (chain : List Nat) : PageCache :=
  { cache with hashTable := Function.update cache.hashTable index chain }

/-- The hash function. -/
def hash (dev : Dev) (block : BlockNo) : Nat :=
  (dev ^^^ block.val) % hashCount

/-- First buffer of a chain that carries a block. -/
def findInChain
    (cache : PageCache) (dev : Dev) (block : BlockNo) : Option Nat :=
  (cache.hashTable (hash dev block)).find? fun id =>
    (cache.buffer id).dev = dev ∧ (cache.buffer id).block = block

/-- `get_from_hash_table`: look a block up, and take the buffer found off the
free list. -/
def getFromHashTable
    (cache : PageCache) (dev : Dev) (block : BlockNo) :
    Option (Nat × PageCache) :=
  match findInChain cache dev block with
  | none => none
  | some id => some (id, { cache with freeList := cache.freeList.erase id })

/-- `hash_locate`. -/
def hashLocate (cache : PageCache) (id : Nat) : Except Fault PageCache := do
  let index := hash (cache.buffer id).dev (cache.buffer id).block
  check (id ∉ cache.hashTable index)
  return cache.setChain index (id :: cache.hashTable index)

/-- `hash_remove`. -/
def hashRemove (cache : PageCache) (id : Nat) : Except Fault PageCache := do
  let index := hash (cache.buffer id).dev (cache.buffer id).block
  check (id ∈ cache.hashTable index)
  return cache.setChain index ((cache.hashTable index).erase id)

/-- The device number `EOF` of a buffer that carries no block. -/
def noDev : Dev := 2 ^ 32 - 1

/-- `get_new_cache`: carve the next structure and its data area from the two
ends of the pool, while they do not meet.  The pool is given by its size. -/
def getNewCache (poolSize : Nat) (cache : PageCache) :
    Option (Nat × PageCache) :=
  let pointer := cache.cacheCount * sizeofCache
  let data := poolSize - blockSize - cache.cacheCount * blockSize
  if pointer + sizeofCache < data then
    let id := cache.cacheCount
    some (id, { cache.modify id fun buffer =>
      { buffer with
        dev := noDev
        block := 0
        count := 0
        dirty := false
        valid := false
        lockValue := false
        lockWaiters := [] } with
      cacheCount := cache.cacheCount + 1 })
  else
    none

/-- One turn of the loop of `get_free_cache`: a new buffer, else the buffer
released longest ago, else nothing, and the caller sleeps. -/
def getFreeCache (poolSize : Nat) (cache : PageCache) :
    Except Fault (Option (Nat × PageCache)) :=
  match getNewCache poolSize cache with
  | some carved => .ok (some carved)
  | none =>
      match cache.freeList.getLast? with
      | none => .ok none
      | some id => do
          let removed ← hashRemove
            { cache with freeList := cache.freeList.dropLast } id
          return some (id, removed.modify id fun buffer =>
            { buffer with valid := false })

/-- The end of `getblk`, once a free buffer was found. -/
def claim
    (cache : PageCache) (id : Nat) (dev : Dev) (block : BlockNo) :
    Except Fault PageCache := do
  check ((cache.buffer id).count = 0)
  check ((cache.buffer id).dirty = false)
  hashLocate
    (cache.modify id fun buffer =>
      { buffer with count := 1, dev := dev, block := block }) id

/-- How a call of `getblk` ends before any sleep. -/
inductive Acquired
  | buffer (id : Nat) (cache : PageCache)
  | asleep

/-- `getblk` after the lookup failed: one turn of `get_free_cache` and, when it
found a buffer, the rest of `getblk`. -/
def acquireFree
    (poolSize : Nat) (cache : PageCache) (dev : Dev) (block : BlockNo) :
    Except Fault Acquired := do
  match ← getFreeCache poolSize cache with
  | none => return .asleep
  | some (id, free) => return .buffer id (← claim free id dev block)

/-- `getblk` up to its end or its first sleep. -/
def getblk
    (poolSize : Nat) (cache : PageCache) (dev : Dev) (block : BlockNo) :
    Except Fault Acquired :=
  match getFromHashTable cache dev block with
  | some (id, found) =>
      .ok (.buffer id (found.modify id fun buffer =>
        { buffer with count := buffer.count + 1 }))
  | none => acquireFree poolSize cache dev block

/-- The part of `brelse` before it writes the buffer back: drop a reference
and, with the last one, publish the buffer on the free list.  The result tells
whether it was the last. -/
def release (cache : PageCache) (id : Nat) :
    Except Fault (PageCache × Bool) := do
  check (0 < (cache.buffer id).count)
  let dropped := cache.modify id fun buffer =>
    { buffer with count := buffer.count - 1 }
  if (dropped.buffer id).count ≠ 0 then
    return (dropped, false)
  else
    check (id ∉ dropped.freeList)
    return ({ dropped with freeList := id :: dropped.freeList }, true)

end Cache
end LightOS
