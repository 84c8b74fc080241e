import LightOS.Fs.Inodes

/-!
# Content of files

The functions `inode_read` and `inode_write` of `namei.c`.  An offset is a signed
word, a length and a size are unsigned words, and a comparison between the two
kinds is one of unsigned words.  A copy that leaves the buffer of a block stops
the model.
-/

namespace LightOS
namespace Fs

/-- Place in its block of an offset of a file. -/
def blockOffset (offset : Int) : Nat :=
  toUnsigned (offset.tmod blockSize)

/-- Block of a file that an offset lies in. -/
def blockIndex (offset : Int) : Nat :=
  toUnsigned (offset.tdiv blockSize)

/-- Advance an offset. -/
def advance (offset : Int) (chars : Nat) : Int :=
  toSigned (toUnsigned offset + chars)

/-- The bytes copied in one round: the rest of the block, or what is left. -/
def roundLength (offset : Int) (left : Nat) : Nat :=
  min (sub32 blockSize (blockOffset offset)) left

/-- The value that `inode_read` and `inode_write` return. -/
def transferred (offset start : Int) : Int :=
  toSigned (sub32 (toUnsigned offset) (toUnsigned start))

/-- The loop of `inode_read`, with the offset and the bytes that are left.  The
result holds the final offset and the bytes copied to the caller.  Every round
copies a byte, so as many rounds as bytes are enough. -/
def readLoop (fs : Fs) (ino : Nat) :
    Nat → Int → Nat → Except Fault (Int × List UInt8)
  | 0, offset, left => if left = 0 then .ok (offset, []) else .error .blocked
  | rounds + 1, offset, left => do
      if left = 0 then
        return (offset, [])
      let (nr, _) ← fs.bmap ino (blockIndex offset) false
      check (nr ≠ 0)
      let start := blockOffset offset
      let chars := roundLength offset left
      bounded (start + chars ≤ blockSize)
      let data := fs.block (fs.inodeTable ino).dev nr
      let copied := (List.range chars).map fun i => data (start + i)
      let (final, rest) ←
        readLoop fs ino rounds (advance offset chars) (left - chars)
      return (final, copied ++ rest)

/-- `inode_read`: the value returned and the bytes copied to the caller. -/
def inodeRead (fs : Fs) (ino len : Nat) (offset : Int) :
    Except Fault (Int × List UInt8) := do
  let desc := fs.desc ino
  check (isFile desc.mode ∨ isDir desc.mode)
  if desc.size ≤ toUnsigned offset then
    return (-1, [])
  if len = 0 then
    return (0, [])
  let left := min len (sub32 desc.size (toUnsigned offset))
  let (final, bytes) ← fs.readLoop ino left offset left
  return (transferred final offset, bytes)

/-- One round of the loop of `inode_write`: copy `chars` bytes to the block `nr`. -/
def writeRound (fs : Fs) (ino nr : Nat) (buf : Nat → UInt8) (offset : Int)
    (chars : Nat) : Fs :=
  let dev := (fs.inodeTable ino).dev
  let reached := toUnsigned (advance offset chars)
  let fs :=
    if (fs.desc ino).size < reached then
      fs.modifyDesc ino (InodeDesc.setSize reached)
    else
      fs
  fs.writeBlock dev nr
    ((fs.block dev nr).store (blockOffset offset) chars buf)

/-- The loop of `inode_write`. -/
def writeLoop (ino : Nat) :
    Nat → Fs → (Nat → UInt8) → Int → Nat → Except Fault (Int × Fs)
  | 0, fs, _, offset, left =>
      if left = 0 then .ok (offset, fs) else .error .blocked
  | rounds + 1, fs, buf, offset, left => do
      if left = 0 then
        return (offset, fs)
      let (nr, fs) ← fs.bmap ino (blockIndex offset) true
      check (nr ≠ 0)
      let chars := roundLength offset left
      bounded (blockOffset offset + chars ≤ blockSize)
      writeLoop ino rounds (fs.writeRound ino nr buf offset chars)
        (fun i => buf (chars + i)) (advance offset chars) (left - chars)

/-- `inode_write` of `len` bytes of a buffer. -/
def inodeWrite (fs : Fs) (ino : Nat) (buf : Nat → UInt8) (len : Nat)
    (offset : Int) : Except Fault (Int × Fs) := do
  check (isFile (fs.desc ino).mode)
  if fileMaxSize ≤ add32 len (toUnsigned offset) then
    return (-1, fs)
  let (final, fs) ← writeLoop ino len fs buf offset len
  return (transferred final offset,
    fs.modifyDesc ino (InodeDesc.setMtime fs.time))

end Fs

end LightOS
