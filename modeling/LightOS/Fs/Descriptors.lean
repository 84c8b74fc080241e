import LightOS.Fs.State

/-!
# Reading descriptors back

Each assignment to a field of a descriptor changes that field alone, and no byte
outside the descriptor.
-/

namespace LightOS

open Memory

namespace SuperDesc

/-- The fields of a descriptor have the widths of the structure. -/
structure InRange (desc : SuperDesc) : Prop where
  inodes : desc.inodes < 2 ^ 16
  zones : desc.zones < 2 ^ 16
  imapBlocks : desc.imapBlocks < 2 ^ 16
  zmapBlocks : desc.zmapBlocks < 2 ^ 16
  firstdatazone : desc.firstdatazone < 2 ^ 16
  logZoneSize : desc.logZoneSize < 2 ^ 16
  maxSize : desc.maxSize < 2 ^ 32
  magic : desc.magic < 2 ^ 16

/-- A stored descriptor reads back. -/
theorem read_store (memory : Memory) {desc : SuperDesc} (inRange : desc.InRange) :
    read (store memory desc) = desc := by
  unfold read store
  simp (disch := decide) only [half_setHalf, half_setHalf_other, word_setWord,
    half_setWord_other, word_setHalf_other]
  simp only [Nat.mod_eq_of_lt inRange.inodes, Nat.mod_eq_of_lt inRange.zones,
    Nat.mod_eq_of_lt inRange.imapBlocks, Nat.mod_eq_of_lt inRange.zmapBlocks,
    Nat.mod_eq_of_lt inRange.firstdatazone,
    Nat.mod_eq_of_lt inRange.logZoneSize, Nat.mod_eq_of_lt inRange.maxSize,
    Nat.mod_eq_of_lt inRange.magic]

end SuperDesc

namespace InodeDesc

@[ext] theorem ext {left right : InodeDesc}
    (mode : left.mode = right.mode) (uid : left.uid = right.uid)
    (size : left.size = right.size) (mtime : left.mtime = right.mtime)
    (gid : left.gid = right.gid) (nlinks : left.nlinks = right.nlinks)
    (zone : ∀ index, left.zone index = right.zone index) : left = right := by
  cases left
  cases right
  have sameZone := funext zone
  simp_all

/-- Memories that agree on a descriptor read the same one. -/
theorem read_congr {left right : Memory} {start : Nat}
    (agree : AgreeOn left right start 32) :
    read left start = read right start := by
  ext
  · exact (agree.mono (by omega) (by omega)).half_eq
  · exact (agree.mono (by omega) (by omega)).half_eq
  · exact (agree.mono (by omega) (by omega)).word_eq
  · exact (agree.mono (by omega) (by omega)).word_eq
  · exact congrArg UInt8.toNat (agree _ (by omega) (by omega))
  · exact congrArg UInt8.toNat (agree _ (by omega) (by omega))
  · rename_i index
    have inside := index.isLt
    exact (agree.mono (by omega) (by omega)).half_eq

/-- A change of a descriptor stays inside it. -/
def Confined (change : Memory → Nat → Memory) : Prop :=
  ∀ memory start, ChangesIn memory (change memory start) start 32

section Fields

variable (memory : Memory) (start value : Nat)

theorem confined_setSize : Confined (setSize value) := fun memory start =>
  (changesIn_setWord memory (start + 4) value).mono (by omega) (by omega)

theorem confined_setMtime : Confined (setMtime value) := fun memory start =>
  (changesIn_setWord memory (start + 8) value).mono (by omega) (by omega)

theorem confined_setZone (index : Fin 9) : Confined (setZone index value) := by
  intro memory start
  have inside := index.isLt
  exact (changesIn_setHalf memory (start + 14 + 2 * index) value).mono
    (by omega) (by omega)

@[simp] theorem read_setMode :
    read (setMode value memory start) start =
      { read memory start with mode := value % 2 ^ 16 } := by
  ext <;> simp (disch := omega) only [read, setMode, half_setHalf,
    half_setHalf_other, word_setHalf_other, setHalf_other]

@[simp] theorem read_setUid :
    read (setUid value memory start) start =
      { read memory start with uid := value % 2 ^ 16 } := by
  ext <;> simp (disch := omega) only [read, setUid, half_setHalf,
    half_setHalf_other, word_setHalf_other, setHalf_other]

@[simp] theorem read_setSize :
    read (setSize value memory start) start =
      { read memory start with size := value % 2 ^ 32 } := by
  ext <;> simp (disch := omega) only [read, setSize, word_setWord,
    half_setWord_other, word_setWord_other, setWord_other]

@[simp] theorem read_setMtime :
    read (setMtime value memory start) start =
      { read memory start with mtime := value % 2 ^ 32 } := by
  ext <;> simp (disch := omega) only [read, setMtime, word_setWord,
    half_setWord_other, word_setWord_other, setWord_other]

@[simp] theorem read_setGid :
    read (setGid value memory start) start =
      { read memory start with gid := value % 2 ^ 8 } := by
  ext <;> simp (disch := omega) only [read, setGid, setByte_self,
    half_setByte_other, word_setByte_other, setByte_other, UInt8.toNat_ofNat']

@[simp] theorem read_setNlinks :
    read (setNlinks value memory start) start =
      { read memory start with nlinks := value % 2 ^ 8 } := by
  ext <;> simp (disch := omega) only [read, setNlinks, setByte_self,
    half_setByte_other, word_setByte_other, setByte_other, UInt8.toNat_ofNat']

@[simp] theorem read_setZone (index : Fin 9) :
    read (setZone index value memory start) start =
      { read memory start with
        zone := Function.update (read memory start).zone index
          (value % 2 ^ 16) } := by
  have inside := index.isLt
  ext
  case zone other =>
    unfold read setZone
    by_cases same : other = index
    · subst same
      simp only [half_setHalf, Function.update_self]
    · have apart : other.val ≠ index.val := fun equal => same (Fin.ext equal)
      simp only [Function.update_of_ne same]
      exact half_setHalf_other _ (by omega)
  all_goals
    simp (disch := omega) only [read, setZone, half_setHalf_other,
      word_setHalf_other, setHalf_other]

end Fields

end InodeDesc

namespace Fs

section Inodes

variable (fs : Fs) (ino : Nat) (change : Memory → Nat → Memory)

theorem modifyDesc_block_other {dev number : Nat}
    (different : ¬(dev = (fs.inodeTable ino).dev ∧
      number = (fs.inodeTable ino).block)) :
    (fs.modifyDesc ino change).block dev number = fs.block dev number :=
  writeBlock_block_other _ _ _ _ different

theorem modifyDesc_block_self :
    (fs.modifyDesc ino change).block (fs.inodeTable ino).dev
        (fs.inodeTable ino).block =
      change (fs.block (fs.inodeTable ino).dev (fs.inodeTable ino).block)
        (fs.descStart ino) :=
  writeBlock_block_self _ _ _ _

/-- The descriptor of an inode after a change. -/
theorem modifyDesc_desc : (fs.modifyDesc ino change).desc ino =
    InodeDesc.read
      (change (fs.block (fs.inodeTable ino).dev (fs.inodeTable ino).block)
        (fs.descStart ino)) (fs.descStart ino) := by
  unfold desc modifyDesc
  rw [writeBlock_inodeTable, writeBlock_block_self]
  rfl

theorem setSize_desc (value : Nat) :
    (fs.modifyDesc ino (InodeDesc.setSize value)).desc ino =
      { fs.desc ino with size := value % 2 ^ 32 } := by
  rw [modifyDesc_desc, InodeDesc.read_setSize]
  rfl

theorem setMtime_desc (value : Nat) :
    (fs.modifyDesc ino (InodeDesc.setMtime value)).desc ino =
      { fs.desc ino with mtime := value % 2 ^ 32 } := by
  rw [modifyDesc_desc, InodeDesc.read_setMtime]
  rfl

theorem setZone_desc (index : Fin 9) (value : Nat) :
    (fs.modifyDesc ino (InodeDesc.setZone index value)).desc ino =
      { fs.desc ino with
        zone := Function.update (fs.desc ino).zone index (value % 2 ^ 16) } := by
  rw [modifyDesc_desc, InodeDesc.read_setZone]
  rfl

end Inodes

end Fs

end LightOS
