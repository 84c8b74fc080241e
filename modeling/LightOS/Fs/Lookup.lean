import LightOS.Fs.Content
import LightOS.Fs.Maps

/-!
# Looking zones up

With `create` false, `bmap` follows the pointers of an inode without changing
anything.  The pointers that it meets for a block of the file form a chain.  A
file whose chains and blocks are left alone keeps its content.
-/

namespace LightOS
namespace Fs

variable {block cache : Nat}

/-- The pointers met in `levels` levels of index blocks, the first of them in the
block `cache`. -/
def zoneChain (fs : Fs) (dev : Nat) : Nat → Nat → Nat → Nat → Nat → Nat → List Nat
  | 0, cache, array, index, _, _ =>
      [fs.indexAt dev cache (array + 2 * index)]
  | level + 1, cache, array, index, block, divider =>
      let next := fs.indexAt dev cache (array + 2 * index)
      next ::
        if next = 0 then
          []
        else
          zoneChain fs dev level next 0 (block / divider) (block % divider)
            (divider / blockIndexes)

/-- The pointers that `bmap` meets for a block of a file. -/
def chainOf (fs : Fs) (ino block : Nat) : List Nat :=
  let inode := fs.inodeTable ino
  let array := fs.zoneStart ino
  if block < directBlocks then
    fs.zoneChain inode.dev 0 inode.block array block block 1
  else if block - directBlocks < blockIndexes then
    fs.zoneChain inode.dev 1 inode.block array directBlocks
      (block - directBlocks) 1
  else
    fs.zoneChain inode.dev 2 inode.block array (directBlocks + 1)
      (block - directBlocks - blockIndexes) blockIndexes

/-- The zone of a block of a file, or zero. -/
def zoneOf (fs : Fs) (ino block : Nat) : Nat :=
  (fs.chainOf ino block).getLastD 0

/-- A file refers to a block: the block is met on the way to one of its zones. -/
def Refers (fs : Fs) (ino number : Nat) : Prop :=
  number ≠ 0 ∧ ∃ block, block < totalBlocks ∧ number ∈ fs.chainOf ino block

theorem fillIndex_false (fs : Fs) (dev cache address : Nat) :
    fs.fillIndex dev cache address false = .ok fs := by
  simp [fillIndex]

theorem reckon_false (fs : Fs) (dev level cache array index block divider : Nat) :
    reckon dev false level fs cache array index block divider =
      .ok ((fs.zoneChain dev level cache array index block divider).getLastD 0,
        fs) := by
  induction level generalizing cache array index block divider with
  | zero => simp [reckon, zoneChain, fillIndex_false]
  | succ level inductionHypothesis =>
      rw [reckon, zoneChain, fillIndex_false, ok_bind]
      dsimp only
      by_cases empty : fs.indexAt dev cache (array + 2 * index) = 0
      · simp [empty]
      · rw [if_neg empty, if_neg empty, inductionHypothesis]
        cases level <;> simp [zoneChain]

/-- `bmap` without `create` returns the zone of a block within reach. -/
theorem bmap_false (fs : Fs) (ino : Nat) (inReach : block < totalBlocks) :
    fs.bmap ino block false = .ok (fs.zoneOf ino block, fs) := by
  unfold bmap zoneOf chainOf
  rw [check_true inReach, ok_bind]
  dsimp only
  split
  · exact fs.reckon_false _ _ _ _ _ _ _
  · split
    · exact fs.reckon_false _ _ _ _ _ _ _
    · exact fs.reckon_false _ _ _ _ _ _ _

theorem fillIndex_filled {fs : Fs} {dev address : Nat} (create : Bool)
    (filled : fs.indexAt dev cache address ≠ 0) :
    fs.fillIndex dev cache address create = .ok fs := by
  unfold fillIndex
  rw [if_neg fun both => filled both.1, pure_eq_ok]

theorem reckon_filled (fs : Fs) (dev : Nat) (create : Bool) {level array index divider : Nat}
    (filled : (fs.zoneChain dev level cache array index block divider).getLastD 0 ≠ 0) :
    reckon dev create level fs cache array index block divider =
      .ok ((fs.zoneChain dev level cache array index block divider).getLastD 0, fs) := by
  induction level generalizing cache array index block divider with
  | zero =>
      simp only [zoneChain, List.getLastD_cons, List.getLastD_nil] at filled ⊢
      rw [reckon, fillIndex_filled create filled, ok_bind, pure_eq_ok]
  | succ level inductionHypothesis =>
      rw [zoneChain] at filled ⊢
      have hasNext : fs.indexAt dev cache (array + 2 * index) ≠ 0 := by
        intro empty
        rw [if_pos empty] at filled
        exact filled empty
      have inner (first : Nat) : (first :: fs.zoneChain dev level
          (fs.indexAt dev cache (array + 2 * index)) 0 (block / divider) (block % divider)
            (divider / blockIndexes)).getLastD 0 =
          (fs.zoneChain dev level (fs.indexAt dev cache (array + 2 * index)) 0
            (block / divider) (block % divider) (divider / blockIndexes)).getLastD 0 := by
        cases level <;> simp [zoneChain]
      rw [if_neg hasNext, inner] at filled ⊢
      rw [reckon, fillIndex_filled create hasNext, ok_bind]
      dsimp only
      rw [if_neg hasNext, inductionHypothesis filled]

/-- `bmap` finds the zone of a block that has one, whether it may create one or not. -/
theorem bmap_mapped (fs : Fs) {ino : Nat} (create : Bool) (inReach : block < totalBlocks)
    (mapped : fs.zoneOf ino block ≠ 0) :
    fs.bmap ino block create = .ok (fs.zoneOf ino block, fs) := by
  unfold bmap
  unfold zoneOf chainOf at mapped ⊢
  rw [check_true inReach, ok_bind]
  dsimp only at mapped ⊢
  split
  · rw [if_pos ‹_›] at mapped
    exact fs.reckon_filled _ create mapped
  · rw [if_neg ‹_›] at mapped
    split
    · rw [if_pos ‹_›] at mapped
      exact fs.reckon_filled _ create mapped
    · rw [if_neg ‹_›] at mapped
      exact fs.reckon_filled _ create mapped

/-- A zone of a file is one of the blocks that the file refers to. -/
theorem refers_zoneOf {fs : Fs} {ino : Nat} (inReach : block < totalBlocks)
    (mapped : fs.zoneOf ino block ≠ 0) : fs.Refers ino (fs.zoneOf ino block) := by
  refine ⟨mapped, block, inReach, ?_⟩
  unfold zoneOf at mapped ⊢
  cases chain : fs.chainOf ino block with
  | nil => simp [chain] at mapped
  | cons first rest =>
      rw [List.getLastD_eq_getLast?, List.getLast?_eq_getLast_of_ne_nil (by simp)]
      exact List.getLast_mem _

theorem bmap_beyond (fs : Fs) (ino : Nat) (create : Bool) (beyond : ¬block < totalBlocks) :
    fs.bmap ino block create = .error .assertion := by
  unfold bmap check
  rw [if_neg beyond, error_bind]

/-! ## Files left alone -/

variable {before after : Fs}

/-- A chain whose first pointer and whose blocks are left alone is the same. -/
theorem zoneChain_congr {dev level array index divider : Nat}
    (first : after.indexAt dev cache (array + 2 * index) =
      before.indexAt dev cache (array + 2 * index))
    (blocks : ∀ number ∈ before.zoneChain dev level cache array index block divider,
      number ≠ 0 → after.block dev number = before.block dev number) :
    after.zoneChain dev level cache array index block divider =
      before.zoneChain dev level cache array index block divider := by
  induction level generalizing cache array index block divider with
  | zero => rw [zoneChain, zoneChain, first]
  | succ level inductionHypothesis =>
      rw [zoneChain, zoneChain]
      rw [zoneChain] at blocks
      rw [first]
      by_cases empty : before.indexAt dev cache (array + 2 * index) = 0
      · rw [if_pos empty, if_pos empty]
      · rw [if_neg empty, if_neg empty]
        rw [if_neg empty] at blocks
        rw [inductionHypothesis]
        · have same := blocks _ List.mem_cons_self empty
          exact congrArg (fun memory => memory.half (0 + 2 * (block / divider))) same
        · intro number inChain
          exact blocks number (List.mem_cons_of_mem _ inChain)

/-- An inode is left alone: its entry of the table, its descriptor and the blocks
it refers to are the same. -/
structure LeftAlone (before after : Fs) (ino : Nat) : Prop where
  inode : after.inodeTable ino = before.inodeTable ino
  desc : after.desc ino = before.desc ino
  blocks : ∀ number, before.Refers ino number →
    after.block (before.inodeTable ino).dev number =
      before.block (before.inodeTable ino).dev number

namespace LeftAlone

variable {ino : Nat}

theorem chainOf (alone : LeftAlone before after ino) (inReach : block < totalBlocks) :
    after.chainOf ino block = before.chainOf ino block := by
  have slots (index : Nat) (isSlot : index < 9) :
      after.indexAt (before.inodeTable ino).dev (before.inodeTable ino).block
          (before.zoneStart ino + 2 * index) =
        before.indexAt (before.inodeTable ino).dev (before.inodeTable ino).block
          (before.zoneStart ino + 2 * index) := by
    have same := congrFun (congrArg InodeDesc.zone alone.desc) ⟨index, isSlot⟩
    unfold Fs.desc descStart at same
    rw [alone.inode] at same
    exact same
  have blocks (number : Nat) (inChain : number ∈ before.chainOf ino block)
      (notZero : number ≠ 0) :=
    alone.blocks number ⟨notZero, block, inReach, inChain⟩
  have start : after.zoneStart ino = before.zoneStart ino := by
    unfold zoneStart descStart
    rw [alone.inode]
  unfold Fs.chainOf at blocks ⊢
  rw [alone.inode, start]
  dsimp only at blocks ⊢
  split
  · rename_i direct
    rw [if_pos direct] at blocks
    simp only [directBlocks] at direct
    exact zoneChain_congr (slots block (by omega)) blocks
  · rename_i indirect
    rw [if_neg indirect] at blocks
    split
    · rename_i single
      rw [if_pos single] at blocks
      exact zoneChain_congr (slots 7 (by omega)) blocks
    · rename_i double
      rw [if_neg double] at blocks
      exact zoneChain_congr (slots 8 (by omega)) blocks

theorem zoneOf (alone : LeftAlone before after ino) (inReach : block < totalBlocks) :
    after.zoneOf ino block = before.zoneOf ino block := by
  unfold Fs.zoneOf
  rw [alone.chainOf inReach]

/-- The loop of `inode_read` reads the same from a file left alone. -/
theorem readLoop (alone : LeftAlone before after ino) (rounds left : Nat)
    (offset : Int) :
    after.readLoop ino rounds offset left =
      before.readLoop ino rounds offset left := by
  induction rounds generalizing offset left with
  | zero => rfl
  | succ rounds inductionHypothesis =>
      rw [Fs.readLoop, Fs.readLoop]
      split
      · rfl
      · by_cases inReach : blockIndex offset < totalBlocks
        · rw [bmap_false _ _ inReach, bmap_false _ _ inReach,
            alone.zoneOf inReach, ok_bind, ok_bind]
          dsimp only
          rw [alone.inode, inductionHypothesis]
          by_cases mapped : before.zoneOf ino (blockIndex offset) = 0
          · simp [check, mapped]
          · rw [alone.blocks _ (refers_zoneOf inReach mapped)]
        · rw [bmap_beyond _ _ _ inReach, bmap_beyond _ _ _ inReach, error_bind,
            error_bind]

/-- `inode_read` reads the same from a file left alone. -/
theorem inodeRead (alone : LeftAlone before after ino) (len : Nat)
    (offset : Int) :
    after.inodeRead ino len offset = before.inodeRead ino len offset := by
  unfold Fs.inodeRead
  dsimp only
  rw [alone.desc, alone.readLoop]

end LeftAlone

end Fs
end LightOS
