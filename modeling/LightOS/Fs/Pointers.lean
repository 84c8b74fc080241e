import LightOS.Fs.Lookup
import LightOS.Fs.Numbers
import Mathlib.Data.List.Nodup

/-!
# Pointers of an inode

An inode refers to zones from nine slots and from the index blocks behind the last
two of them.  `bmap` follows the pointers on the way to a block of the file, and every
pointer is met on the way to one.
-/

namespace LightOS

/-- A place where an inode keeps a pointer to a zone: a slot, an entry of the index
block of slot 7, an entry of the index block of slot 8, or an entry of an index block
behind that one. -/
inductive Place
  | slot (index : Fin 9)
  | single (index : Fin blockIndexes)
  | middle (index : Fin blockIndexes)
  | leaf (outer inner : Fin blockIndexes)
  deriving DecidableEq

variable {place : Place}

namespace Place

/-- A pointer at the place refers to an index block. -/
def IsIndex : Place → Prop
  | slot index => directBlocks ≤ index.val
  | middle _ => True
  | _ => False

/-- The place of the zone of a block of a file. -/
def ofBlock (block : Fin totalBlocks) : Place :=
  if direct : block.val < directBlocks then
    slot ⟨block, by simp only [directBlocks] at direct; omega⟩
  else if near : block.val - directBlocks < blockIndexes then
    single ⟨block - directBlocks, near⟩
  else
    leaf
      ⟨(block - directBlocks - blockIndexes) / blockIndexes, by
        have := block.isLt
        simp only [totalBlocks, blockIndexes, blockSize, directBlocks] at this near ⊢
        omega⟩
      ⟨(block - directBlocks - blockIndexes) % blockIndexes,
        Nat.mod_lt _ (by decide)⟩

/-- The zones of a file are no index blocks. -/
theorem not_isIndex_ofBlock (block : Fin totalBlocks) : ¬(ofBlock block).IsIndex := by
  unfold ofBlock
  split
  · rename_i direct
    exact Nat.not_le_of_lt direct
  · split
    · exact id
    · exact id

/-- Different blocks have different places. -/
theorem ofBlock_injective : Function.Injective ofBlock := by
  intro block other same
  have bound := block.isLt
  have otherBound := other.isLt
  unfold ofBlock at same
  apply Fin.ext
  split at same
  · split at same
    · simpa using same
    · split at same <;> cases same
  · split at same
    · split at same
      · cases same
      · split at same
        · have equal : block.val - directBlocks = other.val - directBlocks := by
            simpa using same
          omega
        · cases same
    · split at same
      · cases same
      · split at same
        · cases same
        · simp only [leaf.injEq, Fin.mk.injEq] at same
          obtain ⟨outer, inner⟩ := same
          have first := Nat.div_add_mod (block.val - directBlocks - blockIndexes)
            blockIndexes
          have second := Nat.div_add_mod (other.val - directBlocks - blockIndexes)
            blockIndexes
          rw [outer, inner] at first
          omega

/-- Every place is that of a block or that of an index block. -/
theorem ofBlock_surjective (notIndex : ¬place.IsIndex) : ∃ block, ofBlock block = place := by
  cases place with
  | slot index =>
      have direct : index.val < directBlocks := Nat.lt_of_not_le notIndex
      refine ⟨⟨index, Nat.lt_of_lt_of_le direct (by decide)⟩, ?_⟩
      unfold ofBlock
      rw [dif_pos direct]
  | single index =>
      have bound := index.isLt
      refine ⟨⟨directBlocks + index, ?_⟩, ?_⟩
      · simp only [totalBlocks, blockIndexes, blockSize, directBlocks] at bound ⊢
        omega
      · unfold ofBlock
        rw [dif_neg (by simp)]
        simp
  | middle index => exact absurd trivial notIndex
  | leaf outer inner =>
      have outerBound := outer.isLt
      have innerBound := inner.isLt
      refine ⟨⟨directBlocks + blockIndexes + (blockIndexes * outer + inner), ?_⟩, ?_⟩
      · simp only [totalBlocks, blockIndexes, blockSize, directBlocks]
          at outerBound innerBound ⊢
        omega
      · have rest : directBlocks + blockIndexes + (blockIndexes * outer.val + inner.val) -
            directBlocks - blockIndexes = blockIndexes * outer.val + inner.val := by
          omega
        have quotient : (blockIndexes * outer.val + inner.val) / blockIndexes =
            outer.val := by
          rw [Nat.mul_add_div (by decide), Nat.div_eq_of_lt innerBound, Nat.add_zero]
        have remainder : (blockIndexes * outer.val + inner.val) % blockIndexes =
            inner.val := by
          rw [Nat.mul_add_mod, Nat.mod_eq_of_lt innerBound]
        unfold ofBlock
        rw [dif_neg (by dsimp only; omega), dif_neg (by dsimp only; omega)]
        simp only [rest, quotient, remainder]

/-- The place of an entry of the index block that the pointer at a place refers to. -/
def child : Place → Fin blockIndexes → Place
  | slot index, i => if index = 7 then single i else middle i
  | middle outer, i => leaf outer i
  | place, _ => place

theorem slot_cases (index : Fin 9) : index.val < directBlocks ∨ index = 7 ∨ index = 8 := by
  simp only [directBlocks]
  omega

theorem child_slot (index : Fin 9) (i : Fin blockIndexes) :
    (slot index).child i = single i ∨ (slot index).child i = middle i := by
  by_cases seventh : index = 7
  · exact .inl (if_pos seventh)
  · exact .inr (if_neg seventh)

/-- Every place is a slot or that of an entry of an index block. -/
theorem child_induction {property : Place → Prop} (slots : ∀ index, property (slot index))
    (children : ∀ place i, place.IsIndex → property place → property (place.child i))
    (place : Place) : property place := by
  have seventh (i : Fin blockIndexes) : property (single i) :=
    children (slot 7) i (Nat.le_refl 7) (slots 7)
  have eighth (i : Fin blockIndexes) : property (middle i) :=
    children (slot 8) i (Nat.le_succ 7) (slots 8)
  cases place with
  | slot index => exact slots index
  | single index => exact seventh index
  | middle index => exact eighth index
  | leaf outer inner => exact children (middle outer) inner trivial (eighth outer)

/-- An entry of an index block is not a slot, and no other entry has its place. -/
theorem child_ne_slot (isIndex : place.IsIndex) (i : Fin blockIndexes) (index : Fin 9) :
    place.child i ≠ slot index := by
  cases place with
  | slot other =>
      rcases child_slot other i with isSingle | isMiddle
      · rw [isSingle]
        exact Place.noConfusion
      · rw [isMiddle]
        exact Place.noConfusion
  | single other => exact isIndex.elim
  | middle outer => exact Place.noConfusion
  | leaf outer inner => exact isIndex.elim

theorem child_ne (isIndex : place.IsIndex) (i : Fin blockIndexes) : place.child i ≠ place := by
  cases place with
  | slot index => exact child_ne_slot isIndex i index
  | single index => exact isIndex.elim
  | middle outer => exact Place.noConfusion
  | leaf outer inner => exact isIndex.elim

theorem child_inj {other : Place} (isIndex : place.IsIndex) (alsoIndex : other.IsIndex)
    {i j : Fin blockIndexes} (same : place.child i = other.child j) : place = other ∧ i = j := by
  cases place with
  | slot index =>
      cases other with
      | slot another =>
          rcases slot_cases index with direct | rfl | rfl
          · exact absurd isIndex (Nat.not_le_of_lt direct)
          · rcases slot_cases another with direct | rfl | rfl
            · exact absurd alsoIndex (Nat.not_le_of_lt direct)
            · exact ⟨rfl, single.inj same⟩
            · cases same
          · rcases slot_cases another with direct | rfl | rfl
            · exact absurd alsoIndex (Nat.not_le_of_lt direct)
            · cases same
            · exact ⟨rfl, middle.inj same⟩
      | single another => exact alsoIndex.elim
      | middle another =>
          rcases child_slot index i with isSingle | isMiddle
          · rw [isSingle] at same
            cases same
          · rw [isMiddle] at same
            cases same
      | leaf outer inner => exact alsoIndex.elim
  | single index => exact isIndex.elim
  | middle outer =>
      cases other with
      | slot another =>
          rcases child_slot another j with isSingle | isMiddle
          · rw [isSingle] at same
            cases same
          · rw [isMiddle] at same
            cases same
      | single another => exact alsoIndex.elim
      | middle another =>
          obtain ⟨sameOuter, sameInner⟩ := leaf.inj same
          exact ⟨congrArg middle sameOuter, sameInner⟩
      | leaf outer inner => exact alsoIndex.elim
  | leaf outer inner => exact isIndex.elim

end Place

namespace Fs

/-- An entry of an index block that may be missing. -/
def follow (fs : Fs) (dev zone index : Nat) : Nat :=
  if zone = 0 then 0 else fs.indexAt dev zone (2 * index)

/-- The pointer that an inode keeps at a place. -/
def pointer (fs : Fs) (ino : Nat) : Place → Nat
  | .slot index => (fs.desc ino).zone index
  | .single index => fs.follow (fs.inodeTable ino).dev ((fs.desc ino).zone 7) index
  | .middle index => fs.follow (fs.inodeTable ino).dev ((fs.desc ino).zone 8) index
  | .leaf outer inner =>
      fs.follow (fs.inodeTable ino).dev
        (fs.follow (fs.inodeTable ino).dev ((fs.desc ino).zone 8) outer) inner

/-- The pointers of an inode refer to zones in use, each to one of its own. -/
structure OwnZones (fs : Fs) (dev ino : Nat) : Prop where
  used : ∀ place, fs.pointer ino place ≠ 0 → fs.pointer ino place ∈ fs.usedZones dev
  distinct : ∀ place other, fs.pointer ino place ≠ 0 →
    fs.pointer ino place = fs.pointer ino other → place = other

@[simp] theorem follow_zero (fs : Fs) (dev index : Nat) : fs.follow dev 0 index = 0 := rfl

/-- The pointers in an index block. -/
theorem pointer_child (fs : Fs) (ino : Nat) (isIndex : place.IsIndex) (i : Fin blockIndexes) :
    fs.pointer ino (place.child i) =
      fs.follow (fs.inodeTable ino).dev (fs.pointer ino place) i := by
  cases place with
  | slot index =>
      rcases Place.slot_cases index with direct | rfl | rfl
      · exact absurd isIndex (Nat.not_le_of_lt direct)
      · rfl
      · rfl
  | single i => exact isIndex.elim
  | middle i => rfl
  | leaf outer inner => exact isIndex.elim

/-- The zone that `bmap` finds for a block is the pointer at its place. -/
theorem zoneOf_eq_pointer (fs : Fs) (ino : Nat) (block : Fin totalBlocks) :
    fs.zoneOf ino block = fs.pointer ino (.ofBlock block) := by
  unfold zoneOf chainOf Place.ofBlock
  dsimp only
  by_cases direct : block.val < directBlocks
  · rw [if_pos direct, dif_pos direct]
    rfl
  · rw [if_neg direct, dif_neg direct]
    by_cases near : block.val - directBlocks < blockIndexes
    · rw [if_pos near, dif_pos near]
      simp only [zoneChain, pointer, follow, Nat.zero_add, Nat.div_one]
      have slot : fs.indexAt (fs.inodeTable ino).dev (fs.inodeTable ino).block
          (fs.zoneStart ino + 2 * directBlocks) = (fs.desc ino).zone 7 := rfl
      rw [slot]
      split <;> simp_all
    · rw [if_neg near, dif_neg near]
      have unit : blockIndexes / blockIndexes = 1 := by decide
      simp only [zoneChain, pointer, follow, Nat.zero_add, unit, Nat.div_one]
      have slot : fs.indexAt (fs.inodeTable ino).dev (fs.inodeTable ino).block
          (fs.zoneStart ino + 2 * (directBlocks + 1)) = (fs.desc ino).zone 8 := rfl
      rw [slot]
      split
      · simp_all
      · split <;> simp_all

end Fs
end LightOS
