import LightOS.Fs.Frame
import LightOS.Fs.Pointers

/-!
# Truncation

`inode_truncate` walks the pointers of an inode, the entries of an index block before
the pointer to it, and gives back each zone that it meets.  Neither the index blocks nor
the slots still to be walked change meanwhile.
-/

namespace LightOS

variable {level ino dev : Nat} {index : Fin 9}

namespace Place

/-- The places that `inode_bfree` walks from a place, in their order. -/
def walk : Nat → Place → List Place
  | 0, place => [place]
  | level + 1, place =>
      (List.finRange blockIndexes).flatMap (fun i => walk level (child place i)) ++ [place]

/-- The places that `inode_bfree` walks from a slot. -/
def behind (index : Fin 9) : List Place :=
  walk (Fs.zoneLevel index) (slot index)

/-- The slot that a place is behind. -/
def root : Place → Fin 9
  | slot index => index
  | single _ => 7
  | middle _ => 8
  | leaf _ _ => 8

theorem walk_one (place : Place) :
    walk 1 place = (List.finRange blockIndexes).map (child place) ++ [place] :=
  congrArg (· ++ [place]) List.map_eq_flatMap.symm

theorem mem_walk_middle {place : Place} {outer : Fin blockIndexes} :
    place ∈ walk 1 (middle outer) ↔ place = middle outer ∨ ∃ inner, place = leaf outer inner := by
  rw [walk_one]
  simp only [child, List.mem_append, List.mem_map, List.mem_finRange, true_and,
    List.mem_singleton]
  constructor
  · rintro (⟨inner, rfl⟩ | rfl)
    · exact .inr ⟨inner, rfl⟩
    · exact .inl rfl
  · rintro (rfl | ⟨inner, rfl⟩)
    · exact .inr rfl
    · exact .inl ⟨inner, rfl⟩

theorem behind_direct (direct : index.val < directBlocks) : behind index = [slot index] := by
  have level : Fs.zoneLevel index = 0 := by
    unfold Fs.zoneLevel
    simp only [directBlocks] at direct ⊢
    omega
  unfold behind
  rw [level]
  rfl

theorem behind_seven :
    behind 7 = (List.finRange blockIndexes).map single ++ [slot 7] :=
  walk_one (slot 7)

theorem behind_eight :
    behind 8 = (List.finRange blockIndexes).flatMap (fun outer => walk 1 (middle outer)) ++
      [slot 8] := rfl

/-- A place is walked from the slot that it is behind, and from no other. -/
theorem mem_behind {place : Place} : place ∈ behind index ↔ place.root = index := by
  rcases slot_cases index with direct | rfl | rfl
  · have notSeven : (7 : Fin 9) ≠ index := by
      rintro rfl
      exact absurd direct (by decide)
    have notEight : (8 : Fin 9) ≠ index := by
      rintro rfl
      exact absurd direct (by decide)
    rw [behind_direct direct]
    cases place with
    | slot other => simp [root]
    | single i => simpa [root] using notSeven
    | middle i => simpa [root] using notEight
    | leaf outer inner => simpa [root] using notEight
  · rw [behind_seven]
    cases place with
    | slot other => simp [root]
    | single i => simp [root]
    | middle i => simp [root]
    | leaf outer inner => simp [root]
  · rw [behind_eight]
    simp only [List.mem_append, List.mem_flatMap, List.mem_finRange, true_and,
      mem_walk_middle, List.mem_singleton]
    cases place with
    | slot other => simp [root]
    | single i => simp [root]
    | middle i => simp [root]
    | leaf outer inner => simp [root]

/-- No place is walked twice. -/
theorem nodup_behind (index : Fin 9) : (behind index).Nodup := by
  have indexes := List.nodup_finRange blockIndexes
  rcases slot_cases index with direct | rfl | rfl
  · rw [behind_direct direct]
    exact List.nodup_singleton _
  · rw [behind_seven, List.nodup_append]
    refine ⟨indexes.map fun _ _ same => single.inj same, List.nodup_singleton _, ?_⟩
    simp
  · rw [behind_eight, List.nodup_append]
    refine ⟨List.nodup_flatMap.mpr ⟨fun outer _ => ?_, ?_⟩, List.nodup_singleton _, ?_⟩
    · rw [walk_one, List.nodup_append]
      refine ⟨indexes.map fun _ _ same => (leaf.inj same).2, List.nodup_singleton _, ?_⟩
      simp [child]
    · refine indexes.pairwise_of_forall_ne fun outer _ other _ different => ?_
      intro place present alsoPresent
      rcases mem_walk_middle.mp present with rfl | ⟨inner, rfl⟩
      · rcases mem_walk_middle.mp alsoPresent with same | ⟨_, same⟩
        · exact different (middle.inj same)
        · cases same
      · rcases mem_walk_middle.mp alsoPresent with same | ⟨_, same⟩
        · cases same
        · exact different (leaf.inj same).1
    · simp only [List.mem_flatMap, List.mem_finRange, true_and, mem_walk_middle,
        List.mem_singleton]
      rintro place ⟨outer, rfl | ⟨inner, rfl⟩⟩ _ rfl
      · exact Place.noConfusion
      · exact Place.noConfusion

/-- All places, in the order in which `inode_truncate` walks them. -/
theorem nodup_places : ((List.finRange 9).flatMap behind).Nodup := by
  refine List.nodup_flatMap.mpr ⟨fun index _ => nodup_behind index, ?_⟩
  refine (List.nodup_finRange 9).pairwise_of_forall_ne fun index _ other _ different => ?_
  intro place present alsoPresent
  exact different ((mem_behind.mp present).symm.trans (mem_behind.mp alsoPresent))

theorem mem_places (place : Place) : place ∈ (List.finRange 9).flatMap behind :=
  List.mem_flatMap.mpr ⟨place.root, List.mem_finRange _, mem_behind.mpr rfl⟩

/-- The levels of index blocks behind a place. -/
def height : Place → Nat
  | slot index => Fs.zoneLevel index
  | middle _ => 1
  | _ => 0

theorem isIndex_of_height {place : Place} (above : place.height = level + 1) : place.IsIndex := by
  cases place with
  | slot index =>
      unfold height Fs.zoneLevel at above
      unfold IsIndex
      simp only [directBlocks] at above ⊢
      omega
  | single i => cases above
  | middle i => trivial
  | leaf outer inner => cases above

theorem height_child {place : Place} (above : place.height = level + 1) (i : Fin blockIndexes) :
    (place.child i).height = level := by
  cases place with
  | slot index =>
      rcases slot_cases index with direct | rfl | rfl
      · unfold height Fs.zoneLevel at above
        simp only [directBlocks] at above direct
        omega
      · exact Nat.succ.inj above
      · exact Nat.succ.inj above
  | single i => cases above
  | middle i => exact Nat.succ.inj above
  | leaf outer inner => cases above

end Place

namespace Fs

/-- There are no pointers behind an empty one. -/
theorem pointer_walk (fs : Fs) (ino : Nat) {place : Place} (above : place.height = level)
    (empty : fs.pointer ino place = 0) {other : Place} (walked : other ∈ place.walk level) :
    fs.pointer ino other = 0 := by
  induction level generalizing place with
  | zero =>
      rw [Place.walk, List.mem_singleton] at walked
      rw [walked, empty]
  | succ level inductionHypothesis =>
      rw [Place.walk, List.mem_append, List.mem_flatMap, List.mem_singleton] at walked
      rcases walked with ⟨i, _, walked⟩ | rfl
      · refine inductionHypothesis (Place.height_child above i) ?_ walked
        rw [fs.pointer_child ino (Place.isIndex_of_height above), empty]
        rfl
      · exact empty

/-- Since a base state, the zones at some places of an inode have been given back. -/
structure Freed (base fs : Fs) (dev ino : Nat) (places : List Place) : Prop where
  inodeTable : fs.inodeTable = base.inodeTable
  superTable : fs.superTable = base.superTable
  blocks : ∀ otherDev number,
    ¬(otherDev = dev ∧ (number = (base.inodeTable ino).block ∨ base.InZoneMap dev number)) →
    fs.block otherDev number = base.block otherDev number
  bits : ∀ zone, (base.zoneNumbers dev).Covers zone →
    ((base.zoneNumbers dev).bit fs dev zone = true ↔
      (base.zoneNumbers dev).bit base dev zone = true ∧
        ∀ place ∈ places, base.pointer ino place ≠ zone)

namespace Freed

variable {base fs after : Fs} {sb zone : Nat} {places others : List Place} {place : Place}

theorem refl (base : Fs) (dev ino : Nat) : Freed base base dev ino [] where
  inodeTable := rfl
  superTable := rfl
  blocks := fun _ _ _ => rfl
  bits := by simp

section InTable

variable (inTable : InTable base dev ino)

include inTable

theorem superDesc (freed : Freed base fs dev ino places) :
    fs.superDesc dev = base.superDesc dev := by
  have behind := inTable.behindMaps
  have start : superBlockNr < base.zmapStart dev :=
    Nat.lt_of_lt_of_le (by decide) (Nat.le_add_right imapBlockNr _)
  unfold Fs.superDesc
  rw [freed.blocks]
  rintro ⟨_, table | inMap⟩
  · omega
  · exact absurd inMap.1 (by omega)

theorem zoneNumbers (freed : Freed base fs dev ino places) :
    fs.zoneNumbers dev = base.zoneNumbers dev := by
  unfold Fs.zoneNumbers zmapStart
  rw [freed.superDesc inTable]

/-- The data zones are as in the base state. -/
theorem data (freed : Freed base fs dev ino places) {number : Nat}
    (inData : (base.superDesc dev).firstdatazone ≤ number) :
    fs.block dev number = base.block dev number := by
  have before := inTable.beforeZones
  have behind := inTable.behindMaps
  apply freed.blocks
  rintro ⟨_, table | inMap⟩
  · omega
  · exact absurd inMap.2 (by omega)

theorem zmapRead (freed : Freed base fs dev ino places) (read : base.ZmapRead dev sb) :
    fs.ZmapRead dev sb := by
  have desc := freed.superDesc inTable
  have start : fs.zmapStart dev = base.zmapStart dev := by
    unfold zmapStart
    rw [desc]
  constructor
  · unfold Fs.getSuper
    rw [freed.superTable]
    exact read.found
  · rw [desc]
    exact read.fits
  · rw [desc, start, freed.superTable]
    exact read.zmaps

theorem positive : 1 < (base.superDesc dev).firstdatazone := by
  have before := inTable.beforeZones
  have behind := inTable.behindMaps
  have start : 1 < base.zmapStart dev :=
    Nat.lt_of_lt_of_le (by decide) (Nat.le_add_right imapBlockNr _)
  omega

/-- Places without a pointer count as given back. -/
theorem empties (freed : Freed base fs dev ino places)
    (empty : ∀ place ∈ others, base.pointer ino place = 0) :
    Freed base fs dev ino (places ++ others) where
  inodeTable := freed.inodeTable
  superTable := freed.superTable
  blocks := freed.blocks
  bits := by
    intro zone covers
    have above := covers.1
    have positive := positive inTable
    have different : ∀ place ∈ others, base.pointer ino place ≠ zone := by
      intro place present same
      rw [empty place present] at same
      dsimp only [Fs.zoneNumbers] at above
      omega
    rw [freed.bits zone covers]
    refine and_congr_right fun _ => ⟨fun apart place present => ?_, fun apart place present =>
      apart place (List.mem_append_left _ present)⟩
    rcases List.mem_append.mp present with old | new
    · exact apart place old
    · exact different place new

/-- A change of the descriptor of the inode. -/
theorem modifyDesc (freed : Freed base fs dev ino places)
    (change : Memory → Nat → Memory) :
    Freed base (fs.modifyDesc ino change) dev ino places where
  inodeTable := freed.inodeTable
  superTable := freed.superTable
  blocks := by
    intro otherDev number outside
    rw [modifyDesc_block_other, freed.blocks _ _ outside]
    rintro ⟨sameDev, sameBlock⟩
    rw [freed.inodeTable, inTable.inodeDev] at sameDev
    rw [freed.inodeTable] at sameBlock
    exact outside ⟨sameDev, .inl sameBlock⟩
  bits := by
    intro zone covers
    have behind := inTable.behindMaps
    have inBlocks : (zone - (base.zoneNumbers dev).base) / blockBits <
        (base.superDesc dev).zmapBlocks := block_of_bit covers.2
    rw [← freed.bits zone covers]
    unfold NumberMap.bit mapBit
    rw [modifyDesc_block_other]
    rintro ⟨_, sameBlock⟩
    rw [freed.inodeTable] at sameBlock
    dsimp only [Fs.zoneNumbers] at sameBlock inBlocks
    omega

/-- One more zone has been given back. -/
theorem bfree (freed : Freed base fs dev ino places) (read : base.ZmapRead dev sb)
    (own : base.OwnZones dev ino) (hasZone : base.pointer ino place ≠ 0)
    (notYet : place ∉ places) :
    ∃ after, fs.bfree dev (base.pointer ino place) = .ok after ∧
      Freed base after dev ino (places ++ [place]) ∧
      after.block dev (base.inodeTable ino).block =
        fs.block dev (base.inodeTable ino).block := by
  have used := own.used place hasZone
  obtain ⟨⟨covers, isSet⟩, isZone⟩ := used
  have desc := freed.superDesc inTable
  have numbers := freed.zoneNumbers inTable
  have stillUsed : base.pointer ino place ∈ fs.usedZones dev := by
    refine ⟨⟨?_, ?_⟩, ?_⟩
    · rw [numbers]
      exact covers
    · rw [numbers, freed.bits _ covers]
      refine ⟨isSet, fun other present same => ?_⟩
      have samePlace := own.distinct place other hasZone same.symm
      exact notYet (samePlace ▸ present)
    · rw [desc]
      exact isZone
  obtain ⟨after, call, writes⟩ := (freed.zmapRead inTable read).bfree
    (by rw [desc]; exact Nat.lt_trans Nat.zero_lt_one (positive inTable)) stillUsed
  rw [numbers] at writes
  have inBlocks : (base.pointer ino place - (base.zoneNumbers dev).base) / blockBits <
      (base.superDesc dev).zmapBlocks := block_of_bit covers.2
  have behind := inTable.behindMaps
  have kept (otherDev number : Nat) (outside : ¬(otherDev = dev ∧ base.InZoneMap dev number)) :
      after.block otherDev number = fs.block otherDev number := by
    apply BitWritten.frame writes
    rintro ⟨sameDev, sameBlock⟩
    refine outside ⟨sameDev, ?_⟩
    dsimp only [Fs.zoneNumbers] at sameBlock inBlocks
    rw [sameBlock]
    exact ⟨Nat.le_add_right _ _, Nat.add_lt_add_left inBlocks _⟩
  refine ⟨after, call, ⟨?_, ?_, ?_, ?_⟩, ?_⟩
  · exact (BitWritten.inodeTable writes).trans freed.inodeTable
  · exact (BitWritten.superTable writes).trans freed.superTable
  · intro otherDev number outside
    rw [kept, freed.blocks _ _ outside]
    exact fun inMap => outside ⟨inMap.1, .inr inMap.2⟩
  · intro zone alsoCovers
    rw [writes.bit_self covers alsoCovers]
    by_cases same : zone = base.pointer ino place
    · rw [if_pos same]
      constructor
      · exact fun isSet => absurd isSet Bool.false_ne_true
      · exact fun apart => absurd same.symm
          (apart.2 place (List.mem_append_right _ (List.mem_singleton_self _)))
    · rw [if_neg same, freed.bits zone alsoCovers]
      refine and_congr_right fun _ => ⟨fun apart other present => ?_,
        fun apart other present => apart other (List.mem_append_left _ present)⟩
      rcases List.mem_append.mp present with old | new
      · exact apart other old
      · rw [List.mem_singleton.mp new]
        exact fun equal => same equal.symm
  · apply kept
    rintro ⟨_, inMap⟩
    exact absurd inMap.2 (by omega)

/-- An entry of a block that is not in the zone map is as it was, as long as the block of
the descriptor is. -/
theorem indexAt (freed : Freed base fs dev ino places) (later : Freed base after dev ino others)
    (same : after.block dev (base.inodeTable ino).block =
      fs.block dev (base.inodeTable ino).block) {cache : Nat}
    (outside : cache = (base.inodeTable ino).block ∨
      (base.superDesc dev).firstdatazone ≤ cache) (address : Nat) :
    after.indexAt dev cache address = fs.indexAt dev cache address := by
  unfold Fs.indexAt
  rcases outside with rfl | inData
  · rw [same]
  · rw [later.data inTable inData, freed.data inTable inData]

omit inTable in
/-- The entries of an index block, one after another. -/
theorem entries (next : Nat) {items : List (Fin blockIndexes)}
    (entry : ∀ stage before i, i ∈ items → Freed base stage dev ino before →
      (before ++ (place.child i).walk level).Nodup →
      ∃ after, Fs.inodeBfree dev level stage next (2 * i) = .ok after ∧
        Freed base after dev ino (before ++ (place.child i).walk level) ∧
        after.block dev (base.inodeTable ino).block =
          stage.block dev (base.inodeTable ino).block) (freed : Freed base fs dev ino places)
    (nodup : (places ++ items.flatMap fun i => (place.child i).walk level).Nodup) :
    ∃ after, items.foldlM (fun fs i => Fs.inodeBfree dev level fs next (2 * i.val)) fs =
        .ok after ∧
      Freed base after dev ino (places ++ items.flatMap fun i => (place.child i).walk level) ∧
      after.block dev (base.inodeTable ino).block =
        fs.block dev (base.inodeTable ino).block := by
  refine foldlM_prefix
    (fun stage done => Freed base stage dev ino
        (places ++ done.flatMap fun i => (place.child i).walk level) ∧
      stage.block dev (base.inodeTable ino).block =
        fs.block dev (base.inodeTable ino).block)
    ?_ (List.nil_append items).symm ⟨?_, rfl⟩
  · rintro before done i rest rfl ⟨freedBefore, same⟩
    rw [List.flatMap_append, List.flatMap_cons, ← List.append_assoc, ← List.append_assoc]
      at nodup
    have present : i ∈ done ++ i :: rest := List.mem_append_right _ List.mem_cons_self
    obtain ⟨after, call, freedAfter, sameAfter⟩ :=
      entry before _ i present freedBefore nodup.of_append_left
    refine ⟨after, call, ?_, sameAfter.trans same⟩
    rwa [List.flatMap_append, List.flatMap_singleton, ← List.append_assoc]
  · rwa [List.flatMap_nil, List.append_nil]

/-- `inode_bfree` gives back the zones at the places that it walks. -/
theorem inodeBfree (read : base.ZmapRead dev sb) (own : base.OwnZones dev ino)
    (above : place.height = level) (freed : Freed base fs dev ino places) {cache address : Nat}
    (entry : fs.indexAt dev cache address = base.pointer ino place)
    (outside : cache = (base.inodeTable ino).block ∨ (base.superDesc dev).firstdatazone ≤ cache)
    (nodup : (places ++ place.walk level).Nodup) :
    ∃ after, Fs.inodeBfree dev level fs cache address = .ok after ∧
      Freed base after dev ino (places ++ place.walk level) ∧
      after.block dev (base.inodeTable ino).block =
        fs.block dev (base.inodeTable ino).block := by
  induction level generalizing place places fs cache address with
  | zero =>
      rw [Place.walk] at nodup ⊢
      unfold Fs.inodeBfree
      by_cases empty : base.pointer ino place = 0
      · rw [entry, if_pos empty]
        refine ⟨fs, rfl, freed.empties inTable ?_, rfl⟩
        intro other present
        rw [List.mem_singleton.mp present, empty]
      · rw [entry, if_neg empty]
        have notYet : place ∉ places := fun present =>
          List.disjoint_of_nodup_append nodup present (List.mem_singleton_self _)
        exact freed.bfree inTable read own empty notYet
  | succ level inductionHypothesis =>
      unfold Fs.inodeBfree
      dsimp only
      by_cases empty : base.pointer ino place = 0
      · rw [entry, if_pos empty]
        exact ⟨fs, rfl, freed.empties inTable fun other present =>
          base.pointer_walk ino above empty present, rfl⟩
      · rw [entry, if_neg empty]
        have inData := (own.used place empty).2.1
        have isIndex := Place.isIndex_of_height above
        rw [Place.walk, ← List.append_assoc] at nodup ⊢
        have notYet := fun present =>
          List.disjoint_of_nodup_append nodup present (List.mem_singleton_self place)
        obtain ⟨emptied, folded, freedAll, same⟩ :=
          entries (base.pointer ino place) (fun stage before i _ freedBefore fresh =>
            inductionHypothesis (Place.height_child above i) freedBefore (by
              unfold Fs.indexAt
              rw [freedBefore.data inTable inData, base.pointer_child ino isIndex,
                inTable.inodeDev, follow, if_neg empty]
              rfl) (.inr inData) fresh) freed nodup.of_append_left
        obtain ⟨after, call, freedAfter, sameAfter⟩ :=
          freedAll.bfree inTable read own empty notYet
        refine ⟨after, ?_, freedAfter, sameAfter.trans same⟩
        rw [← List.map_coe_finRange_eq_range, List.foldlM_map, folded, ok_bind,
          freed.indexAt inTable freedAll same outside, entry, call]

/-- A slot is given back with everything behind it, and cleared. -/
theorem releaseZone (read : base.ZmapRead dev sb) (own : base.OwnZones dev ino)
    (freed : Freed base fs dev ino places)
    (slot : (fs.desc ino).zone index = (base.desc ino).zone index)
    (nodup : (places ++ Place.behind index).Nodup) :
    ∃ after, fs.releaseZone ino (zoneLevel index) index = .ok after ∧
      Freed base after dev ino (places ++ Place.behind index) ∧
      (after.desc ino).zone = Function.update (fs.desc ino).zone index 0 := by
  have isDev : (fs.inodeTable ino).dev = dev := by
    rw [freed.inodeTable, inTable.inodeDev]
  have isBlock : (fs.inodeTable ino).block = (base.inodeTable ino).block := by
    rw [freed.inodeTable]
  have entry : fs.indexAt dev (base.inodeTable ino).block (fs.zoneStart ino + 2 * index) =
      base.pointer ino (.slot index) := by
    rw [← isDev, ← isBlock]
    exact slot
  obtain ⟨emptied, call, freedAll, same⟩ :=
    freed.inodeBfree inTable read own rfl entry (.inl rfl) nodup
  refine ⟨emptied.modifyDesc ino (InodeDesc.setZone index 0), ?_,
    freedAll.modifyDesc inTable _, ?_⟩
  · dsimp only [Place.height] at call
    unfold Fs.releaseZone
    dsimp only
    rw [isDev, isBlock, call]
    rfl
  · have sameDesc : emptied.desc ino = fs.desc ino := by
      unfold desc descStart
      rw [freedAll.inodeTable, freed.inodeTable, inTable.inodeDev, same]
    rw [setZone_desc, sameDesc]
    rfl

end InTable

end Freed

/-- All slots are given back, one after another. -/
theorem Freed.releaseZones {fs : Fs} {sb : Nat} (inTable : InTable fs dev ino)
    (read : fs.ZmapRead dev sb) (own : fs.OwnZones dev ino) :
    ∃ released, (List.finRange 9).foldlM
        (fun fs index => fs.releaseZone ino (zoneLevel index) index) fs = .ok released ∧
      Freed fs released dev ino ((List.finRange 9).flatMap Place.behind) ∧
      ∀ index, (released.desc ino).zone index =
        if index ∈ List.finRange 9 then 0 else (fs.desc ino).zone index := by
  refine foldlM_prefix
    (fun stage done => Freed fs stage dev ino (done.flatMap Place.behind) ∧
      ∀ index, (stage.desc ino).zone index =
        if index ∈ done then 0 else (fs.desc ino).zone index)
    ?_ (List.nil_append (List.finRange 9)).symm ⟨.refl fs dev ino, fun _ => rfl⟩
  rintro before done index rest split ⟨freedBefore, slots⟩
  have nodup := Place.nodup_places
  have fresh := List.nodup_finRange 9
  rw [split] at nodup fresh
  rw [List.flatMap_append, List.flatMap_cons, ← List.append_assoc] at nodup
  have notDone : index ∉ done := fun present =>
    List.disjoint_of_nodup_append fresh present List.mem_cons_self
  obtain ⟨after, call, freedAfter, zones⟩ :=
    freedBefore.releaseZone inTable read own (by rw [slots, if_neg notDone])
      nodup.of_append_left
  refine ⟨after, call, ?_, fun other => ?_⟩
  · rwa [List.flatMap_append, List.flatMap_singleton]
  · rw [zones, Function.update_apply, slots]
    by_cases same : other = index
    · simp [same]
    · simp [same]

/-- `inode_truncate` gives back the zones at all places. -/
theorem inodeTruncate_freed {fs : Fs} {sb : Nat} (read : fs.ZmapRead dev sb)
    (inTable : InTable fs dev ino)
    (kind : isFile (fs.desc ino).mode = true ∨ isDir (fs.desc ino).mode = true)
    (own : fs.OwnZones dev ino) :
    ∃ after, fs.inodeTruncate ino = .ok after ∧
      Freed fs after dev ino ((List.finRange 9).flatMap Place.behind) ∧
      (∀ index, (after.desc ino).zone index = 0) ∧ (after.desc ino).size = 0 := by
  obtain ⟨released, loop, freed, slots⟩ := Freed.releaseZones inTable read own
  have notSpecial : ¬(¬isFile (fs.desc ino).mode ∧ ¬isDir (fs.desc ino).mode) := by
    rintro ⟨notFile, notDir⟩
    exact kind.elim notFile notDir
  let sized := released.modifyDesc ino (InodeDesc.setSize 0)
  have desc : (sized.modifyDesc ino (InodeDesc.setMtime sized.time)).desc ino =
      { released.desc ino with size := 0, mtime := sized.time % 2 ^ 32 } := by
    rw [setMtime_desc, setSize_desc]
    rfl
  refine ⟨sized.modifyDesc ino (InodeDesc.setMtime sized.time), ?_,
    (freed.modifyDesc inTable _).modifyDesc inTable _, fun index => ?_, ?_⟩
  · unfold inodeTruncate
    rw [if_neg notSpecial, loop]
    rfl
  · rw [desc]
    exact (slots index).trans (if_pos (List.mem_finRange index))
  · rw [desc]

/-- The zones that `bmap` finds for the blocks of a file, and its index blocks. -/
def fileZones (fs : Fs) (ino : Nat) : Set Nat :=
  {zone | zone ≠ 0 ∧
    ((∃ block, block < totalBlocks ∧ fs.bmap ino block false = .ok (zone, fs)) ∨
      ∃ place : Place, place.IsIndex ∧ fs.pointer ino place = zone)}

/-- The zones of a file are those that its pointers refer to. -/
theorem mem_fileZones {fs : Fs} {zone : Nat} :
    zone ∈ fs.fileZones ino ↔ zone ≠ 0 ∧ ∃ place, fs.pointer ino place = zone := by
  refine and_congr_right fun _ => ⟨?_, ?_⟩
  · rintro (⟨block, inReach, found⟩ | ⟨place, _, same⟩)
    · rw [bmap_false fs ino inReach] at found
      have same : fs.zoneOf ino block = zone := congrArg Prod.fst (Except.ok.inj found)
      rw [fs.zoneOf_eq_pointer ino ⟨block, inReach⟩] at same
      exact ⟨_, same⟩
    · exact ⟨place, same⟩
  · rintro ⟨place, same⟩
    by_cases isIndex : place.IsIndex
    · exact .inr ⟨place, isIndex, same⟩
    · obtain ⟨block, rfl⟩ := Place.ofBlock_surjective isIndex
      refine .inl ⟨block, block.isLt, ?_⟩
      rw [bmap_false fs ino block.isLt, fs.zoneOf_eq_pointer ino block, same]

/-- A zone is given back when a pointer refers to it. -/
theorem Freed.bit {fs after : Fs} (inTable : InTable fs dev ino)
    (freed : Freed fs after dev ino ((List.finRange 9).flatMap Place.behind)) {zone : Nat}
    (covers : (fs.zoneNumbers dev).Covers zone) :
    (fs.zoneNumbers dev).bit after dev zone = true ↔
      (fs.zoneNumbers dev).bit fs dev zone = true ∧ zone ∉ fs.fileZones ino := by
  have positive := Freed.positive inTable
  have notZero : zone ≠ 0 := by
    rintro rfl
    have above := covers.1
    dsimp only [Fs.zoneNumbers] at above
    omega
  rw [freed.bits zone covers, mem_fileZones]
  refine and_congr_right fun _ => ⟨?_, ?_⟩
  · rintro apart ⟨_, place, same⟩
    exact apart place (Place.mem_places place) same
  · intro apart place _ same
    exact apart ⟨notZero, place, same⟩

/-- Truncating a file or a directory whose pointers refer to zones of its own clears
exactly the bits of the zones that `bmap` finds and of all its index blocks, and leaves it
without slots in use and with size 0. -/
theorem inodeTruncate_clears {fs : Fs} {dev sb ino : Nat} (read : fs.ZmapRead dev sb)
    (inTable : InTable fs dev ino)
    (kind : isFile (fs.desc ino).mode = true ∨ isDir (fs.desc ino).mode = true)
    (own : fs.OwnZones dev ino) :
    ∃ after, fs.inodeTruncate ino = .ok after ∧
      (∀ zone, (fs.zoneNumbers dev).Covers zone →
        ((fs.zoneNumbers dev).bit after dev zone = true ↔
          (fs.zoneNumbers dev).bit fs dev zone = true ∧ zone ∉ fs.fileZones ino)) ∧
      (∀ index, (after.desc ino).zone index = 0) ∧ (after.desc ino).size = 0 := by
  obtain ⟨after, truncated, freed, emptied⟩ := inodeTruncate_freed read inTable kind own
  exact ⟨after, truncated, fun _ covers => freed.bit inTable covers, emptied⟩

/-! ## A file with index blocks, one of them without entries -/

/-- The small device with a file, inode 3, in entry 1 of the inode table.  Its blocks 0, 7 and
519 have the zones 7, 9 and 12, and its index block 13 has no entries. -/
def hollow : Fs :=
  { small with
    disk := fun dev number =>
      if dev ≠ 1 then bytes [] else match number with
        | 3 => bytes [0xFF, 3]
        | 4 => (((((smallDisk 4).setHalf 64 0x81A4).setByte 77 1).setHalf 78 7).setHalf 92
            8).setHalf 94 10
        | 8 => bytes [9]
        | 10 => bytes [11, 0, 13]
        | 11 => bytes [12]
        | number => smallDisk number
    inodeTable := Function.update small.inodeTable 1 ⟨1, 3, 1, 0, false, 4, 2⟩ }

instance : DecidablePred Place.IsIndex
  | .slot index => inferInstanceAs (Decidable (directBlocks ≤ index.val))
  | .middle _ => isTrue trivial
  | .single _ => isFalse id
  | .leaf _ _ => isFalse id

/-- The places of that file that have zones. -/
def hollowZones : List (Place × Nat) :=
  let first : Fin blockIndexes := ⟨0, by decide⟩
  [(.slot 0, 7), (.slot 7, 8), (.single first, 9), (.slot 8, 10), (.middle first, 11),
    (.leaf first first, 12), (.middle ⟨1, by decide⟩, 13)]

def hollowZone (place : Place) : Nat :=
  ((hollowZones.find? fun pair => pair.1 = place).map Prod.snd).getD 0

theorem mem_hollowZones {place : Place} (hasZone : hollowZone place ≠ 0) :
    (place, hollowZone place) ∈ hollowZones := by
  unfold hollowZone at hasZone ⊢
  cases found : hollowZones.find? fun pair => pair.1 = place with
  | none =>
      rw [found] at hasZone
      exact absurd rfl hasZone
  | some pair =>
      have isPlace := List.find?_some found
      rw [decide_eq_true_eq] at isPlace
      rw [← isPlace]
      exact List.mem_of_find?_eq_some found

theorem hollow_read : hollow.ZmapRead 1 0 where
  found := rfl
  fits := by decide +kernel
  zmaps := by
    intro i only
    have zero : i = 0 := Nat.lt_one_iff.mp only
    subst zero
    rfl

theorem hollow_inTable : hollow.InTable 1 1 where
  inodeDev := rfl
  behindMaps := by decide +kernel
  beforeZones := by decide +kernel

theorem hollow_slots : ∀ index : Fin 9,
    (hollow.desc 1).zone index = hollowZone (.slot index) := by decide +kernel

theorem hollow_isFile : isFile (hollow.desc 1).mode = true := by decide +kernel

theorem hollow_pointer (place : Place) : hollow.pointer 1 place = hollowZone place := by
  cases place with
  | slot index => exact hollow_slots index
  | single index =>
      have entries : ∀ index : Fin blockIndexes,
          hollow.indexAt 1 8 (2 * index) = hollowZone (.single index) := by decide +kernel
      unfold pointer
      rw [hollow_slots 7]
      exact entries index
  | middle index =>
      have entries : ∀ index : Fin blockIndexes,
          hollow.indexAt 1 10 (2 * index) = hollowZone (.middle index) := by decide +kernel
      unfold pointer
      rw [hollow_slots 8]
      exact entries index
  | leaf outer inner =>
      have outers : ∀ index : Fin blockIndexes,
          hollow.indexAt 1 10 (2 * index) = hollowZone (.middle index) := by decide +kernel
      have isMiddle : hollow.follow (hollow.inodeTable 1).dev ((hollow.desc 1).zone 8) outer =
          hollowZone (.middle outer) := by
        rw [hollow_slots 8]
        exact outers outer
      unfold pointer
      dsimp only
      rw [isMiddle]
      by_cases isFirst : outer.val = 0
      · have entries : ∀ index : Fin blockIndexes, hollow.indexAt 1 11 (2 * index) =
            hollowZone (.leaf ⟨0, by decide⟩ index) := by decide +kernel
        obtain rfl : outer = ⟨0, by decide⟩ := Fin.ext isFirst
        exact entries inner
      · have noLeaf : hollowZone (.leaf outer inner) = 0 := by
          by_contra hasZone
          have isLeaf := mem_hollowZones hasZone
          simp [hollowZones] at isLeaf
          exact isFirst (congrArg Fin.val isLeaf.1.1)
        rw [noLeaf]
        have empty : ∀ index : Fin blockIndexes, hollow.indexAt 1 13 (2 * index) = 0 := by
          decide +kernel
        have rest : ∀ index : Fin blockIndexes, index.val ≠ 0 →
            hollowZone (.middle index) = 13 ∨ hollowZone (.middle index) = 0 := by decide +kernel
        rcases rest outer isFirst with isHollow | none
        · rw [isHollow]
          exact empty inner
        · rw [none]
          rfl

theorem hollow_ownZones : hollow.OwnZones 1 1 where
  used := by
    intro place hasZone
    rw [hollow_pointer] at hasZone ⊢
    have used : ∀ pair ∈ hollowZones, pair.2 ∈ hollow.usedZones 1 := by
      have each : ∀ pair ∈ hollowZones, ((hollow.zoneNumbers 1).base ≤ pair.2 ∧
        pair.2 - (hollow.zoneNumbers 1).base < (hollow.zoneNumbers 1).blocks * blockBits) ∧
          (hollow.zoneNumbers 1).bit hollow 1 pair.2 = true ∧
          (hollow.superDesc 1).firstdatazone ≤ pair.2 ∧
          pair.2 < (hollow.superDesc 1).zones := by decide +kernel
      intro pair isPair
      obtain ⟨covers, isSet, inDevice⟩ := each pair isPair
      exact ⟨⟨covers, isSet⟩, inDevice⟩
    exact used _ (mem_hollowZones hasZone)
  distinct := by
    intro place other hasZone same
    rw [hollow_pointer] at hasZone same
    rw [hollow_pointer] at same
    have unique : ∀ pair ∈ hollowZones, ∀ other ∈ hollowZones, pair.2 = other.2 →
      pair.1 = other.1 := by decide
    exact unique _ (mem_hollowZones hasZone) _ (mem_hollowZones (same ▸ hasZone)) same

theorem inodeTruncate_clears_hollow :
    ∃ after, hollow.inodeTruncate 1 = .ok after ∧
      (∀ zone, (hollow.zoneNumbers 1).Covers zone →
        ((hollow.zoneNumbers 1).bit after 1 zone = true ↔
          (hollow.zoneNumbers 1).bit hollow 1 zone = true ∧ zone ∉ hollow.fileZones 1)) ∧
      (∀ index, (after.desc 1).zone index = 0) ∧ (after.desc 1).size = 0 :=
  inodeTruncate_clears hollow_read hollow_inTable (.inl hollow_isFile) hollow_ownZones

/-- The zones that `bmap` finds for the blocks of a file, and the index blocks on the way
to them. -/
def mappedZones (fs : Fs) (ino : Nat) : Set Nat :=
  {zone | zone ≠ 0 ∧ ∃ block, block < totalBlocks ∧ fs.zoneOf ino block ≠ 0 ∧
    zone ∈ fs.chainOf ino block}

/-- No block of that file has a zone behind the index block 13, but truncating it gives that
back. -/
theorem inodeTruncate_clears_more :
    ¬∀ (fs : Fs) (dev sb ino : Nat), fs.ZmapRead dev sb → InTable fs dev ino →
      (isFile (fs.desc ino).mode = true ∨ isDir (fs.desc ino).mode = true) →
      fs.OwnZones dev ino →
      ∃ after, fs.inodeTruncate ino = .ok after ∧
        (∀ zone, (fs.zoneNumbers dev).Covers zone →
          ((fs.zoneNumbers dev).bit after dev zone = true ↔
            (fs.zoneNumbers dev).bit fs dev zone = true ∧ zone ∉ fs.mappedZones ino)) ∧
        (∀ index, (after.desc ino).zone index = 0) ∧ (after.desc ino).size = 0 := by
  intro always
  obtain ⟨after, truncated, bits, _⟩ := always hollow 1 0 1 hollow_read hollow_inTable
    (.inl hollow_isFile) hollow_ownZones
  obtain ⟨other, alsoTruncated, freed, _⟩ := inodeTruncate_freed hollow_read hollow_inTable
    (.inl hollow_isFile) hollow_ownZones
  cases truncated.symm.trans alsoTruncated
  have isPointer : hollow.pointer 1 (.middle ⟨1, by decide⟩) = 13 :=
    (hollow_pointer _).trans (by decide)
  obtain ⟨⟨covers, isSet⟩, _⟩ :=
    hollow_ownZones.used (.middle ⟨1, by decide⟩) (by rw [isPointer]; decide)
  rw [isPointer] at covers isSet
  have unmapped : 13 ∉ hollow.mappedZones 1 := by
    rintro ⟨_, block, inReach, hasZone, inChain⟩
    rw [hollow.zoneOf_eq_pointer 1 ⟨block, inReach⟩, hollow_pointer] at hasZone
    have places : ∀ pair ∈ hollowZones, pair.1 = .slot 0 ∨ pair.1 = .single ⟨0, by decide⟩ ∨
        pair.1 = .leaf ⟨0, by decide⟩ ⟨0, by decide⟩ ∨ pair.1.IsIndex := by decide
    have chains : 13 ∉ hollow.chainOf 1 0 ∧ 13 ∉ hollow.chainOf 1 7 ∧
        13 ∉ hollow.chainOf 1 519 := by decide +kernel
    have inOther (other : Fin totalBlocks)
        (same : Place.ofBlock ⟨block, inReach⟩ = .ofBlock other) :
        13 ∈ hollow.chainOf 1 other := by
      rw [← Place.ofBlock_injective same]
      exact inChain
    have isLeaf : Place.ofBlock ⟨519, by decide⟩ = .leaf ⟨0, by decide⟩ ⟨0, by decide⟩ := by
      decide +kernel
    rcases places _ (mem_hollowZones hasZone) with same | same | same | isIndex
    · exact chains.1 (inOther ⟨0, by decide⟩ same)
    · exact chains.2.1 (inOther ⟨7, by decide⟩ same)
    · exact chains.2.2 (inOther ⟨519, by decide⟩ (same.trans isLeaf.symm))
    · exact Place.not_isIndex_ofBlock ⟨block, inReach⟩ isIndex
  have kept := (bits 13 covers).mpr ⟨isSet, unmapped⟩
  exact ((freed.bit hollow_inTable covers).mp kept).2
    (mem_fileZones.mpr ⟨by decide, _, isPointer⟩)

end Fs
end LightOS
