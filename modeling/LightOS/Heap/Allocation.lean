import LightOS.Heap.Shape

/-!
# Allocation

What `kmalloc` does to the content of the heap.  New page runs are added until
the first fit finds a free block.  The block is taken as it is or divided; a
division leaves the back link of the next block alone, so that the heap keeps
its back links exactly when nothing is divided or no block follows.
-/

namespace LightOS

open Arena Blocks Memory Heap

variable {heap heap' : Heap} {content content' : Nat → List Cell}
  {arena size : Nat} {cell : Cell}

/-- The heap got new page runs and changed in nothing else. -/
structure Grown (heap heap' : Heap) (content content' : Nat → List Cell) :
    Prop where
  shape : Shape heap' content'
  linked : BackLinked heap.runs content → BackLinked heap'.runs content'
  blocks : ∀ address cell, IsBlock heap.runs content address cell →
    IsBlock heap'.runs content' address cell

theorem Grown.refl (shape : Shape heap content) :
    Grown heap heap content content :=
  ⟨shape, id, fun _ _ isBlock => isBlock⟩

theorem Grown.trans {middle : Heap} {contentMiddle : Nat → List Cell}
    (first : Grown heap middle content contentMiddle)
    (second : Grown middle heap' contentMiddle content') :
    Grown heap heap' content content' :=
  ⟨second.shape, fun linked => second.linked (first.linked linked),
    fun address cell isBlock =>
      second.blocks address cell (first.blocks address cell isBlock)⟩

/-- `_arena_add_new_pages` adds a run that is one free block, at the head of
`free_list`. -/
theorem arenaAddNewPages_spec
    (shape : Shape heap content)
    (added : heap.arenaAddNewPages size = .ok heap') :
    ∃ base content', Grown heap heap' content content' ∧
      heap'.freeList = base :: heap.freeList ∧
      forwardPtr heap'.memory base = 0 ∧
      (∀ address cell, IsBlock heap.runs content address cell →
        AgreeOn heap'.memory heap.memory address arenaSize) ∧
      Arena.length heap'.memory base =
        pageSize * (add32 size arenaSize / pageSize + 1) - arenaSize ∧
      heap'.runs.length = heap.runs.length + 1 := by
  simp only [arenaAddNewPages, bind_eq_ok, pushFree, check_eq_ok] at added
  obtain ⟨⟨base, pages⟩, allocated, _, notListed, result⟩ := added
  cases result
  generalize counted : add32 size arenaSize / pageSize + 1 = count at *
  obtain ⟨first, positive, inside, isBase, notTaken, taken⟩ :=
    PageMaps.allocKpage_spec allocated
  -- The pages of the new run were not taken, those of the other runs were.
  have newApart (run : Nat × Nat) (isRun : run ∈ heap.runs) :
      Apart (base, count) run := by
    obtain ⟨otherFirst, otherBase, otherInside, otherPositive⟩ :=
      shape.bounds run isRun
    by_contra notApart
    simp only [Apart, pageSize, not_or, not_le] at notApart otherBase
    have page : InRun run (max first otherFirst) := by
      simp only [InRun, pageSize]
      omega
    exact notTaken _ (by omega) (by omega) (shape.taken run isRun _ page)
  have differentBase (run : Nat × Nat) (isRun : run ∈ heap.runs) :
      run.1 ≠ base := by
    obtain ⟨_, _, _, otherPositive⟩ := shape.bounds run isRun
    have apart := newApart run isRun
    simp only [Apart, pageSize] at apart
    omega
  have agree (address : Nat) (cell : Cell)
      (isBlock : IsBlock heap.runs content address cell) :
      AgreeOn (newArena heap.memory base count) heap.memory address
        arenaSize := by
    obtain ⟨run, isRun, placed⟩ := isBlock
    have within := shape.inside isRun placed
    have apart := newApart run isRun
    refine (changesIn_newArena heap.memory base count).agreeOn ?_
    simp only [Apart, pageSize, arenaSize] at apart within ⊢
    omega
  let fresh : Cell := ⟨pageSize * count - arenaSize, false, 0, 0⟩
  have freshHolds : Holds (newArena heap.memory base count) base fresh := by
    refine holds_newArena heap.memory ?_ positive ?_ <;>
      simp only [pageSize, arenaSize] <;> omega
  have freshSpan : span arenaSize [fresh] = pageSize * count := by
    simp only [span, fresh, pageSize, arenaSize]
    omega
  let content' := Function.update content base [fresh]
  have here : content' base = [fresh] := Function.update_self ..
  have elsewhere (run : Nat × Nat) (isRun : run ∈ heap.runs) :
      content' run.1 = content run.1 :=
    Function.update_of_ne (differentBase run isRun) ..
  have isBlock_iff (address : Nat) (cell : Cell) :
      IsBlock ((base, count) :: heap.runs) content' address cell ↔
        (address = base ∧ cell = fresh) ∨
          IsBlock heap.runs content address cell := by
    constructor
    · rintro ⟨run, isRun, placed⟩
      rcases List.mem_cons.mp isRun with rfl | isRun
      · rw [here] at placed
        simp only [place, List.mem_singleton, Prod.mk.injEq] at placed
        exact .inl placed
      · rw [elsewhere run isRun] at placed
        exact .inr ⟨run, isRun, placed⟩
    · rintro (⟨rfl, rfl⟩ | ⟨run, isRun, placed⟩)
      · exact ⟨(address, count), List.mem_cons_self, by simp [here, place]⟩
      · exact ⟨run, List.mem_cons_of_mem _ isRun,
          by rwa [elsewhere run isRun]⟩
  refine ⟨base, content', ⟨?_, ?_, ?_⟩, rfl, freshHolds.forward, agree, ?_, rfl⟩
  · constructor
    · intro run isRun
      rcases List.mem_cons.mp isRun with rfl | isRun
      · exact ⟨first, by simpa [pageSize] using isBase, inside, positive⟩
      · exact shape.bounds run isRun
    · exact List.pairwise_cons.mpr ⟨newApart, shape.apart⟩
    · intro run isRun page inRun
      rw [taken]
      rcases List.mem_cons.mp isRun with rfl | isRun
      · simp only [InRun, pageSize] at inRun
        exact .inl (by omega)
      · exact .inr (shape.taken run isRun page inRun)
    · intro run isRun
      rcases List.mem_cons.mp isRun with rfl | isRun
      · rw [here]
        exact placed_singleton.mpr freshHolds
      · rw [elsewhere run isRun]
        intro address cell placed
        exact (shape.placed run isRun address cell placed).of_agreeOn
          (agree address cell ⟨run, isRun, placed⟩)
    · intro run isRun
      rcases List.mem_cons.mp isRun with rfl | isRun
      · rw [here]
        exact freshSpan
      · rw [elsewhere run isRun]
        exact shape.tiles run isRun
    · intro run isRun
      rcases List.mem_cons.mp isRun with rfl | isRun
      · rw [here]
        simp [ForwardTo, fresh]
      · rw [elsewhere run isRun]
        exact shape.forward run isRun
    · intro run isRun
      rcases List.mem_cons.mp isRun with rfl | isRun
      · rw [here]
        exact List.isChain_singleton _
      · rw [elsewhere run isRun]
        exact shape.separated run isRun
    · intro address
      simp only [List.mem_cons, isBlock_iff, shape.free]
      constructor
      · rintro (rfl | ⟨cell, isBlock, isFree⟩)
        · exact ⟨fresh, .inl ⟨rfl, rfl⟩, rfl⟩
        · exact ⟨cell, .inr isBlock, isFree⟩
      · rintro ⟨cell, ⟨rfl, rfl⟩ | isBlock, isFree⟩
        · exact .inl rfl
        · exact .inr ⟨cell, isBlock, isFree⟩
    · intro address
      simp only [isBlock_iff, shape.used]
      constructor
      · rintro ⟨cell, isBlock, inUse⟩
        exact ⟨cell, .inr isBlock, inUse⟩
      · rintro ⟨cell, ⟨rfl, rfl⟩ | isBlock, inUse⟩
        · cases inUse
        · exact ⟨cell, isBlock, inUse⟩
    · exact List.nodup_cons.mpr ⟨notListed, shape.freeNodup⟩
    · exact shape.usedNodup
  · intro linked run isRun
    rcases List.mem_cons.mp isRun with rfl | isRun
    · rw [here]
      simp [BackFrom, fresh]
    · rw [elsewhere run isRun]
      exact linked run isRun
  · intro address cell isBlock
    exact (isBlock_iff address cell).mpr (.inr isBlock)
  · exact freshHolds.length

/-- Where nothing fitted, the first fit looks at the new run only. -/
theorem firstFit_added
    (shape : Shape heap content)
    (noFit : heap.firstFit size = none)
    {base : Nat} (freeList : heap'.freeList = base :: heap.freeList)
    (agree : ∀ address cell, IsBlock heap.runs content address cell →
      AgreeOn heap'.memory heap.memory address arenaSize) :
    heap'.firstFit size =
      if add32 arenaSize size ≤ Arena.length heap'.memory base then some base
      else none := by
  have stillNone : heap.freeList.find? (fun arena =>
      decide (add32 arenaSize size ≤ Arena.length heap'.memory arena)) = none := by
    unfold firstFit at noFit
    rw [List.find?_eq_none] at noFit ⊢
    intro address listed
    obtain ⟨cell, isBlock, _⟩ := (shape.free address).mp listed
    have before := shape.holds isBlock
    have after := before.of_agreeOn (agree address cell isBlock)
    rw [after.length, ← before.length]
    exact noFit address listed
  unfold firstFit
  rw [freeList]
  split
  case isTrue fits => exact List.find?_cons_of_pos (decide_eq_true fits)
  case isFalse tooSmall =>
    rw [List.find?_cons_of_neg (by simpa using tooSmall)]
    exact stillNone

/-- The block that the first fit finds is free and long enough. -/
theorem firstFit_spec
    (shape : Shape heap content)
    (found : heap.firstFit size = some arena) :
    arena ∈ heap.freeList ∧
      ∃ cell, IsBlock heap.runs content arena cell ∧ cell.used = false ∧
        add32 arenaSize size ≤ cell.length := by
  unfold firstFit at found
  have listed := List.mem_of_find?_eq_some found
  have fits := List.find?_some found
  obtain ⟨cell, isBlock, isFree⟩ := (shape.free arena).mp listed
  rw [decide_eq_true_eq, (shape.holds isBlock).length] at fits
  exact ⟨listed, cell, isBlock, isFree, fits⟩

/-- When nothing fits, the loop ends with the block of a new run, which no block
follows. -/
theorem refind_spec
    (shape : Shape heap content)
    {rounds : Nat}
    (found : refind rounds heap size = .ok (arena, heap')) :
    ∃ content', Grown heap heap' content content' ∧
      heap'.firstFit size = some arena ∧
      ((heap.firstFit size = some arena ∧ heap' = heap) ∨
        (heap.firstFit size = none ∧ forwardPtr heap'.memory arena = 0)) := by
  induction rounds generalizing heap content with
  | zero => cases found
  | succ rounds inductionHypothesis =>
      rw [refind] at found
      cases fit : heap.firstFit size with
      | some first =>
          rw [fit] at found
          cases found
          exact ⟨content, Grown.refl shape, fit, .inl ⟨rfl, rfl⟩⟩
      | none =>
          simp only [fit, bind_eq_ok] at found
          obtain ⟨middle, added, rest⟩ := found
          obtain ⟨base, contentMiddle, grown, freeList, last, agree, _⟩ :=
            arenaAddNewPages_spec shape added
          obtain ⟨content', grown', fit', which⟩ :=
            inductionHypothesis grown.shape rest
          refine ⟨content', grown.trans grown', fit', .inr ⟨rfl, ?_⟩⟩
          rcases which with ⟨fitMiddle, rfl⟩ | ⟨_, last'⟩
          · rw [firstFit_added shape fit freeList agree] at fitMiddle
            split at fitMiddle
            · cases fitMiddle
              exact last
            · cases fitMiddle
          · exact last'

/-- A division keeps the back links when no block follows the divided one. -/
def TakeKeepsLinks (heap : Heap) (arena size : Nat) : Prop :=
  TooSmall heap.memory arena size ∨ forwardPtr heap.memory arena = 0

instance (heap : Heap) (arena size : Nat) :
    Decidable (TakeKeepsLinks heap arena size) := by
  unfold TakeKeepsLinks
  infer_instance

section Take

variable {run : Nat × Nat} {before after : List Cell}

/-- Membership in a list of blocks that loses one block and gains others. -/
theorem mem_exchange
    {list : List Nat} (nodup : list.Nodup) (arena : Nat) (cell : Cell)
    (gained : List Nat) {address : Nat} :
    address ∈ gained ++ list.erase arena ↔
      (address ∈ list ∧ ∀ other, (address, other) ∉
        place arenaSize arena [cell]) ∨ address ∈ gained := by
  simp only [List.mem_append, nodup.mem_erase_iff, place, List.mem_singleton,
    Prod.mk.injEq, not_and]
  constructor
  · rintro (isGained | ⟨different, listed⟩)
    · exact .inr isGained
    · exact .inl ⟨listed, fun _ same => absurd same different⟩
  · rintro (⟨listed, different⟩ | isGained)
    · exact .inr ⟨fun same => different cell same rfl, listed⟩
    · exact .inl isGained

/-- Taking a block whole. -/
theorem rebuilt_whole
    (shape : Shape heap content) (linked : BackLinked heap.runs content)
    (isRun : run ∈ heap.runs)
    (here : content run.1 = before ++ [cell] ++ after)
    (isArena : arena = run.1 + span arenaSize before)
    (isFree : cell.used = false) :
    Rebuilt heap
      { heap with
        memory := setUsed heap.memory arena true
        freeList := heap.freeList.erase arena
        usedList := arena :: heap.usedList.erase arena }
      content run before [cell] [{ cell with used := true }] after := by
  have placed : (arena, cell) ∈ place arenaSize run.1 (content run.1) :=
    mem_place.mpr ⟨before, after, by simp [here], isArena⟩
  have isBlock : IsBlock heap.runs content arena cell := ⟨run, isRun, placed⟩
  have forward := shape.forward run isRun
  have back := linked run isRun
  have separated := shape.separated run isRun
  have notUsed : arena ∉ heap.usedList := by
    intro listed
    exact shape.not_free_of_used listed
      ((shape.free arena).mpr ⟨cell, isBlock, isFree⟩)
  rw [here, List.append_assoc, List.singleton_append] at forward back
  rw [here, separated_around] at separated
  constructor
  case isRun => exact isRun
  case here => exact here
  case nonempty => simp
  case nonempty' => simp
  case sameSpan => simp [span]
  case runs => rfl
  case pages => rfl
  case changes =>
    rw [← isArena]
    exact (changesIn_setUsed heap.memory arena true).mono (Nat.le_refl _)
      (by simp only [span]; omega)
  case placed =>
    rw [← isArena, placed_singleton]
    exact (shape.holds isBlock).setUsed true
  case relinked =>
    have sameEnd : run.1 + span arenaSize before + span arenaSize [cell] =
        run.1 + span arenaSize before + arenaSize + cell.length := by
      simp only [span]
      omega
    simp only [ForwardTo, if_true, and_true, sameEnd, forward_of_split forward]
  case backLinked =>
    have link := back_of_split back
    simpa [BackFrom] using link
  case separated =>
    rw [separated_around]
    exact ⟨separated.1, separated.2.1, fun _ _ => .inr rfl, fun _ _ => .inl rfl⟩
  case freeNodup => exact shape.freeNodup.erase arena
  case usedNodup =>
    refine List.nodup_cons.mpr ⟨?_, shape.usedNodup.erase arena⟩
    exact fun listed => notUsed (List.mem_of_mem_erase listed)
  case free =>
    intro address
    rw [← isArena]
    simpa [place] using mem_exchange shape.freeNodup arena cell []
  case used =>
    intro address
    rw [← isArena]
    simpa [place] using mem_exchange shape.usedNodup arena cell [arena]

/-- Taking the first part of a block. -/
theorem rebuilt_divided
    (shape : Shape heap content) (linked : BackLinked heap.runs content)
    (isRun : run ∈ heap.runs)
    (here : content run.1 = before ++ [cell] ++ after)
    (isArena : arena = run.1 + span arenaSize before)
    (isFree : cell.used = false)
    (room : size + arenaSize ≤ cell.length)
    {divided : Nat} (isDivided : divided = arena + arenaSize + size)
    (notListed : divided ∉ heap.freeList.erase arena) :
    Rebuilt heap
      { heap with
        memory := divide (setUsed heap.memory arena true) arena divided size
        freeList := divided :: heap.freeList.erase arena
        usedList := arena :: heap.usedList.erase arena }
      content run before [cell]
      [⟨size, true, cell.back, divided⟩,
        ⟨cell.length - size - arenaSize, false, arena, cell.forward⟩]
      after := by
  have placed : (arena, cell) ∈ place arenaSize run.1 (content run.1) :=
    mem_place.mpr ⟨before, after, by simp [here], isArena⟩
  have isBlock : IsBlock heap.runs content arena cell := ⟨run, isRun, placed⟩
  have bounds := shape.block_bounds isBlock
  have taken := (shape.holds isBlock).setUsed true
  have inRange : arena + arenaSize + cell.length < 2 ^ 32 := by omega
  have forward := shape.forward run isRun
  have back := linked run isRun
  have separated := shape.separated run isRun
  have notUsed : arena ∉ heap.usedList := by
    intro listed
    exact shape.not_free_of_used listed
      ((shape.free arena).mpr ⟨cell, isBlock, isFree⟩)
  rw [here, List.append_assoc, List.singleton_append] at forward back
  rw [here, separated_around] at separated
  have link := forward_of_split forward
  subst isDivided
  constructor
  case isRun => exact isRun
  case here => exact here
  case nonempty => simp
  case nonempty' => simp
  case sameSpan =>
    simp only [span]
    omega
  case runs => rfl
  case pages => rfl
  case changes =>
    rw [← isArena]
    have sameSpan : span arenaSize [cell] = arenaSize + cell.length := by
      simp [span]
    rw [sameSpan]
    exact ((changesIn_setUsed heap.memory arena true).mono (Nat.le_refl _)
      (by omega)).trans (changesIn_divide _ room)
  case placed =>
    rw [← isArena, placed_cons]
    refine ⟨holds_divide taken room inRange, placed_singleton.mpr ?_⟩
    have rest := holds_divided taken room inRange
    exact rest
  case relinked =>
    rw [← isArena] at link ⊢
    have sameEnd : arena + span arenaSize [cell] =
        arena + arenaSize + cell.length := by
      simp only [span]
      omega
    simp only [ForwardTo, if_true, and_true, sameEnd, link]
    simp
  case backLinked =>
    have backLink := back_of_split back
    rw [← isArena]
    simp [BackFrom, backLink]
  case separated =>
    have split : before ++ [⟨size, true, cell.back, arena + arenaSize + size⟩,
        ⟨cell.length - size - arenaSize, false, arena, cell.forward⟩] ++ after =
        (before ++ [⟨size, true, cell.back, arena + arenaSize + size⟩]) ++
          [⟨cell.length - size - arenaSize, false, arena, cell.forward⟩] ++
            after := by
      simp
    have usedAfter (next : Cell) (isNext : next ∈ after.head?) :
        next.used = true := by
      simpa [isFree] using separated.2.2.2 next isNext
    rw [split, separated_around]
    refine ⟨?_, separated.2.1, ?_, fun next isNext =>
      .inr (usedAfter next isNext)⟩
    · rw [← List.append_nil (before ++ _), separated_around]
      exact ⟨separated.1, List.isChain_nil, fun _ _ => .inr rfl, by simp⟩
    · intro last isLast
      simp only [List.getLast?_append, List.getLast?_singleton,
        Option.some_or, Option.mem_some_iff] at isLast
      rw [← isLast]
      exact .inl rfl
  case freeNodup => exact List.nodup_cons.mpr ⟨notListed, shape.freeNodup.erase arena⟩
  case usedNodup =>
    refine List.nodup_cons.mpr ⟨?_, shape.usedNodup.erase arena⟩
    exact fun listed => notUsed (List.mem_of_mem_erase listed)
  case free =>
    intro address
    rw [← isArena]
    simpa [place, or_and_right, exists_or] using
      mem_exchange shape.freeNodup arena cell [arena + arenaSize + size]
  case used =>
    intro address
    rw [← isArena]
    simpa [place, or_and_right, exists_or] using
      mem_exchange shape.usedNodup arena cell [arena]

end Take

/-- What `kmalloc` does with the block it found. -/
theorem take_spec
    (shape : Shape heap content) (linked : BackLinked heap.runs content)
    (fit : heap.firstFit size = some arena)
    (minimum : minBlockSize ≤ size)
    (noWrap : arenaSize + size < 2 ^ 32)
    (isTaken : heap.take arena size = .ok heap') :
    ∃ content' cell, Shape heap' content' ∧
      (BackLinked heap'.runs content' ↔ TakeKeepsLinks heap arena size) ∧
      (∀ address other, IsBlock heap.runs content address other →
        other.used = true → IsBlock heap'.runs content' address other) ∧
      IsBlock heap'.runs content' arena cell ∧ cell.used = true ∧
        size ≤ cell.length := by
  obtain ⟨listed, cell, isBlock, isFree, fits⟩ := firstFit_spec shape fit
  have room : arenaSize + size ≤ cell.length := by
    rwa [add32, Nat.mod_eq_of_lt noWrap] at fits
  obtain ⟨run, isRun, placed⟩ := isBlock
  obtain ⟨before, after, here, isArena⟩ := mem_place.mp placed
  have around : content run.1 = before ++ [cell] ++ after := by simp [here]
  have holds := shape.holds ⟨run, isRun, placed⟩
  have taken := holds.setUsed true
  have forward := shape.forward run isRun
  rw [here] at forward
  have link := forward_of_split forward
  have bounds := shape.block_bounds ⟨run, isRun, placed⟩
  have usedElsewhere (address : Nat) (other : Cell)
      (otherIsBlock : IsBlock heap.runs content address other)
      (inUse : other.used = true) (third : Cell) :
      (address, third) ∉
        place arenaSize (run.1 + span arenaSize before) [cell] := by
    simp only [place, List.mem_singleton, Prod.mk.injEq, not_and]
    rintro rfl _
    rw [← isArena] at otherIsBlock
    have same := shape.block_inj ⟨run, isRun, placed⟩ otherIsBlock
    rw [same, inUse] at isFree
    cases isFree
  have sameTest : TooSmall (setUsed heap.memory arena true) arena size ↔
      TooSmall heap.memory arena size := by
    rw [TooSmall, TooSmall, taken.length, holds.length]
  simp only [take, listRemove, pushUsed, bind_eq_ok, check_eq_ok,
    pure_eq_ok, Except.ok.injEq] at isTaken
  obtain ⟨_, ⟨_, _, rfl⟩, _, ⟨_, _, rfl⟩, isTaken⟩ := isTaken
  split at isTaken
  · rename_i tooSmall
    cases isTaken
    have rebuilt := rebuilt_whole shape linked isRun around isArena isFree
    refine ⟨_, { cell with used := true }, rebuilt.shape shape, ?_, ?_, ?_, rfl,
      by simp only; omega⟩
    · rw [rebuilt.backLinked_iff shape linked]
      have keeps : TakeKeepsLinks heap arena size :=
        .inl (sameTest.mp tooSmall)
      simp [keeps, lastAddress]
    · intro address other otherIsBlock inUse
      exact (rebuilt.isBlock_iff shape).mpr
        (.inl ⟨otherIsBlock, usedElsewhere address other otherIsBlock inUse⟩)
    · rw [rebuilt.isBlock_iff shape, ← isArena]
      exact .inr (by simp [place])
  · rename_i largeEnough
    have isDivided : add32 (buf (setUsed heap.memory arena true) arena) size =
        arena + arenaSize + size := by
      rw [taken.buf, add32]
      exact Nat.mod_eq_of_lt (by omega)
    simp only [isDivided, pushFree, bind_eq_ok, check_eq_ok, pure_eq_ok,
      Except.ok.injEq] at isTaken
    obtain ⟨_, notListed, rfl⟩ := isTaken
    have rebuilt := rebuilt_divided shape linked isRun around isArena isFree
      (by omega) rfl notListed
    refine ⟨_, ⟨size, true, cell.back, arena + arenaSize + size⟩,
      rebuilt.shape shape, ?_, ?_, ?_, rfl, Nat.le_refl size⟩
    · rw [rebuilt.backLinked_iff shape linked]
      have notSmall : ¬TooSmall heap.memory arena size :=
        fun small => largeEnough (sameTest.mpr small)
      have moved : ¬arena + arenaSize + size = arena := by
        simp only [arenaSize]
        omega
      rw [TakeKeepsLinks, holds.forward, link, ← isArena]
      simp [lastAddress, notSmall, moved]
    · intro address other otherIsBlock inUse
      exact (rebuilt.isBlock_iff shape).mpr
        (.inl ⟨otherIsBlock, usedElsewhere address other otherIsBlock inUse⟩)
    · rw [rebuilt.isBlock_iff shape, ← isArena]
      exact .inr (by simp [place])

/-- Clearing part of the body of a block touches no header. -/
theorem shape_fill
    (shape : Shape heap content)
    (isBlock : IsBlock heap.runs content arena cell)
    (fits : size ≤ cell.length) (value : UInt8) :
    Shape { heap with
      memory := heap.memory.fill (arena + arenaSize) size value } content := by
  refine shape.frame rfl rfl rfl (fun _ _ _ _ taken => taken) ?_
  intro address other otherIsBlock
  have changes := changesIn_store heap.memory (arena + arenaSize) size
    fun _ => value
  refine changes.agreeOn ?_
  by_cases same : address = arena
  · omega
  · have apart := shape.block_apart otherIsBlock isBlock same
    omega

theorem le_roundSize (request : Nat) : request ≤ roundSize request := by
  unfold roundSize
  split <;> omega

/-- The condition under which `kmalloc` keeps the back links: the first fit, if
there is one, is taken whole or has no block after it. -/
def KmallocKeepsLinks (heap : Heap) (request : Nat) : Prop :=
  ∀ arena, heap.firstFit (roundSize request) = some arena →
    TakeKeepsLinks heap arena (roundSize request)

/-- The search of `kmalloc`, the first page run for an empty `free_list` included. -/
theorem kmalloc_eq (heap : Heap) {request : Nat} (positive : request ≠ 0) :
    heap.kmalloc request = do
      let (arena, middle) ←
        refind (if heap.freeList = [] then 3842 else 3841) heap (roundSize request)
      let taken ← middle.take arena (roundSize request)
      let start := buf taken.memory arena
      if kernelEnd < start + roundSize request then
        throw .panic
      let memory := taken.memory.fill start (roundSize request) 0
      return (buf memory arena, { taken with memory := memory }) := by
  rw [kmalloc, if_neg positive]
  by_cases empty : heap.freeList = []
  · have noFit : heap.firstFit (roundSize request) = none := by
      simp [firstFit, empty]
    simp only [empty, if_true]
    rw [refind, noFit]
    cases heap.arenaAddNewPages (roundSize request) with
    | error fault => rfl
    | ok grown => rfl
  · simp only [empty, if_false]
    rfl

/-- What `kmalloc` does to the content of the heap. -/
theorem kmalloc_spec
    (shape : Shape heap content) (linked : BackLinked heap.runs content)
    {request ptr : Nat} (positive : request ≠ 0)
    (returned : heap.kmalloc request = .ok (ptr, heap')) :
    ∃ content' arena cell, Shape heap' content' ∧
      (BackLinked heap'.runs content' ↔ KmallocKeepsLinks heap request) ∧
      (∀ address other, IsBlock heap.runs content address other →
        other.used = true → IsBlock heap'.runs content' address other) ∧
      ptr = arena + arenaSize ∧ IsBlock heap'.runs content' arena cell ∧
        cell.used = true ∧ roundSize request ≤ cell.length := by
  rw [kmalloc_eq heap positive, bind_eq_ok] at returned
  obtain ⟨⟨arena, middle⟩, found, returned⟩ := returned
  simp only [bind_eq_ok] at returned
  obtain ⟨taken, isTaken, returned⟩ := returned
  split at returned
  · cases returned
  rename_i inKernel
  cases returned
  have minimum : minBlockSize ≤ roundSize request := by
    unfold roundSize
    split <;> omega
  have noWrap : arenaSize + roundSize request < 2 ^ 32 := by
    simp only [kernelEnd, arenaSize, not_lt] at inKernel ⊢
    omega
  obtain ⟨contentMiddle, grown, fit, which⟩ := refind_spec shape found
  obtain ⟨content', cell, shape', linked', kept, isBlock, inUse, fits⟩ :=
    take_spec grown.shape (grown.linked linked) fit minimum noWrap isTaken
  have isBuf := (shape'.holds isBlock).buf
  rw [isBuf]
  have filled := shape_fill shape' isBlock fits 0
  refine ⟨content', arena, cell, filled, ?_, ?_, (filled.holds isBlock).buf,
    isBlock, inUse, fits⟩
  · rw [show BackLinked _ content' ↔ BackLinked taken.runs content' from Iff.rfl,
      linked']
    rcases which with ⟨found, rfl⟩ | ⟨notFound, last⟩
    · simp [KmallocKeepsLinks, found]
    · simp [KmallocKeepsLinks, TakeKeepsLinks, notFound, last]
  · intro address other otherIsBlock otherInUse
    exact kept address other (grown.blocks address other otherIsBlock) otherInUse

end LightOS
