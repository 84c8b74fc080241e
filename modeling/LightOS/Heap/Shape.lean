import LightOS.Heap.Headers

/-!
# The shape of the heap

The content of the heap is a list of cells for the base address of every page
run.  The heap has the shape of its content when the headers in memory hold the
cells, the cells tile the runs and the two lists hold the free and the used
blocks.  Back links are kept apart, since they are what the code can get wrong.
-/

namespace LightOS

open Arena Blocks Memory

/-- A block of one of the page runs. -/
def IsBlock (runs : List (Nat × Nat)) (content : Nat → List Cell)
    (address : Nat) (cell : Cell) : Prop :=
  ∃ run ∈ runs, (address, cell) ∈ place arenaSize run.1 (content run.1)

/-- Two page runs do not overlap. -/
def Apart (run other : Nat × Nat) : Prop :=
  run.1 + pageSize * run.2 ≤ other.1 ∨ other.1 + pageSize * other.2 ≤ run.1

/-- A kernel page, counted from the first, belongs to a page run. -/
def InRun (run : Nat × Nat) (page : Nat) : Prop :=
  run.1 ≤ 0xC0100000 + page * pageSize ∧
    0xC0100000 + page * pageSize < run.1 + pageSize * run.2

/-- The heap has the shape of its content. -/
structure Shape (heap : Heap) (content : Nat → List Cell) : Prop where
  /-- Page runs lie in the memory that `kernel_map` covers. -/
  bounds : ∀ run ∈ heap.runs, ∃ first,
    run.1 = 0xC0100000 + first * pageSize ∧ first + run.2 ≤ 3840 ∧ 0 < run.2
  /-- Page runs do not overlap. -/
  apart : heap.runs.Pairwise Apart
  /-- The pages of the runs are taken. -/
  taken : ∀ run ∈ heap.runs, ∀ page, InRun run page → heap.pages.Taken page
  /-- The headers hold the cells. -/
  placed : ∀ run ∈ heap.runs, Placed heap.memory run.1 (content run.1)
  /-- The cells tile the runs. -/
  tiles : ∀ run ∈ heap.runs,
    span arenaSize (content run.1) = pageSize * run.2
  /-- Every forward link leads to the next block. -/
  forward : ∀ run ∈ heap.runs,
    ForwardTo arenaSize 0 run.1 (content run.1)
  /-- No two neighbouring blocks are both free. -/
  separated : ∀ run ∈ heap.runs, Separated (content run.1)
  /-- The blocks on `free_list` are the free blocks. -/
  free : ∀ address, address ∈ heap.freeList ↔
    ∃ cell, IsBlock heap.runs content address cell ∧ cell.used = false
  /-- The blocks on `used_list` are the blocks in use. -/
  used : ∀ address, address ∈ heap.usedList ↔
    ∃ cell, IsBlock heap.runs content address cell ∧ cell.used = true
  freeNodup : heap.freeList.Nodup
  usedNodup : heap.usedList.Nodup

/-- Every back link leads to the previous block. -/
def BackLinked (runs : List (Nat × Nat)) (content : Nat → List Cell) : Prop :=
  ∀ run ∈ runs, BackFrom arenaSize 0 run.1 (content run.1)

variable {heap heap' : Heap} {content : Nat → List Cell}
  {address other : Nat} {cell otherCell : Cell}

instance : Std.Symm Apart :=
  ⟨fun _ _ apart => Or.symm apart⟩

/-- Two page runs are the same or do not overlap. -/
theorem Shape.eq_or_apart
    (shape : Shape heap content)
    {run other : Nat × Nat}
    (isRun : run ∈ heap.runs) (otherIsRun : other ∈ heap.runs) :
    run = other ∨ Apart run other := by
  by_cases same : run = other
  · exact .inl same
  · exact .inr (shape.apart.forall isRun otherIsRun same)

/-- Page runs with the same base are the same. -/
theorem Shape.run_inj
    (shape : Shape heap content)
    {run other : Nat × Nat}
    (isRun : run ∈ heap.runs) (otherIsRun : other ∈ heap.runs)
    (sameBase : run.1 = other.1) : run = other := by
  rcases shape.eq_or_apart isRun otherIsRun with same | apart
  · exact same
  · obtain ⟨_, _, _, positive⟩ := shape.bounds run isRun
    obtain ⟨_, _, _, otherPositive⟩ := shape.bounds other otherIsRun
    simp only [Apart, pageSize] at apart
    omega

/-- A block of a run lies inside the run. -/
theorem Shape.inside
    (shape : Shape heap content)
    {run : Nat × Nat} (isRun : run ∈ heap.runs)
    (placed : (address, cell) ∈ place arenaSize run.1 (content run.1)) :
    run.1 ≤ address ∧
      address + arenaSize + cell.length ≤ run.1 + pageSize * run.2 := by
  rw [← shape.tiles run isRun]
  exact place_inside placed

/-- Blocks lie in kernel memory. -/
theorem Shape.block_bounds
    (shape : Shape heap content)
    (isBlock : IsBlock heap.runs content address cell) :
    0xC0100000 ≤ address ∧
      address + arenaSize + cell.length ≤ 0xC1000000 := by
  obtain ⟨run, isRun, placed⟩ := isBlock
  obtain ⟨first, base, inside, _⟩ := shape.bounds run isRun
  have within := shape.inside isRun placed
  simp only [pageSize] at base within
  omega

/-- Two blocks at different addresses do not overlap. -/
theorem Shape.block_apart
    (shape : Shape heap content)
    (isBlock : IsBlock heap.runs content address cell)
    (otherIsBlock : IsBlock heap.runs content other otherCell)
    (different : address ≠ other) :
    address + arenaSize + cell.length ≤ other ∨
      other + arenaSize + otherCell.length ≤ address := by
  obtain ⟨run, isRun, placed⟩ := isBlock
  obtain ⟨otherRun, otherIsRun, otherPlaced⟩ := otherIsBlock
  rcases shape.eq_or_apart isRun otherIsRun with rfl | apart
  · exact place_apart placed otherPlaced different
  · have inside := shape.inside isRun placed
    have otherInside := shape.inside otherIsRun otherPlaced
    unfold Apart at apart
    omega

/-- A block has one cell. -/
theorem Shape.block_inj
    (shape : Shape heap content)
    (isBlock : IsBlock heap.runs content address cell)
    (otherIsBlock : IsBlock heap.runs content address otherCell) :
    cell = otherCell := by
  obtain ⟨run, isRun, placed⟩ := isBlock
  obtain ⟨otherRun, otherIsRun, otherPlaced⟩ := otherIsBlock
  rcases shape.eq_or_apart isRun otherIsRun with rfl | apart
  · exact place_inj (by decide) placed otherPlaced
  · have inside := shape.inside isRun placed
    have otherInside := shape.inside otherIsRun otherPlaced
    simp only [Apart, arenaSize] at apart inside otherInside
    omega

theorem Shape.holds
    (shape : Shape heap content)
    (isBlock : IsBlock heap.runs content address cell) :
    Holds heap.memory address cell := by
  obtain ⟨run, isRun, placed⟩ := isBlock
  exact shape.placed run isRun address cell placed

/-- The lists have no block in common. -/
theorem Shape.not_free_of_used
    (shape : Shape heap content)
    (listed : address ∈ heap.usedList) : address ∉ heap.freeList := by
  intro free
  obtain ⟨cell, isBlock, inUse⟩ := (shape.used address).mp listed
  obtain ⟨otherCell, otherIsBlock, isFree⟩ := (shape.free address).mp free
  have same := shape.block_inj isBlock otherIsBlock
  rw [same, isFree] at inUse
  cases inUse

/-- The heap keeps its shape while its lists and runs stay, the pages of the
runs remain taken and no header is written. -/
theorem Shape.frame
    (shape : Shape heap content)
    (runs : heap'.runs = heap.runs)
    (freeList : heap'.freeList = heap.freeList)
    (usedList : heap'.usedList = heap.usedList)
    (taken : ∀ run ∈ heap.runs, ∀ page, InRun run page →
      heap.pages.Taken page → heap'.pages.Taken page)
    (agree : ∀ address cell, IsBlock heap.runs content address cell →
      AgreeOn heap'.memory heap.memory address arenaSize) :
    Shape heap' content where
  bounds := by
    rw [runs]
    exact shape.bounds
  apart := by
    rw [runs]
    exact shape.apart
  taken := by
    rw [runs]
    exact fun run isRun page inRun =>
      taken run isRun page inRun (shape.taken run isRun page inRun)
  placed := by
    rw [runs]
    intro run isRun address cell placed
    exact (shape.placed run isRun address cell placed).of_agreeOn
      (agree address cell ⟨run, isRun, placed⟩)
  tiles := by
    rw [runs]
    exact shape.tiles
  forward := by
    rw [runs]
    exact shape.forward
  separated := by
    rw [runs]
    exact shape.separated
  free := by
    rw [runs, freeList]
    exact shape.free
  used := by
    rw [runs, usedList]
    exact shape.used
  freeNodup := by
    rw [freeList]
    exact shape.freeNodup
  usedNodup := by
    rw [usedList]
    exact shape.usedNodup

/-- Some neighbouring blocks of a run are replaced by others that take the same
room. -/
structure Rebuilt (heap heap' : Heap) (content : Nat → List Cell)
    (run : Nat × Nat) (before middle middle' after : List Cell) : Prop where
  isRun : run ∈ heap.runs
  here : content run.1 = before ++ middle ++ after
  nonempty : middle ≠ []
  nonempty' : middle' ≠ []
  sameSpan : span arenaSize middle' = span arenaSize middle
  runs : heap'.runs = heap.runs
  pages : heap'.pages = heap.pages
  changes : ChangesIn heap.memory heap'.memory (run.1 + span arenaSize before)
    (span arenaSize middle)
  placed : Placed heap'.memory (run.1 + span arenaSize before) middle'
  relinked : ForwardTo arenaSize
    (if after = [] then 0
      else run.1 + span arenaSize before + span arenaSize middle)
    (run.1 + span arenaSize before) middle'
  backLinked : BackFrom arenaSize (lastAddress arenaSize 0 run.1 before)
    (run.1 + span arenaSize before) middle'
  separated : Separated (before ++ middle' ++ after)
  freeNodup : heap'.freeList.Nodup
  usedNodup : heap'.usedList.Nodup
  free : ∀ address, address ∈ heap'.freeList ↔
    (address ∈ heap.freeList ∧
      ∀ cell, (address, cell) ∉
        place arenaSize (run.1 + span arenaSize before) middle) ∨
    ∃ cell, (address, cell) ∈
      place arenaSize (run.1 + span arenaSize before) middle' ∧
        cell.used = false
  used : ∀ address, address ∈ heap'.usedList ↔
    (address ∈ heap.usedList ∧
      ∀ cell, (address, cell) ∉
        place arenaSize (run.1 + span arenaSize before) middle) ∨
    ∃ cell, (address, cell) ∈
      place arenaSize (run.1 + span arenaSize before) middle' ∧
        cell.used = true

namespace Rebuilt

variable {run : Nat × Nat} {before middle middle' after : List Cell}

/-- The content after rebuilding part of a run. -/
def content' (content : Nat → List Cell) (run : Nat × Nat)
    (before middle' after : List Cell) : Nat → List Cell :=
  Function.update content run.1 (before ++ middle' ++ after)

theorem content'_run :
    content' content run before middle' after run.1 =
      before ++ middle' ++ after := by
  simp [content']

/-- Other runs keep their content. -/
theorem content'_other
    (shape : Shape heap content)
    (rebuilt : Rebuilt heap heap' content run before middle middle' after)
    {otherRun : Nat × Nat} (isRun : otherRun ∈ heap.runs)
    (different : otherRun ≠ run) :
    content' content run before middle' after otherRun.1 =
      content otherRun.1 := by
  have otherBase : otherRun.1 ≠ run.1 := fun same =>
    different (shape.run_inj isRun rebuilt.isRun same)
  simp [content', otherBase]

/-- The blocks after rebuilding part of a run: the blocks elsewhere and the new
ones. -/
theorem isBlock_iff
    (shape : Shape heap content)
    (rebuilt : Rebuilt heap heap' content run before middle middle' after) :
    IsBlock heap'.runs (content' content run before middle' after)
        address cell ↔
      (IsBlock heap.runs content address cell ∧
        ∀ other, (address, other) ∉
          place arenaSize (run.1 + span arenaSize before) middle) ∨
      (address, cell) ∈
        place arenaSize (run.1 + span arenaSize before) middle' := by
  have tiles := shape.tiles run rebuilt.isRun
  rw [rebuilt.here] at tiles
  simp only [span_append] at tiles
  have sameSpan := rebuilt.sameSpan
  rw [rebuilt.runs]
  constructor
  · rintro ⟨otherRun, isRun, placed⟩
    by_cases same : otherRun = run
    · subst same
      rw [content'_run, place_append, place_append, List.mem_append,
        List.mem_append] at placed
      rcases placed with (inBefore | inMiddle) | inAfter
      · refine .inl ⟨⟨otherRun, isRun, ?_⟩, fun other inMiddle => ?_⟩
        · rw [rebuilt.here, place_append, place_append]
          simp [inBefore]
        · have low := place_inside inBefore
          have high := place_inside inMiddle
          simp only [arenaSize] at low high
          omega
      · exact .inr inMiddle
      · refine .inl ⟨⟨otherRun, isRun, ?_⟩, fun other inMiddle => ?_⟩
        · rw [span_append, sameSpan] at inAfter
          rw [rebuilt.here, place_append, span_append]
          simp [inAfter]
        · have low := place_inside inMiddle
          have high := place_inside inAfter
          simp only [span_append, arenaSize] at low high
          simp only [arenaSize] at sameSpan
          omega
    · rw [content'_other shape rebuilt isRun same] at placed
      refine .inl ⟨⟨otherRun, isRun, placed⟩, fun other inMiddle => ?_⟩
      have inside := shape.inside isRun placed
      have within := place_inside inMiddle
      rcases shape.eq_or_apart isRun rebuilt.isRun with equal | apart
      · exact same equal
      · simp only [Apart, arenaSize] at apart inside within tiles
        omega
  · rintro (⟨⟨otherRun, isRun, placed⟩, outside⟩ | placed)
    · refine ⟨otherRun, isRun, ?_⟩
      by_cases same : otherRun = run
      · subst same
        rw [rebuilt.here, place_append, place_append, List.mem_append,
          List.mem_append] at placed
        rw [content'_run, place_append, place_append, List.mem_append,
          List.mem_append]
        rcases placed with (inBefore | inMiddle) | inAfter
        · exact .inl (.inl inBefore)
        · exact absurd inMiddle (outside cell)
        · rw [span_append] at inAfter
          rw [span_append, sameSpan]
          exact .inr inAfter
      · rw [content'_other shape rebuilt isRun same]
        exact placed
    · refine ⟨run, rebuilt.isRun, ?_⟩
      rw [content'_run, place_append, place_append]
      simp [placed]

/-- Rebuilding part of a run keeps the shape of the heap. -/
theorem shape
    (shape : Shape heap content)
    (rebuilt : Rebuilt heap heap' content run before middle middle' after) :
    Shape heap' (content' content run before middle' after) where
  bounds := by
    rw [rebuilt.runs]
    exact shape.bounds
  apart := by
    rw [rebuilt.runs]
    exact shape.apart
  taken := by
    rw [rebuilt.runs, rebuilt.pages]
    exact shape.taken
  placed := by
    rw [rebuilt.runs]
    intro otherRun isRun
    by_cases same : otherRun = run
    · rw [same, content'_run]
      have placed := shape.placed run rebuilt.isRun
      rw [rebuilt.here] at placed
      exact placed.replace rebuilt.changes rebuilt.sameSpan rebuilt.placed
    · rw [content'_other shape rebuilt isRun same]
      have tiles := shape.tiles run rebuilt.isRun
      rw [rebuilt.here] at tiles
      simp only [span_append] at tiles
      have otherTiles := shape.tiles otherRun isRun
      refine (shape.placed otherRun isRun).of_agreeOn
        (rebuilt.changes.agreeOn ?_)
      rcases shape.eq_or_apart isRun rebuilt.isRun with equal | apart
      · exact absurd equal same
      · unfold Apart at apart
        omega
  tiles := by
    rw [rebuilt.runs]
    intro otherRun isRun
    by_cases same : otherRun = run
    · have tiles := shape.tiles run rebuilt.isRun
      rw [rebuilt.here] at tiles
      rw [same, content'_run, ← tiles]
      simp [rebuilt.sameSpan]
    · rw [content'_other shape rebuilt isRun same]
      exact shape.tiles otherRun isRun
  forward := by
    rw [rebuilt.runs]
    intro otherRun isRun
    by_cases same : otherRun = run
    · have forward := shape.forward run rebuilt.isRun
      rw [rebuilt.here] at forward
      rw [same, content'_run]
      exact forwardTo_replace forward rebuilt.nonempty rebuilt.nonempty'
        rebuilt.sameSpan rebuilt.relinked
    · rw [content'_other shape rebuilt isRun same]
      exact shape.forward otherRun isRun
  separated := by
    rw [rebuilt.runs]
    intro otherRun isRun
    by_cases same : otherRun = run
    · rw [same, content'_run]
      exact rebuilt.separated
    · rw [content'_other shape rebuilt isRun same]
      exact shape.separated otherRun isRun
  free := by
    intro address
    simp only [isBlock_iff shape rebuilt, rebuilt.free, shape.free]
    constructor
    · rintro (⟨⟨cell, isBlock, isFree⟩, outside⟩ | ⟨cell, placed, isFree⟩)
      · exact ⟨cell, .inl ⟨isBlock, outside⟩, isFree⟩
      · exact ⟨cell, .inr placed, isFree⟩
    · rintro ⟨cell, ⟨isBlock, outside⟩ | placed, isFree⟩
      · exact .inl ⟨⟨cell, isBlock, isFree⟩, outside⟩
      · exact .inr ⟨cell, placed, isFree⟩
  used := by
    intro address
    simp only [isBlock_iff shape rebuilt, rebuilt.used, shape.used]
    constructor
    · rintro (⟨⟨cell, isBlock, inUse⟩, outside⟩ | ⟨cell, placed, inUse⟩)
      · exact ⟨cell, .inl ⟨isBlock, outside⟩, inUse⟩
      · exact ⟨cell, .inr placed, inUse⟩
    · rintro ⟨cell, ⟨isBlock, outside⟩ | placed, inUse⟩
      · exact .inl ⟨⟨cell, isBlock, inUse⟩, outside⟩
      · exact .inr ⟨cell, placed, inUse⟩
  freeNodup := rebuilt.freeNodup
  usedNodup := rebuilt.usedNodup

/-- Back links survive the rebuilding exactly when the last block stays where it
was or no block follows. -/
theorem backLinked_iff
    (shape : Shape heap content)
    (linked : BackLinked heap.runs content)
    (rebuilt : Rebuilt heap heap' content run before middle middle' after) :
    BackLinked heap'.runs (content' content run before middle' after) ↔
      after = [] ∨
        lastAddress arenaSize (lastAddress arenaSize 0 run.1 before)
            (run.1 + span arenaSize before) middle' =
          lastAddress arenaSize (lastAddress arenaSize 0 run.1 before)
            (run.1 + span arenaSize before) middle := by
  have linkedHere := linked run rebuilt.isRun
  rw [rebuilt.here] at linkedHere
  rw [← backFrom_replace linkedHere rebuilt.sameSpan rebuilt.backLinked]
  unfold BackLinked
  rw [rebuilt.runs]
  constructor
  · intro linked'
    have here := linked' run rebuilt.isRun
    rwa [content'_run] at here
  · intro here otherRun isRun
    by_cases same : otherRun = run
    · rw [same, content'_run]
      exact here
    · rw [content'_other shape rebuilt isRun same]
      exact linked otherRun isRun

end Rebuilt

end LightOS
