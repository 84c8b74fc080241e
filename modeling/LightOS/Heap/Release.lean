import LightOS.Heap.Allocation

/-!
# Release

What `kfree` does to the content of the heap.  The upward loop stops at the first
of the free blocks around the released one, and the downward loop joins the
others to it.  The back link of the block after them is left alone, so that the
heap keeps its back links exactly when nothing is joined or no block follows.
-/

namespace LightOS

open Arena Blocks Memory Heap

variable {start address arena : Nat} {heap : Heap} {content : Nat → List Cell} {cell : Cell}

/-- The upward loop stops at a header without a free block before it. -/
theorem climb_stop (heap : Heap) {before : List Cell} (placed : Placed heap.memory start before)
    (positive : start ≠ 0) (lastUsed : ∀ last ∈ before.getLast?, last.used = true)
    (isBack : backPtr heap.memory arena = lastAddress arenaSize 0 start before) (rounds : Nat) :
    ∃ followed, climb (rounds + 1) heap arena =
        .ok (arena, { heap with followed := followed ++ heap.followed }) ∧
      ∀ header ∈ followed, ∃ cell,
        (header, cell) ∈ place arenaSize start before := by
  rw [climb, isBack]
  rcases List.eq_nil_or_concat' before with rfl | ⟨init, last, rfl⟩
  · exact ⟨[], by simp [lastAddress], by simp⟩
  · have isLast : lastAddress arenaSize 0 start (init ++ [last]) =
        start + span arenaSize init := by
      rw [lastAddress_append]
      rfl
    have present : (start + span arenaSize init, last) ∈
        place arenaSize start (init ++ [last]) :=
      mem_place.mpr ⟨init, [], rfl, rfl⟩
    have inUse := (placed _ _ present).used
    rw [lastUsed last (by simp)] at inUse
    have notNull : start + span arenaSize init ≠ 0 := by omega
    refine ⟨[start + span arenaSize init], ?_, ?_⟩
    · rw [isLast, if_neg notNull]
      simp [inUse, follow]
    · intro header isHeader
      rw [List.mem_singleton.mp isHeader]
      exact ⟨last, present⟩

/-- A block with the next one joined to it. -/
def joinNext (cell next : Cell) : Cell :=
  { cell with
    length := cell.length + (next.length + arenaSize)
    forward := next.forward }

/-- A round of the downward loop joins a free block to the one before it, and changes the
header of the first block only. -/
theorem absorbNext_spec {first : Nat} {next : Cell} (holds : Holds heap.memory first cell)
    (nextHolds : Holds heap.memory address next)
    (isNext : first + arenaSize + cell.length = address) (link : cell.forward = address)
    (inLists : address ∈ heap.freeList ∧ address ∉ heap.usedList)
    (small : cell.length + (next.length + arenaSize) < 2 ^ 32) :
    ∃ memory, (heap.follow address).absorbNext first = .ok { heap with
        memory := memory
        freeList := heap.freeList.erase address
        followed := address :: heap.followed } ∧
      ChangesIn heap.memory memory first arenaSize ∧
      Holds memory first (joinNext cell next) := by
  have sum : add32 cell.length (add32 next.length arenaSize) = (joinNext cell next).length := by
    rw [add32, add32, Nat.mod_eq_of_lt (by omega : next.length + arenaSize < _)]
    exact Nat.mod_eq_of_lt small
  have nextForward :
      forwardPtr (setLength heap.memory first (joinNext cell next).length) address =
        next.forward := by
    have agree : AgreeOn (setLength heap.memory first (joinNext cell next).length)
        heap.memory address arenaSize :=
      (changesIn_setLength heap.memory first (joinNext cell next).length).agreeOn (by omega)
    exact (nextHolds.of_agreeOn agree).forward
  refine ⟨setForwardPtr (setLength heap.memory first (joinNext cell next).length) first
    next.forward, ?_, ?_, ?_⟩
  · have kept : heap.usedList.erase address = heap.usedList :=
      List.erase_of_not_mem inLists.2
    simp only [absorbNext, follow, listRemove, holds.forward, link,
      check_true (.inl inLists.1 : address ∈ heap.freeList ∨ _), ok_bind,
      pure_eq_ok, holds.length, nextHolds.length, sum, nextForward, kept]
  · exact (changesIn_setLength _ _ _).trans (changesIn_setForwardPtr _ _ _)
  · exact (holds.setLength small).setForwardPtr nextHolds.bounds.2.2

/-- The downward loop joins the free blocks after a header to its block. -/
theorem absorb_spec
    {first rounds : Nat} {absorbed after : List Cell}
    (holds : Holds heap.memory first cell)
    (placed : Placed heap.memory (first + arenaSize + cell.length)
      (absorbed ++ after))
    (forward : ForwardTo arenaSize 0 first (cell :: (absorbed ++ after)))
    (allFree : ∀ other ∈ absorbed, other.used = false)
    (nextUsed : ∀ next ∈ after.head?, next.used = true)
    (inRange : first + span arenaSize (cell :: (absorbed ++ after)) < 2 ^ 32)
    (nodup : heap.freeList.Nodup)
    (listed : ∀ address other, (address, other) ∈
      place arenaSize (first + arenaSize + cell.length) absorbed →
        address ∈ heap.freeList ∧ address ∉ heap.usedList)
    (enough : absorbed.length < rounds) :
    ∃ heap', absorb rounds heap first = .ok heap' ∧
      heap'.runs = heap.runs ∧ heap'.pages = heap.pages ∧
      heap'.usedList = heap.usedList ∧
      ChangesIn heap.memory heap'.memory first arenaSize ∧
      Holds heap'.memory first { cell with
        length := cell.length + span arenaSize absorbed
        forward := if after = [] then 0
          else first + arenaSize + cell.length + span arenaSize absorbed } ∧
      heap'.freeList.Nodup ∧
      (∀ address, address ∈ heap'.freeList ↔ address ∈ heap.freeList ∧
        ∀ other, (address, other) ∉
          place arenaSize (first + arenaSize + cell.length) absorbed) ∧
      ∀ header ∈ heap'.followed, header ∈ heap.followed ∨ ∃ other,
        (header, other) ∈ place arenaSize (first + arenaSize + cell.length)
          (absorbed ++ after) := by
  induction absorbed generalizing heap cell rounds with
  | nil =>
      obtain ⟨rounds, rfl⟩ : ∃ fewer, rounds = fewer + 1 :=
        ⟨rounds - 1, by simp only [List.length_nil] at enough; omega⟩
      have link := forward.1
      rw [absorb, holds.forward, link]
      have kept : Holds heap.memory first { cell with
          length := cell.length + span arenaSize []
          forward := if after = [] then 0
            else first + arenaSize + cell.length + span arenaSize [] } := by
        have same : cell = { cell with
            length := cell.length + span arenaSize []
            forward := if after = [] then 0
              else first + arenaSize + cell.length + span arenaSize [] } := by
          cases cell
          simpa [span] using link
        rw [← same]
        exact holds
      cases after with
      | nil =>
          exact ⟨heap, by simp, rfl, rfl, rfl, ChangesIn.refl _ _ _, kept, nodup,
            by simp [place], fun header isHeader => .inl isHeader⟩
      | cons next rest =>
          have present : (first + arenaSize + cell.length, next) ∈
              place arenaSize (first + arenaSize + cell.length)
                ([] ++ next :: rest) := by
            simp [place]
          have inUse := (placed _ _ present).used
          rw [nextUsed next (by simp)] at inUse
          have notNull : first + arenaSize + cell.length ≠ 0 := by
            simp only [arenaSize]
            omega
          refine ⟨heap.follow (first + arenaSize + cell.length), ?_, rfl, rfl,
            rfl, ChangesIn.refl _ _ _, kept, nodup, by simp [place, follow], ?_⟩
          · simp [inUse]
          · intro header isHeader
            rcases List.mem_cons.mp isHeader with rfl | isHeader
            · exact .inr ⟨next, present⟩
            · exact .inl isHeader
  | cons next absorbed inductionHypothesis =>
      obtain ⟨rounds, rfl⟩ : ∃ fewer, rounds = fewer + 1 :=
        ⟨rounds - 1, by simp only [List.length_cons] at enough; omega⟩
      generalize isNext : first + arenaSize + cell.length = address at *
      have link : cell.forward = address := by
        simpa [isNext] using forward.1
      have present : (address, next) ∈
          place arenaSize address (next :: absorbed) := by
        simp [place]
      have nextHolds := placed address next (by simp [place])
      have isFree := nextHolds.used
      rw [allFree next (by simp)] at isFree
      have notNull : address ≠ 0 := by
        simp only [arenaSize] at isNext
        omega
      have inLists := listed address next present
      have range := inRange
      simp only [List.cons_append, span] at range
      obtain ⟨memory, ran, changes, joinedHolds⟩ :=
        absorbNext_spec holds nextHolds isNext link inLists (by omega)
      let joined := joinNext cell next
      have joinedLength : joined.length = cell.length + (next.length + arenaSize) := rfl
      have rest : address + arenaSize + next.length =
          first + arenaSize + joined.length := by
        omega
      let between : Heap := { heap with
        memory := memory
        freeList := heap.freeList.erase address
        followed := address :: heap.followed }
      have result : (heap.follow address).absorbNext first = .ok between := ran
      have sameRest : place arenaSize address (next :: absorbed) =
          (address, next) ::
            place arenaSize (first + arenaSize + joined.length) absorbed := by
        rw [place, rest]
      have placedRest : Placed between.memory
          (first + arenaSize + joined.length) (absorbed ++ after) := by
        rw [← rest]
        exact (placed_cons.mp placed).2.of_agreeOn
          (changes.agreeOn (by omega))
      have forwardRest : ForwardTo arenaSize 0 first
          (joined :: (absorbed ++ after)) := by
        have linked := forward.2
        rw [List.cons_append, ForwardTo, isNext, rest] at linked
        exact ⟨linked.1, linked.2⟩
      have rangeRest : first +
          span arenaSize (joined :: (absorbed ++ after)) < 2 ^ 32 := by
        simp only [span]
        omega
      have listedRest (other : Nat) (otherCell : Cell)
          (isOther : (other, otherCell) ∈ place arenaSize
            (first + arenaSize + joined.length) absorbed) :
          other ∈ between.freeList ∧ other ∉ between.usedList := by
        have inOriginal := listed other otherCell
          (by rw [sameRest]; exact List.mem_cons_of_mem _ isOther)
        have later := (place_inside isOther).1
        have different : other ≠ address := by
          simp only [arenaSize] at later isNext
          omega
        exact ⟨(nodup.mem_erase_iff).mpr ⟨different, inOriginal.1⟩, inOriginal.2⟩
      obtain ⟨heap', isOk, runs, pages, usedList, changes', holds', nodup',
        members, followed⟩ := @inductionHypothesis between joined rounds joinedHolds
          placedRest forwardRest
          (fun other isOther => allFree other (List.mem_cons_of_mem _ isOther))
          rangeRest (nodup.erase address) listedRest
          (by simp only [List.length_cons] at enough; omega)
      have sameLength : joined.length + span arenaSize absorbed =
          cell.length + span arenaSize (next :: absorbed) := by
        simp only [span]
        omega
      refine ⟨heap', ?_, runs, pages, usedList, changes.trans changes', ?_, nodup',
        ?_, ?_⟩
      · rw [absorb, holds.forward, link, if_neg notNull, isFree]
        simp [result, isOk]
      · have sameEnd : first + arenaSize + joined.length +
            span arenaSize absorbed =
              address + span arenaSize (next :: absorbed) := by
          omega
        rw [sameLength, sameEnd] at holds'
        exact holds'
      · intro other
        rw [members, nodup.mem_erase_iff, sameRest]
        simp only [List.mem_cons, Prod.mk.injEq, not_or, not_and, forall_and]
        constructor
        · rintro ⟨⟨different, inList⟩, outside⟩
          exact ⟨inList, fun _ same => absurd same different, outside⟩
        · rintro ⟨inList, notNext, outside⟩
          exact ⟨⟨fun same => notNext next same rfl, inList⟩, outside⟩
      · intro header isHeader
        rw [List.cons_append, place, rest]
        rcases followed header isHeader with isFollowed | ⟨other, isOther⟩
        · rcases List.mem_cons.mp isFollowed with rfl | isFollowed
          · exact .inr ⟨next, List.mem_cons_self⟩
          · exact .inl isFollowed
        · exact .inr ⟨other, List.mem_cons_of_mem _ isOther⟩

/-- The condition under which `kfree` keeps the back links: nothing is joined or
no block follows the joined ones. -/
def KfreeKeepsLinks (heap : Heap) (ptr : Nat) : Prop :=
  let arena := sub32 ptr arenaSize
  let back := backPtr heap.memory arena
  let next := forwardPtr heap.memory arena
  next = 0 ∨
    if isUsed heap.memory next then back = 0 ∨ isUsed heap.memory back = true
    else forwardPtr heap.memory next = 0

instance (heap : Heap) (ptr : Nat) : Decidable (KfreeKeepsLinks heap ptr) := by
  unfold KfreeKeepsLinks
  infer_instance

/-- A used block together with the free blocks next to it. -/
structure Neighbourhood (heap : Heap) (content : Nat → List Cell)
    (arena : Nat) (cell : Cell) (run : Nat × Nat)
    (before previous next after : List Cell) : Prop where
  isRun : run ∈ heap.runs
  here : content run.1 = before ++ (previous ++ cell :: next) ++ after
  isArena : arena = run.1 + span arenaSize before + span arenaSize previous
  inUse : cell.used = true
  previousFree : previous = [] ∨ ∃ other, previous = [other] ∧ other.used = false
  nextFree : next = [] ∨ ∃ other, next = [other] ∧ other.used = false
  beforeUsed : ∀ last ∈ before.getLast?, last.used = true
  afterUsed : ∀ first ∈ after.head?, first.used = true

/-- Every used block has a neighbourhood. -/
theorem exists_neighbourhood
    (shape : Shape heap content)
    (isBlock : IsBlock heap.runs content arena cell)
    (inUse : cell.used = true) :
    ∃ run before previous next after,
      Neighbourhood heap content arena cell run before previous next after := by
  obtain ⟨run, isRun, placed⟩ := isBlock
  obtain ⟨left, right, here, isArena⟩ := mem_place.mp placed
  have separated := shape.separated run isRun
  rw [here, ← List.singleton_append, ← List.append_assoc, separated_around]
    at separated
  obtain ⟨before, previous, rfl, previousFree, beforeUsed⟩ :=
    exists_free_last separated.1
  obtain ⟨next, after, rfl, nextFree, afterUsed⟩ :=
    exists_free_head separated.2.1
  refine ⟨run, before, previous, next, after, isRun, by simp [here], ?_, inUse,
    previousFree, nextFree, beforeUsed, afterUsed⟩
  rw [isArena, span_append]
  omega

namespace Neighbourhood

variable {run : Nat × Nat} {before previous next after : List Cell}

/-- The blocks around a used block. -/
theorem around
    (hood : Neighbourhood heap content arena cell run before previous next after) :
    content run.1 = (before ++ previous) ++ cell :: (next ++ after) := by
  simp [hood.here]

theorem placed
    (hood : Neighbourhood heap content arena cell run before previous next after) :
    (arena, cell) ∈ place arenaSize run.1 (content run.1) := by
  refine mem_place.mpr ⟨_, _, hood.around, ?_⟩
  rw [span_append, hood.isArena]
  omega

theorem isBlock
    (hood : Neighbourhood heap content arena cell run before previous next after) :
    IsBlock heap.runs content arena cell :=
  ⟨run, hood.isRun, hood.placed⟩

/-- The condition on the fields says that nothing is joined or no block
follows. -/
theorem keepsLinks_iff
    (shape : Shape heap content) (linked : BackLinked heap.runs content)
    (hood : Neighbourhood heap content arena cell run before previous next after) :
    KfreeKeepsLinks heap (arena + arenaSize) ↔
      after = [] ∨ (previous = [] ∧ next = []) := by
  have bounds := shape.block_bounds hood.isBlock
  have holds := shape.holds hood.isBlock
  have isRun := hood.isRun
  have forward := shape.forward run isRun
  have back := linked run isRun
  rw [hood.around] at forward back
  have forwardLink := forward_of_split forward
  have backLink := back_of_split back
  have isHeader : sub32 (arena + arenaSize) arenaSize = arena := by
    simp [sub32]
  have positive : run.1 ≠ 0 := by
    obtain ⟨first, base, _⟩ := shape.bounds run isRun
    omega
  -- The block before is in use exactly when it is not part of the hood.
  have backTest : (cell.back = 0 ∨ isUsed heap.memory cell.back = true) ↔
      previous = [] := by
    rw [backLink]
    rcases hood.previousFree with isEmpty | ⟨other, isOther, isFree⟩
    · simp only [isEmpty, List.append_nil, iff_true]
      rcases List.eq_nil_or_concat' before with rfl | ⟨init, last, isBefore⟩
      · exact .inl rfl
      · right
        have present : (run.1 + span arenaSize init, last) ∈
            place arenaSize run.1 (content run.1) := by
          refine mem_place.mpr ⟨init, cell :: (next ++ after), ?_, rfl⟩
          simp [hood.around, isEmpty, isBefore]
        have lastUsed := hood.beforeUsed last (by simp [isBefore])
        rw [isBefore, lastAddress_append]
        exact (shape.holds ⟨run, isRun, present⟩).used.trans lastUsed
    · have present : (run.1 + span arenaSize before, other) ∈
          place arenaSize run.1 (content run.1) := by
        refine mem_place.mpr ⟨before, cell :: (next ++ after), ?_, rfl⟩
        simp [hood.around, isOther]
      have notUsed := (shape.holds ⟨run, isRun, present⟩).used
      have notNull : run.1 + span arenaSize before ≠ 0 := by omega
      rw [isOther, lastAddress_append]
      simp only [lastAddress, notNull, notUsed, isFree, List.cons_ne_nil]
      simp
  simp only [KfreeKeepsLinks, isHeader, holds.forward, holds.back, backTest,
    forwardLink]
  rcases hood.nextFree with isEmpty | ⟨other, isOther, isFree⟩
  · cases isAfter : after with
    | nil => simp [isEmpty]
    | cons first rest =>
        have present : (run.1 + span arenaSize (before ++ previous) +
            arenaSize + cell.length, first) ∈
              place arenaSize run.1 (content run.1) := by
          refine mem_place.mpr ⟨before ++ previous ++ [cell], rest, ?_, ?_⟩
          · simp [hood.around, isEmpty, isAfter]
          · simp only [span_append, span]
            omega
        have firstUsed := (shape.holds ⟨run, isRun, present⟩).used
        rw [hood.afterUsed first (by simp [isAfter])] at firstUsed
        have notNull : run.1 + span arenaSize (before ++ previous) +
            arenaSize + cell.length ≠ 0 := by omega
        simp only [isEmpty, List.nil_append, List.cons_ne_nil, if_false,
          notNull, firstUsed, if_true, false_or, and_true]
  · have present : (run.1 + span arenaSize (before ++ previous) +
        arenaSize + cell.length, other) ∈
          place arenaSize run.1 (content run.1) := by
      refine mem_place.mpr ⟨before ++ previous ++ [cell], after, ?_, ?_⟩
      · simp [hood.around, isOther]
      · simp only [span_append, span]
        omega
    have otherHolds := shape.holds ⟨run, isRun, present⟩
    have split : (before ++ previous) ++ cell :: (next ++ after) =
        (before ++ previous ++ [cell]) ++ other :: after := by
      simp [isOther]
    rw [split] at forward
    have otherLink := forward_of_split forward
    have notNull : run.1 + span arenaSize (before ++ previous) +
        arenaSize + cell.length ≠ 0 := by omega
    have farNotNull : run.1 + span arenaSize (before ++ previous ++ [cell]) +
        arenaSize + other.length ≠ 0 := by omega
    simp only [isOther, List.singleton_append, List.cons_ne_nil, if_false,
      notNull, otherHolds.used, isFree, Bool.false_eq_true, otherHolds.forward,
      otherLink, false_or, and_false, or_false]
    by_cases isLast : after = []
    · simp [isLast]
    · simp only [isLast, if_false, iff_false]
      exact farNotNull

/-- The overflow check passes. -/
theorem checkMagic_eq
    (shape : Shape heap content)
    (hood : Neighbourhood heap content arena cell run before previous next after) :
    ∃ followed, heap.checkMagic arena =
        .ok { heap with followed := followed } ∧
      ∀ header ∈ followed, ∃ other,
        IsBlock heap.runs content header other := by
  have holds := shape.holds hood.isBlock
  have forward := shape.forward run hood.isRun
  rw [hood.around] at forward
  have link := forward_of_split forward
  rw [checkMagic, holds.forward]
  cases isNext : next ++ after with
  | nil =>
      rw [isNext] at link
      exact ⟨[], by simp [link], by simp⟩
  | cons first rest =>
      rw [isNext] at link
      have isBlock : IsBlock heap.runs content (run.1 +
          span arenaSize (before ++ previous) + arenaSize + cell.length)
            first := by
        refine ⟨run, hood.isRun, mem_place.mpr
          ⟨before ++ previous ++ [cell], rest, ?_, ?_⟩⟩
        · rw [hood.around, isNext]
          simp
        · simp only [span_append, span]
          omega
      have notNull : run.1 + span arenaSize (before ++ previous) +
          arenaSize + cell.length ≠ 0 := by
        simp only [arenaSize]
        omega
      refine ⟨[cell.forward], ?_, ?_⟩
      · have isMagic := (shape.holds isBlock).magic
        simp only [List.cons_ne_nil, if_false] at link
        rw [link, if_neg notNull, if_pos isMagic]
      · intro header isHeader
        rw [List.mem_singleton.mp isHeader, link]
        exact ⟨first, isBlock⟩

/-- The heap while `kfree` holds the released block. -/
def released (heap : Heap) (arena : Nat) (followed : List Nat) : Heap :=
  { heap with
    memory := setUsed heap.memory arena false
    freeList := arena :: heap.freeList
    usedList := heap.usedList.erase arena
    followed := followed }

/-- A used block can be released. -/
theorem release_eq
    (shape : Shape heap content)
    (hood : Neighbourhood heap content arena cell run before previous next after)
    (followed : List Nat) :
    release { heap with followed := followed } arena =
      .ok (released heap arena followed) := by
  have listed : arena ∈ heap.usedList :=
    (shape.used arena).mpr ⟨cell, hood.isBlock, hood.inUse⟩
  have notFree := shape.not_free_of_used listed
  simp [release, listRemove, pushFree, released, listed, notFree, check_true,
    List.erase_of_not_mem]

/-- The headers hold the cells with the released block free. -/
theorem placed_released
    (shape : Shape heap content)
    (hood : Neighbourhood heap content arena cell run before previous next after) :
    Placed (setUsed heap.memory arena false) run.1
      (before ++ (previous ++ { cell with used := false } :: next) ++ after) := by
  have placed := shape.placed run hood.isRun
  have split : content run.1 =
      (before ++ previous) ++ [cell] ++ (next ++ after) := by
    simp [hood.here]
  have split' : before ++ (previous ++ { cell with used := false } :: next) ++
      after = (before ++ previous) ++ [{ cell with used := false }] ++
        (next ++ after) := by
    simp
  have isArena : run.1 + span arenaSize (before ++ previous) = arena := by
    rw [span_append, hood.isArena]
    omega
  rw [split] at placed
  rw [split']
  refine placed.replace ?_ (by simp [span]) ?_
  · rw [isArena]
    exact (changesIn_setUsed heap.memory arena false).mono (Nat.le_refl _)
      (by simp only [span]; omega)
  · rw [isArena, placed_singleton]
    exact (shape.holds hood.isBlock).setUsed false

/-- Forward links of the run with the released block free. -/
theorem forward_released
    (shape : Shape heap content)
    (hood : Neighbourhood heap content arena cell run before previous next after) :
    ForwardTo arenaSize 0 run.1
      (before ++ (previous ++ { cell with used := false } :: next) ++ after) := by
  have forward := shape.forward run hood.isRun
  have split : content run.1 =
      (before ++ previous) ++ [cell] ++ (next ++ after) := by
    simp [hood.here]
  have split' : before ++ (previous ++ { cell with used := false } :: next) ++
      after = (before ++ previous) ++ [{ cell with used := false }] ++
        (next ++ after) := by
    simp
  rw [split] at forward
  rw [split']
  refine forwardTo_replace forward (by simp) (by simp) (by simp [span]) ?_
  rw [List.append_assoc, forwardTo_append, List.singleton_append] at forward
  have link := forward.2.1
  simpa [ForwardTo, span, Nat.add_assoc] using link

/-- The upward loop ends at the first block of the neighbourhood. -/
theorem climb_eq
    (shape : Shape heap content) (linked : BackLinked heap.runs content)
    (hood : Neighbourhood heap content arena cell run before previous next after)
    (followed : List Nat) {rounds : Nat} (enough : 2 ≤ rounds) :
    ∃ climbed, climb rounds (released heap arena followed) arena =
        .ok (run.1 + span arenaSize before,
          { released heap arena followed with followed := climbed ++ followed }) ∧
      ∀ header ∈ climbed, ∃ other, IsBlock heap.runs content header other := by
  obtain ⟨rounds, rfl⟩ : ∃ fewer, rounds = fewer + 2 := ⟨rounds - 2, by omega⟩
  have back := linked run hood.isRun
  rw [hood.around] at back
  have backLink := back_of_split back
  have positive : run.1 ≠ 0 := by
    obtain ⟨first, base, _⟩ := shape.bounds run hood.isRun
    omega
  have placed := hood.placed_released shape
  rw [placed_append, placed_append] at placed
  obtain ⟨⟨placedBefore, placedHood⟩, _⟩ := placed
  have blockBefore (header : Nat)
      (isHeader : ∃ other, (header, other) ∈ place arenaSize run.1 before) :
      ∃ other, IsBlock heap.runs content header other := by
    obtain ⟨other, present⟩ := isHeader
    refine ⟨other, run, hood.isRun, ?_⟩
    rw [hood.here, List.append_assoc, place_append]
    exact List.mem_append_left _ present
  rcases hood.previousFree with isEmpty | ⟨other, isOther, isFree⟩
  · have isFirst : arena = run.1 + span arenaSize before := by
      rw [hood.isArena, isEmpty]
      rfl
    rw [isEmpty, List.append_nil] at backLink
    have isBack : backPtr (released heap arena followed).memory arena =
        lastAddress arenaSize 0 run.1 before := by
      rw [← backLink]
      exact ((shape.holds hood.isBlock).setUsed false).back
    obtain ⟨climbed, isOk, isBlocks⟩ :=
      climb_stop (released heap arena followed) placedBefore positive
        hood.beforeUsed isBack (rounds + 1)
    refine ⟨climbed, ?_, fun header isHeader =>
      blockBefore header (isBlocks header isHeader)⟩
    rw [← isFirst]
    exact isOk
  · rw [isOther, lastAddress_append] at backLink
    have otherHolds : Holds (setUsed heap.memory arena false)
        (run.1 + span arenaSize before) other := by
      rw [isOther] at placedHood
      exact (placed_cons.mp placedHood).1
    have otherIsBlock : IsBlock heap.runs content
        (run.1 + span arenaSize before) other := by
      refine ⟨run, hood.isRun, mem_place.mpr
        ⟨before, cell :: (next ++ after), ?_, rfl⟩⟩
      simp [hood.here, isOther]
    have otherBack : other.back = lastAddress arenaSize 0 run.1 before := by
      have split : (before ++ previous) ++ cell :: (next ++ after) =
          before ++ other :: (cell :: (next ++ after)) := by
        simp [isOther]
      rw [split] at back
      exact back_of_split back
    have isBack : backPtr (released heap arena followed).memory arena =
        run.1 + span arenaSize before := by
      have link := ((shape.holds hood.isBlock).setUsed false).back
      simp only [backLink, lastAddress] at link
      exact link
    have notNull : run.1 + span arenaSize before ≠ 0 := by omega
    have notUsed : isUsed (released heap arena followed).memory
        (run.1 + span arenaSize before) = false :=
      otherHolds.used.trans isFree
    obtain ⟨climbed, isOk, isBlocks⟩ :=
      climb_stop ((released heap arena followed).follow
        (run.1 + span arenaSize before)) placedBefore positive
        hood.beforeUsed (otherHolds.back.trans otherBack) rounds
    refine ⟨climbed ++ [run.1 + span arenaSize before], ?_, ?_⟩
    · rw [climb, isBack, if_neg notNull, notUsed]
      simp only [Bool.false_eq_true, if_false, isOk]
      simp [follow, released]
    · intro header isHeader
      rcases List.mem_append.mp isHeader with isClimbed | isFirst
      · exact blockBefore header (isBlocks header isClimbed)
      · rw [List.mem_singleton.mp isFirst]
        exact ⟨other, otherIsBlock⟩

/-- The blocks of a neighbourhood are the released one and free ones. -/
theorem block_or_free (shape : Shape heap content)
    (hood : Neighbourhood heap content arena cell run before previous next after) {other : Cell}
    (present : (address, other) ∈ place arenaSize
      (run.1 + span arenaSize before) (previous ++ cell :: next)) :
    IsBlock heap.runs content address other ∧
      (address = arena ∨ address ∈ heap.freeList) := by
  have isBlock : IsBlock heap.runs content address other := by
    refine ⟨run, hood.isRun, ?_⟩
    rw [hood.here, place_append, place_append]
    simp [present]
  refine ⟨isBlock, ?_⟩
  have freeListed (isFree : other.used = false) : address ∈ heap.freeList :=
    (shape.free address).mpr ⟨other, isBlock, isFree⟩
  have neighbourFree {start : Nat} {cells : List Cell}
      (isNeighbour : cells = [] ∨ ∃ cell, cells = [cell] ∧ cell.used = false)
      (inNeighbour : (address, other) ∈ place arenaSize start cells) :
      other.used = false := by
    rcases isNeighbour with rfl | ⟨cell, rfl, isFree⟩
    · cases inNeighbour
    · simp only [place, List.mem_singleton, Prod.mk.injEq] at inNeighbour
      rw [inNeighbour.2]
      exact isFree
  rw [place_append, place, List.mem_append, List.mem_cons] at present
  rcases present with inPrevious | isHere | inNext
  · exact .inr (freeListed (neighbourFree hood.previousFree inPrevious))
  · left
    rw [hood.isArena]
    exact congrArg Prod.fst isHere
  · exact .inr (freeListed (neighbourFree hood.nextFree inNext))

/-- The released block is in its neighbourhood. -/
theorem mem_here (hood : Neighbourhood heap content arena cell run before previous next after)
    (isStart : start = run.1 + span arenaSize before) :
    ∃ other, (arena, other) ∈ place arenaSize start (previous ++ cell :: next) := by
  refine ⟨cell, mem_place.mpr ⟨previous, next, rfl, ?_⟩⟩
  rw [isStart]
  exact hood.isArena

/-- The cells of a neighbourhood with the released block free: the first one, and those that
are joined to it. -/
structure Joins (heap : Heap) (cell : Cell) (run : Nat × Nat) (before previous next : List Cell)
    (first : Cell) (absorbed : List Cell) : Prop where
  cells : previous ++ { cell with used := false } :: next = first :: absorbed
  free : ∀ other ∈ first :: absorbed, other.used = false
  back : first.back = lastAddress arenaSize 0 run.1 before
  single : absorbed = [] ↔ previous = [] ∧ next = []
  few : absorbed.length ≤ heap.freeList.length + 1

/-- The first block of a neighbourhood and the blocks that are joined to it. -/
theorem exists_joined
    (shape : Shape heap content) (linked : BackLinked heap.runs content)
    (hood : Neighbourhood heap content arena cell run before previous next after) :
    ∃ first absorbed, Joins heap cell run before previous next first absorbed := by
  have back := linked run hood.isRun
  have nextUnused (other : Cell) (present : other ∈ next) :
      other.used = false := by
    rcases hood.nextFree with isEmpty | ⟨only, isOnly, isFree⟩
    · simp [isEmpty] at present
    · rw [isOnly, List.mem_singleton] at present
      rw [present]
      exact isFree
  have nextShort : next.length ≤ 1 := by
    rcases hood.nextFree with isEmpty | ⟨only, isOnly, _⟩
    · simp [isEmpty]
    · simp [isOnly]
  rcases hood.previousFree with isEmpty | ⟨other, isOther, isFree⟩
  · refine ⟨{ cell with used := false }, next, by simp [isEmpty], ?_, ?_,
      by simp [isEmpty], by omega⟩
    · intro other present
      rcases List.mem_cons.mp present with rfl | inNext
      · rfl
      · exact nextUnused other inNext
    · rw [hood.around, isEmpty, List.append_nil] at back
      have link : cell.back = _ := back_of_split back
      exact link
  · refine ⟨other, { cell with used := false } :: next, by simp [isOther], ?_, ?_,
      by simp [isOther], ?_⟩
    · intro third present
      rcases List.mem_cons.mp present with rfl | present
      · exact isFree
      · rcases List.mem_cons.mp present with rfl | inNext
        · rfl
        · exact nextUnused third inNext
    · have split : (before ++ previous) ++ cell :: (next ++ after) =
          before ++ other :: (cell :: (next ++ after)) := by
        simp [isOther]
      rw [hood.around, split] at back
      exact back_of_split back
    · have present : (run.1 + span arenaSize before, other) ∈ place arenaSize
          (run.1 + span arenaSize before) (previous ++ cell :: next) := by
        simp [isOther, place]
      have listed := (shape.free (run.1 + span arenaSize before)).mpr
        ⟨other, (hood.block_or_free shape present).1, isFree⟩
      have := List.length_pos_of_mem listed
      simp only [List.length_cons]
      omega

namespace Joins

variable {first : Cell} {absorbed : List Cell}

theorem span_eq (joins : Joins heap cell run before previous next first absorbed) :
    span arenaSize (previous ++ cell :: next) = span arenaSize (first :: absorbed) := by
  rw [← joins.cells]
  simp [span]

/-- The addresses of the blocks of a neighbourhood. -/
theorem mem_iff (joins : Joins heap cell run before previous next first absorbed)
    (start address : Nat) :
    (∃ other, (address, other) ∈ place arenaSize start (previous ++ cell :: next)) ↔
      address = start ∨ ∃ other,
        (address, other) ∈ place arenaSize (start + arenaSize + first.length) absorbed := by
  have same : (∃ other, (address, other) ∈ place arenaSize start (previous ++ cell :: next)) ↔
      ∃ other, (address, other) ∈ place arenaSize start (first :: absorbed) := by
    rw [← joins.cells]
    simp only [place_append, place, List.mem_append, List.mem_cons, Prod.mk.injEq, exists_or,
      exists_and_left, exists_eq, and_true]
  rw [same]
  simp only [place, List.mem_cons, Prod.mk.injEq, exists_or, exists_and_left, exists_eq, and_true]

/-- The last block of a neighbourhood. -/
theorem lastAddress_eq (joins : Joins heap cell run before previous next first absorbed)
    (start earlier : Nat) :
    lastAddress arenaSize earlier start (previous ++ cell :: next) =
      lastAddress arenaSize start (start + arenaSize + first.length) absorbed := by
  have unfolded : lastAddress arenaSize earlier start
      (previous ++ { cell with used := false } :: next) =
        lastAddress arenaSize start (start + arenaSize + first.length) absorbed := by
    rw [joins.cells]
    rfl
  rw [← unfolded]
  simp [lastAddress_append, lastAddress]

/-- The first block is the last one exactly when nothing is joined to it. -/
theorem lastAddress_iff (joins : Joins heap cell run before previous next first absorbed)
    (start earlier : Nat) :
    lastAddress arenaSize earlier start (previous ++ cell :: next) = start ↔
      previous = [] ∧ next = [] := by
  rw [joins.lastAddress_eq, ← joins.single]
  cases absorbed with
  | nil => simp [lastAddress]
  | cons second rest =>
      have later := @le_lastAddress arenaSize start (start + arenaSize + first.length) second rest
      simp only [lastAddress, arenaSize, List.cons_ne_nil, iff_false] at later ⊢
      omega

/-- The block that the others are joined to. -/
def joined (first : Cell) (absorbed after : List Cell) (start : Nat) : Cell :=
  { first with
    length := first.length + span arenaSize absorbed
    forward := if after = [] then 0
      else start + arenaSize + first.length + span arenaSize absorbed }

theorem span_joined (joins : Joins heap cell run before previous next first absorbed)
    (after : List Cell) (start : Nat) :
    span arenaSize [joined first absorbed after start] =
      span arenaSize (previous ++ cell :: next) := by
  rw [joins.span_eq]
  simp only [span, joined]
  omega

/-- The blocks of the neighbourhood are listed as free when the released one is. -/
theorem listed (shape : Shape heap content)
    (hood : Neighbourhood heap content arena cell run before previous next after)
    (joins : Joins heap cell run before previous next first absorbed)
    (isStart : start = run.1 + span arenaSize before)
    (present : address = start ∨ ∃ other, (address, other) ∈
      place arenaSize (start + arenaSize + first.length) absorbed) :
    address ∈ arena :: heap.freeList ∧ address ∉ heap.usedList.erase arena := by
  obtain ⟨other, inHood⟩ := (joins.mem_iff start address).mpr present
  rw [isStart] at inHood
  rcases (hood.block_or_free shape inHood).2 with rfl | isFree
  · exact ⟨List.mem_cons_self, shape.usedNodup.not_mem_erase⟩
  · refine ⟨List.mem_cons_of_mem _ isFree, fun inUsed => ?_⟩
    exact shape.not_free_of_used (List.mem_of_mem_erase inUsed) isFree

/-- Of the neighbourhood only the joined block is listed as free. -/
theorem free_iff (shape : Shape heap content)
    (hood : Neighbourhood heap content arena cell run before previous next after)
    (joins : Joins heap cell run before previous next first absorbed)
    (isStart : start = run.1 + span arenaSize before) (address : Nat) :
    (address ∈ arena :: heap.freeList ∧ ∀ other, (address, other) ∉
        place arenaSize (start + arenaSize + first.length) absorbed) ↔
      (address ∈ heap.freeList ∧ ∀ other, (address, other) ∉
          place arenaSize start (previous ++ cell :: next)) ∨
        ∃ other, (address, other) ∈ place arenaSize start [joined first absorbed after start] ∧
          other.used = false := by
  have firstFree : (joined first absorbed after start).used = false :=
    joins.free first List.mem_cons_self
  rw [← not_exists, ← not_exists, joins.mem_iff]
  simp only [place, List.mem_singleton, Prod.mk.injEq]
  constructor
  · rintro ⟨inBetween, notAbsorbed⟩
    by_cases isFirst : address = start
    · exact .inr ⟨_, ⟨isFirst, rfl⟩, firstFree⟩
    · left
      have outside : ¬(address = start ∨ ∃ other, (address, other) ∈
          place arenaSize (start + arenaSize + first.length) absorbed) :=
        fun inside => inside.elim isFirst notAbsorbed
      refine ⟨?_, outside⟩
      rcases List.mem_cons.mp inBetween with rfl | isFree
      · exact absurd ((joins.mem_iff start address).mp (hood.mem_here isStart)) outside
      · exact isFree
  · rintro (⟨isFree, outside⟩ | ⟨_, ⟨rfl, _⟩, _⟩)
    · exact ⟨List.mem_cons_of_mem _ isFree, fun isAbsorbed => outside (.inr isAbsorbed)⟩
    · refine ⟨(joins.listed shape hood isStart (.inl rfl)).1, ?_⟩
      rintro ⟨other, present⟩
      have behind := (place_inside present).1
      simp only [arenaSize] at behind
      omega

/-- Of the neighbourhood no block is listed as used. -/
theorem used_iff (shape : Shape heap content)
    (hood : Neighbourhood heap content arena cell run before previous next after)
    (joins : Joins heap cell run before previous next first absorbed)
    (isStart : start = run.1 + span arenaSize before) (address : Nat) :
    address ∈ heap.usedList.erase arena ↔
      (address ∈ heap.usedList ∧ ∀ other, (address, other) ∉
          place arenaSize start (previous ++ cell :: next)) ∨
        ∃ other, (address, other) ∈ place arenaSize start [joined first absorbed after start] ∧
          other.used = true := by
  have noneUsed : ¬∃ other, (address, other) ∈
      place arenaSize start [joined first absorbed after start] ∧ other.used = true := by
    rintro ⟨other, present, otherUsed⟩
    simp only [place, List.mem_singleton, Prod.mk.injEq] at present
    have firstFree : other.used = false := present.2 ▸ joins.free first List.mem_cons_self
    cases firstFree.symm.trans otherUsed
  simp only [noneUsed, or_false, ← not_exists]
  constructor
  · intro inUsed
    refine ⟨List.mem_of_mem_erase inUsed, fun present => ?_⟩
    exact (joins.listed shape hood isStart ((joins.mem_iff start address).mp present)).2 inUsed
  · rintro ⟨inUsed, outside⟩
    rw [shape.usedNodup.mem_erase_iff]
    refine ⟨?_, inUsed⟩
    rintro rfl
    exact outside (hood.mem_here isStart)

/-- The heap with the joined block in place of the neighbourhood. -/
theorem rebuilt (shape : Shape heap content)
    (hood : Neighbourhood heap content arena cell run before previous next after)
    (joins : Joins heap cell run before previous next first absorbed)
    (isStart : start = run.1 + span arenaSize before) {heap' : Heap} (runs : heap'.runs = heap.runs)
    (pages : heap'.pages = heap.pages) (usedList : heap'.usedList = heap.usedList.erase arena)
    (changes : ChangesIn (setUsed heap.memory arena false) heap'.memory start arenaSize)
    (holds : Holds heap'.memory start (joined first absorbed after start))
    (nodup : heap'.freeList.Nodup)
    (members : ∀ address, address ∈ heap'.freeList ↔ address ∈ arena :: heap.freeList ∧
      ∀ other, (address, other) ∉
        place arenaSize (start + arenaSize + first.length) absorbed) :
    Rebuilt heap heap' content run before (previous ++ cell :: next)
      [joined first absorbed after start] after := by
  have separated := shape.separated run hood.isRun
  have isArena := hood.isArena
  rw [hood.here] at separated
  rw [← isStart] at isArena
  constructor
  case isRun => exact hood.isRun
  case here => exact hood.here
  case nonempty => simp
  case nonempty' => simp
  case sameSpan => exact joins.span_joined after start
  case runs => exact runs
  case pages => exact pages
  case changes =>
    rw [← isStart]
    have inHood : start ≤ arena ∧
        arena + arenaSize ≤ start + span arenaSize (previous ++ cell :: next) := by
      rw [isArena, span_append, span]
      omega
    have firstInHood : arenaSize ≤ span arenaSize (previous ++ cell :: next) := by
      rw [joins.span_eq, span]
      omega
    exact ((changesIn_setUsed heap.memory arena false).mono inHood.1
      inHood.2).trans (changes.mono (Nat.le_refl _) (by omega))
  case placed =>
    rw [← isStart, placed_singleton]
    exact holds
  case relinked =>
    rw [← isStart, ← joins.span_joined after start]
    simp only [ForwardTo, if_true, and_true, joined, span]
    split <;> omega
  case backLinked =>
    rw [BackFrom]
    exact ⟨joins.back, trivial⟩
  case separated =>
    rw [separated_around]
    rw [Separated, List.isChain_append, List.isChain_append] at separated
    refine ⟨separated.1.1, separated.2.1, ?_, ?_⟩
    · exact fun last isLast => .inl (hood.beforeUsed last isLast)
    · exact fun next isNext => .inr (hood.afterUsed next isNext)
  case freeNodup => exact nodup
  case usedNodup =>
    rw [usedList]
    exact shape.usedNodup.erase arena
  case free =>
    intro address
    rw [members, ← isStart]
    exact joins.free_iff shape hood isStart address
  case used =>
    intro address
    rw [usedList, ← isStart]
    exact joins.used_iff shape hood isStart address

end Joins

end Neighbourhood

/-- What `kfree` does to the content of the heap. -/
theorem kfree_spec
    (shape : Shape heap content) (linked : BackLinked heap.runs content)
    (isBlock : IsBlock heap.runs content arena cell)
    (inUse : cell.used = true) :
    ∃ heap' content', heap.kfree (arena + arenaSize) = .ok heap' ∧
      Shape heap' content' ∧
      (BackLinked heap'.runs content' ↔
        KfreeKeepsLinks heap (arena + arenaSize)) ∧
      (∀ address other, IsBlock heap.runs content address other →
        other.used = true → address ≠ arena →
          IsBlock heap'.runs content' address other) ∧
      ∀ header ∈ heap'.followed, ∃ other,
        IsBlock heap.runs content header other := by
  obtain ⟨run, before, previous, next, after, hood⟩ :=
    exists_neighbourhood shape isBlock inUse
  obtain ⟨checked, checkPasses, checkedBlocks⟩ := hood.checkMagic_eq shape
  obtain ⟨climbed, climbEnds, climbedBlocks⟩ :=
    hood.climb_eq shape linked checked (by decide : 2 ≤ 2 ^ 32)
  obtain ⟨first, absorbed, joins⟩ := hood.exists_joined shape linked
  have placed := hood.placed_released shape
  have forward := hood.forward_released shape
  have tiles := shape.tiles run hood.isRun
  obtain ⟨_, base, inside, _⟩ := shape.bounds run hood.isRun
  rw [hood.here] at tiles
  obtain ⟨start, isStart⟩ : ∃ start, start = run.1 + span arenaSize before := ⟨_, rfl⟩
  rw [joins.cells, List.append_assoc, placed_append, ← isStart, List.cons_append,
    placed_cons] at placed
  rw [joins.cells, List.append_assoc, forwardTo_append, ← isStart] at forward
  rw [List.append_assoc, span_append, span_append, joins.span_eq] at tiles
  rw [← isStart] at climbEnds
  have listed : arena ∈ heap.usedList :=
    (shape.used arena).mpr ⟨cell, isBlock, inUse⟩
  let between : Heap :=
    { Neighbourhood.released heap arena checked with
      followed := climbed ++ checked }
  have nodup : between.freeList.Nodup :=
    List.nodup_cons.mpr ⟨shape.not_free_of_used listed, shape.freeNodup⟩
  obtain ⟨heap', absorbEnds, runs, pages, usedList, changes, holds, nodup',
    members, followed⟩ := @absorb_spec between first start
      (between.freeList.length + between.usedList.length + 1) absorbed after
      placed.2.1 placed.2.2 forward.2
      (fun other present => joins.free other (List.mem_cons_of_mem _ present))
      hood.afterUsed
      (by
        rw [← List.cons_append, span_append]
        simp only [pageSize] at base tiles
        omega)
      nodup
      (fun address other present => joins.listed shape hood isStart (.inr ⟨other, present⟩))
      (by
        have few := joins.few
        simp only [between, Neighbourhood.released, List.length_cons]
        omega)
  have rebuilt := joins.rebuilt shape hood isStart runs pages usedList changes holds nodup' members
  refine ⟨heap', _, ?_, rebuilt.shape shape, ?_, ?_, ?_⟩
  · have isHeader : sub32 (arena + arenaSize) arenaSize = arena := by
      simp [sub32]
    have notNull : arena + arenaSize ≠ 0 := by
      simp
    rw [kfree, if_neg notNull, isHeader]
    simp only [checkPasses, ok_bind, hood.release_eq shape, climbEnds]
    exact absorbEnds
  · rw [rebuilt.backLinked_iff shape linked, hood.keepsLinks_iff shape linked, ← isStart,
      ← joins.lastAddress_iff start (lastAddress arenaSize 0 run.1 before)]
    exact or_congr_right eq_comm
  · intro address other otherIsBlock otherInUse different
    refine (rebuilt.isBlock_iff shape).mpr (.inl ⟨otherIsBlock, fun third present => ?_⟩)
    rcases (hood.block_or_free shape present).2 with same | isFree
    · exact different same
    · exact shape.not_free_of_used
        ((shape.used address).mpr ⟨other, otherIsBlock, otherInUse⟩) isFree
  · intro header isHeader
    rcases followed header isHeader with isFollowed | ⟨other, present⟩
    · rcases List.mem_append.mp isFollowed with isClimbed | isChecked
      · exact climbedBlocks header isClimbed
      · exact checkedBlocks header isChecked
    · rw [place_append, List.mem_append] at present
      rcases present with isAbsorbed | inAfter
      · obtain ⟨third, inHood⟩ := (joins.mem_iff start header).mpr (.inr ⟨other, isAbsorbed⟩)
        rw [isStart] at inHood
        exact ⟨third, (hood.block_or_free shape inHood).1⟩
      · refine ⟨other, run, hood.isRun, ?_⟩
        rw [hood.here, place_append, span_append, joins.span_eq, List.mem_append]
        have sameEnd : run.1 + (span arenaSize before +
            span arenaSize (first :: absorbed)) =
              start + arenaSize + first.length + span arenaSize absorbed := by
          simp only [span]
          omega
        rw [sameEnd]
        exact .inr inAfter

end LightOS
