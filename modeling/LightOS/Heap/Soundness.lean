import LightOS.Heap.Release

/-!
# Well-formed heaps

The heap is well formed when the headers reached along `forward_ptr` tile every
page run, point back to each other, are never free next to each other and are
listed according to `is_used`, so that `kfree` only follows headers of blocks.
A run of the heap visits only well-formed heaps exactly when no step leaves a
stale `back_ptr` behind.
-/

namespace LightOS

open Arena Blocks Memory Heap

/-- The headers of a page run, in the order of their forward links. -/
structure RunSound (heap : Heap) (run : Nat × Nat) (blocks : List Nat) :
    Prop where
  first : blocks.head? = some run.1
  firstBack : backPtr heap.memory run.1 = 0
  /-- The next header follows the body of a block, and points back to it. -/
  links : blocks.IsChain fun block next =>
    forwardPtr heap.memory block = next ∧
      next = buf heap.memory block + Arena.length heap.memory block ∧
        backPtr heap.memory next = block
  /-- The last block ends where the run ends. -/
  last : ∀ block ∈ blocks.getLast?, forwardPtr heap.memory block = 0 ∧
    buf heap.memory block + Arena.length heap.memory block =
      run.1 + pageSize * run.2
  separated : blocks.IsChain fun block next =>
    isUsed heap.memory block = true ∨ isUsed heap.memory next = true
  listed : ∀ block ∈ blocks,
    (block ∈ heap.freeList ↔ isUsed heap.memory block = false) ∧
      (block ∈ heap.usedList ↔ isUsed heap.memory block = true)

/-- A live header is a header of a page run. -/
def Live (heap : Heap) (header : Nat) : Prop :=
  ∃ run ∈ heap.runs, ∃ blocks, RunSound heap run blocks ∧ header ∈ blocks

namespace HeapState

/-- The heap is well formed. -/
structure Sound (state : HeapState) : Prop where
  /-- The blocks of every page run are in order. -/
  runs : ∀ run ∈ state.heap.runs, ∃ blocks, RunSound state.heap run blocks
  /-- Only live headers are listed. -/
  listed : ∀ header, header ∈ state.heap.freeList ∨ header ∈ state.heap.usedList →
    Live state.heap header
  /-- Freeing an allocated pointer trips no assertion, and follows live headers
  only. -/
  kfree : ∀ block ∈ state.allocated, ∃ after,
    state.heap.kfree block.1 = .ok after ∧
      ∀ header ∈ after.followed, Live state.heap header

/-- A step that leaves no stale `back_ptr` behind: `kmalloc` divides no block that
another follows, and `kfree` joins no blocks that another follows. -/
def KeepsLinks (state : HeapState) : HeapLabel → Prop
  | .kmalloc request => request = 0 ∨ KmallocKeepsLinks state.heap request
  | .kfree ptr => ptr = 0 ∨ KfreeKeepsLinks state.heap ptr
  | _ => True

/-- Allocated pointers are the bodies of used blocks of at least the size that was
asked for. -/
def Backed (state : HeapState) (content : Nat → List Cell) : Prop :=
  ∀ block ∈ state.allocated, ∃ arena cell,
    block.1 = arena + arenaSize ∧
      IsBlock state.heap.runs content arena cell ∧ cell.used = true ∧
        block.2 ≤ cell.length

end HeapState

variable {heap : Heap} {content : Nat → List Cell}

section Chains

variable {memory : Memory} {start previous : Nat} {cells : List Cell}

/-- The headers of a run of cells form a chain. -/
theorem chain_of_cells
    (placed : Placed memory start cells)
    (forward : ForwardTo arenaSize 0 start cells)
    (back : BackFrom arenaSize previous start cells) :
    ((place arenaSize start cells).map Prod.fst).IsChain fun block next =>
      forwardPtr memory block = next ∧
        next = buf memory block + Arena.length memory block ∧
          backPtr memory next = block := by
  induction cells generalizing start previous with
  | nil => exact List.isChain_nil
  | cons cell rest inductionHypothesis =>
      obtain ⟨holds, placedRest⟩ := placed_cons.mp placed
      have chain := inductionHypothesis placedRest forward.2 back.2
      cases rest with
      | nil => exact List.isChain_singleton _
      | cons next rest =>
          have link := forward.1
          have nextHolds := (placed_cons.mp placedRest).1
          simp only [place, List.map_cons, List.isChain_cons_cons] at chain ⊢
          refine ⟨⟨?_, ?_, ?_⟩, chain⟩
          · simpa using holds.forward.trans link
          · rw [holds.buf, holds.length]
          · exact nextHolds.back.trans back.2.1

/-- The last header of a run of cells ends where the run ends. -/
theorem last_of_cells
    (placed : Placed memory start cells)
    (forward : ForwardTo arenaSize 0 start cells) :
    ∀ block ∈ ((place arenaSize start cells).map Prod.fst).getLast?,
      forwardPtr memory block = 0 ∧
        buf memory block + Arena.length memory block =
          start + span arenaSize cells := by
  induction cells generalizing start with
  | nil => simp [place]
  | cons cell rest inductionHypothesis =>
      obtain ⟨holds, placedRest⟩ := placed_cons.mp placed
      cases rest with
      | nil =>
          intro block isLast
          simp only [place, List.map_cons, List.map_nil, List.getLast?_singleton,
            Option.mem_some_iff] at isLast
          subst isLast
          have link := forward.1
          refine ⟨by simpa using holds.forward.trans link, ?_⟩
          rw [holds.buf, holds.length]
          simp only [span]
          omega
      | cons next rest =>
          intro block isLast
          have sameEnd : start + span arenaSize (cell :: next :: rest) =
              start + arenaSize + cell.length +
                span arenaSize (next :: rest) := by
            simp only [span]
            omega
          rw [sameEnd]
          refine inductionHypothesis placedRest forward.2 block ?_
          simpa [place, List.getLast?_cons_cons] using isLast

/-- Neighbouring headers of separated cells are not both free. -/
theorem separated_of_cells
    (placed : Placed memory start cells)
    (separated : Separated cells) :
    ((place arenaSize start cells).map Prod.fst).IsChain fun block next =>
      isUsed memory block = true ∨ isUsed memory next = true := by
  induction cells generalizing start with
  | nil => exact List.isChain_nil
  | cons cell rest inductionHypothesis =>
      obtain ⟨holds, placedRest⟩ := placed_cons.mp placed
      cases rest with
      | nil => exact List.isChain_singleton _
      | cons next rest =>
          obtain ⟨boundary, separatedRest⟩ :=
            List.isChain_cons_cons.mp separated
          have chain := inductionHypothesis placedRest separatedRest
          have nextHolds := (placed_cons.mp placedRest).1
          simp only [place, List.map_cons, List.isChain_cons_cons] at chain ⊢
          rw [holds.used, nextHolds.used]
          exact ⟨boundary, chain⟩

/-- The back links of a run of cells whose headers form a chain. -/
theorem backFrom_of_chain
    {cell : Cell} {blocks : List Nat}
    (placed : Placed memory start (cell :: cells))
    (forward : ForwardTo arenaSize 0 start (cell :: cells))
    (chain : (start :: blocks).IsChain fun block next =>
      forwardPtr memory block = next ∧ backPtr memory next = block)
    (last : ∀ block ∈ (start :: blocks).getLast?, forwardPtr memory block = 0) :
    BackFrom arenaSize start (start + arenaSize + cell.length) cells := by
  induction cells generalizing start cell blocks with
  | nil => trivial
  | cons next rest inductionHypothesis =>
      obtain ⟨holds, placedRest⟩ := placed_cons.mp placed
      have link := holds.forward.trans forward.1
      simp only [List.cons_ne_nil, if_false] at link
      cases blocks with
      | nil =>
          have ends := last start (by simp)
          simp only [arenaSize] at link
          omega
      | cons block blocks =>
          obtain ⟨⟨isNext, isBack⟩, chainRest⟩ := List.isChain_cons_cons.mp chain
          have isBlock : block = start + arenaSize + cell.length := by omega
          subst isBlock
          have nextHolds := (placed_cons.mp placedRest).1
          refine ⟨nextHolds.back.symm.trans isBack, ?_⟩
          refine inductionHypothesis placedRest forward.2 chainRest ?_
          intro block isLast
          exact last block (by simpa [List.getLast?_cons_cons] using isLast)

end Chains

/-- In a heap of the right shape whose back links are right, the headers of a run
are in order. -/
theorem Shape.runSound
    (shape : Shape heap content) (linked : BackLinked heap.runs content)
    {run : Nat × Nat} (isRun : run ∈ heap.runs) :
    RunSound heap run
      ((place arenaSize run.1 (content run.1)).map Prod.fst) := by
  have placed := shape.placed run isRun
  have forward := shape.forward run isRun
  have back := linked run isRun
  have tiles := shape.tiles run isRun
  obtain ⟨_, base, _, positive⟩ := shape.bounds run isRun
  have notEmpty : content run.1 ≠ [] := by
    intro isEmpty
    rw [isEmpty] at tiles
    simp only [span, pageSize] at tiles
    omega
  obtain ⟨cell, rest, isContent⟩ := List.exists_cons_of_ne_nil notEmpty
  constructor
  case first => simp [isContent, place]
  case firstBack =>
    rw [isContent] at placed back
    exact (placed_cons.mp placed).1.back.trans back.1
  case links => exact chain_of_cells placed forward back
  case last =>
    rw [← tiles]
    exact last_of_cells placed forward
  case separated => exact separated_of_cells placed (shape.separated run isRun)
  case listed =>
    intro block isHeader
    obtain ⟨⟨_, cell⟩, present, rfl⟩ := List.mem_map.mp isHeader
    have isBlock : IsBlock heap.runs content _ cell := ⟨run, isRun, present⟩
    rw [(shape.holds isBlock).used, shape.free, shape.used]
    constructor
    · constructor
      · rintro ⟨other, otherIsBlock, isFree⟩
        rwa [shape.block_inj isBlock otherIsBlock]
      · exact fun isFree => ⟨cell, isBlock, isFree⟩
    · constructor
      · rintro ⟨other, otherIsBlock, inUse⟩
        rwa [shape.block_inj isBlock otherIsBlock]
      · exact fun inUse => ⟨cell, isBlock, inUse⟩

/-- The header of a block is live. -/
theorem Shape.live
    (shape : Shape heap content) (linked : BackLinked heap.runs content)
    {header : Nat} {cell : Cell}
    (isBlock : IsBlock heap.runs content header cell) : Live heap header := by
  obtain ⟨run, isRun, present⟩ := isBlock
  exact ⟨run, isRun, _, shape.runSound linked isRun,
    List.mem_map.mpr ⟨_, present, rfl⟩⟩

/-- In a heap of the right shape whose headers are in order, the back links are
right. -/
theorem Shape.backLinked
    (shape : Shape heap content)
    (sound : ∀ run ∈ heap.runs, ∃ blocks, RunSound heap run blocks) :
    BackLinked heap.runs content := by
  intro run isRun
  obtain ⟨blocks, inOrder⟩ := sound run isRun
  have placed := shape.placed run isRun
  have forward := shape.forward run isRun
  cases isContent : content run.1 with
  | nil => trivial
  | cons cell rest =>
      rw [isContent] at placed forward
      have isFirst := inOrder.first
      have links := inOrder.links
      have last := inOrder.last
      cases blocks with
      | nil => cases isFirst
      | cons block blocks =>
          simp only [List.head?_cons, Option.some.injEq] at isFirst
          subst isFirst
          refine ⟨(placed_cons.mp placed).1.back.symm.trans inOrder.firstBack, ?_⟩
          exact backFrom_of_chain placed forward
            (links.imp fun _ _ link => ⟨link.1, link.2.2⟩)
            (fun block isLast => (last block isLast).1)

namespace HeapState

variable {state before after : HeapState} {label : HeapLabel}

/-- A heap of the right shape whose back links are right is well formed. -/
theorem sound_of_shape
    (shape : Shape state.heap content)
    (linked : BackLinked state.heap.runs content)
    (backed : state.Backed content) : state.Sound where
  runs run isRun := ⟨_, shape.runSound linked isRun⟩
  listed header isListed := by
    rcases isListed with isFree | inUse
    · obtain ⟨cell, isBlock, _⟩ := (shape.free header).mp isFree
      exact shape.live linked isBlock
    · obtain ⟨cell, isBlock, _⟩ := (shape.used header).mp inUse
      exact shape.live linked isBlock
  kfree block isAllocated := by
    obtain ⟨arena, cell, isPtr, isBlock, inUse, _⟩ := backed block isAllocated
    obtain ⟨after, _, isOk, _, _, _, followed⟩ :=
      kfree_spec shape linked isBlock inUse
    rw [isPtr]
    refine ⟨after, isOk, fun header isFollowed => ?_⟩
    obtain ⟨other, otherIsBlock⟩ := followed header isFollowed
    exact shape.live linked otherIsBlock

/-- Writing a byte outside the headers keeps the shape of the heap. -/
theorem shape_write
    (shape : Shape heap content) {address : Nat} (value : UInt8)
    (outside : ∀ header cell, IsBlock heap.runs content header cell →
      address < header ∨ header + arenaSize ≤ address) :
    Shape { heap with
      memory := heap.memory.store address 1 fun _ => value } content := by
  refine shape.frame rfl rfl rfl (fun _ _ _ _ taken => taken) ?_
  intro header cell isBlock
  have apart := outside header cell isBlock
  exact (changesIn_store heap.memory address 1 fun _ => value).agreeOn
    (by omega)

/-- What a step does to the content of a well-formed heap. -/
theorem step_spec
    (shape : Shape before.heap content)
    (linked : BackLinked before.heap.runs content)
    (backed : before.Backed content)
    (taken : before.next label = .ok after) :
    ∃ content', Shape after.heap content' ∧ after.Backed content' ∧
      (BackLinked after.heap.runs content' ↔ before.KeepsLinks label) := by
  cases label with
  | kmalloc request =>
      simp only [next, bind_eq_ok, require_eq_ok] at taken
      obtain ⟨_, _, ⟨ptr, heap⟩, returned, taken⟩ := taken
      by_cases isZero : request = 0
      · rw [isZero, kmalloc] at returned
        cases returned
        cases taken
        exact ⟨content, shape, backed, by simp [KeepsLinks, isZero, linked]⟩
      · obtain ⟨content', arena, cell, shape', linked', kept, isPtr, isBlock,
          inUse, roundFits⟩ := kmalloc_spec shape linked isZero returned
        have fits : request ≤ cell.length :=
          (le_roundSize request).trans roundFits
        have notNull : ptr ≠ 0 := by
          simp only [arenaSize] at isPtr
          omega
        rw [if_neg notNull] at taken
        cases taken
        refine ⟨content', shape', ?_, by simp [KeepsLinks, isZero, linked']⟩
        intro block isAllocated
        rcases List.mem_cons.mp isAllocated with rfl | isAllocated
        · exact ⟨arena, cell, isPtr, isBlock, inUse, fits⟩
        · obtain ⟨other, otherCell, otherPtr, otherIsBlock, otherInUse,
            otherFits⟩ := backed block isAllocated
          exact ⟨other, otherCell, otherPtr,
            kept other otherCell otherIsBlock otherInUse, otherInUse, otherFits⟩
  | kfree ptr =>
      simp only [next, bind_eq_ok, require_eq_ok] at taken
      obtain ⟨_, allowed, heap, returned, taken⟩ := taken
      cases taken
      by_cases isNull : ptr = 0
      · rw [isNull, Heap.kfree] at returned
        cases returned
        refine ⟨content, shape.frame rfl rfl rfl (fun _ _ _ _ taken => taken)
          (fun _ _ _ => AgreeOn.refl _ _ _), ?_, by simp [KeepsLinks, isNull, linked]⟩
        exact fun block isAllocated => backed block (List.mem_filter.mp isAllocated).1
      · have isAllocated := allowed.resolve_left isNull
        obtain ⟨block, isMember, rfl⟩ := List.mem_map.mp isAllocated
        obtain ⟨arena, cell, isPtr, isBlock, inUse, _⟩ := backed block isMember
        obtain ⟨heap', content', isOk, shape', linked', kept, _⟩ :=
          kfree_spec shape linked isBlock inUse
        rw [isPtr, isOk] at returned
        cases returned
        refine ⟨content', shape', ?_, ?_⟩
        · intro other otherIsAllocated
          obtain ⟨otherIsAllocated, different⟩ :=
            List.mem_filter.mp otherIsAllocated
          simp only [decide_eq_true_eq] at different
          obtain ⟨otherArena, otherCell, otherPtr, otherIsBlock, otherInUse,
            otherFits⟩ := backed other otherIsAllocated
          refine ⟨otherArena, otherCell, otherPtr, ?_, otherInUse, otherFits⟩
          refine kept otherArena otherCell otherIsBlock otherInUse ?_
          rintro rfl
          exact different (otherPtr.trans isPtr.symm)
        · rw [linked', KeepsLinks, isPtr]
          simp
  | write address value =>
      simp only [next, bind_eq_ok, require_eq_ok] at taken
      obtain ⟨_, ⟨block, isAllocated, above, below⟩, taken⟩ := taken
      cases taken
      obtain ⟨arena, cell, isPtr, isBlock, inUse, fits⟩ := backed block isAllocated
      refine ⟨content, shape_write shape value ?_, backed,
        by simpa [KeepsLinks] using linked⟩
      intro header other otherIsBlock
      by_cases same : header = arena
      · omega
      · have apart := shape.block_apart otherIsBlock isBlock same
        omega
  | poke address value =>
      simp only [next, bind_eq_ok, require_eq_ok] at taken
      obtain ⟨_, outside, taken⟩ := taken
      cases taken
      refine ⟨content, shape_write shape value ?_, backed,
        by simpa [KeepsLinks] using linked⟩
      rintro header other ⟨run, isRun, present⟩
      have inside := shape.inside isRun present
      have apart := outside run isRun
      omega
  | allocPages count =>
      simp only [next, bind_eq_ok] at taken
      obtain ⟨⟨vaddr, pages⟩, allocated, taken⟩ := taken
      cases taken
      obtain ⟨first, _, _, _, _, takenAfter⟩ := PageMaps.allocKpage_spec allocated
      refine ⟨content, shape.frame rfl rfl rfl
        (fun _ _ page _ taken => (takenAfter page).mpr (.inr taken))
        (fun _ _ _ => AgreeOn.refl _ _ _), backed, by simpa [KeepsLinks] using linked⟩
  | freePages first count =>
      simp only [next, bind_eq_ok, require_eq_ok] at taken
      obtain ⟨_, outside, pages, freed, taken⟩ := taken
      cases taken
      refine ⟨content, shape.frame rfl rfl rfl ?_
        (fun _ _ _ => AgreeOn.refl _ _ _), backed, by simpa [KeepsLinks] using linked⟩
      intro run isRun page inRun isTaken
      have apart := outside run isRun
      refine (PageMaps.freeKpage_taken freed ?_).mpr isTaken
      simp only [InRun, pageSize] at inRun apart
      omega

/-- The heap has the shape of a content whose back links are right, and the
allocated pointers are its used blocks. -/
def Linked (state : HeapState) : Prop :=
  ∃ content, Shape state.heap content ∧
    BackLinked state.heap.runs content ∧ state.Backed content

/-- The empty heap is well formed. -/
theorem Initial.linked (initial : state.Initial) : state.Linked := by
  obtain ⟨freeList, usedList, runs, allocated⟩ := initial
  refine ⟨fun _ => [], ?_, ?_, ?_⟩
  · constructor <;> simp [freeList, usedList, runs, IsBlock]
  · simp [BackLinked, runs]
  · simp [Backed, allocated]

/-- From the empty heap on, every state of a run is well formed exactly when no
step of the run leaves a stale `back_ptr` behind. -/
theorem sound_iff_keepsLinks
    {start final : HeapState} {trace : List (HeapState × HeapLabel)}
    (initial : start.Initial)
    (path : heapSystem.Path start trace final) :
    System.Visits Sound trace final ↔ System.Obeys KeepsLinks trace := by
  refine path.visits_iff_obeys Linked initial.linked ?_ ?_ ?_
  · rintro before label after ⟨content, shape, linked, backed⟩ keeps taken
    obtain ⟨content', shape', backed', linked'⟩ :=
      step_spec shape linked backed taken
    exact ⟨content', shape', linked'.mpr keeps, backed'⟩
  · rintro state ⟨content, shape, linked, backed⟩
    exact sound_of_shape shape linked backed
  · rintro before label after ⟨content, shape, linked, backed⟩ breaks taken sound
    obtain ⟨content', shape', _, linked'⟩ := step_spec shape linked backed taken
    exact breaks (linked'.mp (shape'.backLinked sound.runs))

/-- The empty heap over blank memory. -/
def blank : HeapState where
  heap := {
    memory := ⟨fun _ => 0⟩
    pages := {
      kernelBits := ⟨fun _ => 0⟩
      memMap := ⟨fun _ => 0⟩
      totalPages := 8192
      freePages := 7936 }
    freeList := []
    usedList := []
    runs := []
    followed := [] }
  allocated := []

theorem blank_initial : blank.Initial :=
  ⟨rfl, rfl, rfl, rfl⟩

/-- Two blocks are allocated, the first is freed and a smaller one takes its
place. -/
def reuseFirst : List HeapLabel :=
  [.kmalloc 100, .kmalloc 100, .kfree 0xC010001C, .kmalloc 16]

/-- Dividing a block that another follows leaves a stale `back_ptr`. -/
theorem sound_fails :
    ¬∀ (start final : HeapState) (trace : List (HeapState × HeapLabel)),
      start.Initial → heapSystem.Path start trace final → final.Sound := by
  intro always
  obtain ⟨trace, final, path, stale⟩ := System.Path.of_run heapSystem next
    (fun _ _ _ taken => taken) blank reuseFirst
    (fun final =>
      final.heap.runs.any fun run =>
        let second := forwardPtr final.heap.memory run.1
        let third := forwardPtr final.heap.memory second
        second ≠ 0 ∧ third ≠ 0 ∧ backPtr final.heap.memory third ≠ second)
    (by decide +kernel)
  have sound := always _ _ _ blank_initial path
  obtain ⟨run, isRun, stale⟩ := List.any_eq_true.mp stale
  simp only [decide_eq_true_eq] at stale
  obtain ⟨blocks, inOrder⟩ := sound.runs run isRun
  have isFirst := inOrder.first
  have links := inOrder.links
  have last := inOrder.last
  match blocks, isFirst, links, last with
  | [first], isFirst, _, last =>
      cases isFirst
      exact stale.1 (last _ rfl).1
  | [first, second], isFirst, links, last =>
      cases isFirst
      have link := (List.isChain_cons_cons.mp links).1
      rw [link.1] at stale
      exact stale.2.1 (last second rfl).1
  | first :: second :: third :: _, isFirst, links, _ =>
      cases isFirst
      obtain ⟨link, links⟩ := List.isChain_cons_cons.mp links
      have nextLink := (List.isChain_cons_cons.mp links).1
      rw [link.1, nextLink.1] at stale
      exact stale.2.2 nextLink.2.2

/-- A run that frees the last block of a page run and takes part of it again. -/
theorem sound_iff_keepsLinks_lastBlock :
    ∃ trace final,
      heapSystem.Path blank trace final ∧ final.allocated.length = 2 ∧
      (System.Visits Sound trace final ↔ System.Obeys KeepsLinks trace) := by
  obtain ⟨trace, final, path, allocated⟩ := System.Path.of_run heapSystem next
    (fun _ _ _ taken => taken) blank
    [.kmalloc 100, .kmalloc 100, .write 0xC010001C 7, .kfree 0xC010009C,
      .kmalloc 16]
    (fun final => decide (final.allocated.length = 2))
    (by decide +kernel)
  exact ⟨trace, final, path, of_decide_eq_true allocated,
    sound_iff_keepsLinks blank_initial path⟩

end HeapState

end LightOS
