import LightOS.Heap.Soundness

/-!
# The search for a free block

`kmalloc` searches `free_list` again after it has added a page run.  The number of pages of
the run allows for one header, and the search asks for room for two, so that the search
goes on for ever when the size leaves too little of the last page.
-/

namespace LightOS

open Arena Blocks Memory Heap

namespace Heap

/-- `alloc_kpage` supplies the pages that are asked for, when no free block fits. -/
def CanSupply (heap : Heap) (request : Nat) : Prop :=
  heap.firstFit (roundSize request) = none →
    (heap.pages.allocKpage (add32 (roundSize request) arenaSize / pageSize + 1)).isOk = true

/-- A call of `kmalloc` returns a block with room for at least 16 bytes that no other
block overlaps, after at most two searches and one new page run. -/
structure Served (heap : Heap) (request ptr : Nat) (heap' : Heap) : Prop where
  returned : heap.kmalloc request = .ok (ptr, heap')
  searches : (refind 2 heap (roundSize request)).isOk = true
  calls : heap'.runs.length ≤ heap.runs.length + 1
  room : max request minBlockSize ≤ Arena.length heap'.memory (ptr - arenaSize)
  inside : ∃ run ∈ heap'.runs, run.1 + arenaSize ≤ ptr ∧
    ptr + Arena.length heap'.memory (ptr - arenaSize) ≤ run.1 + pageSize * run.2
  apart : ∀ other ∈ heap'.usedList, other ≠ ptr - arenaSize →
    ptr + Arena.length heap'.memory (ptr - arenaSize) ≤ other ∨
      other + arenaSize + Arena.length heap'.memory other ≤ ptr - arenaSize

instance (heap : Heap) (request : Nat) : Decidable (heap.CanSupply request) := by
  unfold CanSupply
  infer_instance

/-- The size and a header fit into a word, and there is a free block with room for them or
the last page of a new run has room for one more header. -/
def Fits (heap : Heap) (request : Nat) : Prop :=
  arenaSize + roundSize request < 2 ^ 32 ∧
    ((∃ arena ∈ heap.freeList,
        arenaSize + roundSize request ≤ Arena.length heap.memory arena) ∨
      (arenaSize + roundSize request) % pageSize ≤ pageSize - arenaSize)

end Heap

variable {heap heap' : Heap} {content : Nat → List Cell} {arena size request : Nat}

theorem roundSize_eq (request : Nat) : roundSize request = max request minBlockSize := by
  unfold roundSize
  split <;> omega

theorem minBlockSize_le_roundSize (request : Nat) : minBlockSize ≤ roundSize request := by
  rw [roundSize_eq]
  exact Nat.le_max_right _ _

theorem firstFit_eq_none (noWrap : arenaSize + size < 2 ^ 32) :
    heap.firstFit size = none ↔
      ¬∃ arena ∈ heap.freeList, arenaSize + size ≤ Arena.length heap.memory arena := by
  have noCarry : add32 arenaSize size = arenaSize + size := Nat.mod_eq_of_lt noWrap
  unfold firstFit
  rw [List.find?_eq_none, noCarry]
  simp

/-- A new run has room for a size and two headers exactly when the rest of the last page
has room for a header. -/
theorem new_run_fits (noWrap : arenaSize + size < 2 ^ 32) :
    add32 arenaSize size ≤ pageSize * (add32 size arenaSize / pageSize + 1) - arenaSize ↔
      (arenaSize + size) % pageSize ≤ pageSize - arenaSize := by
  have noCarry : add32 arenaSize size = arenaSize + size := Nat.mod_eq_of_lt noWrap
  have sameSum : add32 size arenaSize = arenaSize + size := by
    rw [← noCarry, add32, add32, Nat.add_comm]
  rw [noCarry, sameSum]
  unfold arenaSize pageSize
  omega

/-- A page run that is added is not listed yet. -/
theorem arenaAddNewPages_returns (shape : Shape heap content)
    (supplies : (heap.pages.allocKpage (add32 size arenaSize / pageSize + 1)).isOk = true) :
    ∃ heap', heap.arenaAddNewPages size = .ok heap' := by
  cases allocated : heap.pages.allocKpage (add32 size arenaSize / pageSize + 1) with
  | error fault =>
      rw [allocated] at supplies
      cases supplies
  | ok result =>
      obtain ⟨base, pages⟩ := result
      obtain ⟨first, positive, _, isBase, notTaken, _⟩ := PageMaps.allocKpage_spec allocated
      have notListed : base ∉ heap.freeList := by
        intro listed
        obtain ⟨cell, ⟨run, isRun, placed⟩, _⟩ := (shape.free base).mp listed
        have inside := shape.inside isRun placed
        refine notTaken first (Nat.le_refl _) (by omega) (shape.taken run isRun first ?_)
        simp only [InRun, pageSize, arenaSize] at inside ⊢
        omega
      unfold arenaAddNewPages
      simp only [allocated, ok_bind]
      exact ⟨_, bind_eq_ok _ _ _ |>.mpr ⟨(), check_true notListed, rfl⟩⟩

/-- Where something fits, the second search ends at the latest. -/
theorem refind_returns (shape : Shape heap content)
    (linked : BackLinked heap.runs content)
    (supplies : heap.CanSupply request) (fits : heap.Fits request) :
    ∃ arena middle content', Shape middle content' ∧ BackLinked middle.runs content' ∧
      (∀ rounds, refind (rounds + 2) heap (roundSize request) = .ok (arena, middle)) ∧
      middle.firstFit (roundSize request) = some arena ∧
      middle.runs.length ≤ heap.runs.length + 1 := by
  obtain ⟨noWrap, room⟩ := fits
  cases fit : heap.firstFit (roundSize request) with
  | some arena =>
      refine ⟨arena, heap, content, shape, linked, fun rounds => ?_, fit, by omega⟩
      rw [refind, fit]
  | none =>
      have last := room.resolve_left ((firstFit_eq_none noWrap).mp fit)
      obtain ⟨middle, added⟩ := arenaAddNewPages_returns shape (supplies fit)
      obtain ⟨base, content', grown, freeList, _, agree, length, runs⟩ :=
        arenaAddNewPages_spec shape added
      have found := firstFit_added shape fit freeList agree
      rw [length, if_pos ((new_run_fits noWrap).mpr last)] at found
      refine ⟨base, middle, content', grown.shape, grown.linked linked, fun rounds => ?_,
        found, runs.le⟩
      rw [refind, fit]
      simp only [added, ok_bind]
      rw [refind, found]

/-- Where nothing fits, no search ends. -/
theorem refind_fails (shape : Shape heap content) (noWrap : arenaSize + size < 2 ^ 32)
    (noFit : heap.firstFit size = none)
    (short : ¬(arenaSize + size) % pageSize ≤ pageSize - arenaSize) (rounds : Nat) :
    ∀ result, refind rounds heap size ≠ .ok result := by
  induction rounds generalizing heap content with
  | zero => exact nofun
  | succ rounds inductionHypothesis =>
      intro result found
      rw [refind, noFit] at found
      simp only [bind_eq_ok] at found
      obtain ⟨middle, added, rest⟩ := found
      obtain ⟨base, content', grown, freeList, _, agree, length, _⟩ :=
        arenaAddNewPages_spec shape added
      have stillNone := firstFit_added shape noFit freeList agree
      rw [length, if_neg (mt (new_run_fits noWrap).mp short)] at stillNone
      exact inductionHypothesis grown.shape stillNone result rest

/-- A block that the first fit finds can be taken. -/
theorem take_returns (shape : Shape heap content)
    (fit : heap.firstFit size = some arena) (noWrap : arenaSize + size < 2 ^ 32) :
    ∃ taken, heap.take arena size = .ok taken ∧ taken.runs = heap.runs := by
  obtain ⟨listed, cell, isBlock, isFree, fits⟩ := firstFit_spec shape fit
  have room : arenaSize + size ≤ cell.length := by
    rwa [add32, Nat.mod_eq_of_lt noWrap] at fits
  have notUsed : arena ∉ heap.usedList.erase arena := fun inUse =>
    shape.not_free_of_used (List.mem_of_mem_erase inUse) listed
  have bounds := shape.block_bounds isBlock
  have taken := (shape.holds isBlock).setUsed true
  have isDivided : add32 (buf (setUsed heap.memory arena true) arena) size =
      arena + arenaSize + size := by
    rw [taken.buf, add32]
    exact Nat.mod_eq_of_lt (by omega)
  -- What is cut off begins inside the block, where no other block begins.
  have notListed : arena + arenaSize + size ∉ heap.freeList.erase arena := by
    intro inFree
    obtain ⟨other, otherIsBlock, _⟩ := (shape.free _).mp (List.mem_of_mem_erase inFree)
    have apart := shape.block_apart isBlock otherIsBlock (by simp only [arenaSize]; omega)
    simp only [arenaSize] at apart room
    omega
  have inLists : arena ∈ heap.freeList ∨ arena ∈ heap.usedList := .inl listed
  simp only [take, listRemove, check_true inLists, ok_bind, pushUsed,
    check_true notUsed, pure_eq_ok]
  split
  · exact ⟨_, rfl, rfl⟩
  · simp only [isDivided, pushFree, check_true notListed, ok_bind, pure_eq_ok]
    exact ⟨_, rfl, rfl⟩

/-- `kmalloc` serves a request in a heap whose links are right exactly when it fits. -/
theorem served_iff_fits (shape : Shape heap content) (linked : BackLinked heap.runs content)
    (positive : request ≠ 0) (supplies : heap.CanSupply request) :
    (∃ ptr heap', heap.Served request ptr heap') ↔ heap.Fits request := by
  have minimum := minBlockSize_le_roundSize request
  constructor
  · rintro ⟨ptr, heap', served⟩
    have returned := served.returned
    rw [kmalloc_eq heap positive, bind_eq_ok] at returned
    obtain ⟨⟨arena, middle⟩, found, returned⟩ := returned
    simp only [bind_eq_ok] at returned
    obtain ⟨taken, _, returned⟩ := returned
    split at returned
    · cases returned
    rename_i inKernel
    have noWrap : arenaSize + roundSize request < 2 ^ 32 := by
      simp only [kernelEnd, arenaSize, not_lt] at inKernel ⊢
      omega
    refine ⟨noWrap, ?_⟩
    by_contra nothing
    obtain ⟨noBlock, short⟩ := not_or.mp nothing
    exact refind_fails shape noWrap ((firstFit_eq_none noWrap).mpr noBlock) short _ _ found
  · intro fits
    obtain ⟨arena, middle, contentMiddle, shapeMiddle, linkedMiddle, found, fit, runs⟩ :=
      refind_returns shape linked supplies fits
    obtain ⟨taken, isTaken, sameRuns⟩ := take_returns shapeMiddle fit fits.1
    obtain ⟨contentTaken, cell, shapeTaken, _, _, isBlock, _, cellFits⟩ :=
      take_spec shapeMiddle linkedMiddle fit minimum fits.1 isTaken
    have start := (shapeTaken.holds isBlock).buf
    have bounds := shapeTaken.block_bounds isBlock
    have rounds : refind (if heap.freeList = [] then 3842 else 3841) heap
        (roundSize request) = .ok (arena, middle) := by
      split
      · exact found 3840
      · exact found 3839
    have returned : ∃ ptr heap', heap.kmalloc request = .ok (ptr, heap') ∧
        heap'.runs = middle.runs := by
      rw [kmalloc_eq heap positive, rounds]
      simp only [ok_bind, isTaken]
      rw [if_neg]
      · exact ⟨_, _, rfl, sameRuns⟩
      · rw [start]
        simp only [kernelEnd]
        omega
    obtain ⟨ptr, heap', isOk, runs'⟩ := returned
    obtain ⟨content', header, cell', shape', _, _, rfl, isBlock', _, roomy⟩ :=
      kmalloc_spec shape linked positive isOk
    have length := (shape'.holds isBlock').length
    obtain ⟨run, isRun, placed⟩ := isBlock'
    have within := shape'.inside isRun placed
    refine ⟨header + arenaSize, heap', isOk, ?_, ?_, ?_, ⟨run, isRun, ?_, ?_⟩, ?_⟩
    · rw [found 0]
      rfl
    · rw [runs']
      exact runs
    · rw [Nat.add_sub_cancel, length, ← roundSize_eq]
      exact roomy
    · omega
    · rw [Nat.add_sub_cancel, length]
      exact within.2
    · intro other inUse different
      obtain ⟨otherCell, otherIsBlock, _⟩ := (shape'.used other).mp inUse
      rw [Nat.add_sub_cancel] at different ⊢
      rw [length, (shape'.holds otherIsBlock).length]
      exact shape'.block_apart ⟨run, isRun, placed⟩ otherIsBlock different.symm

namespace HeapState

theorem linked_of_reachable {state : HeapState}
    (reached : heapSystem.ReachableWithin KeepsLinks state) : state.Linked := by
  refine reached.invariant Linked (fun _ initial => Initial.linked initial) ?_
  rintro before label after ⟨content, shape, linked, backed⟩ keeps taken
  obtain ⟨content', shape', backed', linked'⟩ := step_spec shape linked backed taken
  exact ⟨content', shape', linked'.mpr keeps, backed'⟩

/-- In every heap that a run leads to without stale links, `kmalloc` serves a request for
which there are pages exactly when it fits. -/
theorem kmalloc_served_iff_fits {state : HeapState}
    (reached : heapSystem.ReachableWithin KeepsLinks state) (request : Nat)
    (positive : 1 ≤ request) (supplies : state.heap.CanSupply request) :
    (∃ ptr heap', state.heap.Served request ptr heap') ↔ state.heap.Fits request := by
  obtain ⟨content, shape, linked, _⟩ := linked_of_reachable reached
  exact served_iff_fits shape linked (Nat.ne_of_gt positive) supplies

/-- A request for the last bytes of a page: 28 bytes of header and 4064 of body. -/
theorem kmalloc_served_fails :
    ¬∀ state, heapSystem.Reachable state → ∀ request, 1 ≤ request → request < 2 ^ 32 →
      state.heap.CanSupply request →
        ∃ ptr heap', state.heap.Served request ptr heap' := by
  intro always
  have supplies : blank.heap.CanSupply 4064 := by decide +kernel
  have served := always blank (.initial blank_initial) 4064 (by decide) (by decide) supplies
  obtain ⟨content, shape, linked, _⟩ := blank_initial.linked
  have fits := (served_iff_fits shape linked (by decide) supplies).mp served
  obtain ⟨_, ⟨arena, listed, _⟩ | last⟩ := fits
  · exact List.not_mem_nil listed
  · revert last
    decide

theorem kmalloc_served_iff_fits_blank :
    (∃ ptr heap', blank.heap.Served 4000 ptr heap') ↔ blank.heap.Fits 4000 :=
  kmalloc_served_iff_fits (.initial blank_initial) 4000 (by decide) (by decide +kernel)

end HeapState

end LightOS
