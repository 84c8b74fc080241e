import LightOS.Kernel.Bitmap

/-!
# Kernel pages

The part of `memory.c` that hands out runs of kernel pages.  The bitmap
`kernel_map` covers the kernel's pages from 1 MiB to 16 MiB, and `mem_map` counts
the references to every physical page.
-/

namespace LightOS

/-- `PAGE_SIZE`. -/
abbrev pageSize : Nat := 4096

/-- `KERNEL_VADDR_OFFSET`. -/
abbrev kernelVaddrOffset : Nat := 0xC0000000

/-- `MEMORY_BASE`. -/
abbrev memoryBase : Nat := 0x100000

/-- `KERNEL_MEM_SIZE`. -/
abbrev kernelMemSize : Nat := 0x1000000

/-- `kernel_map`, as `memory_map_init` sets it up. -/
def kernelMap : Bitmap where
  bits := 0xC0005000
  length := 480
  offset := 0xC0100

/-- The variables of `memory.c` that account for physical pages. -/
structure PageMaps where
  /-- The bits of `kernel_map`. -/
  kernelBits : Memory
  /-- `mem_map`, by page index. -/
  memMap : Memory
  /-- `total_pages`. -/
  totalPages : Nat
  /-- `free_pages`, an unsigned 32-bit variable. -/
  freePages : Nat

namespace PageMaps

/-- Set the reference count of a page. -/
def setCount (pages : PageMaps) (index : Nat) (count : UInt8) : PageMaps :=
  { pages with memMap := pages.memMap.store index 1 fun _ => count }

/-- `free_pages--`. -/
def dropFree (pages : PageMaps) : PageMaps :=
  { pages with
    freePages := if pages.freePages = 0 then 2 ^ 32 - 1 else pages.freePages - 1 }

/-- `free_pages++`. -/
def addFree (pages : PageMaps) : PageMaps :=
  { pages with
    freePages := if pages.freePages + 1 = 2 ^ 32 then 0 else pages.freePages + 1 }

/-- The loop of `_alloc_kpage`: count one reference to each of `left` pages. -/
def countPages : PageMaps → Nat → Nat → Except Fault PageMaps
  | pages, 0, _ => .ok pages
  | pages, left + 1, index => do
      check (pages.memMap index = 0)
      countPages (pages.setCount index 1).dropFree left (index + 1)

/-- `alloc_kpage`.  The scan leaves the bits marked. -/
def allocKpage (pages : PageMaps) (count : Nat) :
    Except Fault (Nat × PageMaps) := do
  check (0 < count)
  match ← kernelMap.scan pages.kernelBits count with
  | none => throw .panic
  | some (index, bits) =>
      let pages := { pages with kernelBits := bits }
      let pages ← pages.countPages count
        (index - kernelMap.offset + memoryBase / pageSize)
      return (index * pageSize, pages)

/-- The body of the loop of `_reset_kpage`: drop one reference to a page, and
clear its bit when no reference is left. -/
def uncountPage (pages : PageMaps) (index : Nat) : Except Fault PageMaps := do
  let frame := index - kernelMap.offset + memoryBase / pageSize
  check (pages.memMap frame ≠ 0)
  let pages := pages.setCount frame (pages.memMap frame - 1)
  if pages.memMap frame = 0 then
    check (← kernelMap.test pages.kernelBits index)
    let bits ← kernelMap.set pages.kernelBits index false
    return { pages.addFree with kernelBits := bits }
  else
    return pages

/-- The loop of `_reset_kpage`, over `left` pages. -/
def uncountPages : PageMaps → Nat → Nat → Except Fault PageMaps
  | pages, 0, _ => .ok pages
  | pages, left + 1, index => do
      uncountPages (← pages.uncountPage index) left (index + 1)

/-- `free_kpage`. -/
def freeKpage (pages : PageMaps) (vaddr count : Nat) :
    Except Fault PageMaps := do
  check (vaddr % pageSize = 0)
  check (0 < count)
  pages.uncountPages count (vaddr / pageSize)

/-- A kernel page is taken when its bit of `kernel_map` is set.  Pages are
numbered from the first page of the bitmap. -/
def Taken (pages : PageMaps) (page : Nat) : Prop :=
  kernelMap.bit pages.kernelBits page = true

variable {pages after : PageMaps}

@[simp] theorem setCount_kernelBits (pages : PageMaps) (index : Nat) (count : UInt8) :
    (pages.setCount index count).kernelBits = pages.kernelBits := by
  unfold setCount
  rfl

@[simp] theorem dropFree_kernelBits (pages : PageMaps) :
    pages.dropFree.kernelBits = pages.kernelBits := by
  unfold dropFree
  rfl

/-- Counting references touches no bit of `kernel_map`. -/
theorem countPages_kernelBits
    {left index : Nat} (counted : pages.countPages left index = .ok after) :
    after.kernelBits = pages.kernelBits := by
  induction left generalizing pages index with
  | zero =>
      cases counted
      rfl
  | succ left inductionHypothesis =>
      simp only [countPages, bind_eq_ok] at counted
      obtain ⟨_, _, rest⟩ := counted
      simpa using inductionHypothesis rest

/-- An allocation returns a run of pages inside the bitmap that were not taken,
and takes them and no other page. -/
theorem allocKpage_spec
    {count vaddr : Nat} (allocated : pages.allocKpage count = .ok (vaddr, after)) :
    ∃ first, 0 < count ∧ first + count ≤ 3840 ∧
      vaddr = 0xC0100000 + first * 4096 ∧
      (∀ page, first ≤ page → page < first + count → ¬pages.Taken page) ∧
      ∀ page, after.Taken page ↔
        (first ≤ page ∧ page < first + count) ∨ pages.Taken page := by
  simp only [allocKpage, bind_eq_ok, check_eq_ok] at allocated
  obtain ⟨_, positive, found, scanned, allocated⟩ := allocated
  rcases kernelMap.scan_spec pages.kernelBits positive with
    ⟨notFound, _⟩ | ⟨first, bits, isFound, inside, clear, _, bitAfter, _⟩
  · rw [notFound] at scanned
    cases scanned
    cases allocated
  · rw [isFound] at scanned
    cases scanned
    simp only [bind_eq_ok] at allocated
    obtain ⟨counted, isCounted, result⟩ := allocated
    cases result
    have sameBits := countPages_kernelBits isCounted
    refine ⟨first, positive, inside, ?_, ?_, fun page => ?_⟩
    · simp only [kernelMap, pageSize]
      omega
    · intro page above below
      simp [Taken, clear page above below]
    · rw [Taken, sameBits, bitAfter page]
      simp [Taken]

/-- Dropping a reference to a page changes the bit of this page only. -/
theorem uncountPage_taken
    {first page : Nat}
    (dropped : pages.uncountPage (kernelMap.offset + first) = .ok after)
    (other : page ≠ first) :
    after.Taken page ↔ pages.Taken page := by
  simp only [uncountPage, bind_eq_ok] at dropped
  obtain ⟨_, _, dropped⟩ := dropped
  split at dropped
  · simp only [bind_eq_ok, setCount_kernelBits] at dropped
    obtain ⟨bit, isBit, _, isSet, bits, written, result⟩ := dropped
    cases result
    have inside : first < kernelMap.length * 8 := by
      simp only [Bitmap.test, bind_eq_ok, check_eq_ok] at isBit
      omega
    obtain ⟨cleared, isCleared, bitAfter, _⟩ :=
      kernelMap.set_spec pages.kernelBits inside false
    rw [isCleared] at written
    cases written
    simp [Taken, bitAfter, other]
  · cases dropped
    simp [Taken]

/-- Dropping references to pages changes the bits of these pages only. -/
theorem uncountPages_taken
    {left first page : Nat}
    (dropped : pages.uncountPages left (kernelMap.offset + first) = .ok after)
    (other : page < first ∨ first + left ≤ page) :
    after.Taken page ↔ pages.Taken page := by
  induction left generalizing pages first with
  | zero =>
      cases dropped
      rfl
  | succ left inductionHypothesis =>
      simp only [uncountPages, bind_eq_ok] at dropped
      obtain ⟨middle, isMiddle, rest⟩ := dropped
      calc
        after.Taken page ↔ middle.Taken page :=
          @inductionHypothesis middle (first + 1) rest (by omega)
        _ ↔ pages.Taken page := uncountPage_taken isMiddle (by omega)

/-- Freeing pages changes the bits of these pages only. -/
theorem freeKpage_taken
    {first count page : Nat}
    (freed : pages.freeKpage (0xC0100000 + first * 4096) count = .ok after)
    (other : page < first ∨ first + count ≤ page) :
    after.Taken page ↔ pages.Taken page := by
  simp only [freeKpage, bind_eq_ok] at freed
  obtain ⟨_, _, _, _, dropped⟩ := freed
  have index : (0xC0100000 + first * 4096) / pageSize =
      kernelMap.offset + first := by
    simp only [kernelMap, pageSize]
    omega
  rw [index] at dropped
  exact uncountPages_taken dropped other

/-! ## Reference counts -/

@[simp] theorem setCount_memMap (pages : PageMaps) (index frame : Nat) (count : UInt8) :
    (pages.setCount index count).memMap frame =
      if frame = index then count else pages.memMap frame := by
  unfold setCount
  by_cases same : frame = index
  · subst same
    rw [Memory.store_inside _ (by omega) (by omega), if_pos rfl]
  · rw [Memory.store_outside _ (by omega), if_neg same]

@[simp] theorem dropFree_memMap (pages : PageMaps) :
    pages.dropFree.memMap = pages.memMap := rfl

@[simp] theorem addFree_memMap (pages : PageMaps) :
    pages.addFree.memMap = pages.memMap := rfl

@[simp] theorem addFree_kernelBits (pages : PageMaps) :
    pages.addFree.kernelBits = pages.kernelBits := rfl

/-- Pages that are counted had no reference and get one. -/
theorem countPages_memMap
    {left index : Nat} (counted : pages.countPages left index = .ok after) :
    (∀ frame, index ≤ frame → frame < index + left → pages.memMap frame = 0) ∧
      ∀ frame, after.memMap frame =
        if index ≤ frame ∧ frame < index + left then 1 else pages.memMap frame := by
  induction left generalizing pages index with
  | zero =>
      cases counted
      refine ⟨fun frame above below => by omega, fun frame => ?_⟩
      rw [if_neg (by omega)]
  | succ left inductionHypothesis =>
      simp only [countPages, bind_eq_ok, check_eq_ok] at counted
      obtain ⟨_, free, rest⟩ := counted
      obtain ⟨fresh, afterwards⟩ := inductionHypothesis rest
      simp only [dropFree_memMap, setCount_memMap] at fresh afterwards
      refine ⟨fun frame above below => ?_, fun frame => ?_⟩
      · by_cases isFirst : frame = index
        · rw [isFirst]
          exact free
        · have isFresh := fresh frame (by omega) (by omega)
          rwa [if_neg isFirst] at isFresh
      · rw [afterwards frame]
        by_cases isFirst : frame = index
        · rw [if_neg (by omega), if_pos isFirst, if_pos (by omega)]
        · rw [if_neg isFirst]
          by_cases inside : index + 1 ≤ frame ∧ frame < index + 1 + left
          · rw [if_pos inside, if_pos (by omega)]
          · rw [if_neg inside, if_neg (by omega)]

/-- The count of references to a page of the kernel, by its number. -/
def count (pages : PageMaps) (page : Nat) : Nat :=
  (pages.memMap (page + 256)).toNat

/-- Allocated pages had no reference and get one; other pages keep theirs. -/
theorem allocKpage_memMap
    {count first : Nat}
    (allocated : pages.allocKpage count = .ok (0xC0100000 + first * 4096, after)) :
    (∀ page, first ≤ page → page < first + count → pages.count page = 0) ∧
      ∀ frame, after.memMap frame =
        if first + 256 ≤ frame ∧ frame < first + 256 + count then 1
        else pages.memMap frame := by
  simp only [allocKpage, bind_eq_ok, check_eq_ok] at allocated
  obtain ⟨_, positive, found, scanned, allocated⟩ := allocated
  rcases kernelMap.scan_spec pages.kernelBits positive with
    ⟨notFound, _⟩ | ⟨start, bits, isFound, _⟩
  · rw [notFound] at scanned
    cases scanned
    cases allocated
  · rw [isFound] at scanned
    cases scanned
    simp only [bind_eq_ok] at allocated
    obtain ⟨counted, isCounted, result⟩ := allocated
    obtain ⟨address, rfl⟩ := Prod.mk.inj (Except.ok.inj result)
    have isStart : start = first := by
      simp only [kernelMap, pageSize] at address
      omega
    have frame : start + kernelMap.offset - kernelMap.offset + memoryBase / pageSize =
        first + 256 := by
      simp only [memoryBase, pageSize]
      omega
    rw [frame] at isCounted
    obtain ⟨fresh, afterwards⟩ := countPages_memMap isCounted
    refine ⟨fun page above below => ?_, afterwards⟩
    unfold PageMaps.count
    have free := fresh (page + 256) (by omega) (by omega)
    dsimp only at free
    rw [free]
    rfl

/-- Dropping a reference to a page: its bit goes with the last one. -/
theorem uncountPage_spec
    {first : Nat} (dropped : pages.uncountPage (kernelMap.offset + first) = .ok after) :
    pages.memMap (first + 256) ≠ 0 ∧
      (∀ frame, after.memMap frame =
        if frame = first + 256 then pages.memMap frame - 1 else pages.memMap frame) ∧
      (after.Taken first ↔ pages.Taken first ∧ after.memMap (first + 256) ≠ 0) := by
  simp only [uncountPage, bind_eq_ok, check_eq_ok] at dropped
  have frame : kernelMap.offset + first - kernelMap.offset + memoryBase / pageSize =
      first + 256 := by
    simp only [memoryBase, pageSize]
    omega
  rw [frame] at dropped
  obtain ⟨_, referenced, dropped⟩ := dropped
  have counts (frame : Nat) : (pages.setCount (first + 256)
      (pages.memMap (first + 256) - 1)).memMap frame =
        if frame = first + 256 then pages.memMap frame - 1 else pages.memMap frame := by
    rw [setCount_memMap]
    split
    · rename_i same
      rw [same]
    · rfl
  split at dropped
  · rename_i isLast
    simp only [bind_eq_ok, setCount_kernelBits] at dropped
    obtain ⟨bit, isBit, _, isSet, bits, written, result⟩ := dropped
    cases result
    have inside : first < kernelMap.length * 8 := by
      simp only [Bitmap.test, bind_eq_ok, check_eq_ok] at isBit
      omega
    obtain ⟨cleared, isCleared, bitAfter, _⟩ :=
      kernelMap.set_spec pages.kernelBits inside false
    rw [isCleared] at written
    have same : cleared = bits := Except.ok.inj written
    rw [same] at bitAfter
    refine ⟨referenced, counts, ?_⟩
    change kernelMap.bit bits first = true ↔ _ ∧ (pages.setCount (first + 256)
      (pages.memMap (first + 256) - 1)).memMap (first + 256) ≠ 0
    rw [bitAfter first, if_pos rfl]
    simp only [isLast, ne_eq, not_true_eq_false, and_false, Bool.false_eq_true]
  · rename_i notLast
    cases dropped
    refine ⟨referenced, counts, ?_⟩
    unfold Taken
    rw [setCount_kernelBits]
    exact ⟨fun taken => ⟨taken, notLast⟩, And.left⟩

/-- `kernel_map` marks exactly the pages that have references. -/
def Synced (pages : PageMaps) : Prop :=
  ∀ page, page < 3840 → (pages.Taken page ↔ pages.count page ≠ 0)

theorem count_ne_zero (page : Nat) :
    pages.count page ≠ 0 ↔ pages.memMap (page + 256) ≠ 0 := by
  unfold PageMaps.count
  rw [ne_eq, ne_eq, ← UInt8.toNat_inj]
  rfl

/-- An allocation returns a run of pages without references, and takes them. -/
theorem Synced.alloc
    (synced : pages.Synced)
    {count vaddr : Nat} (allocated : pages.allocKpage count = .ok (vaddr, after)) :
    after.Synced ∧ ∃ first, 0 < count ∧ first + count ≤ 3840 ∧
      vaddr = 0xC0100000 + first * 4096 ∧
      (∀ page, first ≤ page → page < first + count → pages.count page = 0) ∧
      ∀ frame, after.memMap frame =
        if first + 256 ≤ frame ∧ frame < first + 256 + count then 1
        else pages.memMap frame := by
  obtain ⟨first, positive, inside, address, _, taken⟩ := allocKpage_spec allocated
  rw [address] at allocated
  obtain ⟨fresh, counts⟩ := allocKpage_memMap allocated
  refine ⟨fun page bounded => ?_, first, positive, inside, address, fresh, counts⟩
  rw [taken page, count_ne_zero, counts]
  by_cases inRun : first ≤ page ∧ page < first + count
  · rw [if_pos (by omega)]
    simp [inRun]
  · rw [if_neg (by omega), ← count_ne_zero]
    simp [inRun, synced page bounded]

theorem uncountPages_spec
    {left first : Nat} (synced : pages.Synced)
    (dropped : pages.uncountPages left (kernelMap.offset + first) = .ok after) :
    after.Synced ∧
      (∀ frame, frame < first + 256 ∨ first + 256 + left ≤ frame →
        after.memMap frame = pages.memMap frame) ∧
      ∀ page, first ≤ page → page < first + left →
        after.memMap (page + 256) = pages.memMap (page + 256) - 1 := by
  induction left generalizing pages first with
  | zero =>
      cases dropped
      exact ⟨synced, fun _ _ => rfl, fun page above below => by omega⟩
  | succ left inductionHypothesis =>
      simp only [uncountPages, bind_eq_ok] at dropped
      obtain ⟨middle, isMiddle, rest⟩ := dropped
      obtain ⟨_, counts, bit⟩ := uncountPage_spec isMiddle
      have syncedMiddle : middle.Synced := by
        intro page bounded
        rw [count_ne_zero]
        by_cases isFirst : page = first
        · subst isFirst
          rw [bit]
          refine ⟨And.right, fun referenced => ⟨?_, referenced⟩⟩
          rw [synced page bounded, count_ne_zero]
          intro free
          exact (uncountPage_spec isMiddle).1 free
        · rw [uncountPage_taken isMiddle isFirst, synced page bounded, count_ne_zero, counts,
            if_neg (by omega)]
      obtain ⟨syncedAfter, outside, inside⟩ :=
        @inductionHypothesis middle (first + 1) syncedMiddle rest
      refine ⟨syncedAfter, fun frame away => ?_, fun page above below => ?_⟩
      · rw [outside frame (by omega), counts, if_neg (by omega)]
      · by_cases isFirst : page = first
        · subst isFirst
          rw [outside (page + 256) (by omega), counts, if_pos rfl]
        · rw [inside page (by omega) (by omega), counts, if_neg (by omega)]

/-- Freeing pages drops one reference to each of them. -/
theorem Synced.free
    (synced : pages.Synced)
    {first count : Nat}
    (freed : pages.freeKpage (0xC0100000 + first * 4096) count = .ok after) :
    after.Synced ∧
      (∀ frame, frame < first + 256 ∨ first + 256 + count ≤ frame →
        after.memMap frame = pages.memMap frame) ∧
      ∀ page, first ≤ page → page < first + count → pages.count page = 1 →
        after.count page = 0 := by
  simp only [freeKpage, bind_eq_ok] at freed
  obtain ⟨_, _, _, _, dropped⟩ := freed
  have index : (0xC0100000 + first * 4096) / pageSize =
      kernelMap.offset + first := by
    simp only [kernelMap, pageSize]
    omega
  rw [index] at dropped
  obtain ⟨syncedAfter, outside, inside⟩ := uncountPages_spec synced dropped
  refine ⟨syncedAfter, outside, fun page above below once => ?_⟩
  unfold PageMaps.count at once ⊢
  have isOne : pages.memMap (page + 256) = 1 := UInt8.toNat_inj.mp once
  rw [inside page above below, isOne]
  rfl

end PageMaps

end LightOS
