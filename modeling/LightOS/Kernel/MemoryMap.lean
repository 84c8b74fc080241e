import LightOS.Foundation.Ledger
import LightOS.Kernel.Pages
import Mathlib.Algebra.BigOperators.Group.Finset.Piecewise
import Mathlib.Order.Interval.Finset.Nat

/-!
# The memory map

How `memory_init` and `memory_map_init` set up the accounts of physical pages, and
the pages that user programs get.  Pages from 16 MiB on are for user programs; the
pages below belong to the kernel, and the first of them hold `mem_map` itself.
-/

namespace LightOS

variable {index frame paddr : Nat}

/-- An entry of the table of memory zones that the boot loader passes on. -/
structure MemoryZone where
  base : UInt64
  size : UInt64
  type : UInt32

namespace PageMaps

/-- The loop of `memory_init` over the zones: `memory_base` and `memory_size`. -/
def largestZone (zones : List MemoryZone) : UInt32 × UInt32 :=
  zones.foldl
    (fun found zone =>
      if zone.type = 1 ∧ found.2.toUInt64 < zone.size then
        (zone.base.toUInt32, zone.size.toUInt32)
      else
        found)
    (0, 0)

/-- `memory_init`.  The memory that `mem_map` and `kernel_map` will occupy holds
anything. -/
def memoryInit (zones : List MemoryZone) (memMap kernelBits : Memory) :
    Except Fault PageMaps := do
  let (base, size) := largestZone zones
  if (size + base).toNat < kernelMemSize then
    throw .panic
  check (base.toNat = memoryBase)
  check (size.toNat % pageSize = 0)
  return {
    kernelBits := kernelBits
    memMap := memMap
    totalPages := size.toNat / pageSize + memoryBase / pageSize
    freePages := size.toNat / pageSize }

/-- `mem_map_pages`. -/
def mapPages (pages : PageMaps) : Nat :=
  (pages.totalPages + pageSize - 1) / pageSize

/-- The loop of `memory_map_init` that marks the first `count` pages as `USED`. -/
def occupy (pages : PageMaps) : Nat → PageMaps
  | 0 => pages
  | count + 1 => (pages.occupy count).setCount count 100

/-- `memory_map_init`.  The result of the scan is not looked at. -/
def memoryMapInit (pages : PageMaps) : Except Fault PageMaps := do
  let mapPages := pages.mapPages
  let pages := { pages with
    freePages := (pages.freePages + 2 ^ 32 - mapPages) % 2 ^ 32
    memMap := pages.memMap.fill 0 (mapPages * pageSize) 0 }
  let pages := pages.occupy (memoryBase / pageSize + mapPages)
  let bits := pages.kernelBits.fill kernelMap.bits kernelMap.length 0
  match ← kernelMap.scan bits mapPages with
  | some (_, marked) => return { pages with kernelBits := marked }
  | none => return { pages with kernelBits := bits }

/-- The accounts of pages after start-up. -/
def boot (zones : List MemoryZone) (memMap kernelBits : Memory) :
    Except Fault PageMaps := do
  (← memoryInit zones memMap kernelBits).memoryMapInit

/-- The loop of `get_user_page`, with `left` pages to look at. -/
def findUserPage (pages : PageMaps) : Nat → Nat → Except Fault (Nat × PageMaps)
  | 0, _ => .error .panic
  | left + 1, index =>
      if pages.memMap index = 0 then
        .ok (index * pageSize, (pages.setCount index 1).dropFree)
      else
        pages.findUserPage left (index + 1)

/-- `get_user_page`. -/
def getUserPage (pages : PageMaps) : Except Fault (Nat × PageMaps) :=
  pages.findUserPage (pages.totalPages - kernelMemSize / pageSize)
    (kernelMemSize / pageSize)

/-- `put_user_page`. -/
def putUserPage (pages : PageMaps) (paddr : Nat) : Except Fault PageMaps := do
  check (paddr % pageSize = 0)
  let index := paddr / pageSize
  check (kernelMemSize / pageSize ≤ index ∧ index < pages.totalPages)
  check (1 ≤ pages.memMap index)
  let pages := pages.setCount index (pages.memMap index - 1)
  let pages := if pages.memMap index = 0 then pages.addFree else pages
  check (0 < pages.freePages ∧ pages.freePages < pages.totalPages)
  return pages

/-- The number of pages below `total_pages` without a reference. -/
def zeros (pages : PageMaps) : Nat :=
  ((Finset.range pages.totalPages).filter fun frame => pages.memMap frame = 0).card

/-- `free_pages` is the number of pages without a reference. -/
def Counted (pages : PageMaps) : Prop :=
  pages.freePages = pages.zeros

variable {pages after start : PageMaps}

@[simp] theorem setCount_totalPages (pages : PageMaps) (index : Nat) (count : UInt8) :
    (pages.setCount index count).totalPages = pages.totalPages := rfl

@[simp] theorem setCount_freePages (pages : PageMaps) (index : Nat) (count : UInt8) :
    (pages.setCount index count).freePages = pages.freePages := rfl

@[simp] theorem dropFree_totalPages (pages : PageMaps) :
    pages.dropFree.totalPages = pages.totalPages := rfl

@[simp] theorem addFree_totalPages (pages : PageMaps) :
    pages.addFree.totalPages = pages.totalPages := rfl

/-! ## The count of free pages -/

theorem zeros_eq_sum (pages : PageMaps) :
    pages.zeros =
      ∑ frame ∈ Finset.range pages.totalPages, if pages.memMap frame = 0 then 1 else 0 :=
  Finset.card_filter _ _

theorem zeros_le (pages : PageMaps) : pages.zeros ≤ pages.totalPages := by
  have below := Finset.card_filter_le (Finset.range pages.totalPages)
    fun frame => pages.memMap frame = 0
  rwa [Finset.card_range] at below

/-- Setting one count changes the number of free pages by that page. -/
theorem zeros_setCount (inside : index < pages.totalPages) (count : UInt8) :
    (pages.setCount index count).zeros + (if pages.memMap index = 0 then 1 else 0) =
      pages.zeros + if count = 0 then 1 else 0 := by
  have change := @sum_change_one _ _ _ _ (Finset.range pages.totalPages)
    (fun frame => if pages.memMap frame = 0 then 1 else 0)
    (fun frame => if (pages.setCount index count).memMap frame = 0 then 1 else 0) index
    (Finset.mem_range.mpr inside) fun other different => by simp [different]
  rw [zeros_eq_sum, zeros_eq_sum, setCount_totalPages, change]
  simp

/-- A page gets its first reference. -/
theorem Counted.take (counted : pages.Counted) (inside : index < pages.totalPages)
    (free : pages.memMap index = 0) : (pages.setCount index 1).dropFree.Counted := by
  have change := zeros_setCount inside 1
  rw [if_pos free, if_neg (by decide)] at change
  have isCounted : pages.freePages = pages.zeros := counted
  change (if pages.freePages = 0 then 2 ^ 32 - 1 else pages.freePages - 1) =
    (pages.setCount index 1).zeros
  rw [if_neg (by omega)]
  omega

/-- A page loses its last reference. -/
theorem Counted.give (counted : pages.Counted) (inside : index < pages.totalPages)
    (bounded : pages.totalPages < 2 ^ 32 - 1) (used : pages.memMap index ≠ 0) :
    (pages.setCount index 0).addFree.Counted := by
  have change := zeros_setCount inside 0
  rw [if_neg used, if_pos rfl] at change
  have below := pages.zeros_le
  have isCounted : pages.freePages = pages.zeros := counted
  change (if pages.freePages + 1 = 2 ^ 32 then 0 else pages.freePages + 1) =
    (pages.setCount index 0).zeros
  rw [if_neg (by omega)]
  omega

/-- A page in use below `total_pages` is not among the free ones. -/
theorem zeros_lt (inside : index < pages.totalPages) (used : pages.memMap index ≠ 0) :
    pages.zeros < pages.totalPages := by
  have fewer : ((Finset.range pages.totalPages).filter
      fun frame => pages.memMap frame = 0) ⊂ Finset.range pages.totalPages :=
    Finset.filter_ssubset.mpr ⟨index, Finset.mem_range.mpr inside, used⟩
  have below := Finset.card_lt_card fewer
  rwa [Finset.card_range] at below

/-- A page without a reference below `total_pages` is among the free ones. -/
theorem zeros_pos (inside : index < pages.totalPages) (free : pages.memMap index = 0) :
    0 < pages.zeros :=
  Finset.card_pos.mpr ⟨index, Finset.mem_filter.mpr ⟨Finset.mem_range.mpr inside, free⟩⟩

/-- The count depends on nothing but the two variables and `mem_map`. -/
theorem Counted.congr (counted : pages.Counted)
    (total : after.totalPages = pages.totalPages)
    (free : after.freePages = pages.freePages)
    (counts : after.memMap = pages.memMap) : after.Counted := by
  unfold Counted zeros at counted ⊢
  rw [free, counted, total, counts]

/-! ## Start-up -/

/-- The accounts after start-up. -/
structure Booted (start : PageMaps) : Prop where
  enough : 4096 ≤ start.totalPages
  bounded : start.totalPages < 2 ^ 20
  synced : start.Synced
  counted : start.Counted
  lowUsed : start.memMap 0 ≠ 0
  taken : ∀ page, page < 3840 → (start.Taken page ↔ page < start.mapPages)

/-- A memory size that `memory_init` accepts. -/
theorem memoryInit_spec {zones : List MemoryZone} {memMap kernelBits : Memory}
    (initialised : memoryInit zones memMap kernelBits = .ok pages) :
    4096 ≤ pages.totalPages ∧ pages.totalPages < 2 ^ 20 ∧
      pages.freePages + 256 = pages.totalPages := by
  dsimp only [memoryInit] at initialised
  split at initialised
  · cases initialised
  · rename_i atLeast
    simp only [bind_eq_ok, check_eq_ok] at initialised
    obtain ⟨_, isBase, _, aligned, result⟩ := initialised
    cases result
    rw [UInt32.toNat_add, isBase] at atLeast
    have size := (largestZone zones).2.toNat_lt
    simp only [memoryBase, pageSize, kernelMemSize] at atLeast aligned ⊢
    refine ⟨?_, ?_, trivial⟩
    · omega
    · omega

section Occupy

variable (pages : PageMaps) (count : Nat)

@[simp] theorem occupy_kernelBits : (pages.occupy count).kernelBits = pages.kernelBits := by
  induction count with
  | zero => rfl
  | succ count inductionHypothesis => rw [occupy, setCount_kernelBits, inductionHypothesis]

@[simp] theorem occupy_totalPages : (pages.occupy count).totalPages = pages.totalPages := by
  induction count with
  | zero => rfl
  | succ count inductionHypothesis => rw [occupy, setCount_totalPages, inductionHypothesis]

@[simp] theorem occupy_freePages : (pages.occupy count).freePages = pages.freePages := by
  induction count with
  | zero => rfl
  | succ count inductionHypothesis => rw [occupy, setCount_freePages, inductionHypothesis]

theorem occupy_memMap (frame : Nat) :
    (pages.occupy count).memMap frame = if frame < count then 100 else pages.memMap frame := by
  induction count with
  | zero => rfl
  | succ count inductionHypothesis =>
      rw [occupy, setCount_memMap, inductionHypothesis]
      by_cases isLast : frame = count
      · rw [if_pos isLast, if_pos (by omega)]
      · rw [if_neg isLast]
        by_cases below : frame < count
        · rw [if_pos below, if_pos (by omega)]
        · rw [if_neg below, if_neg (by omega)]

end Occupy

/-- A bitmap that has been filled with zeros has no bit set. -/
theorem bit_fill (memory : Memory) {page : Nat} (inside : page < 3840) :
    kernelMap.bit (memory.fill kernelMap.bits kernelMap.length 0) page = false := by
  have length : kernelMap.length = 480 := rfl
  unfold Bitmap.bit Memory.fill
  rw [Memory.store_inside _ (by omega) (by omega)]
  exact Nat.zero_testBit _

/-- The first scan finds the first pages. -/
theorem scan_fill (memory : Memory) {count : Nat} (positive : 0 < count)
    (fits : count ≤ 3840) :
    ∃ bits, kernelMap.scan (memory.fill kernelMap.bits kernelMap.length 0) count =
        .ok (some (kernelMap.offset, bits)) ∧
      ∀ page, page < 3840 → (kernelMap.bit bits page = true ↔ page < count) := by
  have clear : kernelMap.ClearRun
      (memory.fill kernelMap.bits kernelMap.length 0) 0 count :=
    fun page _ below => bit_fill memory (by omega)
  rcases kernelMap.scan_spec (memory.fill kernelMap.bits kernelMap.length 0) positive with
    ⟨_, noRun⟩ | ⟨first, bits, found, _, _, least, bitAfter, _⟩
  · have length : kernelMap.length = 480 := rfl
    exact absurd clear (noRun 0 (by omega))
  · have isFirst : first = 0 := by
      by_contra later
      exact least 0 (by omega) clear
    rw [isFirst, Nat.zero_add] at found
    refine ⟨bits, found, fun page inside => ?_⟩
    rw [bitAfter page, bit_fill memory inside, isFirst]
    simp

/-- The counts after `memory_map_init`, below `total_pages`. -/
theorem zeros_of_occupied (pages : PageMaps) (used : Nat) (fits : used ≤ pages.totalPages)
    (counts : ∀ frame, frame < pages.totalPages →
      (pages.memMap frame = 0 ↔ used ≤ frame)) :
    pages.zeros + used = pages.totalPages := by
  have free : (Finset.range pages.totalPages).filter (fun frame => pages.memMap frame = 0) =
      Finset.Ico used pages.totalPages := by
    ext frame
    rw [Finset.mem_filter, Finset.mem_range, Finset.mem_Ico, and_comm]
    exact and_congr_left fun below => counts frame below
  unfold zeros
  rw [free, Nat.card_Ico]
  omega

/-- Start-up sets the accounts of pages up. -/
theorem booted_of_boot {zones : List MemoryZone} {memMap kernelBits : Memory}
    (isBoot : boot zones memMap kernelBits = .ok start) : start.Booted := by
  simp only [boot, bind_eq_ok] at isBoot
  obtain ⟨pages, initialised, mapped⟩ := isBoot
  obtain ⟨enough, limit, free⟩ := memoryInit_spec initialised
  obtain ⟨count, isCount⟩ : ∃ count, pages.mapPages = count := ⟨_, rfl⟩
  have counted : 1 ≤ count ∧ count ≤ 256 ∧ pages.totalPages ≤ count * 4096 := by
    simp only [mapPages, pageSize] at isCount
    omega
  obtain ⟨positive, small, covers⟩ := counted
  simp only [memoryMapInit, isCount, occupy_kernelBits] at mapped
  obtain ⟨bits, scanned, marks⟩ := scan_fill pages.kernelBits positive (by omega)
  rw [scanned, ok_bind] at mapped
  cases mapped
  have used : memoryBase / pageSize + count = 256 + count := rfl
  have counts (frame : Nat) (below : frame < pages.totalPages) :
      (({ pages with
        freePages := (pages.freePages + 2 ^ 32 - count) % 2 ^ 32
        memMap := pages.memMap.fill 0 (count * pageSize) 0 } : PageMaps).occupy
          (memoryBase / pageSize + count)).memMap frame = 0 ↔ 256 + count ≤ frame := by
    rw [occupy_memMap, used]
    split
    · rename_i isUsed
      exact ⟨fun zero => absurd zero (by decide), fun above => by omega⟩
    · rename_i notUsed
      have inMap : frame < 0 + count * pageSize := by
        simp only [pageSize]
        omega
      unfold Memory.fill
      rw [Memory.store_inside _ (Nat.zero_le _) inMap]
      exact ⟨fun _ => by omega, fun _ => rfl⟩
  refine ⟨?_, ?_, ?_, ?_, ?_, ?_⟩
  · simpa using enough
  · simpa using limit
  · intro page inside
    unfold Taken
    rw [marks page inside, count_ne_zero, ne_eq]
    change _ ↔ ¬(occupy _ _).memMap (page + 256) = 0
    rw [counts (page + 256) (by omega)]
    omega
  · have zeros := zeros_of_occupied
      { ({ pages with
        freePages := (pages.freePages + 2 ^ 32 - count) % 2 ^ 32
        memMap := pages.memMap.fill 0 (count * pageSize) 0 } : PageMaps).occupy
          (memoryBase / pageSize + count) with kernelBits := bits }
      (256 + count) (by simp; omega) (by simpa using counts)
    unfold Counted
    simp only [occupy_freePages, occupy_totalPages] at zeros ⊢
    omega
  · intro zero
    have above := (counts 0 (by omega)).mp zero
    omega
  · intro page inside
    unfold Taken
    rw [marks page inside, ← isCount]
    simp [mapPages]

/-- `memory_map_init` returns. -/
theorem memoryMapInit_returns (pages : PageMaps) (positive : 0 < pages.mapPages) :
    ∃ start, pages.memoryMapInit = .ok start := by
  unfold memoryMapInit
  dsimp only
  rw [occupy_kernelBits]
  rcases kernelMap.scan_spec (pages.kernelBits.fill kernelMap.bits kernelMap.length 0)
    positive with ⟨notFound, _⟩ | ⟨_, _, found, _⟩
  · rw [notFound]
    exact ⟨_, rfl⟩
  · rw [found]
    exact ⟨_, rfl⟩

/-- Start-up on a machine with one zone of 32 MiB. -/
theorem boot_returns (memMap kernelBits : Memory) :
    ∃ start, boot [⟨0x100000, 0x1F00000, 1⟩] memMap kernelBits = .ok start := by
  obtain ⟨start, mapped⟩ := memoryMapInit_returns
    { kernelBits := kernelBits, memMap := memMap, totalPages := 8192, freePages := 7936 }
    (show 0 < (8192 + 4096 - 1) / 4096 by decide)
  refine ⟨start, ?_⟩
  rw [← mapped]
  rfl

/-- `mem_map` leaves kernel pages to hand out. -/
theorem Booted.mapPages_le (booted : start.Booted) : start.mapPages ≤ 256 := by
  have bounded := booted.bounded
  simp only [mapPages, pageSize]
  omega

/-! ## User pages -/

/-- `get_user_page` gives a page from 16 MiB on its first reference. -/
theorem findUserPage_spec {left : Nat}
    (found : pages.findUserPage left index = .ok (paddr, after)) :
    ∃ frame, index ≤ frame ∧ frame < index + left ∧ paddr = frame * pageSize ∧
      pages.memMap frame = 0 ∧ after = (pages.setCount frame 1).dropFree := by
  induction left generalizing index with
  | zero => cases found
  | succ left inductionHypothesis =>
      rw [findUserPage] at found
      split at found
      · rename_i free
        cases found
        exact ⟨index, Nat.le_refl _, by omega, rfl, free, rfl⟩
      · obtain ⟨frame, above, below, rest⟩ := inductionHypothesis found
        exact ⟨frame, by omega, by omega, rest⟩

theorem getUserPage_spec (got : pages.getUserPage = .ok (paddr, after)) :
    ∃ frame, 4096 ≤ frame ∧ frame < pages.totalPages ∧ paddr = frame * pageSize ∧
      pages.memMap frame = 0 ∧ after = (pages.setCount frame 1).dropFree := by
  obtain ⟨frame, above, below, rest⟩ := findUserPage_spec got
  simp only [kernelMemSize, pageSize] at above below
  exact ⟨frame, above, by omega, rest⟩

/-- The first user page without a reference. -/
structure FirstFree (pages : PageMaps) (frame : Nat) : Prop where
  above : kernelMemSize / pageSize ≤ frame
  below : frame < pages.totalPages
  free : pages.memMap frame = 0
  first : ∀ other, kernelMemSize / pageSize ≤ other → other < frame → pages.memMap other ≠ 0

theorem findUserPage_first {left : Nat} (above : index ≤ frame) (below : frame < index + left)
    (free : pages.memMap frame = 0)
    (first : ∀ other, index ≤ other → other < frame → pages.memMap other ≠ 0) :
    pages.findUserPage left index =
      .ok (frame * pageSize, (pages.setCount frame 1).dropFree) := by
  induction left generalizing index with
  | zero => omega
  | succ left inductionHypothesis =>
      rw [findUserPage]
      by_cases isFrame : index = frame
      · rw [isFrame, if_pos free]
      · rw [if_neg (first index le_rfl (by omega))]
        exact inductionHypothesis (by omega) (by omega) fun other isAbove isBelow =>
          first other (by omega) isBelow

/-- `get_user_page` hands out the first page without a reference. -/
theorem FirstFree.getUserPage (isFirst : pages.FirstFree frame) :
    pages.getUserPage = .ok (frame * pageSize, (pages.setCount frame 1).dropFree) := by
  refine findUserPage_first isFirst.above ?_ isFirst.free isFirst.first
  have above := isFirst.above
  have below := isFirst.below
  omega

/-- Counts that stay above zero do not matter. -/
theorem firstFree_setCount {count : UInt8} (used : pages.memMap index ≠ 0) (positive : count ≠ 0) :
    (pages.setCount index count).FirstFree frame ↔
      pages.FirstFree frame := by
  have zero (other : Nat) : (pages.setCount index count).memMap other = 0 ↔
      pages.memMap other = 0 := by
    rw [setCount_memMap]
    by_cases same : other = index
    · rw [if_pos same, same]
      exact ⟨fun isZero => absurd isZero positive, fun isZero => absurd isZero used⟩
    · rw [if_neg same]
  constructor
  · rintro ⟨above, below, free, first⟩
    exact ⟨above, below, (zero frame).mp free, fun other isAbove isBelow isFree =>
      first other isAbove isBelow ((zero other).mpr isFree)⟩
  · rintro ⟨above, below, free, first⟩
    exact ⟨above, below, (zero frame).mpr free, fun other isAbove isBelow isFree =>
      first other isAbove isBelow ((zero other).mp isFree)⟩

theorem firstFree_of_getUserPage (got : pages.getUserPage = .ok (paddr, after)) :
    ∃ frame, pages.FirstFree frame ∧ paddr = frame * pageSize := by
  obtain ⟨found, above, below, isPage, free, _⟩ := getUserPage_spec got
  have exists_free : ∃ frame, kernelMemSize / pageSize ≤ frame ∧ pages.memMap frame = 0 :=
    ⟨found, above, free⟩
  classical
  obtain ⟨firstAbove, firstFree⟩ := Nat.find_spec exists_free
  have isFirst : pages.FirstFree (Nat.find exists_free) := by
    refine ⟨firstAbove, ?_, firstFree, fun other isAbove isBelow isFree => ?_⟩
    · exact lt_of_le_of_lt (Nat.find_min' exists_free ⟨above, free⟩) below
    · exact Nat.find_min exists_free isBelow ⟨isAbove, isFree⟩
  refine ⟨_, isFirst, ?_⟩
  rw [isFirst.getUserPage] at got
  exact (Prod.mk.inj (Except.ok.inj got)).1.symm

/-- `put_user_page` of a page with one reference frees it. -/
theorem putUserPage_returns (counted : pages.Counted) (bounded : pages.totalPages < 2 ^ 20)
    (lowUsed : pages.memMap 0 ≠ 0) (above : 4096 ≤ frame) (below : frame < pages.totalPages)
    (once : pages.memMap frame = 1) :
    pages.putUserPage (frame * pageSize) = .ok (pages.setCount frame 0).addFree := by
  have aligned : frame * pageSize % pageSize = 0 := Nat.mul_mod_left _ _
  have index : frame * pageSize / pageSize = frame := Nat.mul_div_cancel _ (by decide)
  have inside : kernelMemSize / pageSize ≤ frame ∧ frame < pages.totalPages := ⟨above, below⟩
  have referenced : (1 : UInt8) ≤ pages.memMap frame := by
    rw [once]
    decide
  have freed := counted.give below (by omega) (by rw [once]; decide)
  have free : (pages.setCount frame 0).addFree.memMap frame = 0 := by simp
  have used : (pages.setCount frame 0).addFree.memMap 0 ≠ 0 := by
    simpa [show 0 ≠ frame by omega] using lowUsed
  have some : 0 < (pages.setCount frame 0).addFree.zeros := zeros_pos below free
  have positive : 0 < pages.totalPages := by omega
  have notAll : (pages.setCount frame 0).addFree.zeros < pages.totalPages :=
    zeros_lt positive used
  rw [← freed] at some notAll
  have last : pages.memMap frame - 1 = 0 := by
    rw [once]
    rfl
  have isFree : (pages.setCount frame 0).memMap frame = 0 := by simp
  simp only [putUserPage, check_true aligned, ok_bind, index, check_true inside,
    check_true referenced, last, isFree, if_true]
  rw [check_true ⟨some, notAll⟩]
  rfl

end PageMaps

end LightOS
