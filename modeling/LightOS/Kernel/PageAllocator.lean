import LightOS.Foundation.Transition
import LightOS.Kernel.MemoryMap

/-!
# The page allocator

Runs of `alloc_kpage`, `free_kpage`, `get_user_page` and `put_user_page`.  A page
that is lent out is counted once and any other page as after start-up, so that
giving everything back, in any order, restores the accounts of start-up.
-/

namespace LightOS

variable {count frame : Nat} {range other : Nat × Nat} {pages : PageMaps}

/-- The accounts of pages and what has been lent out of them. -/
structure Allocator where
  pages : PageMaps
  /-- The ranges that `alloc_kpage` has returned and nobody has freed yet: the address
  and the number of pages. -/
  ranges : List (Nat × Nat)
  /-- The pages that `get_user_page` has returned and nobody has put back yet. -/
  userPages : List Nat

namespace PageMaps

variable {after : PageMaps}

/-- Bytes outside the bitmap `kernel_map` are as they were. -/
def SameOutside (pages after : PageMaps) : Prop :=
  ∀ address, address < kernelMap.bits ∨ kernelMap.bits + kernelMap.length ≤ address →
    after.kernelBits address = pages.kernelBits address

theorem countPages_keeps {left index : Nat} (counted : pages.Counted)
    (inside : index + left ≤ pages.totalPages)
    (isCounted : pages.countPages left index = .ok after) :
    after.Counted ∧ after.totalPages = pages.totalPages := by
  induction left generalizing pages index with
  | zero =>
      cases isCounted
      exact ⟨counted, rfl⟩
  | succ left inductionHypothesis =>
      simp only [countPages, bind_eq_ok, check_eq_ok] at isCounted
      obtain ⟨_, free, rest⟩ := isCounted
      have kept := @inductionHypothesis _ (index + 1) (counted.take (by omega) free)
        (by rw [dropFree_totalPages, setCount_totalPages]; omega) rest
      exact kept

/-- Pages without a reference can be counted. -/
theorem countPages_returns {left index : Nat}
    (free : ∀ frame, index ≤ frame → frame < index + left → pages.memMap frame = 0) :
    ∃ after, pages.countPages left index = .ok after := by
  induction left generalizing pages index with
  | zero => exact ⟨pages, rfl⟩
  | succ left inductionHypothesis =>
      rw [countPages, check_true (free index (Nat.le_refl _) (by omega)), ok_bind]
      apply inductionHypothesis
      intro frame above below
      rw [dropFree_memMap, setCount_memMap, if_neg (by omega)]
      exact free frame (by omega) (by omega)

/-- An allocation keeps the count of free pages right. -/
theorem allocKpage_keeps {vaddr : Nat} (counted : pages.Counted) (enough : 4096 ≤ pages.totalPages)
    (allocated : pages.allocKpage count = .ok (vaddr, after)) :
    after.Counted ∧ after.totalPages = pages.totalPages ∧ pages.SameOutside after := by
  simp only [allocKpage, bind_eq_ok, check_eq_ok] at allocated
  obtain ⟨_, positive, found, scanned, allocated⟩ := allocated
  rcases kernelMap.scan_spec pages.kernelBits positive with
    ⟨notFound, _⟩ | ⟨first, bits, isFound, inside, _, _, _, outside⟩
  · rw [notFound] at scanned
    cases scanned
    cases allocated
  · rw [isFound] at scanned
    cases scanned
    simp only [bind_eq_ok] at allocated
    obtain ⟨final, isCounted, result⟩ := allocated
    cases result
    have length : kernelMap.length = 480 := rfl
    have frame : first + kernelMap.offset - kernelMap.offset + memoryBase / pageSize =
        first + 256 := by
      simp only [memoryBase, pageSize]
      omega
    rw [frame] at isCounted
    have sameBits := countPages_kernelBits isCounted
    have marked : ({ pages with kernelBits := bits } : PageMaps).Counted := counted
    have keeps := countPages_keeps marked
      (show first + 256 + count ≤ pages.totalPages by omega) isCounted
    refine ⟨keeps.1, keeps.2, fun address away => ?_⟩
    rw [sameBits]
    exact outside address away

/-- The address of a page of the kernel. -/
theorem address_eq (page : Nat) :
    (page + kernelMap.offset) * pageSize = 0xC0100000 + page * 4096 := by
  simp only [kernelMap, pageSize]
  omega

/-- When there is a run of pages that are not taken, an allocation returns the first
one. -/
theorem allocKpage_returns {first : Nat} (synced : pages.Synced) (positive : 0 < count)
    (inside : first + count ≤ 3840)
    (free : ∀ page, first ≤ page → page < first + count → ¬pages.Taken page) :
    ∃ earliest after, earliest ≤ first ∧
      pages.allocKpage count = .ok (0xC0100000 + earliest * 4096, after) := by
  have clear : kernelMap.ClearRun pages.kernelBits first count := by
    intro page above below
    have notTaken := free page above below
    unfold Taken at notTaken
    simpa using notTaken
  have length : kernelMap.length = 480 := rfl
  rcases kernelMap.scan_spec pages.kernelBits positive with
    ⟨_, noRun⟩ | ⟨earliest, bits, isFound, fits, run, least, _, _⟩
  · exact absurd clear (noRun first (by omega))
  · have before : earliest ≤ first := by
      by_contra later
      exact least first (by omega) clear
    have frame : earliest + kernelMap.offset - kernelMap.offset + memoryBase / pageSize =
        earliest + 256 := by
      simp only [memoryBase, pageSize]
      omega
    obtain ⟨after, counted⟩ := @countPages_returns { pages with kernelBits := bits }
      count (earliest + 256) (fun index above below => by
        by_contra used
        have isTaken := (synced (index - 256) (by omega)).mpr (by
          rw [count_ne_zero, show index - 256 + 256 = index by omega]
          exact used)
        unfold Taken at isTaken
        rw [run (index - 256) (by omega) (by omega)] at isTaken
        cases isTaken)
    refine ⟨earliest, after, before, ?_⟩
    rw [allocKpage, check_true positive, ok_bind, isFound, ok_bind]
    dsimp only
    simp only [frame, counted, ok_bind, address_eq, pure_eq_ok]

/-- A page that is referenced once is freed. -/
theorem uncountPage_returns {first : Nat} (inside : first < 3840)
    (taken : pages.Taken first) (once : pages.memMap (first + 256) = 1) :
    ∃ bits, pages.uncountPage (kernelMap.offset + first) =
        .ok { (pages.setCount (first + 256) 0).addFree with kernelBits := bits } ∧
      ∀ address, address < kernelMap.bits ∨ kernelMap.bits + kernelMap.length ≤ address →
        bits address = pages.kernelBits address := by
  have length : kernelMap.length = 480 := rfl
  have bounded : first < kernelMap.length * 8 := by omega
  obtain ⟨bits, isSet, _, outside⟩ := kernelMap.set_spec pages.kernelBits bounded false
  have frame : kernelMap.offset + first - kernelMap.offset + memoryBase / pageSize =
      first + 256 := by
    simp only [memoryBase, pageSize]
    omega
  have referenced : pages.memMap (first + 256) ≠ 0 := by
    rw [once]
    decide
  have last : pages.memMap (first + 256) - 1 = 0 := by
    rw [once]
    rfl
  have isFree : (pages.setCount (first + 256) 0).memMap (first + 256) = 0 := by simp
  have tested := Bitmap.test_eq pages.kernelBits bounded
  refine ⟨bits, ?_, outside⟩
  simp only [uncountPage, frame, check_true referenced, ok_bind, last, isFree, if_true,
    setCount_kernelBits, tested]
  rw [check_true (show kernelMap.bit pages.kernelBits first = true from taken), ok_bind,
    isSet, ok_bind]
  rfl

theorem uncountPages_returns {left first : Nat} (synced : pages.Synced)
    (counted : pages.Counted) (enough : 4096 ≤ pages.totalPages)
    (bounded : pages.totalPages < 2 ^ 20) (inside : first + left ≤ 3840)
    (once : ∀ page, first ≤ page → page < first + left → pages.memMap (page + 256) = 1) :
    ∃ after, pages.uncountPages left (kernelMap.offset + first) = .ok after ∧
      after.Counted ∧ after.totalPages = pages.totalPages ∧ pages.SameOutside after := by
  induction left generalizing pages first with
  | zero => exact ⟨pages, rfl, counted, rfl, fun _ _ => rfl⟩
  | succ left inductionHypothesis =>
      have isOnce := once first (Nat.le_refl _) (by omega)
      have taken : pages.Taken first := by
        rw [synced first (by omega), count_ne_zero, isOnce]
        decide
      obtain ⟨bits, dropped, outside⟩ := uncountPage_returns (by omega) taken isOnce
      have one : kernelMap.offset + first + 0 = kernelMap.offset + first := rfl
      have single : pages.uncountPages 1 (kernelMap.offset + first) =
          .ok { (pages.setCount (first + 256) 0).addFree with kernelBits := bits } := by
        rw [uncountPages, dropped, ok_bind, uncountPages]
      obtain ⟨syncedMiddle, away, _⟩ := uncountPages_spec synced single
      have countedMiddle : (pages.setCount (first + 256) 0).addFree.Counted :=
        counted.give (by omega) (by omega) (by rw [isOnce]; decide)
      obtain ⟨after, rest, countedAfter, total, restOutside⟩ :=
        @inductionHypothesis _ (first + 1) syncedMiddle
          (countedMiddle.congr rfl rfl rfl) enough bounded (by omega)
          (fun page above below => by
            rw [away (page + 256) (by omega)]
            exact once page (by omega) (by omega))
      refine ⟨after, ?_, countedAfter, total, fun address away => ?_⟩
      · rw [uncountPages, dropped, ok_bind]
        exact rest
      · rw [restOutside address away]
        exact outside address away

/-- A run of pages that are referenced once can be freed. -/
theorem freeKpage_returns {first : Nat} (synced : pages.Synced) (counted : pages.Counted)
    (enough : 4096 ≤ pages.totalPages) (bounded : pages.totalPages < 2 ^ 20) (positive : 0 < count)
    (inside : first + count ≤ 3840)
    (once : ∀ page, first ≤ page → page < first + count → pages.memMap (page + 256) = 1) :
    ∃ after, pages.freeKpage (0xC0100000 + first * 4096) count = .ok after ∧
      after.Counted ∧ after.totalPages = pages.totalPages ∧ pages.SameOutside after := by
  obtain ⟨after, dropped, keeps⟩ :=
    uncountPages_returns synced counted enough bounded inside once
  have aligned : (0xC0100000 + first * 4096) % pageSize = 0 := by
    simp only [pageSize]
    omega
  have index : (0xC0100000 + first * 4096) / pageSize = kernelMap.offset + first := by
    simp only [kernelMap, pageSize]
    omega
  refine ⟨after, ?_, keeps⟩
  rw [freeKpage, check_true aligned, ok_bind, check_true positive, ok_bind, index, dropped]

end PageMaps

namespace Allocator

/-- A call of the allocator.  Only what has been lent out is given back. -/
inductive Label
  | alloc (count : Nat)
  | free (range : Nat × Nat)
  | getUser
  | putUser (paddr : Nat)
  deriving DecidableEq

/-- One call. -/
def next (s : Allocator) : Label → Except Fault Allocator
  | .alloc count => do
      let (vaddr, pages) ← s.pages.allocKpage count
      return { s with pages := pages, ranges := (vaddr, count) :: s.ranges }
  | .free range =>
      if range ∈ s.ranges then do
        let pages ← s.pages.freeKpage range.1 range.2
        return { s with pages := pages, ranges := s.ranges.erase range }
      else
        throw .misuse
  | .getUser => do
      let (paddr, pages) ← s.pages.getUserPage
      return { s with pages := pages, userPages := paddr :: s.userPages }
  | .putUser paddr =>
      if paddr ∈ s.userPages then do
        let pages ← s.pages.putUserPage paddr
        return { s with pages := pages, userPages := s.userPages.erase paddr }
      else
        throw .misuse

/-- Nothing is lent out. -/
def idle (start : PageMaps) : Allocator where
  pages := start
  ranges := []
  userPages := []

/-- The runs of the allocator from the accounts after start-up. -/
def runs (start : PageMaps) : System Allocator Label where
  initial s := s = idle start
  step before label after := before.next label = .ok after

/-- The calls that give back what is lent out. -/
def releases (s : Allocator) : List Label :=
  s.ranges.map .free ++ s.userPages.map .putUser

/-- Two ranges have no page in common. -/
def Apart (range other : Nat × Nat) : Prop :=
  range.1 + range.2 * pageSize ≤ other.1 ∨ other.1 + other.2 * pageSize ≤ range.1

/-- The three accounts of pages agree, and the ranges lent out are disjoint. -/
structure Accounted (s : Allocator) : Prop where
  apart : s.ranges.Pairwise Apart
  synced : s.pages.Synced
  counted : s.pages.Counted

/-- A range covers a page of the kernel. -/
def Covers (range : Nat × Nat) (frame : Nat) : Prop :=
  range.1 ≤ kernelVaddrOffset + frame * pageSize ∧
    kernelVaddrOffset + frame * pageSize < range.1 + range.2 * pageSize

/-- A page is lent out. -/
def Holds (s : Allocator) (frame : Nat) : Prop :=
  (∃ range ∈ s.ranges, Covers range frame) ∨ frame * pageSize ∈ s.userPages

/-- A range of pages of the kernel. -/
def InKernel (range : Nat × Nat) : Prop :=
  ∃ first, range.1 = 0xC0100000 + first * 4096 ∧ 0 < range.2 ∧ first + range.2 ≤ 3840

/-- The accounts differ from those after start-up by what is lent out. -/
structure Lent (start : PageMaps) (s : Allocator) : Prop where
  accounted : s.Accounted
  total : s.pages.totalPages = start.totalPages
  outside : start.SameOutside s.pages
  ranges : ∀ range ∈ s.ranges, InKernel range
  users : ∀ paddr ∈ s.userPages,
    ∃ frame, paddr = frame * pageSize ∧ 4096 ≤ frame ∧ frame < start.totalPages
  once : s.userPages.Nodup
  held : ∀ frame, s.Holds frame → start.memMap frame = 0 ∧ s.pages.memMap frame = 1
  kept : ∀ frame, ¬s.Holds frame → s.pages.memMap frame = start.memMap frame

variable {start : PageMaps} {s after : Allocator}

/-- The pages that a range of the kernel covers. -/
theorem covers_iff {first : Nat} :
    Covers (0xC0100000 + first * 4096, count) frame ↔
      first + 256 ≤ frame ∧ frame < first + 256 + count := by
  simp only [Covers, kernelVaddrOffset, pageSize]
  omega

/-- Ranges of the kernel without a common page are apart. -/
theorem apart_of_covers (inKernel : InKernel range) (alsoInKernel : InKernel other)
    (disjoint : ∀ frame, Covers range frame → ¬Covers other frame) : Apart range other := by
  obtain ⟨vaddr, count⟩ := range
  obtain ⟨otherVaddr, otherCount⟩ := other
  obtain ⟨first, rfl, positive, fits⟩ := inKernel
  obtain ⟨otherFirst, rfl, otherPositive, otherFits⟩ := alsoInKernel
  have meet := disjoint (max first otherFirst + 256)
  rw [covers_iff, covers_iff] at meet
  simp only [Apart, pageSize]
  dsimp only at positive otherPositive
  omega

theorem Apart.not_covers (apart : Apart range other) (covers : Covers range frame) :
    ¬Covers other frame := by
  simp only [Apart, Covers, kernelVaddrOffset, pageSize] at *
  omega

theorem Apart.symm (apart : Apart range other) : Apart other range :=
  Or.symm apart

/-- A user page is not a page of the kernel. -/
theorem InKernel.not_user (inKernel : InKernel range) (covers : Covers range frame) :
    frame < 4096 := by
  obtain ⟨vaddr, count⟩ := range
  obtain ⟨first, rfl, positive, fits⟩ := inKernel
  rw [covers_iff] at covers
  dsimp only at fits
  omega

theorem lent_idle (booted : start.Booted) : Lent start (idle start) where
  accounted := ⟨List.Pairwise.nil, booted.synced, booted.counted⟩
  total := rfl
  outside := fun _ _ => rfl
  ranges := nofun
  users := nofun
  once := List.nodup_nil
  held := by
    rintro frame (⟨_, none, _⟩ | none)
    · cases none
    · cases none
  kept := fun _ _ => rfl

/-- `alloc_kpage` lends a range that nobody holds. -/
theorem Lent.alloc (booted : start.Booted) (lent : Lent start s) {vaddr : Nat}
    (allocated : s.pages.allocKpage count = .ok (vaddr, pages)) :
    Lent start { s with pages := pages, ranges := (vaddr, count) :: s.ranges } := by
  have enough : 4096 ≤ s.pages.totalPages := by
    rw [lent.total]
    exact booted.enough
  obtain ⟨synced, first, positive, fits, rfl, fresh, counts⟩ :=
    lent.accounted.synced.alloc allocated
  obtain ⟨counted, total, outside⟩ :=
    PageMaps.allocKpage_keeps lent.accounted.counted enough allocated
  have inKernel : InKernel (0xC0100000 + first * 4096, count) :=
    ⟨first, rfl, positive, fits⟩
  have unheld (frame : Nat) (covers : Covers (0xC0100000 + first * 4096, count) frame) :
      s.pages.memMap frame = 0 := by
    obtain ⟨above, below⟩ := covers_iff.mp covers
    have zero := fresh (frame - 256) (by omega) (by omega)
    unfold PageMaps.count at zero
    rw [show frame - 256 + 256 = frame by omega] at zero
    exact UInt8.toNat_inj.mp zero
  have notHeld (frame : Nat) (covers : Covers (0xC0100000 + first * 4096, count) frame) :
      ¬s.Holds frame := by
    intro holds
    have one := (lent.held frame holds).2
    rw [unheld frame covers] at one
    exact absurd one (by decide)
  have holds (frame : Nat) :
      Holds { s with
        pages := pages
        ranges := (0xC0100000 + first * 4096, count) :: s.ranges } frame ↔
      Covers (0xC0100000 + first * 4096, count) frame ∨ s.Holds frame := by
    simp only [Holds, List.mem_cons, exists_eq_or_imp, or_assoc]
  have after (frame : Nat) : pages.memMap frame =
      if first + 256 ≤ frame ∧ frame < first + 256 + count then 1
      else s.pages.memMap frame := counts frame
  refine
    { accounted := ⟨?apart, synced, counted⟩
      total := total.trans lent.total
      outside := fun address away => (outside address away).trans (lent.outside address away)
      ranges := ?ranges
      users := lent.users
      once := lent.once
      held := ?held
      kept := ?kept }
  case apart =>
    refine List.pairwise_cons.mpr ⟨fun other present => ?_, lent.accounted.apart⟩
    exact apart_of_covers inKernel (lent.ranges other present)
      fun frame covers otherCovers =>
        notHeld frame covers (.inl ⟨other, present, otherCovers⟩)
  case ranges =>
    intro range present
    rcases List.mem_cons.mp present with rfl | before
    · exact inKernel
    · exact lent.ranges range before
  case held =>
    intro frame isHeld
    rw [after]
    rcases (holds frame).mp isHeld with covers | before
    · rw [if_pos (covers_iff.mp covers), ← unheld frame covers]
      exact ⟨(lent.kept frame (notHeld frame covers)).symm, rfl⟩
    · rw [if_neg fun inside => notHeld frame (covers_iff.mpr inside) before]
      exact lent.held frame before
  case kept =>
    intro frame isKept
    have notBefore := mt (holds frame).mpr isKept
    rw [after, if_neg fun inside => notBefore (.inl (covers_iff.mpr inside))]
    exact lent.kept frame fun before => notBefore (.inr before)

/-- A range that is lent out is apart from the others. -/
theorem Accounted.apart_erase (accounted : s.Accounted) (present : range ∈ s.ranges) :
    ∀ other ∈ s.ranges.erase range, Apart range other := by
  have apart := (List.Perm.pairwise_iff Apart.symm (List.perm_cons_erase present)).mp
    accounted.apart
  exact (List.pairwise_cons.mp apart).1

/-- `free_kpage` takes a range back. -/
theorem Lent.free (booted : start.Booted) (lent : Lent start s) (present : range ∈ s.ranges) :
    ∃ pages, s.pages.freeKpage range.1 range.2 = .ok pages ∧
      Lent start { s with pages := pages, ranges := s.ranges.erase range } := by
  have others := lent.accounted.apart_erase present
  have inKernel := lent.ranges range present
  obtain ⟨vaddr, count⟩ := range
  obtain ⟨first, rfl, positive, fits⟩ := inKernel
  have once (frame : Nat) (covers : Covers (0xC0100000 + first * 4096, count) frame) :=
    lent.held frame (.inl ⟨_, present, covers⟩)
  obtain ⟨pages, freed, counted, total, outside⟩ :=
    PageMaps.freeKpage_returns lent.accounted.synced lent.accounted.counted
      (lent.total.symm ▸ booted.enough) (lent.total.symm ▸ booted.bounded) positive fits
      (fun page above below =>
        (once (page + 256) (covers_iff.mpr ⟨by omega, by omega⟩)).2)
  obtain ⟨synced, away, inside⟩ := lent.accounted.synced.free freed
  have zero (frame : Nat) (covers : Covers (0xC0100000 + first * 4096, count) frame) :
      pages.memMap frame = 0 := by
    obtain ⟨above, below⟩ := covers_iff.mp covers
    have isOnce := (once frame covers).2
    have gone := inside (frame - 256) (by omega) (by omega)
    unfold PageMaps.count at gone
    rw [show frame - 256 + 256 = frame by omega, isOnce] at gone
    exact UInt8.toNat_inj.mp (gone rfl)
  have same (frame : Nat) (notCovered : ¬Covers (0xC0100000 + first * 4096, count) frame) :
      pages.memMap frame = s.pages.memMap frame := by
    apply away
    rw [covers_iff] at notCovered
    omega
  have holds (frame : Nat) :
      Holds { s with
        pages := pages
        ranges := s.ranges.erase (0xC0100000 + first * 4096, count) } frame ↔
      s.Holds frame ∧ ¬Covers (0xC0100000 + first * 4096, count) frame := by
    constructor
    · rintro (⟨other, remains, covers⟩ | isUser)
      · exact ⟨.inl ⟨other, List.mem_of_mem_erase remains, covers⟩,
          (others other remains).symm.not_covers covers⟩
      · refine ⟨.inr isUser, fun covers => ?_⟩
        obtain ⟨index, address, above, _⟩ := lent.users _ isUser
        have below := InKernel.not_user ⟨first, rfl, positive, fits⟩ covers
        have sameFrame : frame = index := Nat.eq_of_mul_eq_mul_right (by decide) address
        omega
    · rintro ⟨⟨other, held, covers⟩ | isUser, notCovered⟩
      · refine .inl ⟨other, ?_, covers⟩
        apply (List.mem_erase_of_ne _).mpr held
        rintro rfl
        exact notCovered covers
      · exact .inr isUser
  refine ⟨pages, freed,
    { accounted :=
        ⟨lent.accounted.apart.sublist List.erase_sublist, synced, counted⟩
      total := total.trans lent.total
      outside := fun address away => (outside address away).trans (lent.outside address away)
      ranges := fun other remains => lent.ranges other (List.mem_of_mem_erase remains)
      users := lent.users
      once := lent.once
      held := ?held
      kept := ?kept }⟩
  case held =>
    intro frame isHeld
    obtain ⟨before, notCovered⟩ := (holds frame).mp isHeld
    rw [same frame notCovered]
    exact lent.held frame before
  case kept =>
    intro frame isKept
    dsimp only
    by_cases covers : Covers (0xC0100000 + first * 4096, count) frame
    · rw [zero frame covers, (once frame covers).1]
    · rw [same frame covers]
      exact lent.kept frame fun before => isKept ((holds frame).mpr ⟨before, covers⟩)

/-- The bits of `kernel_map` do not depend on the counts of user pages. -/
theorem synced_setCount (synced : pages.Synced) (above : 4096 ≤ frame) (count : UInt8) :
    (pages.setCount frame count).Synced := by
  intro page inside
  have other : page + 256 ≠ frame := by omega
  unfold PageMaps.Taken PageMaps.count
  rw [PageMaps.setCount_kernelBits, PageMaps.setCount_memMap, if_neg other]
  exact synced page inside

/-- A user page is not covered by a range. -/
theorem Lent.not_covered (lent : Lent start s) (above : 4096 ≤ frame) :
    ¬∃ range ∈ s.ranges, Covers range frame := by
  rintro ⟨range, present, covers⟩
  have below := (lent.ranges range present).not_user covers
  omega

theorem frame_inj {other : Nat} (same : frame * pageSize = other * pageSize) : frame = other :=
  Nat.eq_of_mul_eq_mul_right (by decide) same

/-- `get_user_page` lends a page that nobody holds. -/
theorem Lent.getUser (lent : Lent start s) {paddr : Nat}
    (got : s.pages.getUserPage = .ok (paddr, pages)) :
    Lent start { s with pages := pages, userPages := paddr :: s.userPages } := by
  obtain ⟨frame, above, below, rfl, free, rfl⟩ := PageMaps.getUserPage_spec got
  have notHeld : ¬s.Holds frame := by
    intro holds
    have one := (lent.held frame holds).2
    rw [free] at one
    exact absurd one (by decide)
  have counts (other : Nat) : (s.pages.setCount frame 1).dropFree.memMap other =
      if other = frame then 1 else s.pages.memMap other := by simp
  refine
    { accounted :=
        ⟨lent.accounted.apart, synced_setCount lent.accounted.synced above 1,
          lent.accounted.counted.take below free⟩
      total := lent.total
      outside := lent.outside
      ranges := lent.ranges
      users := ?users
      once := List.nodup_cons.mpr ⟨fun present => notHeld (.inr present), lent.once⟩
      held := ?held
      kept := ?kept }
  case users =>
    intro other present
    rcases List.mem_cons.mp present with rfl | before
    · exact ⟨frame, rfl, above, lent.total ▸ below⟩
    · exact lent.users other before
  case held =>
    intro other isHeld
    rw [counts]
    by_cases same : other = frame
    · rw [if_pos same, same, ← lent.kept frame notHeld]
      exact ⟨free, rfl⟩
    · rw [if_neg same]
      apply lent.held other
      rcases isHeld with covered | isUser
      · exact .inl covered
      · rcases List.mem_cons.mp isUser with sameAddress | before
        · exact absurd (frame_inj sameAddress) same
        · exact .inr before
  case kept =>
    intro other isKept
    have different : other ≠ frame := by
      rintro rfl
      exact isKept (.inr List.mem_cons_self)
    rw [counts, if_neg different]
    apply lent.kept other
    rintro (covered | isUser)
    · exact isKept (.inl covered)
    · exact isKept (.inr (List.mem_cons_of_mem _ isUser))

/-- `put_user_page` takes a page back. -/
theorem Lent.putUser (booted : start.Booted) (lent : Lent start s) {paddr : Nat}
    (present : paddr ∈ s.userPages) :
    ∃ pages, s.pages.putUserPage paddr = .ok pages ∧
      Lent start { s with pages := pages, userPages := s.userPages.erase paddr } := by
  obtain ⟨frame, rfl, above, below⟩ := lent.users paddr present
  obtain ⟨wasFree, once⟩ := lent.held frame (.inr present)
  have isBelow : frame < s.pages.totalPages := lent.total.symm ▸ below
  have bounded : s.pages.totalPages < 2 ^ 20 := lent.total.symm ▸ booted.bounded
  have lowUsed : s.pages.memMap 0 ≠ 0 := by
    rw [lent.kept 0 fun holds => booted.lowUsed (lent.held 0 holds).1]
    exact booted.lowUsed
  have counts (other : Nat) : (s.pages.setCount frame 0).addFree.memMap other =
      if other = frame then 0 else s.pages.memMap other := by simp
  have gone (other : Nat) : other * pageSize ∈ s.userPages.erase (frame * pageSize) ↔
      other ≠ frame ∧ other * pageSize ∈ s.userPages := by
    rw [lent.once.mem_erase_iff]
    refine and_congr_left fun _ => not_congr ⟨frame_inj, ?_⟩
    rintro rfl
    rfl
  refine ⟨(s.pages.setCount frame 0).addFree,
    PageMaps.putUserPage_returns lent.accounted.counted bounded lowUsed above isBelow once,
    { accounted :=
        ⟨lent.accounted.apart, synced_setCount lent.accounted.synced above 0,
          lent.accounted.counted.give isBelow (by omega) (by rw [once]; decide)⟩
      total := lent.total
      outside := lent.outside
      ranges := lent.ranges
      users := fun other remains => lent.users other (List.mem_of_mem_erase remains)
      once := lent.once.erase _
      held := ?held
      kept := ?kept }⟩
  case held =>
    intro other isHeld
    rw [counts]
    rcases isHeld with covered | isUser
    · have different : other ≠ frame := by
        rintro rfl
        exact lent.not_covered above covered
      rw [if_neg different]
      exact lent.held other (.inl covered)
    · obtain ⟨different, before⟩ := (gone other).mp isUser
      rw [if_neg different]
      exact lent.held other (.inr before)
  case kept =>
    intro other isKept
    rw [counts]
    by_cases same : other = frame
    · rw [if_pos same, same, wasFree]
    · rw [if_neg same]
      apply lent.kept other
      rintro (covered | isUser)
      · exact isKept (.inl covered)
      · exact isKept (.inr ((gone other).mpr ⟨same, isUser⟩))

theorem Lent.step (booted : start.Booted) (lent : Lent start s) {label : Label}
    (stepped : s.next label = .ok after) : Lent start after := by
  cases label with
  | alloc count =>
      simp only [next, bind_eq_ok] at stepped
      obtain ⟨⟨vaddr, pages⟩, allocated, result⟩ := stepped
      cases result
      exact lent.alloc booted allocated
  | free range =>
      simp only [next] at stepped
      split at stepped
      · rename_i present
        obtain ⟨pages, freed, kept⟩ := lent.free booted present
        rw [freed, ok_bind] at stepped
        cases stepped
        exact kept
      · cases stepped
  | getUser =>
      simp only [next, bind_eq_ok] at stepped
      obtain ⟨⟨paddr, pages⟩, got, result⟩ := stepped
      cases result
      exact lent.getUser got
  | putUser paddr =>
      simp only [next] at stepped
      split at stepped
      · rename_i present
        obtain ⟨pages, put, kept⟩ := lent.putUser booted present
        rw [put, ok_bind] at stepped
        cases stepped
        exact kept
      · cases stepped

/-- What is lent out can be given back. -/
theorem Lent.release (booted : start.Booted) (lent : Lent start s) {label : Label}
    (present : label ∈ s.releases) :
    ∃ after, s.next label = .ok after ∧ Lent start after ∧
      after.releases.Perm (s.releases.erase label) := by
  rcases List.mem_append.mp present with isRange | isUser
  · obtain ⟨range, held, rfl⟩ := List.mem_map.mp isRange
    obtain ⟨pages, freed, kept⟩ := lent.free booted held
    refine ⟨{ s with pages := pages, ranges := s.ranges.erase range }, ?_, kept, ?_⟩
    · simp only [next, if_pos held, freed, ok_bind, pure_eq_ok]
    · apply (List.perm_cons (Label.free range)).mp
      refine List.Perm.trans ?_ (List.perm_cons_erase present)
      exact ((List.perm_cons_erase held).map Label.free).symm.append_right _
  · obtain ⟨paddr, held, rfl⟩ := List.mem_map.mp isUser
    obtain ⟨pages, put, kept⟩ := lent.putUser booted held
    refine ⟨{ s with pages := pages, userPages := s.userPages.erase paddr }, ?_, kept, ?_⟩
    · simp only [next, if_pos held, put, ok_bind, pure_eq_ok]
    · apply (List.perm_cons (Label.putUser paddr)).mp
      refine List.Perm.trans ?_ (List.perm_cons_erase present)
      refine List.perm_middle.symm.trans ?_
      exact ((List.perm_cons_erase held).map Label.putUser).symm.append_left _

/-- Bytes with the same bits are the same. -/
theorem byte_ext {byte other : UInt8}
    (bits : ∀ index, index < 8 → Bitmap.byteBit byte index = Bitmap.byteBit other index) :
    byte = other := by
  apply UInt8.toNat_inj.mp
  apply Nat.eq_of_testBit_eq
  intro index
  by_cases inside : index < 8
  · exact bits index inside
  · have power : 2 ^ 8 ≤ 2 ^ index := Nat.pow_le_pow_right (by decide) (by omega)
    rw [Nat.testBit_lt_two_pow (byte.toNat_lt.trans_le power),
      Nat.testBit_lt_two_pow (other.toNat_lt.trans_le power)]

/-- With nothing lent out the accounts are those after start-up. -/
theorem Lent.restored (booted : start.Booted) (lent : Lent start s) (none : s.releases = []) :
    s = idle start := by
  have noRanges : s.ranges = [] := by
    simpa using (List.append_eq_nil_iff.mp none).1
  have noUsers : s.userPages = [] := by
    simpa using (List.append_eq_nil_iff.mp none).2
  have nothing (frame : Nat) : ¬s.Holds frame := by
    simp [Holds, noRanges, noUsers]
  have counts : s.pages.memMap = start.memMap := by
    have same (frame : Nat) := lent.kept frame (nothing frame)
    cases isAfter : s.pages.memMap
    cases isBefore : start.memMap
    congr
    funext frame
    have sameByte := same frame
    rwa [isAfter, isBefore] at sameByte
  have free : s.pages.freePages = start.freePages := by
    have before : start.freePages = start.zeros := booted.counted
    have after : s.pages.freePages = s.pages.zeros := lent.accounted.counted
    rw [after, before]
    unfold PageMaps.zeros
    rw [counts, lent.total]
  have bits : s.pages.kernelBits = start.kernelBits := by
    have same (address : Nat) : s.pages.kernelBits address = start.kernelBits address := by
      by_cases inside : kernelMap.bits ≤ address ∧ address < kernelMap.bits + kernelMap.length
      · have length : kernelMap.length = 480 := rfl
        apply byte_ext
        intro index isBit
        have taken : s.pages.Taken (8 * (address - kernelMap.bits) + index) ↔
            start.Taken (8 * (address - kernelMap.bits) + index) := by
          rw [lent.accounted.synced _ (by omega), booted.synced _ (by omega),
            PageMaps.count_ne_zero, PageMaps.count_ne_zero, counts]
        unfold PageMaps.Taken Bitmap.bit at taken
        rw [show kernelMap.bits + (8 * (address - kernelMap.bits) + index) / 8 = address by
            omega, show (8 * (address - kernelMap.bits) + index) % 8 = index by omega] at taken
        exact Bool.eq_iff_iff.mpr taken
      · exact lent.outside address (by omega)
    cases isAfter : s.pages.kernelBits
    cases isBefore : start.kernelBits
    congr
    funext address
    have sameByte := same address
    rwa [isAfter, isBefore] at sameByte
  obtain ⟨⟨kernelBits, memMap, totalPages, freePages⟩, ranges, userPages⟩ := s
  obtain ⟨startBits, startMap, startTotal, startFree⟩ := start
  have total := lent.total
  dsimp only at counts free bits total noRanges noUsers
  rw [counts, free, bits, total, noRanges, noUsers]
  rfl

/-- Giving back everything that is lent out, in any order, succeeds and restores the
accounts of start-up. -/
theorem Lent.release_all (booted : start.Booted) {order : List Label} (lent : Lent start s)
    (all : order.Perm s.releases) : System.run next s order = .ok (idle start) := by
  induction order generalizing s with
  | nil =>
      rw [System.run, lent.restored booted all.nil_eq.symm]
  | cons label order inductionHypothesis =>
      have present : label ∈ s.releases := all.subset List.mem_cons_self
      obtain ⟨after, stepped, kept, fewer⟩ := lent.release booted present
      rw [System.run, stepped]
      apply inductionHypothesis kept
      apply (List.perm_cons label).mp
      exact all.trans ((List.perm_cons_erase present).trans (fewer.symm.cons label))

/-- In every run of the allocator from start-up the accounts of pages agree, the ranges
lent out are disjoint, and giving back everything that is lent out, in any order,
restores the accounts of start-up. -/
theorem accounted_of_reachable {zones : List MemoryZone} {memMap kernelBits : Memory}
    {start : PageMaps} {s : Allocator}
    (booted : PageMaps.boot zones memMap kernelBits = .ok start)
    (reached : (runs start).Reachable s) :
    s.Accounted ∧
      ∀ order, order.Perm s.releases → System.run next s order = .ok (idle start) := by
  have isBooted := PageMaps.booted_of_boot booted
  have lent : Lent start s := by
    apply reached.invariant (Lent start)
    · rintro state rfl
      exact lent_idle isBooted
    · exact fun before label after lent _ stepped => lent.step isBooted stepped
  exact ⟨lent.accounted, fun order all => lent.release_all isBooted all⟩

/-- The first allocation after start-up. -/
theorem alloc_first (booted : start.Booted) (positive : 0 < count) (fits : 256 + count ≤ 3840) :
    ∃ first pages, start.allocKpage count = .ok (0xC0100000 + first * 4096, pages) := by
  have few := booted.mapPages_le
  obtain ⟨first, pages, _, allocated⟩ := PageMaps.allocKpage_returns booted.synced positive
    fits fun page above below taken => by
      have mapped := (booted.taken page (by omega)).mp taken
      omega
  exact ⟨first, pages, allocated⟩

theorem accounted_of_reachable_two :
    ∃ start s, (runs start).Reachable s ∧ s.ranges.length = 1 ∧ s.Accounted ∧
      System.run next s s.releases = .ok (idle start) := by
  obtain ⟨start, booted⟩ := PageMaps.boot_returns ⟨fun _ => 0⟩ ⟨fun _ => 0⟩
  obtain ⟨first, pages, allocated⟩ :=
    alloc_first (PageMaps.booted_of_boot booted) Nat.two_pos (by decide)
  have reached : (runs start).Reachable
      { idle start with pages := pages, ranges := [(0xC0100000 + first * 4096, 2)] } := by
    have stepped : (idle start).next (.alloc 2) =
        .ok { idle start with
          pages := pages, ranges := [(0xC0100000 + first * 4096, 2)] } := by
      simp only [next, idle, allocated, ok_bind, pure_eq_ok]
    exact .step (.initial rfl) trivial stepped
  obtain ⟨accounted, restored⟩ := accounted_of_reachable booted reached
  exact ⟨start, _, reached, rfl, accounted, restored _ (List.Perm.refl _)⟩

end Allocator

end LightOS
