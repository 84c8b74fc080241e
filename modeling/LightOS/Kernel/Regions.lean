import LightOS.Kernel.PageAllocator

/-!
# The regions of the page cache and the ramdisk

The kernel uses the addresses from 8 MiB to 16 MiB above `KERNEL_VADDR_OFFSET`
directly, for the page cache and for the ramdisk.  `memory_map_init` leaves their bits
in `kernel_map` clear, so that the first fit of `alloc_kpage` goes on into them when the
pages below do not hold a run that is long enough.
-/

namespace LightOS

/-- `KERNEL_PAGE_CACHE_VADDR`. -/
abbrev kernelPageCacheVaddr : Nat := kernelVaddrOffset + 0x800000

/-- `KERNEL_PAGE_CAHCE_SIZE`. -/
abbrev kernelPageCacheSize : Nat := 0x400000

/-- `KERNEL_RAMDISK_VADDR`. -/
abbrev kernelRamdiskVaddr : Nat := kernelPageCacheVaddr + kernelPageCacheSize

/-- `KERNEL_RAMDISK_SIZE`. -/
abbrev kernelRamdiskSize : Nat := 0x400000

namespace Allocator

/-- An address belongs to the page cache or to the ramdisk. -/
def Reserved (vaddr : Nat) : Prop :=
  (kernelPageCacheVaddr ≤ vaddr ∧ vaddr < kernelPageCacheVaddr + kernelPageCacheSize) ∨
    (kernelRamdiskVaddr ≤ vaddr ∧ vaddr < kernelRamdiskVaddr + kernelRamdiskSize)

/-- No range that is lent out has an address in one of the two regions. -/
def Respects (s : Allocator) : Prop :=
  ∀ range ∈ s.ranges, ∀ vaddr, range.1 ≤ vaddr → vaddr < range.1 + range.2 * pageSize →
    ¬Reserved vaddr

/-- Pages of the kernel that are all free. -/
def FreeRun (pages : PageMaps) (first count : Nat) : Prop :=
  ∀ page, first ≤ page → page < first + count → ¬pages.Taken page

/-- An allocation for which there is a run of free pages at all finds one that ends
below the page cache. -/
def FitsBelow (s : Allocator) : Label → Prop
  | .alloc count =>
      (∃ first, first + count ≤ 3840 ∧ FreeRun s.pages first count) →
        ∃ first, first + count ≤ 1792 ∧ FreeRun s.pages first count
  | _ => True

variable {start : PageMaps} {s after : Allocator}

/-- The pages from 8 MiB on are those of the two regions. -/
theorem reserved_iff {page : Nat} (inKernel : page < 3840) :
    Reserved (0xC0100000 + page * 4096) ↔ 1792 ≤ page := by
  simp only [Reserved, kernelPageCacheVaddr, kernelRamdiskVaddr, kernelVaddrOffset,
    kernelPageCacheSize, kernelRamdiskSize]
  omega

/-- A range that ends below the page cache. -/
theorem not_reserved_of_below {first count vaddr : Nat} (below : first + count ≤ 1792)
    (inRange : vaddr < 0xC0100000 + first * 4096 + count * pageSize) : ¬Reserved vaddr := by
  simp only [Reserved, kernelPageCacheVaddr, kernelRamdiskVaddr, kernelVaddrOffset,
    kernelPageCacheSize, kernelRamdiskSize, pageSize] at *
  omega

/-- What is lent out does not get more by anything but `alloc_kpage`. -/
theorem next_ranges {label : Label} (stepped : s.next label = .ok after)
    (notAlloc : ∀ count, label ≠ .alloc count) :
    ∀ range ∈ after.ranges, range ∈ s.ranges := by
  cases label with
  | alloc count => exact absurd rfl (notAlloc count)
  | free range =>
      simp only [next] at stepped
      split at stepped
      · simp only [bind_eq_ok] at stepped
        obtain ⟨_, _, result⟩ := stepped
        cases result
        exact fun other remains => List.mem_of_mem_erase remains
      · cases stepped
  | getUser =>
      simp only [next, bind_eq_ok] at stepped
      obtain ⟨_, _, result⟩ := stepped
      cases result
      exact fun _ present => present
  | putUser paddr =>
      simp only [next] at stepped
      split at stepped
      · simp only [bind_eq_ok] at stepped
        obtain ⟨_, _, result⟩ := stepped
        cases result
        exact fun _ present => present
      · cases stepped

theorem Respects.step (lent : Lent start s) (respects : s.Respects) {label : Label}
    (fits : s.FitsBelow label) (stepped : s.next label = .ok after) : after.Respects := by
  cases label with
  | alloc count =>
      simp only [next, bind_eq_ok] at stepped
      obtain ⟨⟨vaddr, pages⟩, allocated, result⟩ := stepped
      cases result
      obtain ⟨found, positive, inside, _, free, _⟩ := PageMaps.allocKpage_spec allocated
      obtain ⟨first, below, isFree⟩ := fits ⟨found, inside, free⟩
      obtain ⟨earliest, _, before, returned⟩ := PageMaps.allocKpage_returns
        lent.accounted.synced positive (by omega) isFree
      rw [returned] at allocated
      cases allocated
      intro range present vaddr above inRange
      rcases List.mem_cons.mp present with rfl | already
      · exact not_reserved_of_below (by omega) inRange
      · exact respects range already vaddr above inRange
  | free range =>
      exact fun other present => respects other (next_ranges stepped (by rintro _ ⟨⟩) other present)
  | getUser =>
      exact fun other present => respects other (next_ranges stepped (by rintro _ ⟨⟩) other present)
  | putUser paddr =>
      exact fun other present => respects other (next_ranges stepped (by rintro _ ⟨⟩) other present)

/-- An allocation that finds no run below the page cache returns one that is not. -/
theorem not_respects_of_not_fitsBelow {label : Label} (tooLong : ¬s.FitsBelow label)
    (stepped : s.next label = .ok after) : ¬after.Respects := by
  cases label with
  | alloc count =>
      simp only [next, bind_eq_ok] at stepped
      obtain ⟨⟨vaddr, pages⟩, allocated, result⟩ := stepped
      cases result
      obtain ⟨first, positive, inside, rfl, free, _⟩ := PageMaps.allocKpage_spec allocated
      have above : 1792 < first + count := by
        by_contra below
        exact tooLong fun _ => ⟨first, by omega, free⟩
      intro respects
      apply respects _ List.mem_cons_self (0xC0100000 + (first + count - 1) * 4096)
      · dsimp only
        omega
      · simp only [pageSize]
        omega
      · rw [reserved_iff (by omega)]
        omega
  | free range => exact absurd trivial tooLong
  | getUser => exact absurd trivial tooLong
  | putUser paddr => exact absurd trivial tooLong

/-- The regions are respected in a run exactly when every allocation for which there is
a run of free pages finds one below them. -/
theorem respects_iff_fitsBelow {zones : List MemoryZone} {memMap kernelBits : Memory}
    {start : PageMaps} {first final : Allocator} {trace : List (Allocator × Label)}
    (booted : PageMaps.boot zones memMap kernelBits = .ok start)
    (begins : (runs start).initial first) (path : (runs start).Path first trace final) :
    System.Visits Respects trace final ↔ System.Obeys FitsBelow trace := by
  have isBooted := PageMaps.booted_of_boot booted
  cases begins
  exact path.visits_iff_obeys (fun state => Lent start state ∧ state.Respects)
    ⟨lent_idle isBooted, fun range present => by cases present⟩
    (fun before label after holds fits stepped =>
      ⟨holds.1.step isBooted stepped, holds.2.step holds.1 fits stepped⟩)
    (fun state holds => holds.2)
    (fun before label after _ tooLong stepped =>
      not_respects_of_not_fitsBelow tooLong stepped)

/-- The first allocation after start-up as a path. -/
theorem path_alloc (booted : start.Booted) {count : Nat} (positive : 0 < count)
    (fits : 256 + count ≤ 3840) :
    ∃ after, (runs start).Path (idle start) [(idle start, .alloc count)] after ∧
      after.ranges.map Prod.snd = [count] := by
  obtain ⟨first, pages, allocated⟩ := alloc_first booted positive fits
  refine ⟨{ idle start with
    pages := pages, ranges := [(0xC0100000 + first * 4096, count)] }, ?_, rfl⟩
  apply System.Path.cons .nil
  change (idle start).next (.alloc count) = _
  simp only [next, idle, allocated, ok_bind, pure_eq_ok]

theorem respects_iff_fitsBelow_two :
    ∃ start trace final, (runs start).Path (idle start) trace final ∧
      final.ranges.map Prod.snd = [2] ∧
      (System.Visits Respects trace final ↔ System.Obeys FitsBelow trace) := by
  obtain ⟨start, booted⟩ := PageMaps.boot_returns ⟨fun _ => 0⟩ ⟨fun _ => 0⟩
  obtain ⟨final, path, ranges⟩ :=
    path_alloc (PageMaps.booted_of_boot booted) Nat.two_pos (by decide)
  exact ⟨start, _, final, path, ranges, respects_iff_fitsBelow booted rfl path⟩

/-- Right after start-up with 32 MiB, an allocation of 1800 pages gets pages of the page
cache. -/
theorem respects_fails :
    ¬∀ zones memMap kernelBits start s,
      PageMaps.boot zones memMap kernelBits = .ok start →
        (runs start).Reachable s → s.Respects := by
  intro always
  obtain ⟨start, booted⟩ := PageMaps.boot_returns ⟨fun _ => 0⟩ ⟨fun _ => 0⟩
  have isBooted := PageMaps.booted_of_boot booted
  have positive : 0 < 1800 := by decide
  obtain ⟨first, pages, allocated⟩ := alloc_first isBooted positive (by decide)
  have stepped : (idle start).next (.alloc 1800) =
      .ok { idle start with
        pages := pages, ranges := [(0xC0100000 + first * 4096, 1800)] } := by
    simp only [next, idle, allocated, ok_bind, pure_eq_ok]
  have respects := always _ _ _ start _ booted (.step (.initial rfl) trivial stepped)
  refine absurd respects (not_respects_of_not_fitsBelow (fun fits => ?_) stepped)
  obtain ⟨found, _, inside, _, free, _⟩ := PageMaps.allocKpage_spec allocated
  obtain ⟨below, fitsBelow, _⟩ := fits ⟨found, inside, free⟩
  omega

end Allocator

end LightOS
