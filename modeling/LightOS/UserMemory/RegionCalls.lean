import LightOS.UserMemory.Physical

/-!
# `sys_mmap` and `sys_munmap` stay in their region

A call that trips no assertion goes through pages of the region, as many as the length needs,
and changes nothing else.  There are two exceptions.  Lengths so large that `div_round_up`
wraps are accepted, and the call goes through no page; and the bits of most pages of the
region lie behind the page that is allocated for them, in pages of the kernel.
-/

namespace LightOS
namespace UserMemory

namespace Machine

variable {s after : Machine} {spaces : Spaces} {pid dir vaddr page length : Nat}
  {task : Task} {map : Bitmap} {value : Bool} {args : MmapArgs}

/-- The page that an address is mapped to. -/
def pageAt (s : Machine) (pde vaddr : Nat) : Option Nat :=
  if s.Mapped pde vaddr then some (s.walk pde vaddr).2.index else none

/-- The page of an address is what its place refers to. -/
theorem pageAt_eq (inUse : s.InUse spaces pid dir userTables)
    (user : vaddr < kernelVaddrOffset) :
    s.pageAt dir vaddr = refersIn s.frames spaces (placeOf pid vaddr) := by
  unfold pageAt
  by_cases mapped : s.Mapped dir vaddr
  · rw [if_pos mapped, mapped_spec inUse user mapped]
  · rw [if_neg mapped]
    have isNone := mt (mapped_iff inUse user).mpr mapped
    rw [Option.not_isSome_iff_eq_none] at isNone
    exact isNone.symm

theorem pagesFrom_length (vaddr length : Nat) :
    (pagesFrom vaddr length).length = Fs.divRoundUp length pageSize := by
  unfold pagesFrom
  rw [List.length_map, List.length_range]

theorem aligned_eq {other : Nat} (aligned : page % pageSize = 0)
    (otherAligned : other % pageSize = 0) (same : page / pageSize = other / pageSize) :
    page = other := by
  rw [← Nat.div_add_mod page pageSize, ← Nat.div_add_mod other pageSize, aligned, otherAligned,
    same]

theorem test_of_hasBit (hasBit : HasBit map page) (memory : Memory) :
    map.test memory (page / pageSize) =
      .ok (map.bit memory (page / pageSize - map.offset)) := by
  rw [Bitmap.test, check_true hasBit.1, ok_bind, check_true hasBit.2]
  rfl

theorem test_of_not_hasBit (hasNoBit : ¬HasBit map page) (memory : Memory) :
    map.test memory (page / pageSize) = .error .assertion := by
  unfold Bitmap.test
  by_cases above : map.offset ≤ page / pageSize
  · have outside : ¬(page / pageSize - map.offset) / 8 < map.length :=
      fun below => hasNoBit ⟨above, below⟩
    rw [check_true above, ok_bind, check, if_neg outside]
    rfl
  · rw [check, if_neg above]
    rfl

/-- The pages that are mapped hold all that is read from the file. -/
theorem isSome_of_processed
    (processed : Processed spaces pid map true (pagesFrom vaddr args.length) s after)
    (aligned : vaddr % pageSize = 0) (positive : 0 < args.length)
    (small : args.length ≤ 2 ^ 32 - pageSize) {size : Nat} (fits : size ≤ args.length) :
    ∀ index < (vaddr % 4 + size + 3) / 4, (refersIn after.frames spaces
      (placeOf pid ((vaddr / 4 * 4 + 4 * index) % 2 ^ 32))).isSome = true := by
  intro index inRange
  have count := divRoundUp_pageSize positive small
  change Fs.divRoundUp args.length 4096 = (args.length + 4095) / 4096 at count
  change vaddr % 4096 = 0 at aligned
  have isPage : (vaddr + pageSize * (4 * index / pageSize)) % 2 ^ 32 ∈
      pagesFrom vaddr args.length := by
    refine List.mem_map.mpr ⟨4 * index / pageSize, List.mem_range.mpr ?_, rfl⟩
    change 4 * index / 4096 < Fs.divRoundUp args.length 4096
    rw [count]
    omega
  have samePage : (vaddr / 4 * 4 + 4 * index) % 2 ^ 32 / pageSize =
      (vaddr + pageSize * (4 * index / pageSize)) % 2 ^ 32 / pageSize := by
    change (vaddr / 4 * 4 + 4 * index) % 2 ^ 32 / 4096 =
      (vaddr + 4096 * (4 * index / 4096)) % 2 ^ 32 / 4096
    omega
  rw [placeOf_congr samePage]
  exact processed.linked _ isPage

/-- A call that does not end the process. -/
def Survives {α : Type} (call : Except Stop α) : Prop :=
  ∀ status s, call ≠ .error (.exit status s)

theorem Survives.bind_lift {α β : Type} {call : Except Fault α} {next : α → Except Stop β}
    (survives : ∀ result, call = .ok result → Survives (next result)) :
    Survives (lift call >>= next) := by
  cases call with
  | ok result => exact survives result rfl
  | error fault => exact nofun

/-- What `sys_munmap` goes through. -/
theorem sysMunmap_processed (inUse : s.InUse spaces pid dir userTables)
    (isTask : s.getCurrent = .ok task) (region : Region task.vmap) {result : Int}
    (called : s.sysMunmap vaddr length = .ok (result, after)) :
    vaddr % pageSize = 0 ∧
      Processed spaces pid task.vmap false (pagesFrom vaddr length) s after := by
  simp only [sysMunmap, bind_eq_ok, check_eq_ok, isTask, Except.ok.injEq] at called
  obtain ⟨_, rfl, _, _, _, aligned, middle, unmapped, isAfter⟩ := called
  cases isAfter
  exact ⟨aligned, (munmapPages_spec inUse region unmapped).2⟩

end Machine

open Machine (MmapArgs pagesFrom Survives)

namespace Physical

variable {s middle after : Machine} {pid dir vaddr index count length : Nat} {map : Bitmap}
  {task : Task} {value : Bool} {args : MmapArgs}

/-! ## The bytes of bits -/

/-- The byte that holds the bit of an index, with the address of the bitmap. -/
def byteOf (map : Bitmap) (index : Nat) : Nat × Nat :=
  (map.bits, map.bits + (index - map.offset) / 8)

/-- A byte lies in the page that is allocated for the bits. -/
def InPage (access : Nat × Nat) : Prop :=
  access.1 ≤ access.2 ∧ access.2 < access.1 + pageSize

/-- A call has set, cleared or tested bits in these bytes. -/
def Touches (s after : Machine) (accesses : List (Nat × Nat)) : Prop :=
  ∃ new, after.touched = new ++ s.touched ∧ ∀ access, access ∈ new ↔ access ∈ accesses

theorem inPage_byteOf : InPage (byteOf map index) ↔ (index - map.offset) / 8 < pageSize := by
  simp only [InPage, byteOf]
  omega

namespace Touches

variable {accesses others : List (Nat × Nat)}

theorem of_eq (same : after.touched = s.touched) : Touches s after [] :=
  ⟨[], same, fun _ => Iff.rfl⟩

theorem trans (first : Touches s middle accesses) (second : Touches middle after others) :
    Touches s after (accesses ++ others) := by
  obtain ⟨new, isMiddle, members⟩ := first
  obtain ⟨newer, isAfter, more⟩ := second
  refine ⟨newer ++ new, by rw [isAfter, isMiddle, List.append_assoc], fun access => ?_⟩
  rw [List.mem_append, List.mem_append, members, more, or_comm]

theorem foldlM {round : Machine → Nat → Except Fault Machine} {access : Nat → Nat × Nat}
    {items : List Nat}
    (touches : ∀ before item next, round before item = .ok next →
      Touches before next [access item])
    (folded : items.foldlM round s = .ok after) : Touches s after (items.map access) := by
  induction items generalizing s with
  | nil =>
      cases folded
      exact .of_eq rfl
  | cons item rest inductionHypothesis =>
      rw [List.foldlM_cons, bind_eq_ok] at folded
      obtain ⟨middle, first, rest⟩ := folded
      exact (touches s item middle first).trans (inductionHypothesis rest)

/-- All bytes that a call touches are in the page exactly when those are that it is known
to touch. -/
theorem inPage (touches : Touches s after accesses) :
    (∃ new, after.touched = new ++ s.touched ∧ ∀ access ∈ new, InPage access) ↔
      ∀ access ∈ accesses, InPage access := by
  obtain ⟨new, isAfter, members⟩ := touches
  constructor
  · rintro ⟨other, alsoAfter, inside⟩ access isAccess
    rw [isAfter, List.append_left_inj] at alsoAfter
    exact inside access (alsoAfter ▸ (members access).mpr isAccess)
  · intro inside
    exact ⟨new, isAfter, fun access isNew => inside access ((members access).mp isNew)⟩

end Touches

theorem bitmapSet_touches (isSet : bitmapSet s map index value = .ok after) :
    Touches s after [byteOf map index] := by
  unfold bitmapSet Machine.bitmapSet at isSet
  split at isSet
  · obtain ⟨_, _, result⟩ := (bind_eq_ok _ _ _).mp isSet
    cases result
    exact ⟨[byteOf map index], rfl, fun _ => Iff.rfl⟩
  · obtain ⟨_, marked, result⟩ := (bind_eq_ok _ _ _).mp isSet
    obtain ⟨_, _, isMarked⟩ := (bind_eq_ok _ _ _).mp marked
    cases isMarked
    cases result
    exact ⟨[byteOf map index], rfl, fun _ => Iff.rfl⟩

theorem bitmapTest_touches {bit : Bool} (tested : bitmapTest s map index = .ok (bit, after)) :
    Touches s after [byteOf map index] := by
  unfold bitmapTest Machine.bitmapTest at tested
  split at tested
  · obtain ⟨_, _, result⟩ := (bind_eq_ok _ _ _).mp tested
    cases result
    exact ⟨[byteOf map index], rfl, fun _ => Iff.rfl⟩
  · obtain ⟨_, marked, result⟩ := (bind_eq_ok _ _ _).mp tested
    obtain ⟨_, _, isMarked⟩ := (bind_eq_ok _ _ _).mp marked
    cases isMarked
    cases result
    exact ⟨[byteOf map index], rfl, fun _ => Iff.rfl⟩

/-- A round of the loop of `sys_mmap` touches the bit of its page. -/
theorem mmapPage_touches (mapped : mmapPage args map vaddr s index = .ok after) :
    Touches s after [byteOf map ((vaddr + pageSize * index) % 2 ^ 32 / pageSize)] := by
  simp only [mmapPage, bind_eq_ok] at mapped
  obtain ⟨one, isLinked, two, isSet, ⟨entry, three⟩, got, result⟩ := mapped
  cases result
  exact (Touches.of_eq (Machine.linkUserPage_kept isLinked).touched).trans
    ((bitmapSet_touches isSet).trans (.of_eq (Machine.getPte_kept got).touched))

theorem mmapPages_touches
    (mapped : (List.range count).foldlM (mmapPage args map vaddr) s = .ok after) :
    Touches s after ((List.range count).map fun index =>
      byteOf map ((vaddr + pageSize * index) % 2 ^ 32 / pageSize)) :=
  .foldlM (fun _ _ _ taken => mmapPage_touches taken) mapped

/-- So does a round of the loop of `sys_munmap`. -/
theorem munmapPage_touches (unmapped : munmapPage map vaddr s index = .ok after) :
    Touches s after [byteOf map ((vaddr + pageSize * index) % 2 ^ 32 / pageSize)] := by
  simp only [munmapPage, bind_eq_ok] at unmapped
  obtain ⟨one, unlinked, ⟨bit, two⟩, tested, _, _, isSet⟩ := unmapped
  obtain ⟨new, isAfter, members⟩ :=
    (Touches.of_eq (Machine.unlinkUserPage_kept unlinked).touched).trans
      ((bitmapTest_touches tested).trans (bitmapSet_touches isSet))
  exact ⟨new, isAfter, fun access => by simp [members]⟩

theorem munmapPages_touches
    (unmapped : (List.range count).foldlM (munmapPage map vaddr) s = .ok after) :
    Touches s after ((List.range count).map fun index =>
      byteOf map ((vaddr + pageSize * index) % 2 ^ 32 / pageSize)) :=
  .foldlM (fun _ _ _ taken => munmapPage_touches taken) unmapped

/-- The bits of all pages of a call lie in the page of the bitmap. -/
theorem bitsInPage_iff (region : Region map) (above : userMmapAddr ≤ vaddr)
    (bounded : vaddr < 2 ^ 32) (positive : 0 < count) :
    BitsInPage vaddr count ↔ ∀ access ∈ (List.range count).map (fun index =>
      byteOf map ((vaddr + pageSize * index) % 2 ^ 32 / pageSize)), InPage access := by
  constructor
  · intro bits access isAccess
    obtain ⟨index, isIndex, rfl⟩ := List.mem_map.mp isAccess
    exact inPage_byteOf.mpr (bits.inside region (List.mem_range.mp isIndex))
  · intro inside
    have inPage (index : Nat) (isRound : index < count) :=
      inPage_byteOf.mp (inside _ (List.mem_map.mpr ⟨index, List.mem_range.mpr isRound, rfl⟩))
    by_contra beyond
    have first := inPage 0 positive
    -- the first page whose bit lies behind the page of the bitmap
    have last := inPage (userMmapAddr / pageSize + 8 * pageSize - vaddr / pageSize)
    simp only [BitsInPage, region.offset, pageSize, userMmapAddr] at *
    omega

/-- What `sys_mmap` touches before its loop. -/
theorem mmapStart_touches (started : mmapStart s args map = .ok (vaddr, after)) :
    (args.addr ≠ 0 ∧ vaddr = args.addr ∧ Touches s after []) ∨
    (args.addr = 0 ∧ findRun s map (Fs.divRoundUp args.length pageSize) = .ok none ∧
      vaddr = eof * pageSize % 2 ^ 32 ∧ Touches s after []) ∨
    ∃ start, args.addr = 0 ∧
      findRun s map (Fs.divRoundUp args.length pageSize) = .ok (some start) ∧
      vaddr = (start + map.offset) * pageSize % 2 ^ 32 ∧
      Touches s after ((List.range (Fs.divRoundUp args.length pageSize)).map fun index =>
        byteOf map (map.offset + (start + index))) := by
  unfold mmapStart at started
  split at started
  · rename_i isZero
    simp only [bind_eq_ok] at started
    obtain ⟨⟨found, middle⟩, scanned, result⟩ := started
    simp only [bitmapScan, bind_eq_ok] at scanned
    obtain ⟨run, isRun, scanned⟩ := scanned
    cases run with
    | none =>
        cases scanned
        obtain ⟨isStart, isAfter⟩ := Prod.mk.inj (Except.ok.inj result)
        exact .inr (.inl ⟨isZero, isRun, isStart.symm, .of_eq (isAfter ▸ rfl)⟩)
    | some start =>
        simp only [bind_eq_ok] at scanned
        obtain ⟨marked, isMarked, scanned⟩ := scanned
        rw [← Except.ok.inj scanned] at result
        obtain ⟨isStart, isAfter⟩ := Prod.mk.inj (Except.ok.inj result)
        rw [show marked = after from isAfter] at isMarked
        exact .inr (.inr ⟨start, isZero, isRun, isStart.symm,
          .foldlM (fun _ _ _ => bitmapSet_touches) isMarked⟩)
  · rename_i given
    cases started
    exact .inl ⟨given, rfl, .of_eq rfl⟩

/-- What `sys_mmap` touches. -/
theorem sysMmap_touches (present : s.tasks s.current = some task)
    (called : sysMmap s args = .ok (vaddr, after)) :
    args.addr % pageSize = 0 ∧ 0 < args.length ∧ userMmapAddr ≤ vaddr ∧
      ∃ one, mmapStart s args task.vmap = .ok (vaddr, one) ∧
        Touches one after ((List.range (Fs.divRoundUp args.length pageSize)).map fun index =>
          byteOf task.vmap ((vaddr + pageSize * index) % 2 ^ 32 / pageSize)) := by
  simp only [sysMmap, bind_eq_ok, lift_eq_ok, check_eq_ok, Machine.getCurrent_present present,
    Except.ok.injEq] at called
  obtain ⟨_, aligned, _, positive, _, rfl, ⟨start, one⟩, started, _, inside, two, mapped,
    called⟩ := called
  have touches := mmapPages_touches mapped
  split at called
  · cases called
    exact ⟨aligned, positive, inside.1, one, started, touches⟩
  · simp only [bind_eq_ok] at called
    obtain ⟨three, stored, result⟩ := called
    cases result
    have kept := (Machine.kernelStores_kept _ _ _ _).1 _ stored
    obtain ⟨new, isTwo, members⟩ := touches
    exact ⟨aligned, positive, inside.1, one, started, new, kept.touched.trans isTwo, members⟩

/-- `sys_mmap` touches bytes of the page of the bitmap only if it needs no other bits. -/
theorem sysMmap_inPage (region : Region task.vmap) (present : s.tasks s.current = some task)
    (bounded : args.addr < 2 ^ 32) (small : args.length ≤ 2 ^ 32 - pageSize)
    (called : sysMmap s args = .ok (vaddr, after)) :
    (∃ new, after.touched = new ++ s.touched ∧ ∀ access ∈ new, InPage access) ↔
      StaysInPage s (.mmap args) := by
  obtain ⟨aligned, positive, above, one, started, touches⟩ := sysMmap_touches present called
  have some : 0 < Fs.divRoundUp args.length pageSize := by
    rw [Machine.divRoundUp_pageSize positive small]
    change 0 < (args.length + 4095) / 4096
    omega
  dsimp only [StaysInPage]
  rcases mmapStart_touches started with ⟨given, rfl, before⟩ | ⟨isZero, none, isStart, before⟩ |
    ⟨start, isZero, found, isStart, before⟩
  · rw [(before.trans touches).inPage, if_neg given]
    exact (bitsInPage_iff region above bounded some).symm
  · rw [(before.trans touches).inPage, if_pos isZero, isStart]
    constructor
    · intro inside
      have bits := (bitsInPage_iff region (isStart ▸ above) (by decide) some).mpr inside
      have last : eof * pageSize % 2 ^ 32 / pageSize = 2 ^ 20 - 1 := by decide
      rw [BitsInPage, last] at bits
      simp only [pageSize, userMmapAddr] at bits
      omega
    · rintro ⟨other, start, isOther, found, _⟩
      rw [present] at isOther
      cases isOther
      rw [none] at found
      cases found
  · rw [(before.trans touches).inPage, if_pos isZero]
    constructor
    · intro inside
      refine ⟨task, start, present, found, ?_⟩
      have last := inPage_byteOf.mp (inside _ (List.mem_append_left _ (List.mem_map.mpr
        ⟨Fs.divRoundUp args.length pageSize - 1, List.mem_range.mpr (by omega), rfl⟩)))
      simp only [pageSize] at last some ⊢
      omega
    · rintro ⟨other, run, isOther, alsoFound, inside⟩ access isAccess
      rw [present] at isOther
      cases isOther
      rw [found] at alsoFound
      cases alsoFound
      rcases List.mem_append.mp isAccess with inRun | isPage
      · obtain ⟨index, isIndex, rfl⟩ := List.mem_map.mp inRun
        have below := List.mem_range.mp isIndex
        refine inPage_byteOf.mpr ?_
        simp only [pageSize] at below inside ⊢
        omega
      · have bounded : vaddr < 2 ^ 32 := by omega
        refine (bitsInPage_iff region above bounded some).mp ?_ access isPage
        rw [BitsInPage, isStart, region.offset]
        simp only [pageSize, userMmapAddr] at inside ⊢
        omega

/-- `sys_munmap` touches bytes of the page of the bitmap only if it needs no other bits. -/
theorem sysMunmap_inPage (region : Region task.vmap) (present : s.tasks s.current = some task)
    (bounded : vaddr < 2 ^ 32) (positive : 0 < length) (small : length ≤ 2 ^ 32 - pageSize)
    {result : Int} (called : sysMunmap s vaddr length = .ok (result, after)) :
    (∃ new, after.touched = new ++ s.touched ∧ ∀ access ∈ new, InPage access) ↔
      StaysInPage s (.munmap vaddr length) := by
  simp only [sysMunmap, bind_eq_ok, check_eq_ok, Machine.getCurrent_present present,
    Except.ok.injEq] at called
  obtain ⟨_, rfl, _, inside, _, _, middle, unmapped, isAfter⟩ := called
  cases isAfter
  have some : 0 < Fs.divRoundUp length pageSize := by
    rw [Machine.divRoundUp_pageSize positive small]
    change 0 < (length + 4095) / 4096
    omega
  exact (munmapPages_touches unmapped).inPage.trans
    (bitsInPage_iff region inside.1 bounded some).symm

/-! ## Whole calls -/

/-- What the bitmap says about a page. -/
def marked (s : Machine) (map : Bitmap) (page : Nat) : Except Fault Bool :=
  (bitmapTest s map (page / pageSize)).map Prod.fst

theorem marked_eq {page : Nat} (inside : (page / pageSize - map.offset) / 8 < pageSize) :
    marked s map page = map.test s.memory (page / pageSize) := by
  rw [marked, bitmapTest_eq inside, Machine.bitmapTest]
  cases map.test s.memory (page / pageSize) <;> rfl

/-- A call goes through pages of the region, as many as the length needs, and leaves them
mapped or not with their bits accordingly.  The bytes of these bits lie in the page of the
bitmap.  Other pages, the other bits there, the page tables of the kernel and the memory below
the bitmap stay as they are. -/
structure StaysInRegion (s after : Machine) (task : Task) (vaddr length : Nat)
    (value : Bool) : Prop where
  inRegion : ∀ page ∈ pagesFrom vaddr length, InRegion page
  number : (pagesFrom vaddr length).length = (length + (pageSize - 1)) / pageSize
  processed : ∀ page ∈ pagesFrom vaddr length,
    (after.Mapped (task.pde / pageSize) page ↔ value = true) ∧
      marked after task.vmap page = .ok value
  inPage : ∃ new, after.touched = new ++ s.touched ∧ ∀ access ∈ new, InPage access
  others : ∀ page, page % pageSize = 0 → page ∉ pagesFrom vaddr length →
    (page < kernelVaddrOffset →
      after.pageAt (task.pde / pageSize) page = s.pageAt (task.pde / pageSize) page) ∧
    ((page / pageSize - task.vmap.offset) / 8 < pageSize →
      marked after task.vmap page = marked s task.vmap page)
  kernelTables : ∀ table, 1 ≤ table → table ≤ 4 → after.frames table = s.frames table
  memory : ∀ address < 0xC0100000, after.memory address = s.memory address

/-- What has been shown of places and bits, in terms of addresses. -/
theorem stays_of_processed (sound : s.Sound) (present : s.tasks s.current = some task)
    (live : task.Live) (aligned : vaddr % pageSize = 0) (positive : 0 < length)
    (small : length ≤ 2 ^ 32 - pageSize)
    (bits : BitsInPage vaddr (Fs.divRoundUp length pageSize))
    (inPage : ∃ new, after.touched = new ++ s.touched ∧ ∀ access ∈ new, InPage access)
    (processed : Machine.Processed (spacesOf s.tasks) s.current task.vmap value
      (pagesFrom vaddr length) s after)
    (ordered : Machine.Orders (spacesOf s.tasks) s.current (task.pde / pageSize) s after) :
    StaysInRegion s after task vaddr length value := by
  have inUse := sound.inUse present live
  have furnished := sound.furnished _ task present live
  obtain ⟨start, _, isBits⟩ := furnished.bits
  have isAligned : ∀ page ∈ pagesFrom vaddr length, page % pageSize = 0 := by
    intro page isPage
    obtain ⟨index, _, rfl⟩ := List.mem_map.mp isPage
    change vaddr % 4096 = 0 at aligned
    change (vaddr + 4096 * index) % 2 ^ 32 % 4096 = 0
    omega
  have inRegion (page : Nat) (isPage : page ∈ pagesFrom vaddr length) : InRegion page :=
    furnished.region.inside (processed.hasBits page isPage)
  refine ⟨inRegion, ?number, fun page isPage => ⟨?mapped, ?bit⟩, inPage,
    fun page isAlignedPage away => ⟨fun user => ?same, fun inside => ?sameBit⟩,
    fun table above below => ?tables, fun address below => ?below⟩
  case number =>
    rw [Machine.pagesFrom_length]
    exact Machine.divRoundUp_pageSize positive small
  case mapped =>
    rw [Machine.mapped_iff ordered.inUse (inRegion page isPage).user,
      processed.linked page isPage]
  case bit =>
    have inside : (page / pageSize - task.vmap.offset) / 8 < pageSize := by
      obtain ⟨index, isIndex, rfl⟩ := List.mem_map.mp isPage
      exact bits.inside furnished.region (List.mem_range.mp isIndex)
    rw [marked_eq inside, Machine.test_of_hasBit (processed.hasBits page isPage),
      processed.marked page isPage]
  case same =>
    rw [Machine.pageAt_eq ordered.inUse user, Machine.pageAt_eq inUse user]
    refine processed.others _ _ _ fun other isOther samePlace => away ?_
    rw [Machine.aligned_eq isAlignedPage (isAligned other isOther)
      (Machine.page_of_placeOf samePlace)]
    exact isOther
  case sameBit =>
    rw [marked_eq inside, marked_eq inside]
    by_cases hasBit : HasBit task.vmap page
    · rw [Machine.test_of_hasBit hasBit, Machine.test_of_hasBit hasBit, processed.unmarked]
      intro other isOther sameBit
      have otherBit := processed.hasBits other isOther
      refine away ?_
      rw [Machine.aligned_eq isAlignedPage (isAligned other isOther) (by
        have first := hasBit.1
        have second := otherBit.1
        omega)]
      exact isOther
    · rw [Machine.test_of_not_hasBit hasBit, Machine.test_of_not_hasBit hasBit]
  case tables =>
    funext index
    refine ordered.within.frames table index (by change table < 4096; omega) ?_
    rintro other directory limit space rfl
    have known := (sound.tables.apart.known other _ limit space).2.2.1
    omega
  case below =>
    exact processed.outside address (.inl (by omega))

section Mmap

variable {spaces : Spaces} (inUse : s.InUse spaces pid dir userTables)
  (region : Region task.vmap) (present : s.tasks s.current = some task)
  (stays : StaysInPage s (.mmap args)) (small : args.length ≤ 2 ^ 32 - pageSize)

include inUse region present stays

/-- The loop of `sys_mmap` behind its beginning. -/
theorem mmapPages_processed (aligned : args.addr % pageSize = 0) {start : Nat}
    {one two : Machine} (started : mmapStart s args task.vmap = .ok (start, one))
    (mapped : (List.range (Fs.divRoundUp args.length pageSize)).foldlM
      (mmapPage args task.vmap start) one = .ok two) :
    start % pageSize = 0 ∧ BitsInPage start (Fs.divRoundUp args.length pageSize) ∧
      two.InUse spaces pid dir userTables ∧
      Machine.Processed spaces pid task.vmap true (pagesFrom start args.length) s two := by
  obtain ⟨bits, startAligned, memory, touched, rfl, sameBits, outside⟩ :=
    mmapStart_spec region present stays started
  rw [mmapPages_eq bits region] at mapped
  have first : Machine.Serves spaces pid dir s { s with memory := memory, touched := touched } :=
    .of_tasks inUse (fun _ => rfl) (fun _ _ => rfl) memory touched
  obtain ⟨second, processed⟩ := Machine.mmapPages_spec first.inUse region mapped
  exact ⟨startAligned aligned, bits, second.inUse, processed.before rfl sameBits outside⟩

include small

/-- What `sys_mmap` goes through. -/
theorem sysMmap_processed (called : sysMmap s args = .ok (vaddr, after)) :
    vaddr % pageSize = 0 ∧ 0 < args.length ∧
      BitsInPage vaddr (Fs.divRoundUp args.length pageSize) ∧
      Machine.Processed spaces pid task.vmap true (pagesFrom vaddr args.length) s after := by
  simp only [sysMmap, bind_eq_ok, lift_eq_ok, check_eq_ok, Machine.getCurrent_present present,
    Except.ok.injEq] at called
  obtain ⟨_, aligned, _, positive, _, rfl, ⟨start, one⟩, started, _, _, two, mapped, called⟩ :=
    called
  obtain ⟨startAligned, bits, isUsed, whole⟩ :=
    mmapPages_processed inUse region present stays aligned started mapped
  split at called
  · cases called
    exact ⟨startAligned, positive, bits, whole⟩
  · simp only [bind_eq_ok] at called
    obtain ⟨three, stored, result⟩ := called
    cases result
    obtain ⟨_, kept, same⟩ := Machine.kernelStores_same isUsed
      (Machine.isSome_of_processed whole startAligned positive small (Nat.min_le_right _ _)) stored
    exact ⟨startAligned, positive, bits, whole.behind same kept.memory⟩

/-- Such a call does not end the process. -/
theorem sysMmap_survives : Survives (sysMmap s args) := by
  unfold sysMmap
  refine .bind_lift fun _ aligned => .bind_lift fun _ positive => .bind_lift fun other isOther => ?_
  cases (Machine.getCurrent_present present).symm.trans isOther
  rw [check_eq_ok] at aligned positive
  refine .bind_lift fun ⟨start, one⟩ started => .bind_lift fun _ _ => ?_
  refine .bind_lift fun two mapped => ?_
  obtain ⟨startAligned, _, isUsed, whole⟩ :=
    mmapPages_processed inUse region present stays aligned started mapped
  cases args.file with
  | none => exact nofun
  | some file =>
      obtain ⟨three, stored⟩ := Machine.kernelStores_returns isUsed file.2
        (Machine.isSome_of_processed whole startAligned positive small
          (Nat.min_le_right file.1 _))
      dsimp only
      rw [stored]
      exact nofun

end Mmap

/-- A call with a length that wraps goes through no page. -/
theorem small_of_stays (positive : 0 < length) (bounded : length < 2 ^ 32)
    (stays : StaysInRegion s after task vaddr length value) : length ≤ 2 ^ 32 - pageSize := by
  by_contra large
  have number := stays.number
  rw [Machine.pagesFrom_length, Machine.divRoundUp_wraps (Nat.lt_of_not_le large) bounded]
    at number
  change 0 = (length + 4095) / 4096 at number
  omega

/-- In every state that user tasks reach while they need no bits but those in the pages of
their bitmaps, a call of `sys_mmap` or `sys_munmap` that is accepted stays in the region, goes
through as many pages as the length needs and marks them in the page of the bitmap, exactly if
the length can be rounded up to a page and no other bits are needed.  The process goes on
after such a call. -/
theorem staysInRegion_iff_staysInPage
    (reached : (runs fun before => before.Booted ∧ before.current < 2).ReachableWithin
      StaysInPage s)
    (present : s.tasks s.current = some task) (live : task.Live) :
    (∀ args vaddr after, args.addr < 2 ^ 32 → args.length < 2 ^ 32 →
      sysMmap s args = .ok (vaddr, after) →
        (StaysInRegion s after task vaddr args.length true ↔
          args.length ≤ 2 ^ 32 - pageSize ∧ StaysInPage s (.mmap args))) ∧
    (∀ args, args.length ≤ 2 ^ 32 - pageSize → StaysInPage s (.mmap args) →
      Survives (sysMmap s args)) ∧
    ∀ addr length result after, addr < 2 ^ 32 → 0 < length → length < 2 ^ 32 →
      sysMunmap s addr length = .ok (result, after) →
        (StaysInRegion s after task addr length false ↔
          length ≤ 2 ^ 32 - pageSize ∧ StaysInPage s (.munmap addr length)) := by
  obtain ⟨sound, _⟩ := sound_of_reachable reached
  have inUse := sound.inUse present live
  have region := (sound.furnished _ task present live).region
  refine ⟨fun args vaddr after addrBounded bounded called => ⟨fun stays => ?_, fun both => ?_⟩,
    fun args small stays => sysMmap_survives inUse region present stays small,
    fun addr length result after addrBounded positive bounded called =>
      ⟨fun stays => ?_, fun both => ?_⟩⟩
  · obtain ⟨_, positive, _⟩ := sysMmap_touches present called
    have small := small_of_stays positive bounded stays
    exact ⟨small, (sysMmap_inPage region present addrBounded small called).mp stays.inPage⟩
  · obtain ⟨small, stays⟩ := both
    obtain ⟨aligned, positive, bits, processed⟩ :=
      sysMmap_processed inUse region present stays small called
    have served := (sysMmap_serves inUse region present stays).1 after (by rw [called]; rfl)
    exact stays_of_processed sound present live aligned positive small bits
      ((sysMmap_inPage region present addrBounded small called).mpr stays) processed
      served.1.toOrders
  · have small := small_of_stays positive bounded stays
    exact ⟨small,
      (sysMunmap_inPage region present addrBounded positive small called).mp stays.inPage⟩
  · obtain ⟨small, stays⟩ := both
    have inPage :=
      (sysMunmap_inPage region present addrBounded positive small called).mpr stays
    rw [sysMunmap_eq region present stays] at called
    obtain ⟨aligned, processed⟩ :=
      Machine.sysMunmap_processed inUse (Machine.getCurrent_present present) region called
    have ordered := Machine.sysMunmap_orders inUse (fun other isOther => by
      rw [Machine.getCurrent_present present] at isOther
      cases isOther
      exact region) called
    exact stays_of_processed sound present live aligned positive small stays inPage processed
      ordered

/-- The first user task maps two pages. -/
theorem staysInRegion_iff_staysInPage_two : ∃ s after task vaddr,
    StaysInRegion s after task vaddr 5000 true := by
  obtain ⟨s, task, reached, entered, present, live⟩ := fresh_enters
  have returns : (lift (moveToUserMode Machine.fresh 0) >>= fun s =>
      sysMmap s ⟨userMmapAddr, 5000, 0, 0, none⟩).toBool = true := by decide +kernel
  rw [entered, lift, ok_bind] at returns
  obtain ⟨⟨vaddr, after⟩, called⟩ := Machine.exists_of_toBool returns
  have whole := (staysInRegion_iff_staysInPage reached present live).1
    ⟨userMmapAddr, 5000, 0, 0, none⟩ vaddr after (by decide) (by decide) called
  exact ⟨s, after, task, vaddr, whole.mpr ⟨by decide, by
    change userMmapAddr / pageSize + Fs.divRoundUp 5000 pageSize ≤ _
    decide⟩⟩

/-- The first user task unmaps all but the last byte of its addresses, from the first of the
region on. -/
theorem staysInRegion_fails : ¬∀ s task,
    (runs fun before => before.Booted ∧ before.current < 2).Reachable s →
      s.tasks s.current = some task → task.Live →
        ∀ addr length result after, addr < 2 ^ 32 → addr % pageSize = 0 → 0 < length →
          length < 2 ^ 32 → sysMunmap s addr length = .ok (result, after) →
            StaysInRegion s after task addr length false := by
  intro always
  obtain ⟨s, task, reached, _, present, live⟩ := fresh_enters
  have called : sysMunmap s userMmapAddr (2 ^ 32 - 1) = .ok (0, s) := by
    rw [sysMunmap, Machine.getCurrent_present present]
    rfl
  have everywhere := reached.invariant
    (runs fun before => before.Booted ∧ before.current < 2).Reachable
    (fun _ initial => .initial initial) fun _ _ _ before _ taken => before.step trivial taken
  exact absurd (small_of_stays (by decide) (by decide) (always s task everywhere present live _ _ _
    _ (by decide) (by decide) (by decide) (by decide) called)) (by decide)

end Physical

end UserMemory
end LightOS
