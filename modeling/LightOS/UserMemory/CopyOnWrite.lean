import LightOS.UserMemory.Physical

/-!
# Copies of pages that are shared

After `sys_fork` the entries of parent and child lead to the same pages and forbid writing.
The first write to such a page faults, and `page_fault` gives the task a page of its own.  It
does so when two entries lead to the page, and it trips an assertion when there are more.
-/

namespace LightOS
namespace UserMemory

open Sched (taskNr userRing3)

/-- There are slots for pages that are mapped one after another. -/
def KmapPool.HasSlots : KmapPool → List Nat → Prop
  | _, [] => True
  | s, page :: pages =>
      ∃ vaddr after, s.kmap (page * pageSize) = .ok (vaddr, after) ∧ after.HasSlots pages

namespace Machine

variable {s one after : Machine} {spaces : Spaces} {pid other dir vaddr kvaddr table page : Nat}
  {task : Task} {kmap : KmapPool}

/-- An address is mapped, and the entry forbids writing for the time being only. -/
structure WriteProtected (s : Machine) (pde vaddr : Nat) : Prop where
  mapped : s.Mapped pde vaddr
  unwritable : (s.walk pde vaddr).2.write = false
  notShared : (s.walk pde vaddr).2.shared = false
  notReadonly : (s.walk pde vaddr).2.readonly = false

/-- What a directory maps, and the bytes there, stay as they are. -/
def SameMemory (s after : Machine) (pde : Nat) : Prop :=
  ∀ addr < kernelVaddrOffset, (after.Mapped pde addr ↔ s.Mapped pde addr) ∧
    (s.Mapped pde addr → (after.walk pde addr).2 = (s.walk pde addr).2 ∧
      after.frames (s.walk pde addr).2.index = s.frames (s.walk pde addr).2.index)

/-- The task may write to an address, in a page of its own with the bytes from before, and the
other tasks keep what they have. -/
structure Separated (s after : Machine) (pde vaddr : Nat) : Prop where
  mapped : after.Mapped pde vaddr
  writable : (after.walk pde vaddr).2.write = true
  own : after.pages.memMap (after.walk pde vaddr).2.index = 1
  sameBytes : after.frames (after.walk pde vaddr).2.index =
    s.frames (s.walk pde vaddr).2.index
  others : ∀ pid task, pid ≠ s.current → s.tasks pid = some task → task.Live →
    after.tasks pid = some task ∧ SameMemory s after (task.pde / pageSize)

/-- `page_fault` returns after a write, and the write can be made. -/
def Resolves (s : Machine) (pde vaddr : Nat) : Prop :=
  ∃ after, s.pageFault vaddr ⟨true, true⟩ = .ok after ∧ Separated s after pde vaddr

/-- No more than two entries lead to a page.  If there are two, a page is free for the copy,
and in any case `kmap` has slots for the pages that are looked at. -/
def Resolvable (s : Machine) (pde vaddr : Nat) : Prop :=
  let walk := s.walk pde vaddr
  s.pages.memMap walk.2.index = 1 ∧ s.kmap.HasSlots [walk.1.index] ∨
    s.pages.memMap walk.2.index = 2 ∧ ∃ page, s.pages.FirstFree page ∧
      s.kmap.HasSlots [walk.1.index, page, walk.2.index]

theorem page_of_present {entry : Entry} (isPresent : entry.present = true) :
    entry.page = some entry.index :=
  if_pos isPresent

/-- Where the entries of an address that is mapped lead to. -/
theorem Mapped.refers (mapped : s.Mapped dir vaddr)
    (space : spaces pid = some (dir, userTables)) (user : vaddr < kernelVaddrOffset) :
    tableOf s.frames spaces pid (pdeIdx vaddr) = some (s.walk dir vaddr).1.index ∧
      refersIn s.frames spaces (placeOf pid vaddr) = some (s.walk dir vaddr).2.index := by
  have isTable : tableOf s.frames spaces pid (pdeIdx vaddr) =
      some (s.walk dir vaddr).1.index := by
    rw [tableOf_eq space (pdeIdx_lt user)]
    exact page_of_present mapped.1
  refine ⟨isTable, ?_⟩
  rw [refersIn_succ isTable (pteIdx_lt vaddr)]
  exact page_of_present mapped.2

/-- A task whose directory, tables and pages are the same has the same memory. -/
theorem sameMemory_of (space : spaces other = some (dir, userTables))
    (sameDir : after.frames dir = s.frames dir)
    (same : ∀ index position frame,
      refersIn s.frames spaces (other, index, position) = some frame →
        after.frames frame = s.frames frame) : SameMemory s after dir := by
  intro addr user
  have sameTable : (after.walk dir addr).1 = (s.walk dir addr).1 := congrFun sameDir _
  by_cases isPresent : (s.walk dir addr).1.present = true
  · have isTable : tableOf s.frames spaces other (pdeIdx addr) =
        some (s.walk dir addr).1.index := by
      rw [tableOf_eq space (pdeIdx_lt user)]
      exact page_of_present isPresent
    have sameEntry : (after.walk dir addr).2 = (s.walk dir addr).2 := by
      change after.frames (after.walk dir addr).1.index _ = _
      rw [sameTable, same _ 0 _ isTable]
      rfl
    refine ⟨?_, fun mapped => ⟨sameEntry, same _ _ _ (mapped.refers space user).2⟩⟩
    unfold Mapped
    rw [sameTable, sameEntry]
  · refine ⟨⟨fun mapped => ?_, fun mapped => ?_⟩, fun mapped => ?_⟩
    · exact absurd (sameTable ▸ mapped.1) isPresent
    · exact absurd mapped.1 isPresent
    · exact absurd mapped.1 isPresent

/-! ## The calls of `page_fault` -/

theorem getUserPage_eq {pages : PageMaps} {paddr : Nat}
    (got : s.pages.getUserPage = .ok (paddr, pages)) :
    s.getUserPage = .ok (paddr, { s with pages := pages }) := by
  rw [getUserPage, got]
  rfl

theorem map_eq_ok {paddr kvaddr : Nat} : s.map paddr = .ok (kvaddr, one) ↔
    ∃ kmap, s.kmap.kmap paddr = .ok (kvaddr, kmap) ∧ one = { s with kmap := kmap } := by
  simp only [map, bind_eq_ok, pure_eq_ok, Except.ok.injEq, Prod.mk.injEq]
  constructor
  · rintro ⟨⟨found, kmap⟩, isMapped, rfl, rfl⟩
    exact ⟨kmap, isMapped, rfl⟩
  · rintro ⟨kmap, isMapped, rfl⟩
    exact ⟨(kvaddr, kmap), isMapped, rfl, rfl⟩

/-- `get_pte` finds the entry of an address that is mapped. -/
theorem getPte_of_mapped (inUse : s.InUse spaces pid dir userTables)
    (user : vaddr < kernelVaddrOffset) (mapped : s.Mapped dir vaddr)
    (held : s.kmap.kmap ((s.walk dir vaddr).1.index * pageSize) = .ok (kvaddr, kmap)) :
    s.getPte vaddr = .ok ((kvaddr, pteIdx vaddr), { s with kmap := kmap }) ∧
      kmap.Coherent ∧
      ({ s with kmap := kmap } : Machine).PointsTo spaces pid vaddr (kvaddr, pteIdx vaddr)
        (s.walk dir vaddr).1.index ∧
      ({ s with kmap := kmap } : Machine).read (kvaddr, pteIdx vaddr) =
        (s.walk dir vaddr).2 := by
  have got : s.getPte vaddr = .ok ((kvaddr, pteIdx vaddr), { s with kmap := kmap }) := by
    have isPresent : (s.frames dir (pdeIdx vaddr)).present = true := mapped.1
    have isTable : s.map ((s.frames dir (pdeIdx vaddr)).index * pageSize) =
        .ok (kvaddr, { s with kmap := kmap }) := map_eq_ok.mpr ⟨kmap, held, rfl⟩
    simp only [getPte, inUse.isDir, ok_bind, if_pos isPresent, isTable, pure_eq_ok]
  obtain ⟨_, sameKmap, coherent, points⟩ := getPte_present inUse.tables inUse.space inUse.isDir
    (pdeIdx_lt user) (mapped.refers inUse.space user).1 got
  cases sameKmap
  exact ⟨got, coherent, points,
    PointsTo.read_eq (inUse.tables.setKmap coherent).layout points⟩

/-- What `page_fault` does after a write to an address that is mapped and not read-only. -/
theorem pageFault_protected (inUse : s.InUse spaces pid dir userTables)
    (isTask : s.getCurrent = .ok task) (ring : task.uid = userRing3)
    (user : vaddr < kernelVaddrOffset) (isProtected : s.WriteProtected dir vaddr) :
    s.pageFault vaddr ⟨true, true⟩ = .ok after ↔
      ∃ kvaddr kmap, s.kmap.kmap ((s.walk dir vaddr).1.index * pageSize) = .ok (kvaddr, kmap) ∧
        (s.pages.memMap (s.walk dir vaddr).2.index = 1 ∧
            (({ s with kmap := kmap } : Machine).write (kvaddr, pteIdx vaddr)
              { (s.walk dir vaddr).2 with write := true }).unmap kvaddr = .ok after ∨
          s.pages.memMap (s.walk dir vaddr).2.index ≠ 1 ∧ ∃ copied,
            ({ s with kmap := kmap } : Machine).copyOnWrite (kvaddr, pteIdx vaddr) = .ok copied ∧
              copied.unmap kvaddr = .ok after) := by
  obtain ⟨mapped, unwritable, notShared, notReadonly⟩ := isProtected
  obtain ⟨isTable, refersTo⟩ := mapped.refers inUse.space user
  have isUser := inUse.tables.accounts.user _ _ refersTo
  have known : memoryBase / pageSize ≤ (s.walk dir vaddr).2.index :=
    le_trans (by decide) isUser.1
  have counted : s.pages.memMap (s.walk dir vaddr).2.index ≠ 0 := by
    intro none
    refine inUse.tables.accounts.unused isUser ?_ _ refersTo
    rw [PageMaps.references, none]
    rfl
  have low : ¬userStackTop < vaddr := by
    simp only [userStackTop, kernelVaddrOffset] at user ⊢
    omega
  have found (kvaddr : Nat) (kmap : KmapPool)
      (held : s.kmap.kmap ((s.walk dir vaddr).1.index * pageSize) = .ok (kvaddr, kmap)) :
      s.pageFault vaddr ⟨true, true⟩ =
        if s.pages.memMap (s.walk dir vaddr).2.index = 1 then
          lift ((({ s with kmap := kmap } : Machine).write (kvaddr, pteIdx vaddr)
            { (s.walk dir vaddr).2 with write := true }).unmap kvaddr)
        else
          lift (({ s with kmap := kmap } : Machine).copyOnWrite (kvaddr, pteIdx vaddr)) >>=
            fun copied => lift (copied.unmap kvaddr) := by
    obtain ⟨got, _, _, isEntry⟩ := getPte_of_mapped inUse user mapped held
    simp only [pageFault, isTask, lift, ok_bind, check_true ring, if_neg low, if_true,
      got, isEntry, check_true mapped.2, check_true known, check_true counted,
      check_true notShared, notReadonly]
    rfl
  constructor
  · intro faulted
    cases held : s.kmap.kmap ((s.walk dir vaddr).1.index * pageSize) with
    | ok result =>
        obtain ⟨kvaddr, kmap⟩ := result
        rw [found kvaddr kmap held] at faulted
        refine ⟨kvaddr, kmap, rfl, ?_⟩
        split at faulted
        · rename_i once
          exact .inl ⟨once, lift_eq_ok.mp faulted⟩
        · rename_i notOnce
          simp only [bind_eq_ok, lift_eq_ok] at faulted
          exact .inr ⟨notOnce, faulted⟩
    | error fault =>
        have isPresent : (s.frames dir (pdeIdx vaddr)).present = true := mapped.1
        have notHeld : s.kmap.kmap ((s.frames dir (pdeIdx vaddr)).index * pageSize) =
            .error fault := held
        simp only [pageFault, isTask, lift, ok_bind, check_true ring, if_neg low, if_true,
          getPte, inUse.isDir, if_pos isPresent, map, notHeld, error_bind] at faulted
        cases faulted
  · rintro ⟨kvaddr, kmap, held, ⟨once, unmapped⟩ | ⟨notOnce, copied, isCopied, unmapped⟩⟩
    · rw [found kvaddr kmap held, if_pos once, unmapped]
      rfl
    · rw [found kvaddr kmap held, if_neg notOnce, isCopied]
      exact lift_eq_ok.mpr unmapped

/-- The mappings that `kmap` makes can be undone. -/
theorem unmap_of_map {paddr : Nat} {pool : KmapPool}
    (held : pool.kmap paddr = .ok (kvaddr, kmap)) (s : Machine) :
    ∃ final, s.unmap kvaddr = .ok final ∧ final.frames = s.frames ∧ final.pages = s.pages ∧
      final.tasks = s.tasks := by
  obtain ⟨slot, inPool, rfl, _⟩ := KmapPool.kmap_spec held
  obtain ⟨kmap, unmapped⟩ := s.kmap.kunmap_returns inPool
  refine ⟨{ s with kmap := kmap }, ?_, rfl, rfl, rfl⟩
  simp only [unmap, unmapped, ok_bind, pure_eq_ok]

/-- When `page_fault` copies a page that two entries lead to. -/
theorem copyOnWrite_returns (tables : Tables s spaces) {entry : EntryPointer}
    (points : s.PointsTo spaces pid vaddr entry table) :
    (∃ after, s.copyOnWrite entry = .ok after) ↔
      s.pages.memMap (s.read entry).index = 2 ∧ ∃ page, s.pages.FirstFree page ∧
        s.kmap.HasSlots [page, (s.read entry).index] := by
  have sameFirst (page : Nat) (two : s.pages.memMap (s.read entry).index = 2) :
      (s.pages.setCount (s.read entry).index
        (s.pages.memMap (s.read entry).index - 1)).FirstFree page ↔ s.pages.FirstFree page :=
    PageMaps.firstFree_setCount (by rw [two]; decide) (by rw [two]; decide)
  have sameEntry (kmap : KmapPool) (kvaddr page : Nat) (pages : PageMaps) (small : page < 2 ^ 20)
      (isMapped : s.kmap.kmap (page * pageSize) = .ok (kvaddr, kmap)) :
      ({ s with kmap := kmap, pages := pages } : Machine).read entry = s.read entry := by
    obtain ⟨coherent, _, _, kept⟩ := tables.coherent.kmap small isMapped
    unfold read frameAt
    dsimp only
    rw [coherent.index_eq (kept _ _ points.holds), tables.coherent.index_eq points.holds]
  constructor
  · rintro ⟨after, copied⟩
    simp only [copyOnWrite, bind_eq_ok, check_eq_ok] at copied
    obtain ⟨_, two, ⟨paddr, one⟩, got, ⟨newVaddr, next⟩, newMapped, ⟨oldVaddr, last⟩, oldMapped,
      _⟩ := copied
    simp only [getUserPage, bind_eq_ok] at got
    obtain ⟨⟨found, pages⟩, isGot, result⟩ := got
    cases result
    obtain ⟨page, isFirst, rfl⟩ := PageMaps.firstFree_of_getUserPage isGot
    rw [sameFirst page two] at isFirst
    have small : page < 2 ^ 20 := lt_of_lt_of_le isFirst.below tables.bounded
    obtain ⟨kmap, newHeld, rfl⟩ := map_eq_ok.mp newMapped
    dsimp only at newHeld oldMapped
    rw [sameEntry kmap newVaddr page pages small newHeld] at oldMapped
    obtain ⟨final, oldHeld, _⟩ := map_eq_ok.mp oldMapped
    exact ⟨two, page, isFirst, newVaddr, kmap, newHeld, oldVaddr, final, oldHeld, trivial⟩
  · rintro ⟨two, page, isFirst, newVaddr, kmap, newHeld, oldVaddr, final, oldHeld, _⟩
    have small : page < 2 ^ 20 := lt_of_lt_of_le isFirst.below tables.bounded
    have got := ((sameFirst page two).mpr isFirst).getUserPage
    generalize (PageMaps.setCount _ page 1).dropFree = pages at got
    have newMapped : ({ s with pages := pages } : Machine).map (page * pageSize) =
        .ok (newVaddr, { s with pages := pages, kmap := kmap }) :=
      map_eq_ok.mpr ⟨kmap, newHeld, rfl⟩
    have oldMapped : ({ s with pages := pages, kmap := kmap } : Machine).map
        ((s.read entry).index * pageSize) =
          .ok (oldVaddr, { s with pages := pages, kmap := final }) :=
      map_eq_ok.mpr ⟨final, oldHeld, rfl⟩
    rw [← sameEntry kmap newVaddr page pages small newHeld] at oldMapped
    simp only [copyOnWrite, bind_eq_ok, check_eq_ok]
    exact ⟨_, (), two, _, getUserPage_eq got, _, newMapped, _, oldMapped, rfl⟩

/-! ## The outcome -/

/-- The entry of an address gets a word, and pages that nothing refers to get new bytes. -/
theorem separated_of (inUse : s.InUse (spacesOf s.tasks) s.current dir userTables)
    (user : vaddr < kernelVaddrOffset) (mapped : s.Mapped dir vaddr)
    {frames : Nat → Nat → Entry} {word : Entry}
    (isFrames : after.frames = writeAt frames (s.walk dir vaddr).1.index (pteIdx vaddr) word)
    (unused : ∀ frame, frames frame ≠ s.frames frame → UserPage s.pages frame ∧
      ∀ place, refersIn s.frames (spacesOf s.tasks) place ≠ some frame)
    (sameTasks : after.tasks = s.tasks) (isPresent : word.present = true)
    (isWritable : word.write = true) (once : after.pages.memMap word.index = 1)
    (apart : word.index ≠ (s.walk dir vaddr).1.index)
    (sameBytes : frames word.index = s.frames (s.walk dir vaddr).2.index) :
    Separated s after dir vaddr := by
  obtain ⟨isTable, _⟩ := mapped.refers inUse.space user
  have isUser := inUse.tables.accounts.user _ _ (refersIn_zero.trans isTable)
  have sameDir (other : Nat) {directory limit : Nat}
      (space : spacesOf s.tasks other = some (directory, limit)) :
      after.frames directory = s.frames directory := by
    have notTable := inUse.tables.notDir isUser _ _ _ space
    rw [isFrames, writeAt_frame notTable]
    by_contra changed
    exact inUse.tables.notDir (unused directory changed).1 _ _ _ space rfl
  have sameTable : (after.walk dir vaddr).1 = (s.walk dir vaddr).1 :=
    congrFun (sameDir _ inUse.space) _
  have isWord : (after.walk dir vaddr).2 = word := by
    change after.frames (after.walk dir vaddr).1.index _ = word
    rw [sameTable, isFrames]
    exact writeAt_same _ _ _
  refine ⟨⟨?_, ?_⟩, ?_, ?_, ?_, fun other task away present live => ⟨?_, ?_⟩⟩
  · rw [sameTable]
    exact mapped.1
  · rw [isWord]
    exact isPresent
  · rw [isWord]
    exact isWritable
  · rw [isWord]
    exact once
  · rw [isWord, isFrames, writeAt_frame apart]
    exact sameBytes
  · rw [sameTasks]
    exact present
  · have space := spacesOf_live present live
    refine sameMemory_of space (sameDir _ space) fun index position frame refersTo => ?_
    have notTable : frame ≠ (s.walk dir vaddr).1.index := by
      rintro rfl
      have samePlace := inUse.tables.accounts.sole _ _ _ _ (refersIn_zero.trans isTable) refersTo
      cases samePlace
      exact away rfl
    rw [isFrames, writeAt_frame notTable]
    by_contra changed
    exact (unused frame changed).2 _ refersTo

/-- A page that one entry leads to stays in its place. -/
theorem separated_of_once (inUse : s.InUse (spacesOf s.tasks) s.current dir userTables)
    (user : vaddr < kernelVaddrOffset) (mapped : s.Mapped dir vaddr)
    (once : s.pages.memMap (s.walk dir vaddr).2.index = 1)
    (isFrames : after.frames = writeAt s.frames (s.walk dir vaddr).1.index (pteIdx vaddr)
      { (s.walk dir vaddr).2 with write := true })
    (sameTasks : after.tasks = s.tasks) (samePages : after.pages = s.pages) :
    Separated s after dir vaddr := by
  obtain ⟨isTable, refersTo⟩ := mapped.refers inUse.space user
  refine separated_of inUse user mapped isFrames (fun frame changed => absurd rfl changed)
    sameTasks mapped.2 rfl ?_ (fun same => ?_) rfl
  · rw [samePages]
    exact once
  · have samePlace := inUse.tables.accounts.sole _ _ _ _ (refersIn_zero.trans isTable)
      (refersTo.trans (congrArg some same))
    cases samePlace

/-- A page that two entries lead to is copied to a page of its own. -/
theorem separated_of_copy (inUse : s.InUse (spacesOf s.tasks) s.current dir userTables)
    (user : vaddr < kernelVaddrOffset) (mapped : s.Mapped dir vaddr)
    (isUser : UserPage s.pages page)
    (unused : ∀ place, refersIn s.frames (spacesOf s.tasks) place ≠ some page)
    (isFrames : after.frames = writeAt
      (Function.update s.frames page (s.frames (s.walk dir vaddr).2.index))
        (s.walk dir vaddr).1.index (pteIdx vaddr) (userEntry (page * pageSize)))
    (sameTasks : after.tasks = s.tasks) (once : after.pages.references page = 1) :
    Separated s after dir vaddr := by
  obtain ⟨isTable, _⟩ := mapped.refers inUse.space user
  have isIndex : (userEntry (page * pageSize)).index = page :=
    Option.some.inj ((page_of_present rfl).symm.trans
      (userEntry_page (lt_of_lt_of_le isUser.2 inUse.tables.bounded)))
  refine separated_of inUse user mapped isFrames (fun frame changed => ?_) sameTasks rfl rfl ?_
    ?_ ?_
  · have isPage : frame = page := by
      by_contra other
      exact changed (Function.update_of_ne other _ _)
    subst isPage
    exact ⟨isUser, unused⟩
  · rw [isIndex]
    exact UInt8.toNat_inj.mp once
  · rw [isIndex]
    rintro rfl
    exact unused _ (refersIn_zero.trans isTable)
  · rw [isIndex, Function.update_self]

/-- A write to a page that is shared by `sys_fork` is resolved by `page_fault` exactly if two
entries at the most lead to the page, there is a page for the copy, and `kmap` has slots.  The
runs are those in which `sys_mmap` and `sys_munmap` stay within the pages of the bitmaps. -/
theorem resolves_iff_resolvable
    (reached : (Physical.runs fun before => before.Booted ∧ before.current < 2).ReachableWithin
      Physical.StaysInPage s)
    (present : s.tasks s.current = some task) (live : task.Live)
    (user : vaddr < kernelVaddrOffset)
    (isProtected : s.WriteProtected (task.pde / pageSize) vaddr) :
    s.Resolves (task.pde / pageSize) vaddr ↔ s.Resolvable (task.pde / pageSize) vaddr := by
  obtain ⟨sound, _⟩ := Physical.sound_of_reachable reached
  have inUse := sound.inUse present live
  have isTask := getCurrent_present present
  have mapped := isProtected.mapped
  have returns {after : Machine} := @pageFault_protected _ after _ _ _ _ _ inUse isTask live.1
    user isProtected
  constructor
  · rintro ⟨after, faulted, _⟩
    obtain ⟨kvaddr, kmap, held, ⟨once, _⟩ | ⟨_, copied, isCopied, _⟩⟩ := returns.mp faulted
    · exact .inl ⟨once, kvaddr, kmap, held, trivial⟩
    · obtain ⟨_, coherent, points, isEntry⟩ := getPte_of_mapped inUse user mapped held
      have found := (copyOnWrite_returns (inUse.tables.setKmap coherent) points).mp
        ⟨copied, isCopied⟩
      rw [isEntry] at found
      obtain ⟨two, page, isFirst, hasSlots⟩ := found
      exact .inr ⟨two, page, isFirst, kvaddr, kmap, held, hasSlots⟩
  · rintro (⟨once, kvaddr, kmap, held, _⟩ | ⟨two, page, isFirst, kvaddr, kmap, held, hasSlots⟩)
    · obtain ⟨_, coherent, points, _⟩ := getPte_of_mapped inUse user mapped held
      obtain ⟨after, unmapped, sameFrames, samePages, sameTasks⟩ := unmap_of_map held
        (({ s with kmap := kmap } : Machine).write (kvaddr, pteIdx vaddr)
          { (s.walk (task.pde / pageSize) vaddr).2 with write := true })
      refine ⟨after, returns.mpr ⟨kvaddr, kmap, held, .inl ⟨once, unmapped⟩⟩,
        separated_of_once inUse user mapped once ?_ sameTasks samePages⟩
      rw [sameFrames, PointsTo.write_eq (inUse.tables.setKmap coherent).layout points]
    · obtain ⟨_, coherent, points, isEntry⟩ := getPte_of_mapped inUse user mapped held
      have tables := inUse.tables.setKmap coherent
      have notOnce : s.pages.memMap (s.walk (task.pde / pageSize) vaddr).2.index ≠ 1 := by
        rw [two]
        decide
      obtain ⟨copied, isCopied⟩ := (copyOnWrite_returns tables points).mpr (by
        rw [isEntry]
        exact ⟨two, page, isFirst, hasSlots⟩)
      obtain ⟨after, unmapped, sameFrames, samePages, sameTasks⟩ := unmap_of_map held copied
      refine ⟨after, returns.mpr ⟨kvaddr, kmap, held, .inr ⟨notOnce, copied, isCopied, unmapped⟩⟩,
        ?_⟩
      obtain ⟨new, pages, pool, rfl, isUser, unused, once, _⟩ := copyOnWrite_spec tables points
        (by rw [isEntry]; exact mapped.2) isCopied
      rw [isEntry] at sameFrames
      exact separated_of_copy inUse user mapped isUser unused sameFrames sameTasks
        (by rw [samePages]; exact once)

/-! ## Forks of the first user task -/

/-- The current task, if it is a user task that may not write to its page of the stack. -/
def sharingTask (s : Machine) : Except Fault Task := do
  let task ← s.getCurrent
  let entry := (s.walk (task.pde / pageSize) stackPage).2
  check (task.uid = userRing3 ∧ task.dead = false)
  check (s.Mapped (task.pde / pageSize) stackPage)
  check (entry.write = false ∧ entry.shared = false ∧ entry.readonly = false)
  return task

theorem sharingTask_spec (isTask : s.sharingTask = .ok task) :
    s.tasks s.current = some task ∧ task.Live ∧
      s.WriteProtected (task.pde / pageSize) stackPage := by
  simp only [sharingTask, bind_eq_ok, check_eq_ok] at isTask
  obtain ⟨_, isTask, _, live, _, mapped, _, ⟨unwritable, notShared, notReadonly⟩, result⟩ := isTask
  cases result
  exact ⟨present_of_getCurrent isTask, live, mapped, unwritable, notShared, notReadonly⟩

/-- `shareEntry` with the page of the table at hand. -/
theorem shareEntry_eq : shareEntry = fun table s index => do
    let entry := s.frames (s.frameAt table) index
    if entry.present then
      let s := if entry.shared then s else s.write (table, index) { entry with write := false }
      let s := { s with pages := s.pages.setCount entry.index (s.pages.memMap entry.index + 1) }
      check (s.pages.memMap entry.index < 255)
      return s
    else
      return s := rfl

/-- The first user task writes to its stack and forks.  A write to the stack can be resolved
then.  The task forks once more, and the next write trips an assertion. -/
theorem forks_share : ∃ s after task later,
    (Physical.runs fun before => before.Booted ∧ before.current < 2).ReachableWithin
      Physical.StaysInPage s ∧
      s.sharingTask = .ok task ∧ s.Resolvable (task.pde / pageSize) stackPage ∧
      (Physical.runs fun before => before.Booted ∧ before.current < 2).ReachableWithin
        Physical.StaysInPage after ∧
        after.sharingTask = .ok later ∧
          (after.pageFault stackPage ⟨true, true⟩).toBool = false := by
  obtain ⟨first, _, reached, entered, _⟩ := Physical.fresh_enters
  have computed : (Physical.moveToUserMode fresh 0 >>= fun first => do
      let s ← [.access stackPage (some .zero), .fork 0].foldlM Physical.take first
      let task ← s.sharingTask
      let walk := s.walk (task.pde / pageSize) stackPage
      check (s.pages.memMap walk.2.index = 2)
      let got ← s.pages.getUserPage
      let one ← s.kmap.kmap (walk.1.index * pageSize)
      let copy ← one.2.kmap got.1
      let _ ← copy.2.kmap (walk.2.index * pageSize)
      let after ← [.fork 0].foldlM Physical.take s
      let _ ← after.sharingTask
      check ((after.pageFault stackPage ⟨true, true⟩).toBool = false)).toBool = true := by
    delta Physical.take Physical.next next sysFork copyPte copyTable
    rw [shareEntry_eq]
    decide +kernel
  rw [entered, ok_bind] at computed
  obtain ⟨_, ran⟩ := exists_of_toBool computed
  simp only [bind_eq_ok, check_eq_ok] at ran
  obtain ⟨s, taken, task, isTask, _, two, _, got, _, one, _, copy, _, old, after, forked, later,
    isLater, stops⟩ := ran
  obtain ⟨page, isFirst, isPage⟩ := PageMaps.firstFree_of_getUserPage got
  rw [isPage] at copy
  have shared := Physical.reachable_of_take reached (by simp [Physical.StaysInPage]) taken
  exact ⟨s, after, task, later, shared, isTask,
    .inr ⟨two, page, isFirst, _, _, one, _, _, copy, _, _, old, trivial⟩,
    Physical.reachable_of_take shared (by simp [Physical.StaysInPage]) forked, isLater, stops⟩

/-- The first user task has a page of its stack and forks. -/
theorem resolves_iff_resolvable_forked : ∃ (s : Machine) (task : Task),
    s.Resolves (task.pde / pageSize) stackPage := by
  obtain ⟨s, _, task, _, reached, isTask, resolvable, _⟩ := forks_share
  obtain ⟨present, live, isProtected⟩ := sharingTask_spec isTask
  exact ⟨s, task,
    (resolves_iff_resolvable reached present live (by decide) isProtected).mpr resolvable⟩

/-- The first user task has a page of its stack and forks twice. -/
theorem writeResolves_fails : ¬∀ (s : Machine) (task : Task) (vaddr : Nat),
    (Physical.runs fun before => before.Booted ∧ before.current < 2).ReachableWithin
      Physical.StaysInPage s →
      s.tasks s.current = some task → task.Live → vaddr < kernelVaddrOffset →
        s.WriteProtected (task.pde / pageSize) vaddr →
          s.Resolves (task.pde / pageSize) vaddr := by
  intro always
  obtain ⟨_, s, _, task, _, _, _, reached, isTask, stops⟩ := forks_share
  obtain ⟨present, live, isProtected⟩ := sharingTask_spec isTask
  obtain ⟨after, faulted, _⟩ := always s task stackPage reached present live (by decide) isProtected
  rw [faulted] at stops
  cases stops

end Machine

end UserMemory
end LightOS
