import LightOS.UserMemory.Accounts

/-!
# Page tables in order

What the functions of `memory.c` that work on the tables of the current task do to the
references of places, and that they keep the accounts in order.
-/

namespace LightOS
namespace UserMemory

/-- The directories and the tables are in order. -/
structure Layout (s : Machine) (spaces : Spaces) : Prop where
  apart : Apart spaces
  exclusive : Exclusive (refersIn s.frames spaces) s.pages
  coherent : s.kmap.Coherent
  bounded : s.pages.totalPages ≤ 2 ^ 20

/-- The directories and the tables are in order, and so are the accounts of user pages. -/
structure Tables (s : Machine) (spaces : Spaces) : Prop where
  apart : Apart spaces
  accounts : Accounts (refersIn s.frames spaces) s.pages
  coherent : s.kmap.Coherent
  bounded : s.pages.totalPages ≤ 2 ^ 20

theorem Tables.layout {s : Machine} {spaces : Spaces} (tables : Tables s spaces) :
    Layout s spaces :=
  ⟨tables.apart, tables.accounts.toExclusive, tables.coherent, tables.bounded⟩

/-- What a task holds, apart from the addresses of its program. -/
def Task.core (task : Task) : Nat × Bool × Nat × Nat × Bitmap :=
  (task.uid, task.dead, task.page, task.pde, task.vmap)

/-- A call changes user pages, their accounts, the directories of tasks and the addresses of
programs only. -/
structure Within (spaces : Spaces) (s after : Machine) : Prop where
  tasks : ∀ pid, (after.tasks pid).map Task.core = (s.tasks pid).map Task.core
  others : ∀ pid, pid ≠ s.current → after.tasks pid = s.tasks pid
  current : after.current = s.current
  totalPages : after.pages.totalPages = s.pages.totalPages
  kernelBits : after.pages.kernelBits = s.pages.kernelBits
  counts : ∀ frame, frame < kernelMemSize / pageSize →
    after.pages.memMap frame = s.pages.memMap frame
  frames : ∀ frame index, frame < kernelMemSize / pageSize →
    (∀ pid dir limit, spaces pid = some (dir, limit) → frame = dir → userTables ≤ index) →
      after.frames frame index = s.frames frame index

namespace Within

variable {spaces : Spaces} {s middle after : Machine}

theorem refl (s : Machine) : Within spaces s s :=
  ⟨fun _ => rfl, fun _ _ => rfl, rfl, rfl, rfl, fun _ _ => rfl, fun _ _ _ _ => rfl⟩

theorem trans (first : Within spaces s middle) (second : Within spaces middle after) :
    Within spaces s after :=
  ⟨fun pid => (second.tasks pid).trans (first.tasks pid),
    fun pid other => (second.others pid (first.current ▸ other)).trans (first.others pid other),
    second.current.trans first.current,
    second.totalPages.trans first.totalPages, second.kernelBits.trans first.kernelBits,
    fun frame below => (second.counts frame below).trans (first.counts frame below),
    fun frame index below isKernel =>
      (second.frames frame index below isKernel).trans (first.frames frame index below isKernel)⟩

/-- Only words of user pages are written. -/
theorem of_frames {frames : Nat → Nat → Entry}
    (same : ∀ frame index, frame < kernelMemSize / pageSize →
      (∀ pid dir limit, spaces pid = some (dir, limit) → frame = dir → userTables ≤ index) →
        frames frame index = s.frames frame index) :
    Within spaces s { s with frames := frames } :=
  ⟨fun _ => rfl, fun _ _ => rfl, rfl, rfl, rfl, fun _ _ => rfl, same⟩

theorem of_kmap (s : Machine) (kmap : KmapPool) : Within spaces s { s with kmap := kmap } :=
  ⟨fun _ => rfl, fun _ _ => rfl, rfl, rfl, rfl, fun _ _ => rfl, fun _ _ _ _ => rfl⟩

end Within

namespace Tables

variable {s after : Machine} {spaces : Spaces} {pid dir limit index position table page : Nat}

theorem setKmap (tables : Tables s spaces) {kmap : KmapPool} (coherent : kmap.Coherent) :
    Tables { s with kmap := kmap } spaces :=
  ⟨tables.apart, tables.accounts, coherent, tables.bounded⟩

theorem page_lt (tables : Tables s spaces) {place : Place}
    (refersTo : refersIn s.frames spaces place = some page) : page < 2 ^ 20 :=
  lt_of_lt_of_le (tables.accounts.user place page refersTo).2 tables.bounded

/-- The directory of a task holds no user page. -/
theorem notDir (tables : Tables s spaces) (user : UserPage s.pages page)
    (pid dir limit : Nat) (space : spaces pid = some (dir, limit)) : dir ≠ page := by
  have below := (tables.apart.known pid dir limit space).2.2.2
  have above := user.1
  simp only [kernelMemSize, pageSize] at above
  omega

end Tables

namespace Machine

variable {s after : Machine} {spaces : Spaces} {pid dir limit vaddr paddr page table : Nat}
  {entry : EntryPointer}

/-- A user page that is mapped is accessible at its address. -/
theorem map_spec (mapped : s.map (page * pageSize) = .ok (vaddr, after))
    (isCoherent : s.kmap.Coherent) (small : page < 2 ^ 20) :
    ∃ kmap, after = { s with kmap := kmap } ∧ kmap.Coherent ∧ kmap.Holds vaddr page ∧
      ∀ other held, s.kmap.Holds other held → kmap.Holds other held := by
  simp only [map, bind_eq_ok] at mapped
  obtain ⟨⟨found, kmap⟩, isMapped, result⟩ := mapped
  cases result
  obtain ⟨coherent, holds, _, kept⟩ := isCoherent.kmap small isMapped
  exact ⟨kmap, rfl, coherent, holds, kept⟩

theorem unmap_spec (unmapped : s.unmap vaddr = .ok after) (isCoherent : s.kmap.Coherent) :
    ∃ kmap, after = { s with kmap := kmap } ∧ kmap.Coherent ∧
      ∀ other held, other ≠ vaddr → s.kmap.Holds other held → kmap.Holds other held := by
  simp only [unmap, bind_eq_ok] at unmapped
  obtain ⟨kmap, isUnmapped, result⟩ := unmapped
  cases result
  obtain ⟨coherent, kept⟩ := isCoherent.kunmap isUnmapped
  exact ⟨kmap, rfl, coherent, kept⟩

/-- `get_user_page` gives a page without references. -/
theorem getUserPage_spec (got : s.getUserPage = .ok (paddr, after)) :
    ∃ page pages, after = { s with pages := pages } ∧ paddr = page * pageSize ∧
      UserPage s.pages page ∧ s.pages.references page = 0 ∧
      pages.totalPages = s.pages.totalPages ∧ pages.kernelBits = s.pages.kernelBits ∧
      (∀ frame, frame ≠ page → pages.memMap frame = s.pages.memMap frame) ∧
      ∀ other, pages.references other =
        s.pages.references other + if page = other then 1 else 0 := by
  simp only [getUserPage, bind_eq_ok] at got
  obtain ⟨⟨found, pages⟩, isGot, result⟩ := got
  cases result
  obtain ⟨page, above, below, isFound, free, rfl⟩ := PageMaps.getUserPage_spec isGot
  have none : s.pages.references page = 0 := by
    unfold PageMaps.references
    rw [free]
    rfl
  refine ⟨page, _, rfl, isFound, ⟨above, below⟩, none, rfl, ?_, fun frame other => ?_,
    fun other => ?_⟩
  · rw [PageMaps.dropFree_kernelBits, PageMaps.setCount_kernelBits]
  · rw [PageMaps.dropFree_memMap, PageMaps.setCount_memMap, if_neg other]
  · change ((s.pages.setCount page 1).references other) = _
    rw [PageMaps.references_setCount]
    by_cases same : page = other
    · rw [← same, if_pos rfl, if_pos rfl, none]
      rfl
    · rw [if_neg (Ne.symm same), if_neg same, Nat.add_zero]

/-- `put_user_page` counts one reference less. -/
theorem putUserPage_spec (put : s.putUserPage (page * pageSize) = .ok after) :
    ∃ pages, after = { s with pages := pages } ∧ UserPage s.pages page ∧
      pages.totalPages = s.pages.totalPages ∧ pages.kernelBits = s.pages.kernelBits ∧
      (∀ frame, frame ≠ page → pages.memMap frame = s.pages.memMap frame) ∧
      ∀ other, s.pages.references other =
        pages.references other + if page = other then 1 else 0 := by
  simp only [putUserPage, bind_eq_ok] at put
  obtain ⟨pages, isPut, result⟩ := put
  cases result
  obtain ⟨user, counted, bits, total, counts⟩ := PageMaps.putUserPage_spec isPut
  refine ⟨pages, rfl, user, total, bits, fun frame other => ?_, fun other => ?_⟩
  · rw [counts, if_neg other]
  · unfold PageMaps.references
    rw [counts]
    by_cases same : page = other
    · rw [if_pos same.symm, if_pos same, ← same]
      exact PageMaps.toNat_sub_one counted
    · rw [if_neg (Ne.symm same), if_neg same, Nat.add_zero]

@[simp] theorem userEntry_page (small : page < 2 ^ 20) :
    (userEntry (page * pageSize)).page = some page := by
  have index : page * pageSize / pageSize = page := Nat.mul_div_cancel _ (by decide)
  simp only [userEntry, Entry.init, Entry.page, index, Nat.mod_eq_of_lt small, if_true]

theorem zero_page : Entry.zero.page = none := rfl

@[simp] theorem read_write (s : Machine) (entry : EntryPointer) (word : Entry) :
    (s.write entry word).read entry = word :=
  if_pos ⟨rfl, rfl⟩

/-- A pointer leads to the entry of an address, in the table of a task. -/
structure PointsTo (s : Machine) (spaces : Spaces) (pid vaddr : Nat) (entry : EntryPointer)
    (table : Nat) : Prop where
  isTable : tableOf s.frames spaces pid (pdeIdx vaddr) = some table
  holds : s.kmap.Holds entry.1 table
  position : entry.2 = pteIdx vaddr

/-- The place of an address of a task. -/
abbrev placeOf (pid vaddr : Nat) : Place :=
  (pid, pdeIdx vaddr, pteIdx vaddr + 1)

/-- No other address of any task is mapped in another way than before. -/
def SameBut (spaces : Spaces) (s after : Machine) (place : Place) : Prop :=
  ∀ pid index position, (pid, index, position + 1) ≠ place →
    refersIn after.frames spaces (pid, index, position + 1) =
      refersIn s.frames spaces (pid, index, position + 1)

theorem pteIdx_lt (vaddr : Nat) : pteIdx vaddr < entryNr :=
  Nat.mod_lt _ (by decide)

namespace PointsTo

variable (layout : Layout s spaces) (points : s.PointsTo spaces pid vaddr entry table)

include layout points

theorem frameAt_eq : s.frameAt entry.1 = table :=
  layout.coherent.index_eq points.holds

theorem read_eq : s.read entry = s.frames table (pteIdx vaddr) := by
  rw [read, frameAt_eq layout points, points.position]

theorem read_page : (s.read entry).page = refersIn s.frames spaces (placeOf pid vaddr) := by
  rw [read_eq layout points, refersIn_succ points.isTable (pteIdx_lt vaddr)]

theorem write_eq (word : Entry) :
    s.write entry word = { s with frames := writeAt s.frames table (pteIdx vaddr) word } := by
  rw [write, frameAt_eq layout points, points.position]
  rfl

/-- Writing an entry changes what one place refers to. -/
theorem refersIn_write (word : Entry) :
    refersIn (s.write entry word).frames spaces =
      Function.update (refersIn s.frames spaces) (placeOf pid vaddr) word.page := by
  rw [write_eq layout points]
  exact Exclusive.refersIn_writeAt layout.apart layout.exclusive points.isTable
    (pteIdx_lt vaddr) word

theorem within_write (word : Entry) : Within spaces s (s.write entry word) := by
  rw [write_eq layout points]
  refine .of_frames fun frame index below _ => ?_
  have user := (layout.exclusive.user _ _ (refersIn_zero.trans points.isTable)).1
  rw [writeAt_frame (by omega)]

end PointsTo

/-- `get_pte` for an address whose table exists. -/
theorem getPte_present (tables : Tables s spaces) (space : spaces pid = some (dir, limit))
    (isDir : s.getPde = .ok dir) (inOrder : pdeIdx vaddr < limit)
    (isTable : tableOf s.frames spaces pid (pdeIdx vaddr) = some table)
    (got : s.getPte vaddr = .ok (entry, after)) :
    ∃ kmap, after = { s with kmap := kmap } ∧ kmap.Coherent ∧
      after.PointsTo spaces pid vaddr entry table := by
  have small := tables.page_lt (refersIn_zero.trans isTable)
  have isPage : tableOf s.frames spaces pid (pdeIdx vaddr) = (s.frames dir (pdeIdx vaddr)).page :=
    tableOf_eq space inOrder
  rw [isTable, Entry.page] at isPage
  have isPresent : (s.frames dir (pdeIdx vaddr)).present = true := by
    by_contra absent
    rw [if_neg absent] at isPage
    cases isPage
  rw [if_pos isPresent, Option.some.injEq] at isPage
  simp only [getPte, isDir, ok_bind, if_pos isPresent, ← isPage, bind_eq_ok] at got
  obtain ⟨⟨kvaddr, middle⟩, mapped, result⟩ := got
  cases result
  obtain ⟨kmap, rfl, coherent, holds, _⟩ := map_spec mapped tables.coherent small
  exact ⟨kmap, rfl, coherent, isTable, holds, rfl⟩

/-- `get_pte` finds the entry of an address, and makes its table when there is none. -/
theorem getPte_spec (tables : Tables s spaces) (space : spaces pid = some (dir, limit))
    (isDir : s.getPde = .ok dir) (inOrder : pdeIdx vaddr < limit)
    (got : s.getPte vaddr = .ok (entry, after)) :
    ∃ table, Tables after spaces ∧ Within spaces s after ∧
      after.PointsTo spaces pid vaddr entry table ∧
      ∀ pid index position, refersIn after.frames spaces (pid, index, position + 1) =
        refersIn s.frames spaces (pid, index, position + 1) := by
  cases isTable : tableOf s.frames spaces pid (pdeIdx vaddr) with
  | some table =>
      obtain ⟨kmap, rfl, coherent, points⟩ := getPte_present tables space isDir inOrder isTable got
      exact ⟨table, tables.setKmap coherent, .of_kmap s kmap, points, fun _ _ _ => rfl⟩
  | none =>
      have isPage : tableOf s.frames spaces pid (pdeIdx vaddr) =
          (s.frames dir (pdeIdx vaddr)).page := tableOf_eq space inOrder
      rw [isTable, Entry.page] at isPage
      have absent : ¬(s.frames dir (pdeIdx vaddr)).present = true := by
        intro isPresent
        rw [if_pos isPresent] at isPage
        cases isPage
      simp only [getPte, isDir, ok_bind, if_neg absent, bind_eq_ok] at got
      obtain ⟨⟨paddr, one⟩, isGot, ⟨kvaddr, two⟩, mapped, result⟩ := got
      obtain ⟨table, pages, rfl, rfl, user, free, total, bits, counts, counted⟩ :=
        getUserPage_spec isGot
      have small : table < 2 ^ 20 := lt_of_lt_of_le user.2 tables.bounded
      obtain ⟨kmap, rfl, coherent, holds, _⟩ := map_spec mapped tables.coherent small
      obtain ⟨rfl, isAfter⟩ := Prod.mk.inj (Except.ok.inj result)
      have frame : (kmap.pte (KmapPool.slotOf kvaddr)).index = table := coherent.index_eq holds
      have final : after = { s with
          pages := pages
          kmap := kmap
          frames := Function.update
            (writeAt s.frames dir (pdeIdx vaddr) (userEntry (table * pageSize))) table
              fun _ => .zero } := by
        rw [← isAfter]
        unfold setFrame frameAt
        dsimp only
        rw [frame]
        rfl
      subst final
      have unused := tables.accounts.unused user free
      have changes : refersIn (Function.update
          (writeAt s.frames dir (pdeIdx vaddr) (userEntry (table * pageSize))) table
            fun _ => .zero) spaces =
          Function.update (refersIn s.frames spaces) (pid, pdeIdx vaddr, 0) (some table) :=
        Exclusive.refersIn_table tables.apart tables.accounts.toExclusive space inOrder isTable
          unused (tables.notDir user) (userEntry_page small) fun _ _ => zero_page
      obtain ⟨isTask, within, _⟩ := tables.apart.known pid dir limit space
      have isPlace : (pid, pdeIdx vaddr, 0) ∈ places :=
        mem_places.mpr ⟨isTask, by omega, Nat.succ_pos _⟩
      refine ⟨table, ⟨tables.apart, ?accounts, coherent, total ▸ tables.bounded⟩,
        ⟨fun _ => rfl, fun _ _ => rfl, rfl, total, bits, fun frame below => counts frame ?_,
          ?frames⟩,
        ⟨?isTable, holds, rfl⟩, fun other index position => ?same⟩
      case accounts =>
        rw [changes]
        exact tables.accounts.take isPlace isTable user free total fun other _ => counted other
      case frames =>
        intro frame index below isKernel
        have notTable : frame ≠ table := by
          have above := user.1
          omega
        dsimp only
        rw [Function.update_of_ne notTable]
        refine if_neg ?_
        rintro ⟨isDirectory, rfl⟩
        have above := isKernel pid dir limit space isDirectory
        omega
      case isTable =>
        have isTable := congrFun changes (pid, pdeIdx vaddr, 0)
        rw [Function.update_self] at isTable
        exact isTable
      case same =>
        rw [changes, Function.update_of_ne (by simp)]
      · have above := user.1
        omega

/-- The current task has a directory that is in order. -/
structure InUse (s : Machine) (spaces : Spaces) (pid dir limit : Nat) : Prop where
  tables : Tables s spaces
  space : spaces pid = some (dir, limit)
  isDir : s.getPde = .ok dir

theorem getPde_within (within : Within spaces s after) (isDir : s.getPde = .ok dir) :
    after.getPde = .ok dir := by
  simp only [getPde, getCurrent, bind_eq_ok, pure_eq_ok, Except.ok.injEq] at isDir ⊢
  rw [within.current]
  have same := within.tasks s.current
  obtain ⟨task, found, isPde⟩ := isDir
  split at found
  · rename_i present
    cases found
    rw [present] at same
    obtain ⟨other, isOther, sameCore⟩ := Option.map_eq_some_iff.mp same
    rw [isOther]
    simp only [Task.core, Prod.mk.injEq] at sameCore
    exact ⟨other, rfl, by rw [sameCore.2.2.2.1, isPde]⟩
  · cases found

theorem InUse.next (inUse : s.InUse spaces pid dir limit) (tables : Tables after spaces)
    (within : Within spaces s after) : after.InUse spaces pid dir limit :=
  ⟨tables, inUse.space, getPde_within within inUse.isDir⟩

/-- Undoing a mapping changes nothing but the pool. -/
theorem unmap_keeps (tables : Tables s spaces) (unmapped : s.unmap vaddr = .ok after) :
    Tables after spaces ∧ Within spaces s after ∧ after.frames = s.frames ∧
      after.pages = s.pages := by
  obtain ⟨kmap, rfl, coherent, _⟩ := unmap_spec unmapped tables.coherent
  exact ⟨tables.setKmap coherent, .of_kmap s kmap, rfl, rfl⟩

/-- An entry that maps nothing gets a new page. -/
theorem mapNew_spec (tables : Tables s spaces) (points : s.PointsTo spaces pid vaddr entry table)
    (absent : (s.read entry).page = none) (got : s.getUserPage = .ok (paddr, after)) :
    ∃ page, Tables (after.write entry (userEntry paddr)) spaces ∧
      Within spaces s (after.write entry (userEntry paddr)) ∧
      refersIn (after.write entry (userEntry paddr)).frames spaces =
        Function.update (refersIn s.frames spaces) (placeOf pid vaddr) (some page) := by
  obtain ⟨page, pages, rfl, rfl, user, free, total, bits, counts, counted⟩ := getUserPage_spec got
  have small : page < 2 ^ 20 := lt_of_lt_of_le user.2 tables.bounded
  have isPlace : placeOf pid vaddr ∈ places :=
    tables.apart.mem_places_of_table points.isTable (pteIdx_lt vaddr)
  have changes := PointsTo.refersIn_write tables.layout points (userEntry (page * pageSize))
  rw [userEntry_page small] at changes
  have within := PointsTo.within_write tables.layout points (userEntry (page * pageSize))
  rw [PointsTo.read_page tables.layout points] at absent
  refine ⟨page, ⟨tables.apart, ?accounts, tables.coherent, total ▸ tables.bounded⟩,
    ⟨fun _ => rfl, fun _ _ => rfl, rfl, total, bits, fun frame below => counts frame ?_,
      within.frames⟩, changes⟩
  case accounts =>
    change Accounts (refersIn (s.write entry (userEntry (page * pageSize))).frames spaces) pages
    rw [changes]
    exact tables.accounts.take isPlace absent user free total fun other _ => counted other
  · have above := user.1
    omega

/-- `link_user_page` maps a page at an address. -/
theorem linkUserPage_spec (inUse : s.InUse spaces pid dir limit) (inOrder : pdeIdx vaddr < limit)
    (linked : s.linkUserPage vaddr = .ok after) :
    after.InUse spaces pid dir limit ∧ Within spaces s after ∧
      SameBut spaces s after (placeOf pid vaddr) ∧
      (∃ page, refersIn after.frames spaces (placeOf pid vaddr) = some page) ∧
      ∀ page, refersIn s.frames spaces (placeOf pid vaddr) = some page →
        refersIn after.frames spaces (placeOf pid vaddr) = some page := by
  simp only [linkUserPage, bind_eq_ok] at linked
  obtain ⟨⟨entry, one⟩, got, linked⟩ := linked
  obtain ⟨table, tables, within, points, same⟩ :=
    getPte_spec inUse.tables inUse.space inUse.isDir inOrder got
  have isPage := PointsTo.read_page tables.layout points
  rw [Entry.page] at isPage
  split at linked
  · rename_i isPresent
    rw [if_pos isPresent] at isPage
    obtain ⟨tablesAfter, unmapped, frames, _⟩ := unmap_keeps tables linked
    have sameAfter := (same pid (pdeIdx vaddr) (pteIdx vaddr))
    refine ⟨inUse.next tablesAfter (within.trans unmapped), within.trans unmapped,
      fun other index position _ => ?_, ⟨(one.read entry).index, ?_⟩, fun page before => ?_⟩
    · rw [frames]
      exact same other index position
    · rw [frames]
      exact isPage.symm
    · rw [frames, sameAfter]
      exact before
  · rename_i absent
    rw [if_neg absent] at isPage
    simp only [bind_eq_ok] at linked
    obtain ⟨⟨paddr, two⟩, isGot, unmapped⟩ := linked
    have isAbsent : (one.read entry).page = none := by rw [Entry.page, if_neg absent]
    obtain ⟨page, tablesNew, withinNew, changes⟩ := mapNew_spec tables points isAbsent isGot
    obtain ⟨tablesAfter, withinAfter, frames, _⟩ := unmap_keeps tablesNew unmapped
    have allWithin := within.trans (withinNew.trans withinAfter)
    refine ⟨inUse.next tablesAfter allWithin, allWithin, fun other index position different => ?_,
      ⟨page, ?_⟩, fun page before => ?_⟩
    · rw [frames]
      exact (congrFun changes _).trans
        ((Function.update_of_ne different _ _).trans (same other index position))
    · rw [frames]
      exact (congrFun changes _).trans (Function.update_self _ _ _)
    · rw [← same, ← isPage] at before
      cases before

/-- The flags of an entry change. -/
theorem writeFlags_spec (tables : Tables s spaces)
    (points : s.PointsTo spaces pid vaddr entry table) {word : Entry}
    (samePage : word.page = (s.read entry).page) :
    Tables (s.write entry word) spaces ∧ Within spaces s (s.write entry word) ∧
      refersIn (s.write entry word).frames spaces = refersIn s.frames spaces := by
  have changes := PointsTo.refersIn_write tables.layout points word
  rw [samePage, PointsTo.read_page tables.layout points, Function.update_eq_self] at changes
  refine ⟨⟨tables.apart, ?_, tables.coherent, tables.bounded⟩,
    PointsTo.within_write tables.layout points word, changes⟩
  rw [changes]
  exact tables.accounts

/-- An entry that maps a page gives it up. -/
theorem dropEntry_spec (tables : Tables s spaces)
    (points : s.PointsTo spaces pid vaddr entry table)
    (isPresent : (s.read entry).present = true) {pages : PageMaps}
    (put : s.pages.putUserPage ((s.read entry).index * pageSize) = .ok pages) :
    Tables { s.write entry { s.read entry with present := false } with pages := pages } spaces ∧
      Within spaces s
        { s.write entry { s.read entry with present := false } with pages := pages } ∧
      refersIn (s.write entry { s.read entry with present := false }).frames spaces =
        Function.update (refersIn s.frames spaces) (placeOf pid vaddr) none := by
  have changes : refersIn (s.write entry { s.read entry with present := false }).frames spaces =
      Function.update (refersIn s.frames spaces) (placeOf pid vaddr) none :=
    PointsTo.refersIn_write tables.layout points _
  have refersTo : refersIn s.frames spaces (placeOf pid vaddr) = some (s.read entry).index := by
    rw [← PointsTo.read_page tables.layout points, Entry.page]
    exact if_pos isPresent
  have isPut : s.putUserPage ((s.read entry).index * pageSize) =
      .ok { s with pages := pages } := by
    rw [putUserPage, put]
    rfl
  obtain ⟨found, same, user, total, bits, counts, counted⟩ := putUserPage_spec isPut
  have isFound : pages = found := congrArg Machine.pages same
  subst isFound
  refine ⟨⟨tables.apart, ?_, tables.coherent, total ▸ tables.bounded⟩,
    ⟨fun _ => rfl, fun _ _ => rfl, rfl, total, bits, fun frame below => counts frame ?_,
      (PointsTo.within_write tables.layout points _).frames⟩, changes⟩
  · dsimp only
    rw [changes]
    exact tables.accounts.give refersTo total fun other _ => counted other
  · have above := user.1
    omega

/-- `unlink_user_page` leaves nothing mapped at an address. -/
theorem unlinkUserPage_spec (inUse : s.InUse spaces pid dir limit)
    (inOrder : pdeIdx vaddr < limit) (unlinked : s.unlinkUserPage vaddr = .ok after) :
    after.InUse spaces pid dir limit ∧ Within spaces s after ∧
      SameBut spaces s after (placeOf pid vaddr) ∧
      refersIn after.frames spaces (placeOf pid vaddr) = none := by
  simp only [unlinkUserPage, bind_eq_ok] at unlinked
  obtain ⟨_, _, ⟨entry, one⟩, got, unlinked⟩ := unlinked
  obtain ⟨table, tables, within, points, same⟩ :=
    getPte_spec inUse.tables inUse.space inUse.isDir inOrder got
  split at unlinked
  · rename_i isPresent
    simp only [bind_eq_ok] at unlinked
    obtain ⟨two, put, unmapped⟩ := unlinked
    rw [read_write] at put
    simp only [putUserPage, bind_eq_ok] at put
    obtain ⟨pages, isPut, result⟩ := put
    cases result
    obtain ⟨tablesNew, withinNew, changes⟩ := dropEntry_spec tables points isPresent isPut
    obtain ⟨tablesAfter, withinAfter, frames, _⟩ := unmap_keeps tablesNew unmapped
    have allWithin := within.trans (withinNew.trans withinAfter)
    refine ⟨inUse.next tablesAfter allWithin, allWithin, fun other index position different => ?_,
      ?_⟩
    · rw [frames]
      exact (congrFun changes _).trans
        ((Function.update_of_ne different _ _).trans (same other index position))
    · rw [frames]
      exact (congrFun changes _).trans (Function.update_self _ _ _)
  · rename_i absent
    have isPage := PointsTo.read_page tables.layout points
    obtain ⟨tablesAfter, unmapped, frames, _⟩ := unmap_keeps tables unlinked
    refine ⟨inUse.next tablesAfter (within.trans unmapped), within.trans unmapped,
      fun other index position _ => ?_, ?_⟩
    · rw [frames]
      exact same other index position
    · rw [frames, ← isPage, Entry.page]
      exact if_neg absent

/-- A page that is shared by two is copied for one of them. -/
theorem copyOnWrite_spec (tables : Tables s spaces)
    (points : s.PointsTo spaces pid vaddr entry table)
    (isPresent : (s.read entry).present = true) (copied : s.copyOnWrite entry = .ok after) :
    ∃ page pages kmap, after = { s with
        pages := pages
        kmap := kmap
        frames := writeAt (Function.update s.frames page (s.frames (s.read entry).index)) table
          (pteIdx vaddr) (userEntry (page * pageSize)) } ∧
      UserPage s.pages page ∧ (∀ place, refersIn s.frames spaces place ≠ some page) ∧
      pages.references page = 1 ∧ Tables after spaces ∧ Within spaces s after ∧
      refersIn after.frames spaces =
        Function.update (refersIn s.frames spaces) (placeOf pid vaddr) (some page) := by
  have refersTo := PointsTo.read_page tables.layout points
  rw [Entry.page, if_pos isPresent] at refersTo
  generalize isOld : (s.read entry).index = old at refersTo
  simp only [copyOnWrite, bind_eq_ok, check_eq_ok, isOld] at copied
  obtain ⟨_, two, ⟨paddr, one⟩, got, ⟨newVaddr, next⟩, newMapped, ⟨oldVaddr, last⟩, oldMapped,
    result⟩ := copied
  obtain ⟨page, pages, rfl, rfl, user, free, total, bits, counts, counted⟩ := getUserPage_spec got
  dsimp only at user free total bits counts counted
  have small : page < 2 ^ 20 := lt_of_lt_of_le user.2 tables.bounded
  obtain ⟨kmap, rfl, coherent, newHolds, kept⟩ := map_spec newMapped tables.coherent small
  have entryHolds := kept _ _ points.holds
  have sameEntry : s.frames (kmap.pte (KmapPool.slotOf entry.1)).index entry.2 =
      s.read entry := by
    rw [coherent.index_eq entryHolds, PointsTo.read_eq tables.layout points, points.position]
  unfold read frameAt at oldMapped
  dsimp only at oldMapped
  rw [sameEntry, isOld] at oldMapped
  obtain ⟨pool, rfl, isCoherent, oldHolds, keptOld⟩ :=
    map_spec oldMapped coherent (tables.page_lt refersTo.symm)
  have final : after = { s with
      pages := pages
      kmap := pool
      frames := writeAt (Function.update s.frames page (s.frames old)) table (pteIdx vaddr)
        (userEntry (page * pageSize)) } := by
    rw [← Except.ok.inj result]
    unfold write setWord setFrame frameAt
    dsimp only
    rw [isCoherent.index_eq (keptOld _ _ newHolds), isCoherent.index_eq oldHolds,
      isCoherent.index_eq (keptOld _ _ entryHolds), points.position]
    rfl
  have once : (s.pages.setCount old (s.pages.memMap old - 1)).references old = 1 := by
    rw [PageMaps.references_setCount, if_pos rfl, two]
    rfl
  have different : page ≠ old := by
    rintro rfl
    omega
  have unused : ∀ place, refersIn s.frames spaces place ≠ some page := by
    rw [PageMaps.references_setCount, if_neg different] at free
    exact tables.accounts.unused user free
  have copyKeeps : refersIn (Function.update s.frames page (s.frames old)) spaces =
      refersIn s.frames spaces :=
    refersIn_data (tables.notDir user) (fun pid index => unused (pid, index, 0))
      fun other away => Function.update_of_ne away _ _
  have isTable : tableOf (Function.update s.frames page (s.frames old)) spaces pid
      (pdeIdx vaddr) = some table :=
    (congrFun copyKeeps (pid, pdeIdx vaddr, 0)).trans points.isTable
  have exclusive : Exclusive (refersIn (Function.update s.frames page (s.frames old)) spaces)
      s.pages := copyKeeps ▸ tables.accounts.toExclusive
  have changes := Exclusive.refersIn_writeAt tables.apart exclusive isTable (pteIdx_lt vaddr)
    (userEntry (page * pageSize))
  rw [userEntry_page small, copyKeeps] at changes
  have given : Accounts (Function.update (refersIn s.frames spaces) (placeOf pid vaddr) none)
      (s.pages.setCount old (s.pages.memMap old - 1)) := by
    refine tables.accounts.give refersTo.symm rfl fun other _ => ?_
    rw [PageMaps.references_setCount]
    by_cases same : other = old
    · rw [if_pos same, if_pos same.symm, same]
      exact PageMaps.toNat_sub_one (by rw [two]; decide)
    · rw [if_neg same, if_neg (Ne.symm same), Nat.add_zero]
  have taken := given.take (tables.apart.mem_places_of_table points.isTable (pteIdx_lt vaddr))
    (Function.update_self _ _ _) user free total fun other _ => counted other
  rw [Function.update_idem] at taken
  refine ⟨page, pages, pool, final, user, unused, ?once, ?tables, ?within, ?changes⟩
  case once => rw [counted, if_pos rfl, free]
  case changes =>
    rw [final]
    exact changes
  case tables =>
    rw [final]
    exact ⟨tables.apart, changes ▸ taken, isCoherent, total ▸ tables.bounded⟩
  case within =>
    rw [final]
    have above := user.1
    have isUser := (tables.accounts.user _ _ (refersIn_zero.trans points.isTable)).1
    have oldUser := (tables.accounts.user _ _ refersTo.symm).1
    refine ⟨fun _ => rfl, fun _ _ => rfl, rfl, total,
      bits.trans (PageMaps.setCount_kernelBits _ _ _), fun frame below => ?_,
      fun frame index below _ => ?_⟩
    · dsimp only
      rw [counts frame (by omega), PageMaps.setCount_memMap, if_neg (by omega)]
    · dsimp only
      rw [writeAt_frame (by omega), Function.update_of_ne (by omega)]

end Machine

end UserMemory
end LightOS
