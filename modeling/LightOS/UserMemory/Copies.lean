import LightOS.UserMemory.Directories

/-!
# Copies of directories

`copy_pte` gives a child tables of its own, table by table.  The pages that an entry of the
parent maps are counted for the child before the entries of the child exist, so while a
table is copied the accounts are those of the references that the child is to have.
-/

namespace LightOS
namespace UserMemory

open Sched (taskNr)

variable {frames : Nat → Nat → Entry}

/-- The references once the first entries of a table of a parent are those of a child, too. -/
def lent (refers : Place → Option Nat) (parent child index count : Nat) :
    Place → Option Nat :=
  fun place => if place.1 = child ∧ place.2.1 = index ∧ 0 < place.2.2 ∧ place.2.2 ≤ count then
    refers (parent, index, place.2.2) else refers place

section Lent

variable {refers : Place → Option Nat} {parent child index count position : Nat}

theorem lent_zero : lent refers parent child index 0 = refers := by
  funext place
  exact if_neg fun inside => absurd (inside.2.2.2.trans_lt inside.2.2.1) (lt_irrefl _)

theorem lent_succ : lent refers parent child index (count + 1) =
    Function.update (lent refers parent child index count) (child, index, count + 1)
      (refers (parent, index, count + 1)) := by
  funext ⟨owner, number, position⟩
  by_cases isLast : (owner, number, position) = (child, index, count + 1)
  · rw [isLast, Function.update_self]
    exact if_pos ⟨rfl, rfl, Nat.succ_pos _, le_refl _⟩
  · rw [Function.update_of_ne isLast]
    unfold lent
    by_cases inside : owner = child ∧ number = index ∧ 0 < position ∧ position ≤ count
    · rw [if_pos inside, if_pos ⟨inside.1, inside.2.1, inside.2.2.1, by
        have atMost := inside.2.2.2
        dsimp only
        omega⟩]
    · rw [if_neg inside, if_neg]
      rintro ⟨rfl, rfl, above, below⟩
      dsimp only at above below
      have isEnd : position ≠ count + 1 := by
        rintro rfl
        exact isLast rfl
      exact inside ⟨rfl, rfl, above, by omega⟩

theorem lent_self : lent refers parent child index count (child, index, count + 1) =
    refers (child, index, count + 1) :=
  if_neg fun inside => absurd inside.2.2.2 (by simp)

theorem lent_zero_position (pid number : Nat) :
    lent refers parent child index count (pid, number, 0) = refers (pid, number, 0) :=
  if_neg fun inside => absurd inside.2.2.1 (lt_irrefl _)

theorem lent_of_ne {place : Place} (different : place.1 ≠ child ∨ place.2.1 ≠ index) :
    lent refers parent child index count place = refers place := by
  refine if_neg fun inside => ?_
  rcases different with notChild | notIndex
  · exact notChild inside.1
  · exact notIndex inside.2.1

end Lent

namespace Machine

variable {s after : Machine} {spaces : Spaces}
  {parent child dir target limit vaddr table index position : Nat} {refers : Place → Option Nat}

/-- The flags of an entry change, whatever the accounts are. -/
theorem writeFlags_layout (layout : Layout s spaces) {entry : EntryPointer} {pid : Nat}
    (points : s.PointsTo spaces pid vaddr entry table) {word : Entry}
    (samePage : word.page = (s.read entry).page) :
    Layout (s.write entry word) spaces ∧ Within spaces s (s.write entry word) ∧
      refersIn (s.write entry word).frames spaces = refersIn s.frames spaces ∧
      ∀ other, other ≠ table → (s.write entry word).frames other = s.frames other := by
  have changes := PointsTo.refersIn_write layout points word
  rw [samePage, PointsTo.read_page layout points, Function.update_eq_self] at changes
  refine ⟨⟨layout.apart, changes ▸ layout.exclusive, layout.coherent, layout.bounded⟩,
    PointsTo.within_write layout points word, changes, fun other different => ?_⟩
  rw [PointsTo.write_eq layout points]
  exact writeAt_frame different _ _

/-- A round of the inner loop of `copy_pte` counts a page for the child. -/
theorem shareEntry_spec (layout : Layout s spaces)
    (accounts : Accounts (lent refers parent child index position) s.pages)
    (different : parent ≠ child) (isPlace : (child, index, position + 1) ∈ places)
    (isTable : tableOf s.frames spaces parent index = some table)
    (same : refers (parent, index, position + 1) =
      refersIn s.frames spaces (parent, index, position + 1))
    (empty : refers (child, index, position + 1) = none)
    (holds : s.kmap.Holds vaddr table) (inTable : position < entryNr)
    (shared : shareEntry vaddr s position = .ok after) :
    Layout after spaces ∧ Within spaces s after ∧ after.kmap = s.kmap ∧
      Accounts (lent refers parent child index (position + 1)) after.pages ∧
      refersIn after.frames spaces = refersIn s.frames spaces ∧
      ∀ other, other ≠ table → after.frames other = s.frames other := by
  have points := pointsTo_of_holds isTable holds inTable
  have isPage := PointsTo.read_page layout points
  rw [placeOf, pdeIdx_addressOf inTable, pteIdx_addressOf inTable, ← same] at isPage
  rw [lent_succ, ← isPage]
  simp only [shareEntry] at shared
  split at shared
  · rename_i isPresent
    rw [Entry.page, if_pos isPresent] at isPage ⊢
    simp only [bind_eq_ok, check_eq_ok] at shared
    obtain ⟨_, few, result⟩ := shared
    obtain ⟨middle, isMiddle⟩ : ∃ middle, middle = if (s.read (vaddr, position)).shared = true
        then s else s.write (vaddr, position) { s.read (vaddr, position) with write := false } :=
      ⟨_, rfl⟩
    have changed : Layout middle spaces ∧ Within spaces s middle ∧
        refersIn middle.frames spaces = refersIn s.frames spaces ∧
        ∀ other, other ≠ table → middle.frames other = s.frames other := by
      rw [isMiddle]
      split
      · exact ⟨layout, .refl s, rfl, fun _ _ => rfl⟩
      · exact writeFlags_layout layout points rfl
    have samePages : middle.pages = s.pages := by
      rw [isMiddle]
      split
      · rfl
      · rfl
    have sameKmap : middle.kmap = s.kmap := by
      rw [isMiddle]
      split
      · rfl
      · rfl
    rw [← isMiddle, samePages] at few result
    cases result
    obtain ⟨layoutMiddle, within, sameRefers, sameFrames⟩ := changed
    generalize (s.read (vaddr, position)).index = page at isPage few ⊢
    have parentPlace : lent refers parent child index position (parent, index, position + 1) =
        some page := (lent_of_ne (.inl different)).trans isPage.symm
    have user := accounts.user _ _ parentPlace
    have counted := accounts.few page user
    have next : (s.pages.memMap page + 1).toNat = (s.pages.memMap page).toNat + 1 := by
      refine PageMaps.toNat_add_one ?_
      change s.pages.references page + 1 < 256
      omega
    have shares : Accounts (Function.update (lent refers parent child index position)
        (child, index, position + 1) (some page))
          (s.pages.setCount page (s.pages.memMap page + 1)) := by
      refine accounts.share isPlace (lent_self.trans empty) user (fun pid number isFound => ?_)
        (fun isZero => absurd isZero (Nat.succ_ne_zero _)) ?_ rfl fun other _ => ?_
      · have isSame := accounts.sole pid number _ page isFound parentPlace
        cases isSame
      · change (s.pages.memMap page).toNat + 1 < 255
        rw [PageMaps.setCount_memMap, if_pos rfl, UInt8.lt_iff_toNat_lt, next] at few
        exact few
      · rw [PageMaps.references_setCount]
        by_cases isSame : other = page
        · rw [if_pos isSame, if_pos isSame.symm, isSame, next]
          rfl
        · rw [if_neg isSame, if_neg (Ne.symm isSame), Nat.add_zero]
    have above := user.1
    refine ⟨⟨layout.apart, ?_, layoutMiddle.coherent, layout.bounded⟩,
      ⟨within.tasks, within.others, within.current, rfl, PageMaps.setCount_kernelBits _ _ _,
        fun frame below => ?_, within.frames⟩, sameKmap, shares, sameRefers, sameFrames⟩
    · rw [sameRefers]
      exact ⟨layout.exclusive.user, layout.exclusive.sole⟩
    · dsimp only
      rw [PageMaps.setCount_memMap, if_neg (by omega)]
  · rename_i absent
    cases shared
    rw [Entry.page, if_neg absent]
    refine ⟨layout, .refl s, rfl, ?_, rfl, fun _ _ => rfl⟩
    have isNone : lent refers parent child index position (child, index, position + 1) = none :=
      lent_self.trans empty
    rw [← isNone, Function.update_eq_self]
    exact accounts

/-- The inner loop of `copy_pte` counts all pages of a table for the child. -/
theorem shareEntries_spec (layout : Layout s spaces) (accounts : Accounts refers s.pages)
    (different : parent ≠ child)
    (isPlace : ∀ position < entryNr, (child, index, position + 1) ∈ places)
    (isTable : tableOf s.frames spaces parent index = some table)
    (same : ∀ position, refers (parent, index, position + 1) =
      refersIn s.frames spaces (parent, index, position + 1))
    (empty : ∀ position, refers (child, index, position + 1) = none)
    (holds : s.kmap.Holds vaddr table)
    (shared : (List.range entryNr).foldlM (shareEntry vaddr) s = .ok after) :
    Layout after spaces ∧ Within spaces s after ∧ after.kmap = s.kmap ∧
      Accounts (lent refers parent child index entryNr) after.pages ∧
      refersIn after.frames spaces = refersIn s.frames spaces ∧
      ∀ other, other ≠ table → after.frames other = s.frames other := by
  refine foldlM_range (fun middle count => Layout middle spaces ∧ Within spaces s middle ∧
      middle.kmap = s.kmap ∧ Accounts (lent refers parent child index count) middle.pages ∧
      refersIn middle.frames spaces = refersIn s.frames spaces ∧
      ∀ other, other ≠ table → middle.frames other = s.frames other)
    (fun before position next inRange ⟨layout, within, sameKmap, accounts, sameRefers,
      sameFrames⟩ taken => ?_)
    ⟨layout, .refl s, rfl, by rw [lent_zero]; exact accounts, rfl, fun _ _ => rfl⟩ shared
  obtain ⟨layoutNext, withinNext, kmapNext, accountsNext, refersNext, framesNext⟩ :=
    shareEntry_spec layout accounts different (isPlace position inRange)
      ((congrFun sameRefers (parent, index, 0)).trans isTable)
      ((same position).trans (congrFun sameRefers _).symm) (empty position) (sameKmap ▸ holds)
      inRange taken
  exact ⟨layoutNext, within.trans withinNext, kmapNext.trans sameKmap, accountsNext,
    refersNext.trans sameRefers,
    fun other away => (framesNext other away).trans (sameFrames other away)⟩

/-- The directories, with that of a child of which the first entries are in order. -/
abbrev withChild (spaces : Spaces) (child target limit : Nat) : Spaces :=
  Function.update spaces child (some (target, limit))

theorem withChild_of_ne (different : parent ≠ child) :
    withChild spaces child target limit parent = spaces parent :=
  Function.update_of_ne different _ _

theorem withChild_self : withChild spaces child target limit child = some (target, limit) :=
  Function.update_self _ _ _

/-- How many entries are in order does not matter to where directories are. -/
theorem Apart.withChild {bound : Nat} (apart : Apart (withChild spaces child target bound))
    (inOrder : limit ≤ userTables) : Apart (withChild spaces child target limit) := by
  have same (pid directory count : Nat)
      (space : Machine.withChild spaces child target limit pid = some (directory, count)) :
      count ≤ userTables ∧
        ∃ count, Machine.withChild spaces child target bound pid = some (directory, count) := by
    by_cases isChild : pid = child
    · subst isChild
      rw [withChild_self] at space ⊢
      cases space
      exact ⟨inOrder, bound, rfl⟩
    · rw [withChild_of_ne isChild] at space
      have known := apart.known pid directory count (by rw [withChild_of_ne isChild, space])
      exact ⟨known.2.1, count, by rw [withChild_of_ne isChild, space]⟩
  refine ⟨fun pid directory count space => ?_,
    fun pid other directory count extent space also => ?_⟩
  · obtain ⟨fits, count, space⟩ := same pid directory count space
    obtain ⟨isTask, _, above, below⟩ := apart.known pid directory count space
    exact ⟨isTask, fits, above, below⟩
  · obtain ⟨_, count, space⟩ := same pid directory count space
    obtain ⟨_, extent, also⟩ := same other _ extent also
    exact apart.own pid other _ count extent space also

theorem Within.withChild {bound : Nat}
    (within : Within (Machine.withChild spaces child target limit) s after) :
    Within (Machine.withChild spaces child target bound) s after := by
  refine ⟨within.tasks, within.others, within.current, within.totalPages, within.kernelBits,
    within.counts, fun frame index below isKernel => within.frames frame index below
      fun pid directory count space => ?_⟩
  by_cases isChild : pid = child
  · subst isChild
    rw [withChild_self] at space
    cases space
    exact isKernel pid _ bound withChild_self
  · rw [withChild_of_ne isChild] at space
    exact isKernel pid directory count (by rw [withChild_of_ne isChild, space])

/-- An entry of the directory of the child that maps nothing is in order. -/
theorem refersIn_absent (absent : (frames target index).page = none) :
    refersIn frames (withChild spaces child target (index + 1)) =
      refersIn frames (withChild spaces child target index) := by
  have sameTable (pid number : Nat) :
      tableOf frames (withChild spaces child target (index + 1)) pid number =
        tableOf frames (withChild spaces child target index) pid number := by
    unfold tableOf
    by_cases isChild : pid = child
    · subst isChild
      rw [withChild_self, withChild_self]
      dsimp only
      by_cases isLast : number = index
      · rw [if_pos (by omega), if_neg (by omega), isLast]
        exact absent
      · by_cases inOrder : number < index
        · rw [if_pos (by omega), if_pos inOrder]
        · rw [if_neg (by omega), if_neg inOrder]
    · rw [withChild_of_ne isChild, withChild_of_ne isChild]
  funext ⟨pid, number, position⟩
  cases position with
  | zero => exact sameTable pid number
  | succ position =>
      unfold refersIn
      dsimp only
      rw [sameTable]

/-- A table of the child that is a copy of one of its parent. -/
theorem refersIn_copied {page : Nat} (different : parent ≠ child)
    (isTable : tableOf frames (withChild spaces child target index) parent index = some table)
    (isEntry : (frames target index).page = some page)
    (unused : ∀ place, refersIn frames (withChild spaces child target index) place ≠ some page)
    (notDir : ∀ pid dir limit,
      withChild spaces child target index pid = some (dir, limit) → dir ≠ page) :
    refersIn (Function.update frames page (frames table))
        (withChild spaces child target (index + 1)) =
      lent (Function.update (refersIn frames (withChild spaces child target index))
        (child, index, 0) (some page)) parent child index entryNr := by
  have noTable : tableOf frames (withChild spaces child target index) child index = none := by
    unfold tableOf
    rw [withChild_self]
    exact if_neg (lt_irrefl _)
  have newTable (pid number : Nat) :
      tableOf (Function.update frames page (frames table))
          (withChild spaces child target (index + 1)) pid number =
        if pid = child ∧ number = index then some page
        else tableOf frames (withChild spaces child target index) pid number := by
    by_cases isChild : pid = child
    · subst isChild
      have isOther : target ≠ page := notDir pid target index withChild_self
      unfold tableOf
      rw [withChild_self, withChild_self]
      dsimp only
      rw [Function.update_of_ne isOther]
      by_cases isLast : number = index
      · rw [if_pos (by omega), if_pos ⟨rfl, isLast⟩, isLast]
        exact isEntry
      · simp only [isLast, and_false, if_false]
        by_cases inOrder : number < index
        · rw [if_pos (by omega), if_pos inOrder]
        · rw [if_neg (by omega), if_neg inOrder]
    · rw [if_neg fun both => isChild both.1]
      unfold tableOf
      rw [withChild_of_ne isChild, withChild_of_ne isChild]
      split
      · rfl
      · rename_i directory count space
        have isOther : directory ≠ page :=
          notDir pid directory count (by rw [withChild_of_ne isChild, space])
        rw [Function.update_of_ne isOther]
  funext ⟨pid, number, position⟩
  cases position with
  | zero =>
      rw [refersIn_zero, newTable, lent_zero_position]
      by_cases isNew : pid = child ∧ number = index
      · obtain ⟨rfl, rfl⟩ := isNew
        rw [if_pos ⟨rfl, rfl⟩, Function.update_self]
      · rw [if_neg isNew, Function.update_of_ne]
        · rfl
        · intro equal
          cases equal
          exact isNew ⟨rfl, rfl⟩
  | succ position =>
      by_cases isNew : pid = child ∧ number = index
      · obtain ⟨rfl, rfl⟩ := isNew
        have isPage := (newTable pid number).trans (if_pos ⟨rfl, rfl⟩)
        by_cases inTable : position < entryNr
        · rw [refersIn_succ isPage inTable, Function.update_self]
          refine (refersIn_succ isTable inTable).symm.trans ?_
          refine Eq.trans ?_ (if_pos ⟨rfl, rfl, Nat.succ_pos _, inTable⟩).symm
          rw [Function.update_of_ne (by simp)]
        · rw [refersIn_behind isPage inTable]
          refine Eq.trans ?_ (if_neg fun inside => inTable inside.2.2.2).symm
          rw [Function.update_of_ne (by simp), refersIn_succ_none noTable]
      · rw [lent_of_ne (not_and_or.mp isNew), Function.update_of_ne (by simp)]
        unfold refersIn
        dsimp only
        rw [newTable, if_neg isNew]
        split
        · rfl
        · rename_i found isFound
          have isOther : found ≠ page := by
            rintro rfl
            exact unused (pid, number, 0) isFound
          rw [Function.update_of_ne isOther]

/-- The entry of the directory of the child that is not in order yet does not matter. -/
theorem refersIn_pending {pages : PageMaps} (apart : Apart (withChild spaces child target index))
    (exclusive : Exclusive (refersIn frames (withChild spaces child target index)) pages)
    (entry : Entry) :
    refersIn (writeAt frames target index entry) (withChild spaces child target index) =
      refersIn frames (withChild spaces child target index) := by
  refine refersIn_congr (fun pid directory count number space inOrder => ?_)
    fun pid number found position isFound _ => ?_
  · by_cases isTarget : directory = target
    · have isChild := apart.own pid child directory count index space
        (isTarget ▸ withChild_self)
      subst isChild
      rw [withChild_self] at space
      cases space
      exact writeAt_position (Nat.ne_of_lt inOrder) _ _ _
    · rw [writeAt_frame isTarget]
  · rw [writeAt_frame]
    exact (Exclusive.table_ne_dir apart exclusive isFound withChild_self).symm

/-- A round of the loop of `copy_pte` gives a table to the child. -/
theorem copyTable_spec (tables : Tables s (withChild spaces child target index))
    (different : parent ≠ child) (space : spaces parent = some (dir, userTables))
    (inOrder : index < userTables) (sameEntry : s.frames target index = s.frames dir index)
    (copied : copyTable dir target s index = .ok after) :
    Tables after (withChild spaces child target (index + 1)) ∧
      Within (withChild spaces child target index) s after ∧ after.frames dir = s.frames dir ∧
      ∀ number, number ≠ index → after.frames target number = s.frames target number := by
  have apart := tables.apart
  have apartNext : Apart (withChild spaces child target (index + 1)) :=
    Apart.withChild apart inOrder
  have isParent : withChild spaces child target index parent = some (dir, userTables) :=
    (withChild_of_ne different).trans space
  have isPage : tableOf s.frames (withChild spaces child target index) parent index =
      (s.frames dir index).page := tableOf_eq isParent inOrder
  simp only [copyTable] at copied
  split at copied
  · rename_i isPresent
    rw [Entry.page, if_pos isPresent] at isPage
    simp only [bind_eq_ok] at copied
    obtain ⟨⟨paddr, one⟩, got, ⟨current, two⟩, currentMapped, ⟨copy, three⟩, copyMapped, four,
      shared, five, currentUnmapped, copyUnmapped⟩ := copied
    obtain ⟨page, pages, rfl, rfl, user, free, total, bits, counts, counted⟩ :=
      getUserPage_spec got
    have small : page < 2 ^ 20 := lt_of_lt_of_le user.2 tables.bounded
    obtain ⟨kmap, rfl, coherent, currentHolds, _⟩ := map_spec currentMapped tables.coherent
      (tables.page_lt (refersIn_zero.trans isPage))
    obtain ⟨pool, rfl, isCoherent, copyHolds, kept⟩ := map_spec copyMapped coherent small
    have above := user.1
    obtain ⟨isTask, _, _, targetBelow⟩ := apart.known child target index withChild_self
    obtain ⟨_, _, _, dirBelow⟩ := apart.known parent dir userTables isParent
    have tableUser := (tables.accounts.user _ _ (refersIn_zero.trans isPage)).1
    simp only [kernelMemSize, pageSize] at above tableUser
    have unused := tables.accounts.unused user free
    have noTable : tableOf s.frames (withChild spaces child target index) child index = none := by
      unfold tableOf
      rw [withChild_self]
      exact if_neg (lt_irrefl _)
    have pending := refersIn_pending apart tables.accounts.toExclusive
      (userEntry (page * pageSize))
    have layout : Layout { s with
        pages := pages
        kmap := pool
        frames := writeAt s.frames target index (userEntry (page * pageSize)) }
          (withChild spaces child target index) := by
      refine ⟨apart, ?_, isCoherent, total ▸ tables.bounded⟩
      rw [pending]
      refine ⟨fun place found refersTo => ?_, tables.accounts.sole⟩
      have isUser := tables.accounts.user place found refersTo
      exact ⟨isUser.1, total ▸ isUser.2⟩
    have taken := tables.accounts.take (mem_places.mpr ⟨isTask, inOrder, Nat.succ_pos _⟩) noTable
      user free total fun other _ => counted other
    obtain ⟨layoutFour, withinFour, kmapFour, accountsFour, refersFour, framesFour⟩ :=
      shareEntries_spec layout taken different
        (fun position inTable => mem_places.mpr ⟨isTask, inOrder, Nat.succ_lt_succ inTable⟩)
        ((congrFun pending (parent, index, 0)).trans isPage)
        (fun position => (Function.update_of_ne (by simp) _ _).trans (congrFun pending _).symm)
        (fun position => (Function.update_of_ne (by simp) _ _).trans (refersIn_succ_none noTable))
        (kept _ _ currentHolds) shared
    have sameTable := (congrFun refersFour (parent, index, 0)).trans
      ((congrFun pending (parent, index, 0)).trans isPage)
    have copyFrame : four.frameAt copy = page := by
      rw [frameAt, kmapFour]
      exact isCoherent.index_eq copyHolds
    have currentFrame : four.frameAt current = (s.frames dir index).index := by
      rw [frameAt, kmapFour]
      exact isCoherent.index_eq (kept _ _ currentHolds)
    rw [copyFrame, currentFrame] at currentUnmapped
    obtain ⟨first, rfl, firstCoherent, _⟩ := unmap_spec currentUnmapped layoutFour.coherent
    obtain ⟨second, rfl, secondCoherent, _⟩ := unmap_spec copyUnmapped firstCoherent
    have isEntry : (four.frames target index).page = some page := by
      rw [framesFour target (by omega)]
      exact (congrArg Entry.page (writeAt_same target index _)).trans (userEntry_page small)
    have changes := refersIn_copied different sameTable isEntry
      (by rw [refersFour, pending]; exact unused) (tables.notDir user)
    rw [refersFour, pending] at changes
    refine ⟨⟨apartNext, ?accounts, secondCoherent, ?bounded⟩, ?within, ?sameDir,
      fun number away => ?sameTarget⟩
    case accounts =>
      refine Eq.mp ?_ accountsFour
      rw [← changes]
      rfl
    case bounded =>
      exact (withinFour.totalPages.trans total).le.trans tables.bounded
    case within =>
      refine ⟨withinFour.tasks, withinFour.others, withinFour.current,
        withinFour.totalPages.trans total, withinFour.kernelBits.trans bits, fun frame below => ?_,
        fun frame number below isKernel => ?_⟩
      · simp only [kernelMemSize, pageSize] at below
        exact (withinFour.counts frame below).trans (counts frame (by omega))
      · simp only [kernelMemSize, pageSize] at below
        refine (congrFun (Function.update_of_ne (by omega) _ _) number).trans ?_
        refine (withinFour.frames frame number below isKernel).trans (if_neg ?_)
        rintro ⟨isTarget, rfl⟩
        have outside := isKernel child target number withChild_self isTarget
        omega
    case sameDir =>
      refine (Function.update_of_ne (by omega) _ _).trans ((framesFour dir (by omega)).trans ?_)
      refine writeAt_frame ?_ _ _
      rintro rfl
      exact different (apart.own parent child dir userTables index isParent withChild_self)
    case sameTarget =>
      refine (congrFun (Function.update_of_ne (by omega) _ _) number).trans
        ((congrFun (framesFour target (by omega)) number).trans ?_)
      exact writeAt_position away _ _ _
  · rename_i absent
    cases copied
    rw [Entry.page, if_neg absent] at isPage
    have same : refersIn s.frames (withChild spaces child target (index + 1)) =
        refersIn s.frames (withChild spaces child target index) :=
      refersIn_absent (by rw [sameEntry, Entry.page, if_neg absent])
    exact ⟨⟨apartNext, same ▸ tables.accounts, tables.coherent, tables.bounded⟩, .refl s, rfl,
      fun _ _ => rfl⟩

end Machine

end UserMemory
end LightOS
