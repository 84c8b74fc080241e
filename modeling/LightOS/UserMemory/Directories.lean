import LightOS.UserMemory.Access

/-!
# Giving directories back

`free_pte` gives back all user pages of the current task, table by table and entry by entry.
-/

namespace LightOS
namespace UserMemory

namespace Machine

variable {s after : Machine} {spaces : Spaces} {pid dir limit vaddr table page index position : Nat}

/-- The address of an entry. -/
def addressOf (index position : Nat) : Nat :=
  index * 2 ^ 22 + position * 2 ^ 12

theorem pdeIdx_addressOf (inTable : position < entryNr) :
    pdeIdx (addressOf index position) = index := by
  change (index * 2 ^ 22 + position * 2 ^ 12) / 2 ^ 22 = index
  change position < 1024 at inTable
  omega

theorem pteIdx_addressOf (inTable : position < entryNr) :
    pteIdx (addressOf index position) = position := by
  change (index * 2 ^ 22 + position * 2 ^ 12) / 2 ^ 12 % 2 ^ 10 = position
  change position < 1024 at inTable
  omega

/-- A page that is mapped in the kernel is accessible entry by entry. -/
theorem pointsTo_of_holds (isTable : tableOf s.frames spaces pid index = some table)
    (holds : s.kmap.Holds vaddr table) (inTable : position < entryNr) :
    s.PointsTo spaces pid (addressOf index position) (vaddr, position) table := by
  refine ⟨?_, holds, (pteIdx_addressOf inTable).symm⟩
  rw [pdeIdx_addressOf inTable]
  exact isTable

/-- A round of the inner loop of `free_pte`. -/
theorem freeEntry_spec (tables : Tables s spaces)
    (isTable : tableOf s.frames spaces pid index = some table)
    (holds : s.kmap.Holds vaddr table) (inTable : position < entryNr)
    (freed : freeEntry vaddr s position = .ok after) :
    Tables after spaces ∧ Within spaces s after ∧ after.kmap = s.kmap ∧
      refersIn after.frames spaces =
        Function.update (refersIn s.frames spaces) (pid, index, position + 1) none := by
  have points := pointsTo_of_holds isTable holds inTable
  have isPlace : placeOf pid (addressOf index position) = (pid, index, position + 1) := by
    rw [placeOf, pdeIdx_addressOf inTable, pteIdx_addressOf inTable]
  simp only [freeEntry] at freed
  split at freed
  · rename_i isPresent
    simp only [putUserPage, bind_eq_ok] at freed
    obtain ⟨middle, ⟨pages, put, isMiddle⟩, result⟩ := freed
    cases isMiddle
    cases result
    obtain ⟨tablesAfter, within, changes⟩ := dropEntry_spec tables points isPresent put
    rw [isPlace] at changes
    exact ⟨tablesAfter, within, rfl, changes⟩
  · rename_i absent
    cases freed
    have isPage := PointsTo.read_page tables.layout points
    rw [isPlace, Entry.page, if_neg absent] at isPage
    refine ⟨tables, .refl s, rfl, ?_⟩
    rw [isPage, Function.update_eq_self]

/-- The inner loop of `free_pte` empties a table. -/
theorem freeEntries_spec (tables : Tables s spaces)
    (isTable : tableOf s.frames spaces pid index = some table)
    (holds : s.kmap.Holds vaddr table)
    (freed : (List.range entryNr).foldlM (freeEntry vaddr) s = .ok after) :
    Tables after spaces ∧ Within spaces s after ∧
      (∀ position, refersIn after.frames spaces (pid, index, position + 1) = none) ∧
      ∀ place : Place, (place.1 ≠ pid ∨ place.2.1 ≠ index ∨ place.2.2 = 0) →
        refersIn after.frames spaces place = refersIn s.frames spaces place := by
  have folded := foldlM_range (fun middle count => Tables middle spaces ∧
      Within spaces s middle ∧ middle.kmap = s.kmap ∧
      (∀ position < count, refersIn middle.frames spaces (pid, index, position + 1) = none) ∧
      ∀ place : Place, (place.1 ≠ pid ∨ place.2.1 ≠ index ∨ place.2.2 = 0) →
        refersIn middle.frames spaces place = refersIn s.frames spaces place)
    (fun before position next inRange ⟨tables, within, sameKmap, empty, same⟩ taken => ?_)
    ⟨tables, .refl s, rfl, nofun, fun _ _ => rfl⟩ freed
  · obtain ⟨tablesAfter, within, _, empty, same⟩ := folded
    refine ⟨tablesAfter, within, fun position => ?_, same⟩
    by_cases inTable : position < entryNr
    · exact empty position inTable
    · have stays : tableOf after.frames spaces pid index = some table :=
        (same (pid, index, 0) (.inr (.inr rfl))).trans isTable
      exact refersIn_behind stays inTable
  have stays : tableOf before.frames spaces pid index = some table :=
    (same (pid, index, 0) (.inr (.inr rfl))).trans isTable
  obtain ⟨tablesNext, withinNext, kmapNext, changes⟩ := freeEntry_spec tables stays
    (sameKmap ▸ holds) inRange taken
  refine ⟨tablesNext, within.trans withinNext, kmapNext.trans sameKmap,
    fun other isOther => ?_, fun place away => ?_⟩
  · rw [changes]
    rcases Nat.lt_succ_iff_lt_or_eq.mp isOther with isBefore | rfl
    · rw [Function.update_of_ne (by simpa using Nat.ne_of_lt isBefore)]
      exact empty other isBefore
    · rw [Function.update_self]
  · rw [changes, Function.update_of_ne, same place away]
    rintro rfl
    simp at away

/-- A round of the loop of `free_pte` gives a table back. -/
theorem freeTable_spec (tables : Tables s spaces) (space : spaces pid = some (dir, limit))
    (inOrder : index < limit) (freed : freeTable dir s index = .ok after) :
    Tables after spaces ∧ Within spaces s after ∧
      tableOf after.frames spaces pid index = none ∧
      ∀ place : Place, (place.1 ≠ pid ∨ place.2.1 ≠ index) →
        refersIn after.frames spaces place = refersIn s.frames spaces place := by
  have isPage : tableOf s.frames spaces pid index = (s.frames dir index).page :=
    tableOf_eq space inOrder
  simp only [freeTable] at freed
  split at freed
  · rename_i isPresent
    rw [Entry.page, if_pos isPresent] at isPage
    simp only [bind_eq_ok] at freed
    obtain ⟨⟨vaddr, one⟩, mapped, two, entries, three, unmapped, four, put, result⟩ := freed
    obtain ⟨kmap, rfl, coherent, holds, _⟩ := map_spec mapped tables.coherent
      (tables.page_lt (refersIn_zero.trans isPage))
    obtain ⟨tablesTwo, withinTwo, empty, same⟩ :=
      freeEntries_spec (tables.setKmap coherent) isPage holds entries
    obtain ⟨tablesThree, withinThree, frames, _⟩ := unmap_keeps tablesTwo unmapped
    obtain ⟨pages, rfl, user, total, bits, counts, counted⟩ := putUserPage_spec put
    cases result
    have stays : tableOf three.frames spaces pid index = some (s.frames dir index).index := by
      rw [frames]
      exact (same (pid, index, 0) (.inr (.inr rfl))).trans isPage
    have isEmpty (position : Nat) :
        refersIn three.frames spaces (pid, index, position + 1) = none := by
      rw [frames]
      exact empty position
    have absent : Entry.page { s.frames dir index with present := false } = none := rfl
    have changes := Exclusive.refersIn_noTable tablesThree.apart
      tablesThree.accounts.toExclusive space inOrder isEmpty absent
    have withinLast : Within spaces three ({ three with pages := pages }.setWord dir index
        { s.frames dir index with present := false }) := by
      obtain ⟨_, within, _⟩ := tables.apart.known pid dir limit space
      refine ⟨fun _ => rfl, fun _ _ => rfl, rfl, total, bits, fun frame below => counts frame ?_,
        fun frame number below isKernel => if_neg ?_⟩
      · have above := user.1
        omega
      · rintro ⟨isDirectory, rfl⟩
        have above := isKernel pid dir limit space isDirectory
        omega
    have isZero : refersIn three.frames spaces (pid, index, 0) =
        some (s.frames dir index).index := stays
    refine ⟨⟨tables.apart, ?accounts, tablesThree.coherent, total ▸ tablesThree.bounded⟩,
      (Within.of_kmap s kmap).trans (withinTwo.trans (withinThree.trans withinLast)), ?isNone,
      fun place away => ?same⟩
    case accounts =>
      change Accounts (refersIn (writeAt three.frames dir index _) spaces) pages
      rw [changes]
      exact tablesThree.accounts.give isZero total fun other _ => counted other
    case isNone =>
      exact (congrFun changes (pid, index, 0)).trans (Function.update_self _ _ _)
    case same =>
      refine (congrFun changes place).trans ?_
      rw [Function.update_of_ne, frames, same place]
      · rcases away with notPid | notIndex
        · exact .inl notPid
        · exact .inr (.inl notIndex)
      · rintro rfl
        simp at away
  · rename_i absent
    cases freed
    rw [Entry.page, if_neg absent] at isPage
    exact ⟨tables, .refl s, isPage, fun _ _ => rfl⟩

/-- `free_pte` leaves the current task without user pages. -/
theorem freePte_spec (inUse : s.InUse spaces pid dir userTables)
    (freed : s.freePte = .ok after) :
    Orders spaces pid dir s after ∧
      (∀ index, tableOf after.frames spaces pid index = none) ∧
      ∀ place : Place, place.1 ≠ pid →
        refersIn after.frames spaces place = refersIn s.frames spaces place := by
  simp only [freePte, inUse.isDir, ok_bind] at freed
  have folded := foldlM_range (fun middle count => Orders spaces pid dir s middle ∧
      (∀ index < count, tableOf middle.frames spaces pid index = none) ∧
      ∀ place : Place, place.1 ≠ pid →
        refersIn middle.frames spaces place = refersIn s.frames spaces place)
    (fun before index next inRange holds taken => ?_)
    ⟨.refl inUse, fun _ isBefore => absurd isBefore (Nat.not_lt_zero _), fun _ _ => rfl⟩ freed
  · obtain ⟨ordered, empty, same⟩ := folded
    refine ⟨ordered, fun index => ?_, same⟩
    by_cases inOrder : index < userTables
    · exact empty index inOrder
    · unfold tableOf
      rw [inUse.space]
      exact if_neg inOrder
  obtain ⟨ordered, empty, same⟩ := holds
  obtain ⟨tables, within, isNone, sameNext⟩ := freeTable_spec ordered.inUse.tables inUse.space
    inRange taken
  refine ⟨ordered.trans ⟨ordered.inUse.next tables within, within⟩, fun other isOther => ?_,
    fun place away => (sameNext place (.inl away)).trans (same place away)⟩
  rcases Nat.lt_succ_iff_lt_or_eq.mp isOther with isBefore | rfl
  · rw [show tableOf next.frames spaces pid other = tableOf before.frames spaces pid other from
      sameNext (pid, other, 0) (.inr (Nat.ne_of_lt isBefore))]
    exact empty other isBefore
  · exact isNone

end Machine

end UserMemory
end LightOS
