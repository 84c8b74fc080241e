import LightOS.UserMemory.Calls

/-!
# The region for `sys_mmap`

What `sys_mmap` and `sys_munmap` do to the page tables and to the bitmap of the task, page by
page.  The bitmap has bits for pages of the region only, so a call that does not trip an
assertion stays inside the region.
-/

namespace LightOS
namespace UserMemory

variable {length count : Nat}

/-- The bitmap of a user task is one of the pages of the region. -/
structure Region (map : Bitmap) : Prop where
  length : map.length = userMmapSize / pageSize / 8
  offset : map.offset = userMmapAddr / pageSize

/-- The page at an address lies in the region. -/
def InRegion (page : Nat) : Prop :=
  userMmapAddr ≤ page ∧ page + pageSize ≤ userMmapAddr + userMmapSize

theorem InRegion.user {page : Nat} (inRegion : InRegion page) : page < kernelVaddrOffset := by
  have below := inRegion.2
  simp only [pageSize, userMmapAddr, userMmapSize, userStackBottom, userStackTop,
    kernelVaddrOffset] at below ⊢
  omega

/-- A bitmap has a bit for a page. -/
def HasBit (map : Bitmap) (page : Nat) : Prop :=
  map.offset ≤ page / pageSize ∧ (page / pageSize - map.offset) / 8 < map.length

/-- A page that the bitmap has a bit for lies in the region. -/
theorem Region.inside {map : Bitmap} (region : Region map) {page : Nat}
    (hasBit : HasBit map page) : InRegion page := by
  obtain ⟨above, below⟩ := hasBit
  rw [region.offset] at above below
  rw [region.length] at below
  simp only [InRegion, pageSize, userMmapAddr, userMmapSize, userStackBottom, userStackTop,
    kernelVaddrOffset] at above below ⊢
  omega

namespace Machine

variable {s middle after : Machine} {spaces : Spaces} {pid dir vaddr page index : Nat}
  {map : Bitmap} {value : Bool} {args : MmapArgs}

/-- `bitmap_set` changes one bit, and no byte outside the bitmap. -/
theorem bitmapSet_spec (isSet : s.bitmapSet map index value = .ok after) :
    map.offset ≤ index ∧ (index - map.offset) / 8 < map.length ∧
      (∃ memory touched, after = { s with memory := memory, touched := touched }) ∧
      (∀ other, map.bit after.memory other =
        if other = index - map.offset then value else map.bit s.memory other) ∧
      ∀ address, address < map.bits ∨ map.bits + map.length ≤ address →
        after.memory address = s.memory address := by
  simp only [bitmapSet, bind_eq_ok] at isSet
  obtain ⟨memory, written, result⟩ := isSet
  cases result
  have bounds : map.offset ≤ index ∧ (index - map.offset) / 8 < map.length := by
    simp only [Bitmap.set, bind_eq_ok, check_eq_ok] at written
    obtain ⟨_, above, _, below, _⟩ := written
    exact ⟨above, below⟩
  obtain ⟨above, below⟩ := bounds
  have inside : index - map.offset < map.length * 8 := by omega
  obtain ⟨changed, isChanged, bits, outside⟩ := map.set_spec s.memory inside value
  rw [Nat.add_sub_cancel' above, written] at isChanged
  cases isChanged
  exact ⟨above, below, ⟨memory, _, rfl⟩, bits, outside⟩

theorem bitmapSet_serves (inUse : s.InUse spaces pid dir userTables)
    (isSet : s.bitmapSet map index value = .ok after) : Serves spaces pid dir s after := by
  obtain ⟨_, _, ⟨memory, touched, rfl⟩, _⟩ := bitmapSet_spec isSet
  exact .of_tasks inUse (fun _ => rfl) (fun _ _ => rfl) memory touched

/-- A page of the region is linked or unlinked, and its bit follows. -/
structure Marks (spaces : Spaces) (pid : Nat) (map : Bitmap) (value : Bool) (page : Nat)
    (s after : Machine) : Prop where
  hasBit : HasBit map page
  same : SameBut spaces s after (placeOf pid page)
  linked : (refersIn after.frames spaces (placeOf pid page)).isSome = value
  bits : ∀ other, map.bit after.memory other =
    if other = page / pageSize - map.offset then value else map.bit s.memory other
  outside : ∀ address, address < map.bits ∨ map.bits + map.length ≤ address →
    after.memory address = s.memory address

/-- A round of the loop of `sys_mmap` links a page. -/
theorem mmapPage_spec (inUse : s.InUse spaces pid dir userTables) (region : Region map)
    (mapped : mmapPage args map vaddr s index = .ok after) :
    Serves spaces pid dir s after ∧
      Marks spaces pid map true ((vaddr + pageSize * index) % 2 ^ 32) s after := by
  simp only [mmapPage, bind_eq_ok] at mapped
  generalize (vaddr + pageSize * index) % 2 ^ 32 = page at mapped ⊢
  obtain ⟨one, isLinked, two, isSet, ⟨entry, three⟩, got, result⟩ := mapped
  obtain ⟨above, below, ⟨memory, touched, isTwo⟩, bits, outside⟩ := bitmapSet_spec isSet
  have hasBit : HasBit map page := ⟨above, below⟩
  have user := (region.inside hasBit).user
  have linkKept := linkUserPage_kept isLinked
  obtain ⟨first, isSome⟩ := linkUserPage_serves inUse user isLinked
  obtain ⟨_, _, same, _⟩ := linkUserPage_spec inUse (pdeIdx_lt user) isLinked
  have second := bitmapSet_serves first.inUse isSet
  obtain ⟨table, tables, within, points, sameEntries⟩ :=
    getPte_spec second.inUse.tables second.inUse.space second.inUse.isDir (pdeIdx_lt user) got
  obtain ⟨third, _⟩ := getPte_serves second.inUse user got
  have samePage : (mmapEntry args (three.read entry)).page = (three.read entry).page := by
    unfold mmapEntry Entry.page
    split
    · split
      · rfl
      split
      · rfl
      · rfl
    · split
      · rfl
      split
      · rfl
      · rfl
  have fourth := writeFlags_serves third.inUse points samePage
  obtain ⟨_, _, sameFlags⟩ := writeFlags_spec tables points samePage
  have getKept := getPte_kept got
  rw [← Except.ok.inj result]
  have entries (owner number position : Nat) :
      refersIn (three.write entry (mmapEntry args (three.read entry))).frames spaces
        (owner, number, position + 1) =
          refersIn one.frames spaces (owner, number, position + 1) := by
    rw [sameFlags, sameEntries, isTwo]
  have sameMemory : (three.write entry (mmapEntry args (three.read entry))).memory =
      two.memory := getKept.memory
  refine ⟨first.trans (second.trans (third.trans fourth)), hasBit,
    fun owner number position different => ?_, ?_, fun other => ?_, fun address away => ?_⟩
  · rw [entries]
    exact same owner number position different
  · rw [entries]
    exact isSome
  · rw [sameMemory, bits, linkKept.memory]
  · rw [sameMemory, outside address away, linkKept.memory]

/-- A round of the loop of `sys_munmap` unlinks a page. -/
theorem munmapPage_spec (inUse : s.InUse spaces pid dir userTables) (region : Region map)
    (unmapped : munmapPage map vaddr s index = .ok after) :
    Orders spaces pid dir s after ∧
      Marks spaces pid map false ((vaddr + pageSize * index) % 2 ^ 32) s after := by
  simp only [munmapPage, bind_eq_ok] at unmapped
  generalize (vaddr + pageSize * index) % 2 ^ 32 = page at unmapped ⊢
  obtain ⟨one, unlinked, ⟨bit, two⟩, tested, _, _, isSet⟩ := unmapped
  obtain ⟨above, below, ⟨memory, touched, isAfter⟩, bits, outside⟩ := bitmapSet_spec isSet
  have hasBit : HasBit map page := ⟨above, below⟩
  have user := (region.inside hasBit).user
  have unlinkKept := unlinkUserPage_kept unlinked
  obtain ⟨inUseOne, within, same, isNone⟩ :=
    unlinkUserPage_spec inUse (pdeIdx_lt user) unlinked
  simp only [bitmapTest, bind_eq_ok] at tested
  obtain ⟨_, _, result⟩ := tested
  cases result
  have second : Serves spaces pid dir one after := by
    rw [isAfter]
    exact .of_tasks inUseOne (fun _ => rfl) (fun _ _ => rfl) memory touched
  have frames : after.frames = one.frames := by rw [isAfter]
  refine ⟨Orders.trans ⟨inUseOne, within⟩ second.toOrders, hasBit,
    fun owner number position different => ?_, ?_, fun other => ?_, fun address away => ?_⟩
  · rw [frames]
    exact same owner number position different
  · rw [frames, isNone]
    rfl
  · rw [bits, unlinkKept.memory]
  · rw [outside address away, unlinkKept.memory]

/-! ## Whole calls -/

/-- Pages of the region are linked or unlinked, with their bits, and nothing else is. -/
structure Processed (spaces : Spaces) (pid : Nat) (map : Bitmap) (value : Bool)
    (pages : List Nat) (s after : Machine) : Prop where
  hasBits : ∀ page ∈ pages, HasBit map page
  linked : ∀ page ∈ pages, (refersIn after.frames spaces (placeOf pid page)).isSome = value
  marked : ∀ page ∈ pages, map.bit after.memory (page / pageSize - map.offset) = value
  others : ∀ owner index position,
    (∀ page ∈ pages, (owner, index, position + 1) ≠ placeOf pid page) →
      refersIn after.frames spaces (owner, index, position + 1) =
        refersIn s.frames spaces (owner, index, position + 1)
  unmarked : ∀ other, (∀ page ∈ pages, other ≠ page / pageSize - map.offset) →
    map.bit after.memory other = map.bit s.memory other
  outside : ∀ address, address < map.bits ∨ map.bits + map.length ≤ address →
    after.memory address = s.memory address

namespace Processed

variable {pages : List Nat}

theorem nil (s : Machine) : Processed spaces pid map value [] s s :=
  ⟨nofun, nofun, nofun, fun _ _ _ _ => rfl, fun _ _ => rfl, fun _ _ => rfl⟩

/-- One page more. -/
theorem snoc (done : Processed spaces pid map value pages s middle)
    (marks : Marks spaces pid map value page middle after) :
    Processed spaces pid map value (pages ++ [page]) s after := by
  have cases {Good : Nat → Prop} (before : ∀ other ∈ pages, Good other) (last : Good page) :
      ∀ other ∈ pages ++ [page], Good other := by
    intro other isOther
    rcases List.mem_append.mp isOther with isBefore | isLast
    · exact before other isBefore
    · rw [List.mem_singleton.mp isLast]
      exact last
  refine ⟨cases done.hasBits marks.hasBit, cases (fun other isOther => ?linked) marks.linked,
    cases (fun other isOther => ?marked) ?last, fun owner number position away => ?others,
    fun other away => ?unmarked, fun address away => ?outside⟩
  case linked =>
    by_cases isPlace : placeOf pid other = placeOf pid page
    · rw [isPlace]
      exact marks.linked
    · rw [marks.same pid (pdeIdx other) (pteIdx other) isPlace]
      exact done.linked other isOther
  case marked =>
    rw [marks.bits]
    split
    · rfl
    · exact done.marked other isOther
  case last =>
    rw [marks.bits, if_pos rfl]
  case others =>
    rw [marks.same owner number position (away page (by simp))]
    exact done.others owner number position fun other isOther =>
      away other (List.mem_append_left _ isOther)
  case unmarked =>
    rw [marks.bits, if_neg (away page (by simp))]
    exact done.unmarked other fun page isPage => away page (List.mem_append_left _ isPage)
  case outside =>
    rw [marks.outside address away]
    exact done.outside address away

end Processed

/-- The pages that `sys_mmap` and `sys_munmap` go through. -/
def pagesFrom (vaddr length : Nat) : List Nat :=
  (List.range (Fs.divRoundUp length pageSize)).map fun index =>
    (vaddr + pageSize * index) % 2 ^ 32

/-- The loop of `sys_mmap`. -/
theorem mmapPages_spec (inUse : s.InUse spaces pid dir userTables) (region : Region map)
    (mapped : (List.range count).foldlM (mmapPage args map vaddr) s = .ok after) :
    Serves spaces pid dir s after ∧
      Processed spaces pid map true
        ((List.range count).map fun index => (vaddr + pageSize * index) % 2 ^ 32) s after := by
  refine foldlM_range (fun middle count => Serves spaces pid dir s middle ∧
    Processed spaces pid map true
      ((List.range count).map fun index => (vaddr + pageSize * index) % 2 ^ 32) s middle)
    (fun before index next _ ⟨served, processed⟩ taken => ?_) ⟨.refl inUse, .nil s⟩ mapped
  obtain ⟨more, marks⟩ := mmapPage_spec served.inUse region taken
  rw [List.range_succ, List.map_append]
  exact ⟨served.trans more, processed.snoc marks⟩

/-- The loop of `sys_munmap`. -/
theorem munmapPages_spec (inUse : s.InUse spaces pid dir userTables) (region : Region map)
    (unmapped : (List.range count).foldlM (munmapPage map vaddr) s = .ok after) :
    Orders spaces pid dir s after ∧
      Processed spaces pid map false
        ((List.range count).map fun index => (vaddr + pageSize * index) % 2 ^ 32) s after := by
  refine foldlM_range (fun middle count => Orders spaces pid dir s middle ∧
    Processed spaces pid map false
      ((List.range count).map fun index => (vaddr + pageSize * index) % 2 ^ 32) s middle)
    (fun before index next _ ⟨ordered, processed⟩ taken => ?_) ⟨.refl inUse, .nil s⟩ unmapped
  obtain ⟨more, marks⟩ := munmapPage_spec ordered.inUse region taken
  rw [List.range_succ, List.map_append]
  exact ⟨ordered.trans more, processed.snoc marks⟩

/-- The pages that a call goes through are as many as the length needs, unless the sum in
`div_round_up` leaves the 32 bits. -/
theorem divRoundUp_pageSize (positive : 0 < length) (small : length ≤ 2 ^ 32 - pageSize) :
    Fs.divRoundUp length pageSize = (length + (pageSize - 1)) / pageSize := by
  simp only [pageSize] at small ⊢
  rw [Fs.divRoundUp, add32, sub32]
  rcases Nat.lt_or_eq_of_le small with below | rfl
  · rw [Nat.mod_eq_of_lt (by omega), if_pos (by omega)]
    rfl
  · rfl

theorem divRoundUp_wraps (large : 2 ^ 32 - pageSize < length) (bounded : length < 2 ^ 32) :
    Fs.divRoundUp length pageSize = 0 := by
  simp only [pageSize] at large ⊢
  have wrapped : (length + 4096) % 2 ^ 32 = length + 4096 - 2 ^ 32 := by omega
  rw [Fs.divRoundUp, add32, sub32, wrapped, if_pos (by omega)]
  omega

theorem placeOf_congr {other : Nat} (samePage : other / pageSize = vaddr / pageSize) :
    placeOf pid other = placeOf pid vaddr := by
  change other / 4096 = vaddr / 4096 at samePage
  have sameTable : pdeIdx other = pdeIdx vaddr := by
    change other / 2 ^ 22 = vaddr / 2 ^ 22
    omega
  have sameEntry : pteIdx other = pteIdx vaddr := by
    change other / 2 ^ 12 % 2 ^ 10 = vaddr / 2 ^ 12 % 2 ^ 10
    omega
  rw [placeOf, sameTable, sameEntry]

/-- Pages of user programs have different places. -/
theorem page_of_placeOf {other : Nat} (same : placeOf pid page = placeOf pid other) :
    page / pageSize = other / pageSize := by
  simp only [placeOf, Prod.mk.injEq, true_and, Nat.add_right_cancel_iff] at same
  obtain ⟨sameTable, sameEntry⟩ := same
  change page / 2 ^ 22 = other / 2 ^ 22 at sameTable
  change page / 2 ^ 12 % 2 ^ 10 = other / 2 ^ 12 % 2 ^ 10 at sameEntry
  change page / 4096 = other / 4096
  omega

/-- A store to an address that is mapped changes no entry. -/
theorem kernelStore_same (inUse : s.InUse spaces pid dir userTables) {word : Entry}
    (isSome : (refersIn s.frames spaces (placeOf pid vaddr)).isSome = true)
    (stored : s.kernelStore vaddr word = .ok after) :
    Serves spaces pid dir s after ∧ Kept s after ∧
      ∀ owner index position, refersIn after.frames spaces (owner, index, position + 1) =
        refersIn s.frames spaces (owner, index, position + 1) := by
  have served := (kernelStore_serves inUse vaddr word).1 after stored
  have kept := (kernelStore_kept s vaddr word).1 after stored
  simp only [kernelStore, bind_eq_ok, lift_eq_ok, bounded_eq_ok, inUse.isDir,
    Except.ok.injEq] at stored
  obtain ⟨_, user, directory, rfl, stored⟩ := stored
  have mapped := (mapped_iff inUse user).mpr isSome
  rw [if_pos mapped] at stored
  cases stored
  refine ⟨served, kept, fun owner index position => ?_⟩
  rw [setAt_refersIn inUse user mapped]

/-- Stores to addresses that are mapped change no entry. -/
theorem kernelStores_same (inUse : s.InUse spaces pid dir userTables) {words : Nat → Entry}
    (isSome : ∀ index < (vaddr % 4 + length + 3) / 4, (refersIn s.frames spaces
      (placeOf pid ((vaddr / 4 * 4 + 4 * index) % 2 ^ 32))).isSome = true)
    (stored : s.kernelStores vaddr length words = .ok after) :
    Serves spaces pid dir s after ∧ Kept s after ∧
      ∀ owner index position, refersIn after.frames spaces (owner, index, position + 1) =
        refersIn s.frames spaces (owner, index, position + 1) := by
  refine foldlM_invariant (fun middle => Serves spaces pid dir s middle ∧ Kept s middle ∧
    ∀ owner index position, refersIn middle.frames spaces (owner, index, position + 1) =
      refersIn s.frames spaces (owner, index, position + 1))
    (fun before index next inRange ⟨served, kept, same⟩ taken => ?_)
    ⟨.refl inUse, .refl s, fun _ _ _ => rfl⟩ stored
  have still : (refersIn before.frames spaces
      (placeOf pid ((vaddr / 4 * 4 + 4 * index) % 2 ^ 32))).isSome = true := by
    rw [same]
    exact isSome index (List.mem_range.mp inRange)
  obtain ⟨more, keeps, sameNext⟩ := kernelStore_same served.inUse still taken
  exact ⟨served.trans more, kept.trans keeps, fun owner index position =>
    (sameNext owner index position).trans (same owner index position)⟩

/-- An address that is mapped is one of user programs. -/
theorem user_of_isSome (inUse : s.InUse spaces pid dir userTables)
    (isSome : (refersIn s.frames spaces (placeOf pid vaddr)).isSome = true) :
    vaddr < kernelVaddrOffset := by
  obtain ⟨page, isPage⟩ := Option.isSome_iff_exists.mp isSome
  obtain ⟨table, isTable, _⟩ := exists_of_refersIn_succ isPage
  obtain ⟨directory, limit, space, inOrder, _⟩ := exists_of_tableOf isTable
  rw [inUse.space] at space
  cases space
  change vaddr / 2 ^ 22 < 768 at inOrder
  change vaddr < 0xC0000000
  omega

/-- A store to an address that is mapped returns. -/
theorem kernelStore_returns (inUse : s.InUse spaces pid dir userTables) (word : Entry)
    (isSome : (refersIn s.frames spaces (placeOf pid vaddr)).isSome = true) :
    ∃ after, s.kernelStore vaddr word = .ok after := by
  have user := user_of_isSome inUse isSome
  have mapped := (mapped_iff inUse user).mpr isSome
  refine ⟨s.setAt dir vaddr word, ?_⟩
  rw [kernelStore, bounded_true user, inUse.isDir]
  exact if_pos mapped

theorem kernelStores_returns (inUse : s.InUse spaces pid dir userTables) (words : Nat → Entry)
    (isSome : ∀ index < (vaddr % 4 + length + 3) / 4, (refersIn s.frames spaces
      (placeOf pid ((vaddr / 4 * 4 + 4 * index) % 2 ^ 32))).isSome = true) :
    ∃ after, s.kernelStores vaddr length words = .ok after := by
  have rounds (before : Machine) (done : List Nat) (index : Nat) (rest : List Nat)
      (isItems : List.range ((vaddr % 4 + length + 3) / 4) = done ++ index :: rest)
      (served : Serves spaces pid dir s before) :
      ∃ after, before.kernelStore ((vaddr / 4 * 4 + 4 * index) % 2 ^ 32) (words index) =
        .ok after ∧ Serves spaces pid dir s after := by
    have inRange : index < (vaddr % 4 + length + 3) / 4 := by
      rw [← List.mem_range, isItems]
      exact List.mem_append_right _ List.mem_cons_self
    obtain ⟨after, stored⟩ := kernelStore_returns served.inUse (words index)
      (served.grows _ _ _ (isSome index inRange))
    exact ⟨after, stored, served.trans ((kernelStore_serves served.inUse _ _).1 after stored)⟩
  obtain ⟨after, stored, _⟩ := foldlM_prefix (fun middle _ => Serves spaces pid dir s middle)
    rounds (List.nil_append _).symm (.refl inUse)
  exact ⟨after, stored⟩

namespace Processed

variable {pages : List Nat}

/-- Bits of the pages may have been set before. -/
theorem before (processed : Processed spaces pid map value pages middle after)
    (entries : middle.frames = s.frames)
    (bits : ∀ other, (∀ page ∈ pages, other ≠ page / pageSize - map.offset) →
      map.bit middle.memory other = map.bit s.memory other)
    (outside : ∀ address, address < map.bits ∨ map.bits + map.length ≤ address →
      middle.memory address = s.memory address) :
    Processed spaces pid map value pages s after :=
  ⟨processed.hasBits, processed.linked, processed.marked,
    fun owner index position away => entries ▸ processed.others owner index position away,
    fun other away => (processed.unmarked other away).trans (bits other away),
    fun address away => (processed.outside address away).trans (outside address away)⟩

/-- Afterwards entries and bits may stay as they are. -/
theorem behind (processed : Processed spaces pid map value pages s middle)
    (entries : ∀ owner index position,
      refersIn after.frames spaces (owner, index, position + 1) =
        refersIn middle.frames spaces (owner, index, position + 1))
    (memory : after.memory = middle.memory) :
    Processed spaces pid map value pages s after := by
  refine ⟨processed.hasBits, fun page isPage => ?_, ?_, fun owner index position away => ?_,
    ?_, ?_⟩
  · rw [entries]
    exact processed.linked page isPage
  · rw [memory]
    exact processed.marked
  · rw [entries]
    exact processed.others owner index position away
  · rw [memory]
    exact processed.unmarked
  · rw [memory]
    exact processed.outside

end Processed

/-- `bitmap_scan` changes bytes of the bitmap only. -/
theorem bitmapScan_serves (inUse : s.InUse spaces pid dir userTables) {found : Option Nat}
    (scanned : s.bitmapScan map count = .ok (found, after)) : Serves spaces pid dir s after := by
  simp only [bitmapScan, bind_eq_ok] at scanned
  obtain ⟨result, _, scanned⟩ := scanned
  cases result with
  | none =>
      cases scanned
      exact .of_tasks inUse (fun _ => rfl) (fun _ _ => rfl) s.memory _
  | some result =>
      cases scanned
      exact .of_tasks inUse (fun _ => rfl) (fun _ _ => rfl) _ _

theorem mmapStart_serves (inUse : s.InUse spaces pid dir userTables)
    (started : s.mmapStart args map = .ok (vaddr, after)) : Serves spaces pid dir s after := by
  simp only [mmapStart] at started
  split at started
  · simp only [bind_eq_ok] at started
    obtain ⟨⟨found, middle⟩, scanned, result⟩ := started
    cases result
    exact bitmapScan_serves inUse scanned
  · cases started
    exact .refl inUse

/-- `sys_mmap` keeps the tables in order. -/
theorem sysMmap_serves (inUse : s.InUse spaces pid dir userTables)
    (region : ∀ task, s.getCurrent = .ok task → Region task.vmap) (args : MmapArgs) :
    Leaves (Serves spaces pid dir s) (do
      let (_, s) ← s.sysMmap args
      return s) := by
  unfold sysMmap
  simp only [bind_assoc]
  refine .bind_lift fun _ _ => .bind_lift fun _ _ => .bind_lift fun task isTask => ?_
  refine .bind_lift fun found started => .bind_lift fun _ _ => ?_
  obtain ⟨start, one⟩ := found
  have first := mmapStart_serves inUse started
  refine .bind_lift fun two mapped => ?_
  have second := first.trans (mmapPages_spec first.inUse (region task isTask) mapped).1
  cases args.file with
  | none => exact .ok second
  | some file =>
      dsimp only
      simp only [bind_assoc]
      refine .bind ((kernelStores_serves second.inUse _ _ _).mono fun _ more =>
        second.trans more) fun three stored => ?_
      exact .ok (second.trans ((kernelStores_serves second.inUse _ _ _).1 three stored))

/-- `sys_munmap` keeps the tables in order. -/
theorem sysMunmap_orders (inUse : s.InUse spaces pid dir userTables)
    (region : ∀ task, s.getCurrent = .ok task → Region task.vmap) {result : Int}
    (called : s.sysMunmap vaddr length = .ok (result, after)) : Orders spaces pid dir s after := by
  simp only [sysMunmap, bind_eq_ok] at called
  obtain ⟨task, isTask, _, _, _, _, middle, unmapped, result⟩ := called
  cases result
  exact (munmapPages_spec inUse (region task isTask) unmapped).1

end Machine

end UserMemory
end LightOS
