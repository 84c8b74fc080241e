import LightOS.UserMemory.Machine

/-!
# Mappings that are left behind

Which calls undo the mappings that they have made with `kmap`.  Two calls do not: `sys_mmap`
leaves the table of every page that it maps, and the branch of `page_fault` that copies a
page leaves the copy and the page that it has copied.
-/

namespace LightOS
namespace UserMemory
namespace Machine

variable {map : Bitmap} {args : MmapArgs} {s after : Machine} {vaddr paddr pde target index : Nat}
  {entry : EntryPointer}

/-- The mappings that have not been undone. -/
abbrev outstanding (s : Machine) : List (Nat × Nat) :=
  s.kmap.outstanding

@[simp] theorem setWord_kmap (s : Machine) (frame index : Nat) (word : Entry) :
    (s.setWord frame index word).kmap = s.kmap := rfl

@[simp] theorem setFrame_kmap (s : Machine) (frame : Nat) (words : Nat → Entry) :
    (s.setFrame frame words).kmap = s.kmap := rfl

@[simp] theorem write_kmap (s : Machine) (pointer : EntryPointer) (entry : Entry) :
    (s.write pointer entry).kmap = s.kmap := rfl

theorem getUserPage_kmap (got : s.getUserPage = .ok (paddr, after)) : after.kmap = s.kmap := by
  simp only [getUserPage, bind_eq_ok] at got
  obtain ⟨_, _, result⟩ := got
  cases result
  rfl

theorem putUserPage_kmap (put : s.putUserPage paddr = .ok after) : after.kmap = s.kmap := by
  simp only [putUserPage, bind_eq_ok] at put
  obtain ⟨_, _, result⟩ := put
  cases result
  rfl

theorem allocKpage_kmap {count : Nat} (allocated : s.allocKpage count = .ok (vaddr, after)) :
    after.kmap = s.kmap := by
  simp only [allocKpage, bind_eq_ok] at allocated
  obtain ⟨_, _, result⟩ := allocated
  cases result
  rfl

theorem map_outstanding (mapped : s.map paddr = .ok (vaddr, after)) :
    after.outstanding = (vaddr, paddr) :: s.outstanding := by
  simp only [map, bind_eq_ok] at mapped
  obtain ⟨⟨found, kmap⟩, isMapped, result⟩ := mapped
  cases result
  obtain ⟨slot, _, rfl, _, _, outstanding, _⟩ := KmapPool.kmap_spec isMapped
  exact outstanding

theorem unmap_outstanding (unmapped : s.unmap vaddr = .ok after) :
    after.outstanding = s.outstanding.eraseP fun mapping => mapping.1 = vaddr := by
  simp only [unmap, bind_eq_ok] at unmapped
  obtain ⟨kmap, isUnmapped, result⟩ := unmapped
  cases result
  obtain ⟨_, _, _, outstanding, _⟩ := KmapPool.kunmap_spec isUnmapped
  exact outstanding

/-- The mapping that has been made last is undone. -/
theorem unmap_last {mappings : List (Nat × Nat)} (unmapped : s.unmap vaddr = .ok after)
    (made : s.outstanding = (vaddr, paddr) :: mappings) : after.outstanding = mappings := by
  rw [unmap_outstanding unmapped, made, List.eraseP_cons_of_pos (by simp)]

/-- `get_pte` leaves the mapping of the table to its caller. -/
theorem getPte_outstanding (got : s.getPte vaddr = .ok (entry, after)) :
    ∃ paddr, after.outstanding = (entry.1, paddr) :: s.outstanding := by
  simp only [getPte, bind_eq_ok] at got
  obtain ⟨pde, _, got⟩ := got
  split at got
  · simp only [bind_eq_ok] at got
    obtain ⟨⟨kvaddr, middle⟩, mapped, result⟩ := got
    cases result
    exact ⟨_, map_outstanding mapped⟩
  · simp only [bind_eq_ok] at got
    obtain ⟨⟨page, middle⟩, isGot, ⟨kvaddr, final⟩, mapped, result⟩ := got
    cases result
    refine ⟨page, (map_outstanding mapped).trans ?_⟩
    change _ :: middle.kmap.outstanding = _
    rw [getUserPage_kmap isGot]

theorem linkUserPage_outstanding (linked : s.linkUserPage vaddr = .ok after) :
    after.outstanding = s.outstanding := by
  simp only [linkUserPage, bind_eq_ok] at linked
  obtain ⟨⟨entry, middle⟩, got, linked⟩ := linked
  obtain ⟨_, made⟩ := getPte_outstanding got
  split at linked
  · exact unmap_last linked made
  · simp only [bind_eq_ok] at linked
    obtain ⟨⟨page, next⟩, isGot, unmapped⟩ := linked
    rw [outstanding, ← getUserPage_kmap isGot] at made
    exact unmap_last unmapped made

theorem unlinkUserPage_outstanding (unlinked : s.unlinkUserPage vaddr = .ok after) :
    after.outstanding = s.outstanding := by
  simp only [unlinkUserPage, bind_eq_ok] at unlinked
  obtain ⟨_, _, ⟨entry, middle⟩, got, unlinked⟩ := unlinked
  obtain ⟨_, made⟩ := getPte_outstanding got
  split at unlinked
  · simp only [bind_eq_ok] at unlinked
    obtain ⟨next, put, unmapped⟩ := unlinked
    rw [outstanding, ← write_kmap, ← putUserPage_kmap put] at made
    exact unmap_last unmapped made
  · exact unmap_last unlinked made

/-- Copying a page leaves two mappings. -/
theorem copyOnWrite_outstanding (copied : s.copyOnWrite entry = .ok after) :
    after.outstanding.length = s.outstanding.length + 2 ∧
      ∀ mapping ∈ s.outstanding, mapping ∈ after.outstanding := by
  simp only [copyOnWrite, bind_eq_ok] at copied
  obtain ⟨_, _, ⟨page, one⟩, got, ⟨newVaddr, two⟩, newMapped, ⟨oldVaddr, three⟩, oldMapped,
    result⟩ := copied
  cases result
  have first : two.outstanding = (newVaddr, page) :: s.outstanding :=
    (map_outstanding newMapped).trans (by rw [outstanding, getUserPage_kmap got])
  have second : three.outstanding = (oldVaddr, _) :: two.outstanding := map_outstanding oldMapped
  rw [first] at second
  change three.outstanding.length = _ ∧ ∀ mapping ∈ s.outstanding, mapping ∈ three.outstanding
  rw [second]
  exact ⟨rfl, fun mapping present => List.mem_cons_of_mem _ (List.mem_cons_of_mem _ present)⟩

/-- The branch of `page_fault` that copies a page is taken. -/
def Copies (s : Machine) (addr : Nat) (code : ErrorCode) : Prop :=
  code.present = true ∧ ∃ entry middle, s.getPte addr = .ok (entry, middle) ∧
    middle.pages.memMap (middle.read entry).index ≠ 1

theorem pageFault_outstanding {addr : Nat} {code : ErrorCode}
    (faulted : s.pageFault addr code = .ok after) :
    ¬s.Copies addr code ∧ after.outstanding = s.outstanding ∨
      s.Copies addr code ∧ after.outstanding.length = s.outstanding.length + 2 := by
  simp only [pageFault, bind_eq_ok, lift_eq_ok, check_eq_ok] at faulted
  obtain ⟨task, _, _, _, faulted⟩ := faulted
  split at faulted
  · cases faulted
  split at faulted
  · rename_i isPresent
    simp only [bind_eq_ok, lift_eq_ok, check_eq_ok] at faulted
    obtain ⟨_, _, ⟨entry, middle⟩, got, _, _, _, _, _, _, _, _, faulted⟩ := faulted
    obtain ⟨_, made⟩ := getPte_outstanding got
    split at faulted
    · cases faulted
    split at faulted
    · rename_i once
      refine .inl ⟨?_, ?_⟩
      · rintro ⟨_, other, next, isGot, notOnce⟩
        rw [got] at isGot
        cases isGot
        exact notOnce once
      · rw [lift_eq_ok] at faulted
        exact unmap_last faulted made
    · rename_i notOnce
      refine .inr ⟨⟨isPresent, entry, middle, got, notOnce⟩, ?_⟩
      simp only [bind_eq_ok, lift_eq_ok] at faulted
      obtain ⟨copied, isCopied, faulted⟩ := faulted
      obtain ⟨two, kept⟩ := copyOnWrite_outstanding isCopied
      have present := kept (entry.1, _) (by rw [made]; exact List.mem_cons_self)
      rw [unmap_outstanding faulted, List.length_eraseP_of_mem present (by simp), two, made]
      rfl
  · rename_i notPresent
    refine .inl ⟨fun copies => notPresent copies.1, ?_⟩
    split at faulted
    · rw [lift_eq_ok] at faulted
      exact linkUserPage_outstanding faulted
    · cases faulted

/-- A store of the kernel does not go to a page that is mapped but must not be written. -/
theorem kernelStore_outstanding {word : Entry} (stored : s.kernelStore vaddr word = .ok after) :
    after.outstanding = s.outstanding := by
  simp only [kernelStore, bind_eq_ok, lift_eq_ok] at stored
  obtain ⟨_, _, pde, _, stored⟩ := stored
  split at stored
  · cases stored
    rfl
  · simp only [bind_eq_ok] at stored
    obtain ⟨middle, faulted, stored⟩ := stored
    have balanced : middle.outstanding = s.outstanding := by
      rcases pageFault_outstanding faulted with ⟨_, balanced⟩ | ⟨⟨isPresent, _⟩, _⟩
      · exact balanced
      · cases isPresent
    split at stored
    · cases stored
      exact balanced
    · cases stored

theorem kernelStores_outstanding {length : Nat} {words : Nat → Entry}
    (stored : s.kernelStores vaddr length words = .ok after) :
    after.outstanding = s.outstanding :=
  foldlM_invariant (fun middle => middle.outstanding = s.outstanding)
    (fun _ _ _ _ balanced stored => (kernelStore_outstanding stored).trans balanced) rfl stored

theorem shareEntry_kmap (shared : shareEntry vaddr s index = .ok after) :
    after.kmap = s.kmap := by
  simp only [shareEntry] at shared
  split at shared
  · simp only [bind_eq_ok] at shared
    obtain ⟨_, _, result⟩ := shared
    cases result
    dsimp only
    split
    · rfl
    · rfl
  · cases shared
    rfl

theorem copyTable_outstanding (copied : copyTable pde target s index = .ok after) :
    after.outstanding = s.outstanding := by
  simp only [copyTable] at copied
  split at copied
  · simp only [bind_eq_ok] at copied
    obtain ⟨⟨page, one⟩, got, ⟨currentPte, two⟩, currentMapped, ⟨targetPte, three⟩,
      targetMapped, four, shared, five, currentUnmapped, targetUnmapped⟩ := copied
    have first : two.outstanding = (currentPte, _) :: s.outstanding :=
      (map_outstanding currentMapped).trans
        (by rw [outstanding, setWord_kmap, getUserPage_kmap got])
    have second : three.outstanding = (targetPte, page) :: two.outstanding :=
      map_outstanding targetMapped
    have same : four.kmap = three.kmap :=
      foldlM_invariant (fun middle => middle.kmap = three.kmap)
        (fun _ _ _ _ kept shared => (shareEntry_kmap shared).trans kept) rfl shared
    have both : four.outstanding =
        (targetPte, page) :: (currentPte, (s.frames pde index).index * pageSize) ::
          s.outstanding :=
      (congrArg KmapPool.outstanding same).trans (second.trans (by rw [first]))
    have erased := unmap_outstanding currentUnmapped
    change five.outstanding = four.outstanding.eraseP _ at erased
    by_cases sameSlot : targetPte = currentPte
    · rw [both, List.eraseP_cons_of_pos (by simpa using sameSlot), ← sameSlot] at erased
      exact unmap_last targetUnmapped erased
    · rw [both, List.eraseP_cons_of_neg (by simpa using sameSlot),
        List.eraseP_cons_of_pos (by simp)] at erased
      exact unmap_last targetUnmapped erased
  · cases copied
    rfl

theorem copyPde_outstanding (copied : s.copyPde = .ok (target, after)) :
    after.outstanding = s.outstanding := by
  simp only [copyPde, bind_eq_ok] at copied
  obtain ⟨⟨page, middle⟩, allocated, pde, isPde, result⟩ := copied
  have isAfter := (Prod.mk.inj (Except.ok.inj result)).2
  rw [← isAfter, outstanding, setFrame_kmap, allocKpage_kmap allocated]

theorem copyPte_outstanding (copied : s.copyPte = .ok (target, after)) :
    after.outstanding = s.outstanding := by
  simp only [copyPte, bind_eq_ok] at copied
  obtain ⟨pde, _, ⟨directory, one⟩, isCopied, final, tables, result⟩ := copied
  cases result
  dsimp only at tables
  exact foldlM_invariant (fun middle => middle.outstanding = s.outstanding)
    (fun _ _ _ _ balanced copied => (copyTable_outstanding copied).trans balanced)
    (copyPde_outstanding isCopied) tables

theorem freeEntry_kmap (freed : freeEntry vaddr s index = .ok after) : after.kmap = s.kmap := by
  simp only [freeEntry] at freed
  split at freed
  · simp only [bind_eq_ok] at freed
    obtain ⟨middle, put, result⟩ := freed
    cases result
    rw [write_kmap]
    exact putUserPage_kmap put
  · cases freed
    rfl

theorem freeTable_outstanding (freed : freeTable pde s index = .ok after) :
    after.outstanding = s.outstanding := by
  simp only [freeTable] at freed
  split at freed
  · simp only [bind_eq_ok] at freed
    obtain ⟨⟨table, one⟩, mapped, two, entries, three, unmapped, four, put, result⟩ := freed
    cases result
    have made : one.outstanding = (table, _) :: s.outstanding := map_outstanding mapped
    have same : two.kmap = one.kmap :=
      foldlM_invariant (fun middle => middle.kmap = one.kmap)
        (fun _ _ _ _ kept freed => (freeEntry_kmap freed).trans kept) rfl entries
    rw [outstanding, ← same] at made
    change four.kmap.outstanding = _
    rw [putUserPage_kmap put]
    exact unmap_last unmapped made
  · cases freed
    rfl

theorem freePte_outstanding (freed : s.freePte = .ok after) :
    after.outstanding = s.outstanding := by
  simp only [freePte, bind_eq_ok] at freed
  obtain ⟨pde, _, tables⟩ := freed
  exact foldlM_invariant (fun middle => middle.outstanding = s.outstanding)
    (fun _ _ _ _ balanced freed => (freeTable_outstanding freed).trans balanced) rfl tables

theorem sysBrk_outstanding {brk : Nat} {result : Int}
    (called : s.sysBrk brk = .ok (result, after)) : after.outstanding = s.outstanding := by
  simp only [sysBrk, bind_eq_ok] at called
  obtain ⟨_, _, task, _, _, _, called⟩ := called
  split at called
  · cases called
    rfl
  split at called
  · cases called
    rfl
  split at called
  · simp only [bind_eq_ok] at called
    obtain ⟨middle, unlinked, result⟩ := called
    cases result
    exact foldlM_invariant (fun middle => middle.outstanding = s.outstanding)
      (fun _ _ _ _ balanced unlinked => (unlinkUserPage_outstanding unlinked).trans balanced)
      rfl unlinked
  split at called
  · cases called
    rfl
  · cases called
    rfl

theorem bitmapSet_kmap {value : Bool} (isSet : s.bitmapSet map index value = .ok after) :
    after.kmap = s.kmap := by
  simp only [bitmapSet, bind_eq_ok] at isSet
  obtain ⟨_, _, result⟩ := isSet
  cases result
  rfl

theorem bitmapTest_kmap {bit : Bool} (tested : s.bitmapTest map index = .ok (bit, after)) :
    after.kmap = s.kmap := by
  simp only [bitmapTest, bind_eq_ok] at tested
  obtain ⟨_, _, result⟩ := tested
  cases result
  rfl

theorem bitmapScan_kmap {count : Nat} {found : Option Nat}
    (scanned : s.bitmapScan map count = .ok (found, after)) : after.kmap = s.kmap := by
  simp only [bitmapScan, bind_eq_ok] at scanned
  obtain ⟨result, _, scanned⟩ := scanned
  cases result with
  | none =>
      cases scanned
      rfl
  | some result =>
      cases scanned
      rfl

/-- `sys_mmap` leaves the table of each page. -/
theorem mmapPage_outstanding (mapped : mmapPage args map vaddr s index = .ok after) :
    ∃ made, after.outstanding = made :: s.outstanding := by
  simp only [mmapPage, bind_eq_ok] at mapped
  obtain ⟨one, linked, two, isSet, ⟨entry, three⟩, got, result⟩ := mapped
  cases result
  obtain ⟨paddr, made⟩ := getPte_outstanding got
  have same : two.outstanding = s.outstanding := by
    rw [outstanding, bitmapSet_kmap isSet]
    exact linkUserPage_outstanding linked
  rw [same] at made
  exact ⟨_, made⟩

theorem mmapStart_kmap (started : s.mmapStart args map = .ok (vaddr, after)) :
    after.kmap = s.kmap := by
  simp only [mmapStart] at started
  split at started
  · simp only [bind_eq_ok] at started
    obtain ⟨⟨index, middle⟩, scanned, result⟩ := started
    cases result
    exact bitmapScan_kmap scanned
  · cases started
    rfl

theorem sysMmap_outstanding (called : s.sysMmap args = .ok (vaddr, after)) :
    s.outstanding <:+ after.outstanding ∧ after.outstanding.length =
      s.outstanding.length + Fs.divRoundUp args.length pageSize := by
  simp only [sysMmap, bind_eq_ok, lift_eq_ok] at called
  obtain ⟨_, _, _, _, task, _, ⟨start, one⟩, started, _, _, two, mapped, called⟩ := called
  have same := mmapStart_kmap started
  have longer : one.outstanding <:+ two.outstanding :=
    foldlM_invariant (fun middle => one.outstanding <:+ middle.outstanding)
      (fun before index after _ longer mapped => by
        obtain ⟨made, isMade⟩ := mmapPage_outstanding mapped
        rw [isMade]
        exact longer.trans (List.suffix_cons _ _))
      (List.suffix_refl _) mapped
  have counted : two.outstanding.length =
      one.outstanding.length + (List.range (Fs.divRoundUp args.length pageSize)).length :=
    foldlM_counts (fun middle => middle.outstanding.length)
      (fun before index after mapped => by
        obtain ⟨made, isMade⟩ := mmapPage_outstanding mapped
        rw [isMade, List.length_cons])
      mapped
  rw [outstanding, same] at longer
  rw [outstanding, outstanding, same, List.length_range] at counted
  split at called
  · cases called
    exact ⟨longer, counted⟩
  · simp only [bind_eq_ok] at called
    obtain ⟨three, stored, result⟩ := called
    cases result
    rw [kernelStores_outstanding stored]
    exact ⟨longer, counted⟩

theorem sysMunmap_outstanding {length : Nat} {result : Int}
    (called : s.sysMunmap vaddr length = .ok (result, after)) :
    after.outstanding = s.outstanding := by
  simp only [sysMunmap, bind_eq_ok] at called
  obtain ⟨task, _, _, _, _, _, middle, unmapped, result⟩ := called
  cases result
  refine foldlM_invariant (fun middle => middle.outstanding = s.outstanding)
    (fun before index after _ balanced round => ?_) rfl unmapped
  simp only [munmapPage, bind_eq_ok] at round
  obtain ⟨one, unlinked, ⟨bit, two⟩, tested, _, _, isSet⟩ := round
  rw [outstanding, bitmapSet_kmap isSet, bitmapTest_kmap tested]
  exact (unlinkUserPage_outstanding unlinked).trans balanced

theorem protectPage_outstanding (protected_ : protectPage vaddr s index = .ok after) :
    after.outstanding = s.outstanding := by
  simp only [protectPage, bind_eq_ok] at protected_
  obtain ⟨⟨entry, middle⟩, got, unmapped⟩ := protected_
  obtain ⟨_, made⟩ := getPte_outstanding got
  exact unmap_last unmapped made

theorem loadSegment_outstanding {segment : Segment}
    (loaded : s.loadSegment segment = .ok after) : after.outstanding = s.outstanding := by
  simp only [loadSegment, bind_eq_ok, lift_eq_ok] at loaded
  obtain ⟨_, _, _, _, one, linked, two, stored, three, cleared, four, isProtected, result⟩ := loaded
  cases result
  have first : one.outstanding = s.outstanding := by
    refine foldlM_invariant (fun middle => middle.outstanding = s.outstanding)
      (fun before index after _ balanced round => ?_) rfl linked
    simp only [linkSegmentPage, bind_eq_ok] at round
    obtain ⟨_, _, linked⟩ := round
    exact (linkUserPage_outstanding linked).trans balanced
  have second : three.outstanding = two.outstanding := by
    rw [clearSegment] at cleared
    split at cleared
    · exact kernelStores_outstanding cleared
    · cases cleared
      rfl
  have third : four.outstanding = three.outstanding := by
    rw [protectSegment] at isProtected
    split at isProtected
    · exact foldlM_invariant (fun middle => middle.outstanding = three.outstanding)
        (fun _ _ _ _ balanced round => (protectPage_outstanding round).trans balanced)
        rfl isProtected
    · cases isProtected
      rfl
  change four.outstanding = s.outstanding
  rw [third, second, kernelStores_outstanding stored, first]

/-! ## Calls -/

/-- A call that maps tables with `kmap`. -/
inductive Call
  | linkUserPage (vaddr : Nat)
  | unlinkUserPage (vaddr : Nat)
  | pageFault (addr : Nat) (code : ErrorCode)
  | copyPte
  | freePte
  | sysBrk (brk : Nat)
  | sysMmap (args : MmapArgs)
  | sysMunmap (addr length : Nat)
  | loadSegment (segment : Segment)

/-- Carry out a call. -/
def perform (s : Machine) : Call → Except Stop Machine
  | .linkUserPage vaddr => lift (s.linkUserPage vaddr)
  | .unlinkUserPage vaddr => lift (s.unlinkUserPage vaddr)
  | .pageFault addr code => s.pageFault addr code
  | .copyPte => do
      let (_, s) ← lift s.copyPte
      return s
  | .freePte => lift s.freePte
  | .sysBrk brk => do
      let (_, s) ← lift (s.sysBrk brk)
      return s
  | .sysMmap args => do
      let (_, s) ← s.sysMmap args
      return s
  | .sysMunmap addr length => do
      let (_, s) ← lift (s.sysMunmap addr length)
      return s
  | .loadSegment segment => s.loadSegment segment

/-- The calls that leave mappings behind: those of `sys_mmap` that map a page, and the page
faults that copy one. -/
def Leaks (s : Machine) : Call → Prop
  | .sysMmap args => 0 < Fs.divRoundUp args.length pageSize
  | .pageFault addr code => s.Copies addr code
  | _ => False

/-- A call that returns leaves the mappings as it found them, or it leaves more. -/
theorem perform_outstanding {call : Call} (performed : s.perform call = .ok after) :
    ¬s.Leaks call ∧ after.outstanding = s.outstanding ∨
      s.Leaks call ∧ s.outstanding.length < after.outstanding.length := by
  cases call with
  | linkUserPage vaddr => exact .inl ⟨id, linkUserPage_outstanding (lift_eq_ok.mp performed)⟩
  | unlinkUserPage vaddr => exact .inl ⟨id, unlinkUserPage_outstanding (lift_eq_ok.mp performed)⟩
  | pageFault addr code =>
      rcases pageFault_outstanding performed with balanced | ⟨copies, more⟩
      · exact .inl balanced
      · exact .inr ⟨copies, by omega⟩
  | copyPte =>
      simp only [perform, bind_eq_ok, lift_eq_ok] at performed
      obtain ⟨⟨target, middle⟩, copied, result⟩ := performed
      cases result
      exact .inl ⟨id, copyPte_outstanding copied⟩
  | freePte => exact .inl ⟨id, freePte_outstanding (lift_eq_ok.mp performed)⟩
  | sysBrk brk =>
      simp only [perform, bind_eq_ok, lift_eq_ok] at performed
      obtain ⟨⟨value, middle⟩, called, result⟩ := performed
      cases result
      exact .inl ⟨id, sysBrk_outstanding called⟩
  | sysMmap args =>
      simp only [perform, bind_eq_ok] at performed
      obtain ⟨⟨start, middle⟩, called, result⟩ := performed
      cases result
      obtain ⟨longer, counted⟩ := sysMmap_outstanding called
      dsimp only
      by_cases some : 0 < Fs.divRoundUp args.length pageSize
      · exact .inr ⟨some, by omega⟩
      · exact .inl ⟨some, (longer.eq_of_length (by omega)).symm⟩
  | sysMunmap addr length =>
      simp only [perform, bind_eq_ok, lift_eq_ok] at performed
      obtain ⟨⟨value, middle⟩, called, result⟩ := performed
      cases result
      exact .inl ⟨id, sysMunmap_outstanding called⟩
  | loadSegment segment => exact .inl ⟨id, loadSegment_outstanding performed⟩

/-- A call that returns leaves the multiset of mappings as it found it exactly when it is
not one of those that leave mappings behind. -/
theorem mappingsBalanced_iff_not_leaks {call : Call} (performed : s.perform call = .ok after) :
    after.outstanding.Perm s.outstanding ↔ ¬s.Leaks call := by
  rcases perform_outstanding performed with ⟨balanced, same⟩ | ⟨leaks, more⟩
  · rw [same]
    exact ⟨fun _ => balanced, fun _ => .refl _⟩
  · refine ⟨fun permuted => ?_, fun balanced => absurd leaks balanced⟩
    have sameLength := permuted.length_eq
    omega

/-- The mappings that have not been undone when a call returns. -/
def mappings : Except Stop Machine → Option (List (Nat × Nat))
  | .ok s => some s.outstanding
  | .error _ => none

theorem returns_of_mappings {call : Except Stop Machine} {left : List (Nat × Nat)}
    (computed : mappings call = some left) :
    ∃ after, call = .ok after ∧ after.outstanding = left := by
  cases call with
  | ok after => exact ⟨after, rfl, Option.some.inj computed⟩
  | error stop => cases computed

theorem mappingsBalanced_iff_not_leaks_link : ∃ after,
    vacant.perform (.linkUserPage userMmapAddr) = .ok after ∧
      (after.outstanding.Perm vacant.outstanding ↔
        ¬vacant.Leaks (.linkUserPage userMmapAddr)) := by
  have computed : mappings (vacant.perform (.linkUserPage userMmapAddr)) = some [] := by
    decide +kernel
  obtain ⟨after, performed, _⟩ := returns_of_mappings computed
  exact ⟨after, performed, mappingsBalanced_iff_not_leaks performed⟩

/-- `sys_mmap` of one page leaves the mapping of its table. -/
theorem mappingsBalanced_fails :
    ¬∀ s call after, perform s call = .ok after → after.outstanding.Perm s.outstanding := by
  intro always
  have computed : mappings (vacant.perform (.sysMmap ⟨userMmapAddr, pageSize, 3, 2, none⟩)) =
      some [(0xC1000000, 0x1000000)] := by
    decide +kernel
  obtain ⟨after, performed, left⟩ := returns_of_mappings computed
  have balanced := (always _ _ _ performed).length_eq
  rw [left] at balanced
  cases balanced

end Machine

end UserMemory
end LightOS
