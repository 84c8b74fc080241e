import LightOS.UserMemory.Tasks

/-!
# What calls on page tables keep

The functions that change page tables keep the tasks and the bitmaps.  Calls that may exit
are described by what holds of the state in which they return or exit.
-/

namespace LightOS
namespace UserMemory

/-- A call that returns or exits in a state with a property. -/
def Leaves (Good : Machine → Prop) (call : Except Stop Machine) : Prop :=
  (∀ s, call = .ok s → Good s) ∧ ∀ status s, call = .error (.exit status s) → Good s

namespace Leaves

variable {Good : Machine → Prop} {α : Type}

theorem ok {s : Machine} (good : Good s) : Leaves Good (.ok s) :=
  ⟨fun _ same => Except.ok.inj same ▸ good, nofun⟩

theorem exit {s : Machine} {status : Int} (good : Good s) :
    Leaves Good (.error (.exit status s)) := by
  refine ⟨nofun, fun _ _ same => ?_⟩
  cases same
  exact good

theorem fault (fault : Fault) : Leaves Good (.error (.fault fault)) :=
  ⟨nofun, nofun⟩

theorem lift {call : Except Fault Machine} (good : ∀ s, call = .ok s → Good s) :
    Leaves Good (lift call) := by
  cases call with
  | ok s => exact ok (good s rfl)
  | error stop => exact fault stop

/-- A call that begins with one that does not exit. -/
theorem bind_lift {call : Except Fault α} {next : α → Except Stop Machine}
    (good : ∀ result, call = .ok result → Leaves Good (next result)) :
    Leaves Good (UserMemory.lift call >>= next) := by
  cases call with
  | ok result => exact good result rfl
  | error stop => exact fault stop

/-- A call that is made of two. -/
theorem bind {call : Except Stop Machine} {next : Machine → Except Stop Machine}
    (first : Leaves Good call) (good : ∀ s, call = .ok s → Leaves Good (next s)) :
    Leaves Good (call >>= next) := by
  cases call with
  | ok s => exact good s rfl
  | error stop =>
      cases stop with
      | fault stop => exact fault stop
      | exit status s => exact exit (first.2 status s rfl)

/-- A loop whose rounds keep a property. -/
theorem foldlM {round : Machine → α → Except Stop Machine} {items : List α} {s : Machine}
    (good : Good s)
    (keeps : ∀ before item, item ∈ items → Good before → Leaves Good (round before item)) :
    Leaves Good (items.foldlM round s) := by
  induction items generalizing s with
  | nil => exact ok good
  | cons item items inductionHypothesis =>
      rw [List.foldlM_cons]
      refine bind (keeps s item List.mem_cons_self good) fun middle first => ?_
      exact inductionHypothesis ((keeps s item List.mem_cons_self good).1 middle first)
        fun before other inRest => keeps before other (List.mem_cons_of_mem _ inRest)

theorem mono {Better : Machine → Prop} {call : Except Stop Machine}
    (leaves : Leaves Better call) (better : ∀ s, Better s → Good s) : Leaves Good call :=
  ⟨fun s same => better s (leaves.1 s same),
    fun status s same => better s (leaves.2 status s same)⟩

end Leaves

/-- What is the same before and after a call on page tables. -/
structure Kept (s after : Machine) : Prop where
  tasks : after.tasks = s.tasks
  current : after.current = s.current
  memory : after.memory = s.memory
  touched : after.touched = s.touched

namespace Kept

variable {s middle after : Machine}

theorem refl (s : Machine) : Kept s s := ⟨rfl, rfl, rfl, rfl⟩

theorem trans (first : Kept s middle) (second : Kept middle after) : Kept s after :=
  ⟨second.tasks.trans first.tasks, second.current.trans first.current,
    second.memory.trans first.memory, second.touched.trans first.touched⟩

end Kept

namespace Machine

variable {s after : Machine} {vaddr paddr pde target index : Nat} {entry : EntryPointer}

theorem setWord_kept (s : Machine) (frame index : Nat) (word : Entry) :
    Kept s (s.setWord frame index word) := ⟨rfl, rfl, rfl, rfl⟩

theorem setFrame_kept (s : Machine) (frame : Nat) (words : Nat → Entry) :
    Kept s (s.setFrame frame words) := ⟨rfl, rfl, rfl, rfl⟩

theorem write_kept (s : Machine) (pointer : EntryPointer) (entry : Entry) :
    Kept s (s.write pointer entry) := ⟨rfl, rfl, rfl, rfl⟩

theorem setAt_kept (s : Machine) (pde vaddr : Nat) (word : Entry) :
    Kept s (s.setAt pde vaddr word) := ⟨rfl, rfl, rfl, rfl⟩

theorem setPages_kept (s : Machine) (pages : PageMaps) :
    Kept s { s with pages := pages } := ⟨rfl, rfl, rfl, rfl⟩

theorem map_kept (mapped : s.map paddr = .ok (vaddr, after)) : Kept s after := by
  simp only [map, bind_eq_ok] at mapped
  obtain ⟨_, _, result⟩ := mapped
  cases result
  exact ⟨rfl, rfl, rfl, rfl⟩

theorem unmap_kept (unmapped : s.unmap vaddr = .ok after) : Kept s after := by
  simp only [unmap, bind_eq_ok] at unmapped
  obtain ⟨_, _, result⟩ := unmapped
  cases result
  exact ⟨rfl, rfl, rfl, rfl⟩

theorem getUserPage_kept (got : s.getUserPage = .ok (paddr, after)) : Kept s after := by
  simp only [getUserPage, bind_eq_ok] at got
  obtain ⟨_, _, result⟩ := got
  cases result
  exact ⟨rfl, rfl, rfl, rfl⟩

theorem putUserPage_kept (put : s.putUserPage paddr = .ok after) : Kept s after := by
  simp only [putUserPage, bind_eq_ok] at put
  obtain ⟨_, _, result⟩ := put
  cases result
  exact ⟨rfl, rfl, rfl, rfl⟩

theorem allocKpage_kept {count : Nat} (allocated : s.allocKpage count = .ok (vaddr, after)) :
    Kept s after := by
  simp only [allocKpage, bind_eq_ok] at allocated
  obtain ⟨_, _, result⟩ := allocated
  cases result
  exact ⟨rfl, rfl, rfl, rfl⟩

theorem freeKpage_kept {count : Nat} (freed : s.freeKpage vaddr count = .ok after) :
    Kept s after := by
  simp only [freeKpage, bind_eq_ok] at freed
  obtain ⟨_, _, result⟩ := freed
  cases result
  exact ⟨rfl, rfl, rfl, rfl⟩

theorem getPte_kept (got : s.getPte vaddr = .ok (entry, after)) : Kept s after := by
  simp only [getPte, bind_eq_ok] at got
  obtain ⟨pde, _, got⟩ := got
  split at got
  · simp only [bind_eq_ok] at got
    obtain ⟨⟨kvaddr, middle⟩, mapped, result⟩ := got
    cases result
    exact map_kept mapped
  · simp only [bind_eq_ok] at got
    obtain ⟨⟨page, one⟩, isGot, ⟨kvaddr, two⟩, mapped, result⟩ := got
    cases result
    exact (getUserPage_kept isGot).trans
      ((setWord_kept _ _ _ _).trans ((map_kept mapped).trans (setFrame_kept _ _ _)))

theorem linkUserPage_kept (linked : s.linkUserPage vaddr = .ok after) : Kept s after := by
  simp only [linkUserPage, bind_eq_ok] at linked
  obtain ⟨⟨entry, one⟩, got, linked⟩ := linked
  split at linked
  · exact (getPte_kept got).trans (unmap_kept linked)
  · simp only [bind_eq_ok] at linked
    obtain ⟨⟨page, two⟩, isGot, unmapped⟩ := linked
    exact (getPte_kept got).trans
      ((getUserPage_kept isGot).trans ((write_kept _ _ _).trans (unmap_kept unmapped)))

theorem unlinkUserPage_kept (unlinked : s.unlinkUserPage vaddr = .ok after) : Kept s after := by
  simp only [unlinkUserPage, bind_eq_ok] at unlinked
  obtain ⟨_, _, ⟨entry, one⟩, got, unlinked⟩ := unlinked
  split at unlinked
  · simp only [bind_eq_ok] at unlinked
    obtain ⟨two, put, unmapped⟩ := unlinked
    exact (getPte_kept got).trans
      ((write_kept _ _ _).trans ((putUserPage_kept put).trans (unmap_kept unmapped)))
  · exact (getPte_kept got).trans (unmap_kept unlinked)

theorem copyOnWrite_kept (copied : s.copyOnWrite entry = .ok after) : Kept s after := by
  simp only [copyOnWrite, bind_eq_ok] at copied
  obtain ⟨_, _, ⟨page, one⟩, got, ⟨newVaddr, two⟩, newMapped, ⟨oldVaddr, three⟩, oldMapped,
    result⟩ := copied
  cases result
  have first : Kept s one := (setPages_kept s _).trans (getUserPage_kept got)
  exact first.trans ((map_kept newMapped).trans ((map_kept oldMapped).trans
    ((setFrame_kept _ _ _).trans (write_kept _ _ _))))

theorem pageFault_kept (s : Machine) (addr : Nat) (code : ErrorCode) :
    Leaves (Kept s) (s.pageFault addr code) := by
  unfold pageFault
  dsimp only
  refine .bind_lift fun task _ => .bind_lift fun _ _ => ?_
  split
  · exact .exit (Kept.refl s)
  split
  · refine .bind_lift fun _ _ => .bind_lift fun found got => ?_
    obtain ⟨entry, middle⟩ := found
    have kept := getPte_kept got
    refine .bind_lift fun _ _ => ?_
    refine .bind_lift fun _ _ => ?_
    refine .bind_lift fun _ _ => ?_
    refine .bind_lift fun _ _ => ?_
    split
    · exact .exit kept
    split
    · exact .lift fun after unmapped =>
        kept.trans ((write_kept _ _ _).trans (unmap_kept unmapped))
    · refine .bind_lift fun copied isCopied => ?_
      exact .lift fun after unmapped =>
        kept.trans ((copyOnWrite_kept isCopied).trans (unmap_kept unmapped))
  · split
    · exact .lift fun after linked => linkUserPage_kept linked
    · exact .exit (Kept.refl s)

theorem kernelStore_kept (s : Machine) (vaddr : Nat) (word : Entry) :
    Leaves (Kept s) (s.kernelStore vaddr word) := by
  rw [kernelStore]
  refine .bind_lift fun _ _ => .bind_lift fun pde _ => ?_
  split
  · exact .ok (setAt_kept _ _ _ _)
  · refine .bind (pageFault_kept _ _ _) fun middle faulted => ?_
    have kept := (pageFault_kept _ _ _).1 middle faulted
    split
    · exact .ok (kept.trans (setAt_kept _ _ _ _))
    · exact .fault _

theorem kernelStores_kept (s : Machine) (vaddr length : Nat) (words : Nat → Entry) :
    Leaves (Kept s) (s.kernelStores vaddr length words) :=
  .foldlM (Kept.refl s) fun before _ _ kept =>
    (kernelStore_kept before _ _).mono fun _ more => kept.trans more

theorem access_kept (s : Machine) (vaddr : Nat) (store : Option Entry) :
    Leaves (Kept s) (s.access vaddr store) := by
  rw [access]
  refine .bind_lift fun pde _ => ?_
  split
  · split
    · cases store with
      | none => exact .ok (Kept.refl s)
      | some word => exact .ok (setAt_kept _ _ _ _)
    · exact pageFault_kept _ _ _
  · exact pageFault_kept _ _ _

theorem shareEntry_kept (shared : shareEntry vaddr s index = .ok after) : Kept s after := by
  simp only [shareEntry] at shared
  split at shared
  · simp only [bind_eq_ok] at shared
    obtain ⟨_, _, result⟩ := shared
    cases result
    split
    · exact ⟨rfl, rfl, rfl, rfl⟩
    · exact ⟨rfl, rfl, rfl, rfl⟩
  · cases shared
    exact .refl s

/-- A loop whose rounds keep the tasks and the bitmaps. -/
theorem foldlM_kept {α : Type} {round : Machine → α → Except Fault Machine} {items : List α}
    (keeps : ∀ before item next, round before item = .ok next → Kept before next)
    (folded : items.foldlM round s = .ok after) : Kept s after :=
  foldlM_invariant (Kept s)
    (fun before item next _ kept taken => kept.trans (keeps before item next taken)) (.refl s)
    folded

theorem copyTable_kept (copied : copyTable pde target s index = .ok after) : Kept s after := by
  simp only [copyTable] at copied
  split at copied
  · simp only [bind_eq_ok] at copied
    obtain ⟨⟨page, one⟩, got, ⟨currentPte, two⟩, currentMapped, ⟨targetPte, three⟩,
      targetMapped, four, shared, five, currentUnmapped, targetUnmapped⟩ := copied
    have first : Kept s two := (getUserPage_kept got).trans
      ((setWord_kept _ _ _ _).trans (map_kept currentMapped))
    have second : Kept two four := (map_kept targetMapped).trans
      (foldlM_kept (fun _ _ _ shared => shareEntry_kept shared) shared)
    exact first.trans (second.trans ((setFrame_kept _ _ _).trans
      ((unmap_kept currentUnmapped).trans (unmap_kept targetUnmapped))))
  · cases copied
    exact .refl s

theorem copyPde_kept (copied : s.copyPde = .ok (target, after)) : Kept s after := by
  simp only [copyPde, bind_eq_ok] at copied
  obtain ⟨⟨page, middle⟩, allocated, pde, isPde, result⟩ := copied
  have isAfter := (Prod.mk.inj (Except.ok.inj result)).2
  rw [← isAfter]
  exact (allocKpage_kept allocated).trans (setFrame_kept _ _ _)

theorem copyPte_kept (copied : s.copyPte = .ok (target, after)) : Kept s after := by
  simp only [copyPte, bind_eq_ok] at copied
  obtain ⟨pde, _, ⟨directory, one⟩, isCopied, final, tables, result⟩ := copied
  cases result
  exact (copyPde_kept isCopied).trans
    (foldlM_kept (fun _ _ _ copied => copyTable_kept copied) tables)

theorem freeEntry_kept (freed : freeEntry vaddr s index = .ok after) : Kept s after := by
  simp only [freeEntry] at freed
  split at freed
  · simp only [bind_eq_ok] at freed
    obtain ⟨middle, put, result⟩ := freed
    cases result
    exact (putUserPage_kept put).trans (write_kept _ _ _)
  · cases freed
    exact .refl s

theorem freeTable_kept (freed : freeTable pde s index = .ok after) : Kept s after := by
  simp only [freeTable] at freed
  split at freed
  · simp only [bind_eq_ok] at freed
    obtain ⟨⟨table, one⟩, mapped, two, entries, three, unmapped, four, put, result⟩ := freed
    cases result
    exact (map_kept mapped).trans
      ((foldlM_kept (fun _ _ _ freed => freeEntry_kept freed) entries).trans
        ((unmap_kept unmapped).trans ((putUserPage_kept put).trans (setWord_kept _ _ _ _))))
  · cases freed
    exact .refl s

theorem freePte_kept (freed : s.freePte = .ok after) : Kept s after := by
  simp only [freePte, bind_eq_ok] at freed
  obtain ⟨pde, _, tables⟩ := freed
  exact foldlM_kept (fun _ _ _ freed => freeTable_kept freed) tables

theorem linkSegmentPage_kept (linked : linkSegmentPage vaddr s index = .ok after) :
    Kept s after := by
  simp only [linkSegmentPage, bind_eq_ok] at linked
  obtain ⟨_, _, linked⟩ := linked
  exact linkUserPage_kept linked

theorem protectPage_kept (isProtected : protectPage vaddr s index = .ok after) :
    Kept s after := by
  simp only [protectPage, bind_eq_ok] at isProtected
  obtain ⟨⟨entry, middle⟩, got, unmapped⟩ := isProtected
  exact (getPte_kept got).trans ((write_kept _ _ _).trans (unmap_kept unmapped))

end Machine

end UserMemory
end LightOS
