import LightOS.UserMemory.Tables

/-!
# Loads, stores and page faults

Page faults and the accesses of the current task keep the tables in order, and they take no
page away from a task.
-/

namespace LightOS
namespace UserMemory

namespace Machine

variable {s middle after : Machine} {spaces : Spaces} {pid dir vaddr table page index : Nat}
  {entry : EntryPointer}

/-- A call of the current task keeps the tables in order. -/
structure Orders (spaces : Spaces) (pid dir : Nat) (s after : Machine) : Prop where
  inUse : after.InUse spaces pid dir userTables
  within : Within spaces s after

/-- A call keeps the tables in order, and what has been mapped stays mapped. -/
structure Serves (spaces : Spaces) (pid dir : Nat) (s after : Machine) : Prop
    extends Orders spaces pid dir s after where
  grows : ∀ owner index position,
    (refersIn s.frames spaces (owner, index, position + 1)).isSome = true →
      (refersIn after.frames spaces (owner, index, position + 1)).isSome = true

theorem Orders.refl (inUse : s.InUse spaces pid dir userTables) : Orders spaces pid dir s s :=
  ⟨inUse, .refl s⟩

theorem Orders.trans (first : Orders spaces pid dir s middle)
    (second : Orders spaces pid dir middle after) : Orders spaces pid dir s after :=
  ⟨second.inUse, first.within.trans second.within⟩

namespace Serves

theorem refl (inUse : s.InUse spaces pid dir userTables) : Serves spaces pid dir s s :=
  ⟨.refl inUse, fun _ _ _ => id⟩

theorem trans (first : Serves spaces pid dir s middle)
    (second : Serves spaces pid dir middle after) : Serves spaces pid dir s after :=
  ⟨first.toOrders.trans second.toOrders, fun owner index position mapped =>
    second.grows owner index position (first.grows owner index position mapped)⟩

/-- What tables refer to is the same. -/
theorem of_same (inUse : s.InUse spaces pid dir userTables) (tables : Tables after spaces)
    (within : Within spaces s after)
    (same : ∀ owner index position, refersIn after.frames spaces (owner, index, position + 1) =
      refersIn s.frames spaces (owner, index, position + 1)) : Serves spaces pid dir s after :=
  ⟨⟨inUse.next tables within, within⟩, fun owner index position mapped => by
    rw [same]
    exact mapped⟩

/-- A place gets a page. -/
theorem of_update (inUse : s.InUse spaces pid dir userTables) (tables : Tables after spaces)
    (within : Within spaces s after) {place : Place}
    (changes : refersIn after.frames spaces =
      Function.update (refersIn s.frames spaces) place (some page)) :
    Serves spaces pid dir s after := by
  refine ⟨⟨inUse.next tables within, within⟩, fun owner index position mapped => ?_⟩
  rw [changes]
  by_cases isPlace : (owner, index, position + 1) = place
  · rw [isPlace, Function.update_self]
    rfl
  · rw [Function.update_of_ne isPlace]
    exact mapped

/-- Bytes of bitmaps and the addresses of programs are no entries. -/
theorem of_tasks (inUse : s.InUse spaces pid dir userTables)
    {tasks : Nat → Option Task}
    (same : ∀ pid, (tasks pid).map Task.core = (s.tasks pid).map Task.core)
    (others : ∀ pid, pid ≠ s.current → tasks pid = s.tasks pid) (memory : Memory)
    (touched : List (Nat × Nat)) :
    Serves spaces pid dir s { s with tasks := tasks, memory := memory, touched := touched } :=
  .of_same inUse ⟨inUse.tables.apart, inUse.tables.accounts, inUse.tables.coherent,
      inUse.tables.bounded⟩
    ⟨same, others, rfl, rfl, rfl, fun _ _ => rfl, fun _ _ _ _ => rfl⟩ fun _ _ _ => rfl

theorem foldlM {α : Type} {round : Machine → α → Except Fault Machine} {items : List α}
    (inUse : s.InUse spaces pid dir userTables)
    (keeps : ∀ before item next, item ∈ items → before.InUse spaces pid dir userTables →
      round before item = .ok next → Serves spaces pid dir before next)
    (folded : items.foldlM round s = .ok after) : Serves spaces pid dir s after :=
  foldlM_invariant (Serves spaces pid dir s)
    (fun before item next isItem served taken =>
      served.trans (keeps before item next isItem served.inUse taken)) (.refl inUse) folded

end Serves

/-- The addresses of user programs are those of the first tables. -/
theorem pdeIdx_lt (user : vaddr < kernelVaddrOffset) : pdeIdx vaddr < userTables := by
  change vaddr / 2 ^ 22 < 768
  simp only [kernelVaddrOffset] at user
  omega

theorem getPte_serves (inUse : s.InUse spaces pid dir userTables)
    (user : vaddr < kernelVaddrOffset) (got : s.getPte vaddr = .ok (entry, after)) :
    Serves spaces pid dir s after ∧
      ∃ table, after.PointsTo spaces pid vaddr entry table := by
  obtain ⟨table, tables, within, points, same⟩ :=
    getPte_spec inUse.tables inUse.space inUse.isDir (pdeIdx_lt user) got
  exact ⟨.of_same inUse tables within same, table, points⟩

theorem unmap_serves (inUse : s.InUse spaces pid dir userTables)
    (unmapped : s.unmap vaddr = .ok after) : Serves spaces pid dir s after := by
  obtain ⟨tables, within, frames, _⟩ := unmap_keeps inUse.tables unmapped
  exact .of_same inUse tables within fun _ _ _ => by rw [frames]

theorem writeFlags_serves (inUse : s.InUse spaces pid dir userTables)
    (points : s.PointsTo spaces pid vaddr entry table) {word : Entry}
    (samePage : word.page = (s.read entry).page) :
    Serves spaces pid dir s (s.write entry word) := by
  obtain ⟨tables, within, same⟩ := writeFlags_spec inUse.tables points samePage
  exact .of_same inUse tables within fun _ _ _ => by rw [same]

/-- `link_user_page` gives a page to its address. -/
theorem linkUserPage_serves (inUse : s.InUse spaces pid dir userTables)
    (user : vaddr < kernelVaddrOffset) (linked : s.linkUserPage vaddr = .ok after) :
    Serves spaces pid dir s after ∧
      (refersIn after.frames spaces (placeOf pid vaddr)).isSome = true := by
  obtain ⟨inUseAfter, within, same, ⟨page, isPage⟩, _⟩ :=
    linkUserPage_spec inUse (pdeIdx_lt user) linked
  refine ⟨⟨⟨inUseAfter, within⟩, fun owner index position mapped => ?_⟩, by rw [isPage]; rfl⟩
  by_cases isPlace : (owner, index, position + 1) = placeOf pid vaddr
  · rw [isPlace, isPage]
    rfl
  · rw [same owner index position isPlace]
    exact mapped

/-- What `page_fault` does keeps the tables in order. -/
theorem pageFault_serves (inUse : s.InUse spaces pid dir userTables) (addr : Nat)
    (code : ErrorCode) : Leaves (Serves spaces pid dir s) (s.pageFault addr code) := by
  unfold pageFault
  dsimp only
  refine .bind_lift fun task _ => .bind_lift fun _ _ => ?_
  split
  · exact .exit (.refl inUse)
  rename_i isUser
  have user : addr < kernelVaddrOffset := by
    simp only [userStackTop, kernelVaddrOffset] at isUser ⊢
    omega
  split
  · refine .bind_lift fun _ _ => .bind_lift fun found got => ?_
    obtain ⟨entry, one⟩ := found
    obtain ⟨served, table, points⟩ := getPte_serves inUse user got
    refine .bind_lift fun _ isPresent => ?_
    refine .bind_lift fun _ _ => ?_
    refine .bind_lift fun _ _ => ?_
    refine .bind_lift fun _ _ => ?_
    split
    · exact .exit served
    split
    · refine .lift fun after unmapped => ?_
      have written : Serves spaces pid dir one
          (one.write entry { one.read entry with write := true }) :=
        writeFlags_serves served.inUse points rfl
      exact served.trans (written.trans (unmap_serves written.inUse unmapped))
    · refine .bind_lift fun copied isCopied => .lift fun after unmapped => ?_
      rw [check_eq_ok] at isPresent
      obtain ⟨page, pages, kmap, _, _, _, _, tables, within, changes⟩ :=
        copyOnWrite_spec served.inUse.tables points isPresent isCopied
      have copiedServes := Serves.of_update served.inUse tables within changes
      exact served.trans (copiedServes.trans (unmap_serves copiedServes.inUse unmapped))
  · split
    · exact .lift fun after linked => (linkUserPage_serves inUse user linked).1
    · exact .exit (.refl inUse)

/-- When the page is not present, `page_fault` returns with the page linked. -/
theorem pageFault_links (inUse : s.InUse spaces pid dir userTables) {write : Bool}
    (faulted : s.pageFault vaddr ⟨false, write⟩ = .ok after) :
    (refersIn after.frames spaces (placeOf pid vaddr)).isSome = true := by
  simp only [pageFault, bind_eq_ok, lift_eq_ok, check_eq_ok] at faulted
  obtain ⟨task, _, _, _, faulted⟩ := faulted
  split at faulted
  · cases faulted
  rename_i isUser
  have user : vaddr < kernelVaddrOffset := by
    simp only [userStackTop, kernelVaddrOffset] at isUser ⊢
    omega
  simp only [Bool.false_eq_true, if_false] at faulted
  split at faulted
  · rw [lift_eq_ok] at faulted
    exact (linkUserPage_serves inUse user faulted).2
  · cases faulted

/-! ## Loads and stores -/

/-- An address is mapped when its place refers to a page. -/
theorem mapped_spec (inUse : s.InUse spaces pid dir userTables)
    (user : vaddr < kernelVaddrOffset) (mapped : s.Mapped dir vaddr) :
    refersIn s.frames spaces (placeOf pid vaddr) = some (s.walk dir vaddr).2.index := by
  have isTable : tableOf s.frames spaces pid (pdeIdx vaddr) =
      some (s.walk dir vaddr).1.index := by
    rw [tableOf_eq inUse.space (pdeIdx_lt user)]
    exact if_pos mapped.1
  rw [refersIn_succ isTable (pteIdx_lt vaddr)]
  exact if_pos mapped.2

theorem mapped_iff (inUse : s.InUse spaces pid dir userTables)
    (user : vaddr < kernelVaddrOffset) : s.Mapped dir vaddr ↔
      (refersIn s.frames spaces (placeOf pid vaddr)).isSome = true := by
  constructor
  · intro mapped
    rw [mapped_spec inUse user mapped]
    rfl
  · intro isSome
    obtain ⟨page, isPage⟩ := Option.isSome_iff_exists.mp isSome
    obtain ⟨table, isTable, _, isEntry⟩ := exists_of_refersIn_succ isPage
    rw [tableOf_eq inUse.space (pdeIdx_lt user)] at isTable
    have isPresent {found : Entry} {number : Nat} (refersTo : found.page = some number) :
        found.present = true ∧ found.index = number := by
      unfold Entry.page at refersTo
      split at refersTo
      · rename_i present
        exact ⟨present, Option.some.inj refersTo⟩
      · cases refersTo
    obtain ⟨present, rfl⟩ := isPresent isTable
    exact ⟨present, (isPresent isEntry).1⟩

/-- A store changes the page that its address is mapped to, which holds no table. -/
theorem setAt_frames (inUse : s.InUse spaces pid dir userTables)
    (user : vaddr < kernelVaddrOffset) (mapped : s.Mapped dir vaddr) (word : Entry) :
    ∃ page, UserPage s.pages page ∧
      (∀ owner index, tableOf s.frames spaces owner index ≠ some page) ∧
      (s.setAt dir vaddr word).frames = writeAt s.frames page (vaddr % pageSize / 4) word := by
  have refersTo := mapped_spec inUse user mapped
  refine ⟨_, inUse.tables.accounts.user _ _ refersTo, fun owner index isTable => ?_, rfl⟩
  have isPlace := inUse.tables.accounts.sole owner index _ _ isTable refersTo
  cases isPlace

theorem setAt_refersIn (inUse : s.InUse spaces pid dir userTables)
    (user : vaddr < kernelVaddrOffset) (mapped : s.Mapped dir vaddr) (word : Entry) :
    refersIn (s.setAt dir vaddr word).frames spaces = refersIn s.frames spaces := by
  obtain ⟨page, isUser, notTable, frames⟩ := setAt_frames inUse user mapped word
  rw [frames]
  exact refersIn_data (inUse.tables.notDir isUser) notTable fun other away =>
    writeAt_frame away _ _

theorem setAt_serves (inUse : s.InUse spaces pid dir userTables)
    (user : vaddr < kernelVaddrOffset) (mapped : s.Mapped dir vaddr) (word : Entry) :
    Serves spaces pid dir s (s.setAt dir vaddr word) := by
  obtain ⟨page, isUser, _, frames⟩ := setAt_frames inUse user mapped word
  have same := setAt_refersIn inUse user mapped word
  have tables : Tables (s.setAt dir vaddr word) spaces :=
    ⟨inUse.tables.apart, same ▸ inUse.tables.accounts, inUse.tables.coherent,
      inUse.tables.bounded⟩
  have within : Within spaces s (s.setAt dir vaddr word) := by
    refine ⟨fun _ => rfl, fun _ _ => rfl, rfl, rfl, rfl, fun _ _ => rfl,
      fun frame index below _ => ?_⟩
    have above := isUser.1
    rw [frames, writeAt_frame (by omega)]
  exact .of_same inUse tables within fun _ _ _ => by rw [same]

/-- The entries of the kernel in the directories of tasks are not for user programs. -/
def Guarded (spaces : Spaces) (s : Machine) : Prop :=
  ∀ pid dir limit index, spaces pid = some (dir, limit) → userTables ≤ index →
    (s.frames dir index).user = false

theorem Guarded.within (guarded : s.Guarded spaces) (apart : Apart spaces)
    (within : Within spaces s after) : after.Guarded spaces := by
  intro pid dir limit index space isKernel
  have below := (apart.known pid dir limit space).2.2.2
  rw [within.frames dir index (by simpa [kernelMemSize, pageSize] using below)
    fun _ _ _ _ _ => isKernel]
  exact guarded pid dir limit index space isKernel

/-- A load or a store keeps the tables in order. -/
theorem access_serves (inUse : s.InUse spaces pid dir userTables) (guarded : s.Guarded spaces)
    (vaddr : Nat) (store : Option Entry) :
    Leaves (Serves spaces pid dir s) (s.access vaddr store) := by
  rw [access, inUse.isDir]
  refine .bind_lift fun directory isDir => ?_
  cases isDir
  split
  · rename_i mapped
    split
    · rename_i permitted
      cases store with
      | none => exact .ok (.refl inUse)
      | some word =>
          have user : vaddr < kernelVaddrOffset := by
            by_contra isKernel
            have entry := guarded pid dir userTables (pdeIdx vaddr) inUse.space (by
              change 768 ≤ vaddr / 2 ^ 22
              simp only [kernelVaddrOffset] at isKernel
              omega)
            rw [show s.frames dir (pdeIdx vaddr) = (s.walk dir vaddr).1 from rfl,
              permitted.1] at entry
            cases entry
          exact .ok (setAt_serves inUse user mapped word)
    · exact pageFault_serves inUse _ _
  · exact pageFault_serves inUse _ _

theorem kernelStore_serves (inUse : s.InUse spaces pid dir userTables) (vaddr : Nat)
    (word : Entry) : Leaves (Serves spaces pid dir s) (s.kernelStore vaddr word) := by
  rw [kernelStore, inUse.isDir]
  refine .bind_lift fun _ isUser => .bind_lift fun directory isDir => ?_
  rw [bounded_eq_ok] at isUser
  cases isDir
  split
  · rename_i mapped
    exact .ok (setAt_serves inUse isUser mapped word)
  · refine .bind (pageFault_serves inUse _ _) fun middle faulted => ?_
    have served := (pageFault_serves inUse _ _).1 middle faulted
    split
    · rename_i mapped
      exact .ok (served.trans (setAt_serves served.inUse isUser mapped word))
    · exact .fault _

theorem kernelStores_serves (inUse : s.InUse spaces pid dir userTables) (vaddr length : Nat)
    (words : Nat → Entry) :
    Leaves (Serves spaces pid dir s) (s.kernelStores vaddr length words) :=
  .foldlM (.refl inUse) fun _ _ _ served =>
    (kernelStore_serves served.inUse _ _).mono fun _ more => served.trans more

end Machine

end UserMemory
end LightOS
