import LightOS.UserMemory.Frame
import LightOS.UserMemory.Ownership

/-!
# The accounts of user pages

Every user page counts the entries that refer to it.  The functions that give tables and
pages to a task, and take them away, keep the accounts in order.
-/

namespace LightOS

namespace PageMaps

/-- The count of references to a page. -/
def references (pages : PageMaps) (page : Nat) : Nat :=
  (pages.memMap page).toNat

variable {pages after : PageMaps} {page paddr : Nat}

theorem references_setCount (pages : PageMaps) (index page : Nat) (count : UInt8) :
    (pages.setCount index count).references page =
      if page = index then count.toNat else pages.references page := by
  unfold references
  rw [setCount_memMap]
  split
  · rfl
  · rfl

theorem toNat_sub_one {count : UInt8} (counted : count ≠ 0) :
    count.toNat = (count - 1).toNat + 1 := by
  have positive : count.toNat ≠ 0 := fun isZero => counted (UInt8.toNat_inj.mp isZero)
  have atLeast : 1 ≤ count := UInt8.le_iff_toNat_le.mpr (Nat.one_le_iff_ne_zero.mpr positive)
  have one : (1 : UInt8).toNat = 1 := rfl
  rw [UInt8.toNat_sub_of_le _ _ atLeast, one]
  omega

theorem toNat_add_one {count : UInt8} (few : count.toNat + 1 < 256) :
    (count + 1).toNat = count.toNat + 1 := by
  rw [UInt8.toNat_add]
  exact Nat.mod_eq_of_lt few

/-- `put_user_page` counts one reference less. -/
theorem putUserPage_spec (put : pages.putUserPage (page * pageSize) = .ok after) :
    UserMemory.UserPage pages page ∧ pages.memMap page ≠ 0 ∧ after.kernelBits = pages.kernelBits ∧
      after.totalPages = pages.totalPages ∧
        ∀ frame, after.memMap frame =
          if frame = page then pages.memMap page - 1 else pages.memMap frame := by
  simp only [putUserPage, bind_eq_ok, check_eq_ok] at put
  obtain ⟨_, _, _, inside, _, counted, _, _, result⟩ := put
  have index : page * pageSize / pageSize = page := Nat.mul_div_cancel _ (by decide)
  rw [index] at inside counted result
  cases result
  refine ⟨inside, ?_, ?_, ?_, ?_⟩
  · intro isZero
    rw [isZero] at counted
    exact absurd counted (by decide)
  · split
    · rw [addFree_kernelBits, setCount_kernelBits]
    · rw [setCount_kernelBits]
  · split
    · rfl
    · rfl
  · intro frame
    split
    · rw [addFree_memMap, setCount_memMap]
    · rw [setCount_memMap]

end PageMaps

namespace UserMemory

/-- The accounts of user pages: every user page counts the places that refer to it. -/
structure Accounts (refers : Place → Option Nat) (pages : PageMaps) : Prop
    extends Exclusive refers pages where
  tallied : Tallied (UserPage pages) places refers pages.references
  few : ∀ page, UserPage pages page → pages.references page < 255
  places : ∀ place page, refers place = some page → place ∈ places

namespace Accounts

variable {refers : Place → Option Nat} {pages after : PageMaps} {place : Place} {page : Nat}

/-- No place refers to a page without references. -/
theorem unused (accounts : Accounts refers pages) (user : UserPage pages page)
    (free : pages.references page = 0) (place : Place) : refers place ≠ some page := by
  intro refersTo
  exact accounts.tallied.unused user free (accounts.places place page refersTo) refersTo

/-- A place without a page gets one.  The page holds no table, and when the place is that
of a table the page is new. -/
theorem share (accounts : Accounts refers pages) (isPlace : place ∈ UserMemory.places)
    (free : refers place = none) (user : UserPage pages page)
    (noTable : ∀ pid index, refers (pid, index, 0) ≠ some page)
    (fresh : place.2.2 = 0 → pages.references page = 0)
    (few : pages.references page + 1 < 255)
    (total : after.totalPages = pages.totalPages)
    (counted : ∀ other, UserPage pages other →
      after.references other = pages.references other + if page = other then 1 else 0) :
    Accounts (Function.update refers place (some page)) after := by
  have sameUser (other : Nat) : UserPage after other ↔ UserPage pages other := by
    unfold UserPage
    rw [total]
  refine ⟨⟨fun other found refersTo => ?user, fun pid index other found isTable refersTo => ?sole⟩,
    ?tallied, fun other isUser => ?few, fun other found refersTo => ?places⟩
  case user =>
    rw [sameUser]
    by_cases same : other = place
    · rw [same, Function.update_self] at refersTo
      cases refersTo
      exact user
    · rw [Function.update_of_ne same] at refersTo
      exact accounts.user other found refersTo
  case sole =>
    by_cases isNew : (pid, index, 0) = place
    · rw [isNew, Function.update_self] at isTable
      cases isTable
      by_contra different
      rw [isNew] at different
      rw [Function.update_of_ne different] at refersTo
      exact accounts.unused user (fresh (by rw [← isNew])) other refersTo
    · rw [Function.update_of_ne isNew] at isTable
      by_cases same : other = place
      · rw [same, Function.update_self] at refersTo
        cases refersTo
        exact absurd isTable (noTable pid index)
      · rw [Function.update_of_ne same] at refersTo
        exact accounts.sole pid index other found isTable refersTo
  case tallied =>
    intro other isUser
    exact (accounts.tallied.take isPlace free counted) other ((sameUser other).mp isUser)
  case few =>
    rw [sameUser] at isUser
    rw [counted other isUser]
    by_cases same : page = other
    · rw [if_pos same, ← same]
      exact few
    · rw [if_neg same]
      exact accounts.few other isUser
  case places =>
    by_cases same : other = place
    · rw [same]
      exact isPlace
    · rw [Function.update_of_ne same] at refersTo
      exact accounts.places other found refersTo

/-- A place gets a page without references. -/
theorem take (accounts : Accounts refers pages) (isPlace : place ∈ UserMemory.places)
    (empty : refers place = none) (user : UserPage pages page)
    (free : pages.references page = 0) (total : after.totalPages = pages.totalPages)
    (counted : ∀ other, UserPage pages other →
      after.references other = pages.references other + if page = other then 1 else 0) :
    Accounts (Function.update refers place (some page)) after :=
  accounts.share isPlace empty user (fun _ _ => accounts.unused user free _) (fun _ => free)
    (by omega) total counted

/-- A place gives up its page. -/
theorem give (accounts : Accounts refers pages) (refersTo : refers place = some page)
    (total : after.totalPages = pages.totalPages)
    (counted : ∀ other, UserPage pages other →
      pages.references other = after.references other + if page = other then 1 else 0) :
    Accounts (Function.update refers place none) after := by
  have sameUser (other : Nat) : UserPage after other ↔ UserPage pages other := by
    unfold UserPage
    rw [total]
  have old {other : Place} {found : Nat}
      (refersOther : Function.update refers place none other = some found) :
      refers other = some found := by
    by_cases same : other = place
    · rw [same, Function.update_self] at refersOther
      cases refersOther
    · rwa [Function.update_of_ne same] at refersOther
  refine ⟨⟨fun other found refersOther => ?user, fun pid index other found isTable refersOther =>
    accounts.sole pid index other found (old isTable) (old refersOther)⟩, ?tallied,
    fun other isUser => ?few, fun other found refersOther =>
      accounts.places other found (old refersOther)⟩
  case user =>
    rw [sameUser]
    exact accounts.user other found (old refersOther)
  case tallied =>
    intro other isUser
    exact (accounts.tallied.give (accounts.places place page refersTo) refersTo counted) other
      ((sameUser other).mp isUser)
  case few =>
    rw [sameUser] at isUser
    have before := accounts.few other isUser
    have less := counted other isUser
    omega

/-- Nothing that matters to the accounts has changed. -/
theorem congr (accounts : Accounts refers pages) (total : after.totalPages = pages.totalPages)
    (counted : ∀ other, UserPage pages other → after.references other = pages.references other) :
    Accounts refers after := by
  have sameUser (other : Nat) : UserPage after other ↔ UserPage pages other := by
    unfold UserPage
    rw [total]
  refine ⟨⟨fun other found refersTo => (sameUser found).mpr (accounts.user other found refersTo),
    accounts.sole⟩, fun other isUser => ?_, fun other isUser => ?_, accounts.places⟩
  · rw [counted other ((sameUser other).mp isUser)]
    exact accounts.tallied other ((sameUser other).mp isUser)
  · rw [counted other ((sameUser other).mp isUser)]
    exact accounts.few other ((sameUser other).mp isUser)

end Accounts

/-- A slot that is in use refers to its page. -/
def KmapPool.Coherent (s : KmapPool) : Prop :=
  ∀ slot < kmapPoolLen, (s.pool slot).present = true →
    (s.pte slot).index = (s.pool slot).paddr / pageSize

/-- A page is mapped at an address. -/
def KmapPool.Holds (s : KmapPool) (vaddr page : Nat) : Prop :=
  ∃ slot < kmapPoolLen, vaddr = KmapPool.address slot ∧ (s.pool slot).present = true ∧
    (s.pool slot).paddr = page * pageSize

namespace KmapPool

variable {s after : KmapPool} {vaddr other page : Nat}

theorem Coherent.index_eq (coherent : s.Coherent) (holds : s.Holds vaddr page) :
    (s.pte (slotOf vaddr)).index = page := by
  obtain ⟨slot, inPool, rfl, isPresent, isPage⟩ := holds
  rw [slotOf_address inPool, coherent slot inPool isPresent, isPage]
  exact Nat.mul_div_cancel _ (by decide)

/-- A page that is mapped is accessible at its address, and so are the others. -/
theorem Coherent.kmap (coherent : s.Coherent) (small : page < 2 ^ 20)
    (mapped : s.kmap (page * pageSize) = .ok (vaddr, after)) :
    after.Coherent ∧ after.Holds vaddr page ∧ kernelMemSize / pageSize ≤ page ∧
      ∀ other held, s.Holds other held → after.Holds other held := by
  obtain ⟨slot, inPool, rfl, high, _, _, change⟩ := kmap_spec mapped
  have above : kernelMemSize / pageSize ≤ page := by
    simp only [kernelMemSize, pageSize] at high ⊢
    omega
  rcases change with ⟨isPresent, samePage, pool, pte⟩ | ⟨free, pool, pte⟩
  · have kept (number : Nat) : (after.pool number).present = (s.pool number).present ∧
        (after.pool number).paddr = (s.pool number).paddr := by
      rw [pool]
      by_cases same : number = slot
      · subst same
        rw [Function.update_self]
        exact ⟨rfl, rfl⟩
      · rw [Function.update_of_ne same]
        exact ⟨rfl, rfl⟩
    refine ⟨fun number inside present => ?_, ⟨slot, inPool, rfl, ?_, ?_⟩, above, ?_⟩
    · rw [(kept number).1] at present
      rw [pte, (kept number).2]
      exact coherent number inside present
    · rw [(kept slot).1, isPresent]
    · rw [(kept slot).2, samePage]
    · rintro _ held ⟨number, inside, rfl, present, isPage⟩
      exact ⟨number, inside, rfl, (kept number).1.trans present, (kept number).2.trans isPage⟩
  · refine ⟨fun number inside present => ?_, ⟨slot, inPool, rfl, ?_, ?_⟩, above, ?_⟩
    · by_cases same : number = slot
      · subst same
        rw [pool, pte, Function.update_self, Function.update_self]
        have index : page * pageSize / pageSize = page := Nat.mul_div_cancel _ (by decide)
        change page * pageSize / pageSize % 2 ^ 20 = page * pageSize / pageSize
        rw [index, Nat.mod_eq_of_lt small]
      · rw [pool, Function.update_of_ne same] at present
        rw [pool, pte, Function.update_of_ne same, Function.update_of_ne same]
        exact coherent number inside present
    · rw [pool, Function.update_self]
    · rw [pool, Function.update_self]
    · rintro _ held ⟨number, inside, rfl, present, isPage⟩
      have different : number ≠ slot := by
        rintro rfl
        rw [free] at present
        cases present
      exact ⟨number, inside, rfl, by rwa [pool, Function.update_of_ne different],
        by rwa [pool, Function.update_of_ne different]⟩

/-- Pages at other addresses stay mapped. -/
theorem Coherent.kunmap (coherent : s.Coherent) (unmapped : s.kunmap vaddr = .ok after) :
    after.Coherent ∧
      ∀ other held, other ≠ vaddr → s.Holds other held → after.Holds other held := by
  obtain ⟨slot, inPool, rfl, _, pool, pte⟩ := kunmap_spec unmapped
  have poolOther (number : Nat) (different : number ≠ slot) :
      after.pool number = s.pool number := by
    rw [pool, Function.update_of_ne different]
  refine ⟨fun number inside present => ?_, ?_⟩
  · have different : number ≠ slot := by
      rintro rfl
      rw [pool, Function.update_self] at present
      cases present
    rw [poolOther number different] at present ⊢
    have same : after.pte number = s.pte number := by
      rw [pte]
      split
      · rw [Function.update_of_ne different]
      · rfl
    rw [same]
    exact coherent number inside present
  · rintro _ held away ⟨number, inside, rfl, present, isPage⟩
    have different : number ≠ slot := fun same => away (by rw [same])
    exact ⟨number, inside, rfl, by rwa [poolOther number different],
      by rwa [poolOther number different]⟩

end KmapPool

end UserMemory

end LightOS
