import LightOS.Foundation.Transition
import LightOS.Foundation.Words
import LightOS.Kernel.Pages
import Mathlib.Data.List.Count
import Mathlib.Logic.Function.Basic

/-!
# Mapping user pages into the kernel

The pool of `kmap`.  A slot holds a physical page and the number of times that it is
mapped, and an entry of the page table `kmap_pte` makes the page accessible at the address
of the slot.
-/

namespace LightOS
namespace UserMemory

/-- The structure `page_entry_t`: a 32-bit word of a page table. -/
structure Entry where
  present : Bool
  write : Bool
  user : Bool
  pwt : Bool
  pcd : Bool
  accessed : Bool
  dirty : Bool
  pat : Bool
  global : Bool
  shared : Bool
  privat : Bool
  readonly : Bool
  index : Nat
  deriving DecidableEq, Repr

namespace Entry

/-- The word 0. -/
def zero : Entry :=
  ⟨false, false, false, false, false, false, false, false, false, false, false, false, 0⟩

/-- `entry_init`.  The field `index` is 20 bits wide. -/
def init (index : Nat) : Entry :=
  { zero with present := true, write := true, index := index % 2 ^ 20 }

end Entry

/-- `KMAP_POOL_LEN`. -/
abbrev kmapPoolLen : Nat := 1024

/-- `kmap_start_vaddr`. -/
abbrev kmapStart : Nat := 0xC1000000

/-- The structure `kmap_mapping`. -/
structure Mapping where
  present : Bool
  /-- A field of 31 bits. -/
  cnt : Nat
  paddr : Nat
  deriving DecidableEq, Repr

/-- The variables of `kmap`, and the mappings that have not been undone: the addresses that
`kmap` has returned, with the pages. -/
structure KmapPool where
  /-- `kmap_pool`. -/
  pool : Nat → Mapping
  /-- `kmap_pte`. -/
  pte : Nat → Entry
  outstanding : List (Nat × Nat)

namespace KmapPool

/-- `kmap_init`. -/
def init : KmapPool where
  pool := fun _ => ⟨false, 0, 0⟩
  pte := fun _ => .zero
  outstanding := []

/-- `KMAP_GET_VADDR`. -/
def address (slot : Nat) : Nat :=
  kmapStart + slot * pageSize

/-- `KMAP_GET_INDEX`. -/
def slotOf (vaddr : Nat) : Nat :=
  (vaddr - kmapStart) / pageSize % kmapPoolLen

/-- The loop of `kmap`: the slot at which it ends, with `left` slots to look at. -/
def search (s : KmapPool) (paddr : Nat) : Nat → Nat → Nat
  | 0, slot => slot
  | left + 1, slot =>
      if (s.pool slot).present = false ∨ (s.pool slot).paddr = paddr then slot
      else search s paddr left (slot + 1)

/-- `kmap`. -/
def kmap (s : KmapPool) (paddr : Nat) : Except Fault (Nat × KmapPool) := do
  check (kernelMemSize ≤ paddr)
  check (paddr % pageSize = 0)
  let slot := s.search paddr kmapPoolLen 0
  if slot = kmapPoolLen then
    throw .panic
  let mapping := s.pool slot
  let s := { s with outstanding := (address slot, paddr) :: s.outstanding }
  if mapping.present then
    return (address slot, { s with
      pool := Function.update s.pool slot
        { mapping with cnt := (mapping.cnt + 1) % 2 ^ 31 } })
  return (address slot, { s with
    pool := Function.update s.pool slot ⟨true, 1, paddr⟩
    pte := Function.update s.pte slot (.init (paddr / pageSize)) })

/-- `kunmap`. -/
def kunmap (s : KmapPool) (vaddr : Nat) : Except Fault KmapPool := do
  check (kmapStart ≤ vaddr ∧ vaddr < kmapStart + kmapPoolLen * pageSize)
  check (vaddr % pageSize = 0)
  let slot := slotOf vaddr
  let cnt := ((s.pool slot).cnt + (2 ^ 31 - 1)) % 2 ^ 31
  let s := { s with
    pool := Function.update s.pool slot { s.pool slot with present := false, cnt := cnt }
    outstanding := s.outstanding.eraseP fun mapping => mapping.1 = vaddr }
  if cnt = 0 then
    return { s with
      pte := Function.update s.pte slot { s.pte slot with present := false } }
  return s

variable {s after : KmapPool} {paddr vaddr slot other : Nat}

theorem address_ge (slot : Nat) : kmapStart ≤ address slot := Nat.le_add_right _ _

theorem address_lt (inPool : slot < kmapPoolLen) :
    address slot < kmapStart + kmapPoolLen * pageSize := by
  simp only [address, kmapPoolLen, pageSize] at *
  omega

theorem address_aligned (slot : Nat) : address slot % pageSize = 0 := by
  simp only [address, kmapStart, pageSize]
  omega

@[simp] theorem slotOf_address (inPool : slot < kmapPoolLen) :
    slotOf (address slot) = slot := by
  simp only [slotOf, address, kmapPoolLen, kmapStart, pageSize] at *
  omega

theorem address_inj (same : address slot = address other) : slot = other := by
  simp only [address, pageSize] at same
  omega

/-- The search ends behind the slots, at a free slot or at the slot of the page. -/
theorem search_spec (s : KmapPool) (paddr left : Nat) :
    s.search paddr left slot = slot + left ∨
      s.search paddr left slot < slot + left ∧
        ((s.pool (s.search paddr left slot)).present = false ∨
          (s.pool (s.search paddr left slot)).paddr = paddr) := by
  induction left generalizing slot with
  | zero => exact .inl rfl
  | succ left inductionHypothesis =>
      rw [search]
      split
      · rename_i found
        exact .inr ⟨by omega, found⟩
      · rcases @inductionHypothesis (slot + 1) with atEnd | ⟨before, found⟩
        · exact .inl (by omega)
        · exact .inr ⟨by omega, found⟩

/-- `kmap` counts a page that is mapped already, or it takes a free slot. -/
theorem kmap_spec (mapped : s.kmap paddr = .ok (vaddr, after)) :
    ∃ slot < kmapPoolLen, vaddr = address slot ∧ kernelMemSize ≤ paddr ∧
      paddr % pageSize = 0 ∧ after.outstanding = (address slot, paddr) :: s.outstanding ∧
        ((s.pool slot).present = true ∧ (s.pool slot).paddr = paddr ∧
            after.pool = Function.update s.pool slot
              { s.pool slot with cnt := ((s.pool slot).cnt + 1) % 2 ^ 31 } ∧
            after.pte = s.pte ∨
          (s.pool slot).present = false ∧
            after.pool = Function.update s.pool slot ⟨true, 1, paddr⟩ ∧
            after.pte = Function.update s.pte slot (.init (paddr / pageSize))) := by
  simp only [kmap, bind_eq_ok, check_eq_ok] at mapped
  obtain ⟨_, high, _, aligned, mapped⟩ := mapped
  split at mapped
  · cases mapped
  rename_i notFull
  rcases s.search_spec paddr kmapPoolLen with atEnd | ⟨inPool, found⟩
  · exact absurd (atEnd.trans (Nat.zero_add _)) notFull
  refine ⟨_, by simpa using inPool, ?_⟩
  cases isPresent : (s.pool (s.search paddr kmapPoolLen 0)).present with
  | true =>
      rw [if_pos isPresent] at mapped
      cases mapped
      refine ⟨rfl, high, aligned, rfl, .inl ⟨rfl, ?_, rfl, rfl⟩⟩
      rcases found with free | same
      · rw [isPresent] at free
        cases free
      · exact same
  | false =>
      rw [if_neg (by simp [isPresent])] at mapped
      cases mapped
      exact ⟨rfl, high, aligned, rfl, .inr ⟨rfl, rfl, rfl⟩⟩

/-- The search ends no later than at a slot that is free or holds the page. -/
theorem search_le (s : KmapPool) {left : Nat} (above : slot ≤ other)
    (below : other < slot + left)
    (fits : (s.pool other).present = false ∨ (s.pool other).paddr = paddr) :
    s.search paddr left slot ≤ other := by
  induction left generalizing slot with
  | zero => omega
  | succ left inductionHypothesis =>
      rw [search]
      split
      · exact above
      · rename_i occupied
        have different : slot ≠ other := by
          rintro rfl
          exact occupied fits
        exact inductionHypothesis (by omega) (by omega)

/-- A page from 16 MiB on can be mapped as long as a slot is free or holds it. -/
theorem kmap_returns (high : kernelMemSize ≤ paddr) (aligned : paddr % pageSize = 0)
    (inPool : other < kmapPoolLen)
    (fits : (s.pool other).present = false ∨ (s.pool other).paddr = paddr) :
    ∃ slot after, slot ≤ other ∧ s.kmap paddr = .ok (address slot, after) := by
  have before := s.search_le (Nat.zero_le other) (by simpa using inPool) fits
  have notFull : s.search paddr kmapPoolLen 0 ≠ kmapPoolLen := by omega
  simp only [kmap, check_true high, check_true aligned, ok_bind, if_neg notFull, pure_eq_ok]
  split
  · exact ⟨_, _, before, rfl⟩
  · exact ⟨_, _, before, rfl⟩

theorem kunmap_returns (s : KmapPool) (inPool : slot < kmapPoolLen) :
    ∃ after, s.kunmap (address slot) = .ok after := by
  have inRange : kmapStart ≤ address slot ∧
      address slot < kmapStart + kmapPoolLen * pageSize :=
    ⟨address_ge slot, address_lt inPool⟩
  rw [kunmap, check_true inRange, ok_bind, check_true (address_aligned slot), ok_bind]
  dsimp only
  split
  · exact ⟨_, rfl⟩
  · exact ⟨_, rfl⟩

/-- `kunmap` drops one count, and the entry of the page table with the last. -/
theorem kunmap_spec (unmapped : s.kunmap vaddr = .ok after) :
    ∃ slot < kmapPoolLen, vaddr = address slot ∧
      after.outstanding = s.outstanding.eraseP (fun mapping => mapping.1 = vaddr) ∧
        after.pool = Function.update s.pool slot { s.pool slot with
          present := false, cnt := ((s.pool slot).cnt + (2 ^ 31 - 1)) % 2 ^ 31 } ∧
        after.pte = if ((s.pool slot).cnt + (2 ^ 31 - 1)) % 2 ^ 31 = 0 then
          Function.update s.pte slot { s.pte slot with present := false } else s.pte := by
  simp only [kunmap, bind_eq_ok, check_eq_ok] at unmapped
  obtain ⟨_, ⟨above, below⟩, _, aligned, unmapped⟩ := unmapped
  have inPool : slotOf vaddr < kmapPoolLen := Nat.mod_lt _ (by decide)
  have isAddress : vaddr = address (slotOf vaddr) := by
    simp only [slotOf, address, kmapPoolLen, kmapStart, pageSize] at *
    omega
  refine ⟨slotOf vaddr, inPool, isAddress, ?_⟩
  split at unmapped
  · rename_i last
    cases unmapped
    exact ⟨rfl, rfl, by rw [if_pos last]⟩
  · rename_i notLast
    cases unmapped
    exact ⟨rfl, rfl, by rw [if_neg notLast]⟩

end KmapPool

end UserMemory
end LightOS
