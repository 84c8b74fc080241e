import Mathlib.Algebra.BigOperators.Group.Finset.Basic
import Mathlib.Tactic.ByContra

/-!
# Ledgers

Owners hold runs of cells, and every cell of a run has exactly one owner.  A ledger
stays in order when an owner acquires a run of cells that nobody holds, and when it
releases a run.
-/

namespace LightOS

variable {first length : Nat}

/-- Changing one summand changes the sum by the difference. -/
theorem sum_change_one {Index Value : Type*} [DecidableEq Index] [AddCommMonoid Value]
    {indices : Finset Index} {before after : Index → Value} {index : Index}
    (present : index ∈ indices)
    (others : ∀ other, other ≠ index → after other = before other) :
    ∑ other ∈ indices, after other + before index =
      ∑ other ∈ indices, before other + after index := by
  have rest : ∑ other ∈ indices.erase index, after other =
      ∑ other ∈ indices.erase index, before other :=
    Finset.sum_congr rfl fun other remains =>
      others other (Finset.ne_of_mem_erase remains)
  rw [← Finset.add_sum_erase _ after present, ← Finset.add_sum_erase _ before present,
    rest, add_right_comm, add_comm (after index), add_assoc, add_right_comm, add_assoc]

/-- Every cell that an owner holds is counted once, and no two owners hold the same
cell. -/
structure Ledger
    {Owner : Type*}
    (owns : Owner → Nat → Nat → Prop)
    (count : Nat → Nat) : Prop where
  positive : ∀ owner first length, owns owner first length → 0 < length
  held : ∀ owner first length, owns owner first length →
    ∀ cell, first ≤ cell → cell < first + length → count cell = 1
  apart : ∀ owner other first length start extent,
    owns owner first length → owns other start extent → owner ≠ other →
      first + length ≤ start ∨ start + extent ≤ first

namespace Ledger

variable {Owner : Type*} {owns later : Owner → Nat → Nat → Prop} {count counts : Nat → Nat}

/-- Runs without a common cell lie apart. -/
theorem apart_of_cells {start extent : Nat} (positive : 0 < length) (nonempty : 0 < extent)
    (cells : ∀ cell, first ≤ cell → cell < first + length → cell < start ∨ start + extent ≤ cell) :
    first + length ≤ start ∨ start + extent ≤ first := by
  by_contra meet
  have inside := cells (max first start) (by omega) (by omega)
  omega

/-- Owners that give nothing away and take nothing. -/
theorem mono
    (ledger : Ledger owns count)
    (fewer : ∀ owner first length, later owner first length → owns owner first length)
    (same : ∀ owner first length, later owner first length →
      ∀ cell, first ≤ cell → cell < first + length → counts cell = count cell) :
    Ledger later counts := by
  refine ⟨fun owner first length holds => ?_, fun owner first length holds cell above below => ?_,
    fun owner other first length start extent holds also different => ?_⟩
  · exact ledger.positive owner first length (fewer _ _ _ holds)
  · rw [same owner first length holds cell above below]
    exact ledger.held owner first length (fewer _ _ _ holds) cell above below
  · exact ledger.apart owner other first length start extent (fewer _ _ _ holds)
      (fewer _ _ _ also) different

/-- An owner acquires a run of cells that nobody holds. -/
theorem acquire (ledger : Ledger owns count) (owner : Owner) (positive : 0 < length)
    (fresh : ∀ cell, first ≤ cell → cell < first + length → count cell = 0)
    (counted : ∀ cell, counts cell = if first ≤ cell ∧ cell < first + length then 1 else count cell)
    (acquired : ∀ other start extent, later other start extent →
      owns other start extent ∨ other = owner ∧ start = first ∧ extent = length) :
    Ledger later counts := by
  have away (other : Owner) (start extent : Nat) (holds : owns other start extent) :
      start + extent ≤ first ∨ first + length ≤ start := by
    refine apart_of_cells (ledger.positive other start extent holds) positive
      fun cell above below => ?_
    by_contra inside
    have free := fresh cell (by omega) (by omega)
    rw [ledger.held other start extent holds cell above below] at free
    cases free
  refine ⟨fun other start extent holds => ?_, fun other start extent holds cell above below => ?_,
    fun other another start extent place size holds also different => ?_⟩
  · rcases acquired other start extent holds with before | ⟨_, _, rfl⟩
    · exact ledger.positive other start extent before
    · exact positive
  · rw [counted]
    rcases acquired other start extent holds with before | ⟨_, rfl, rfl⟩
    · split
      · rfl
      · exact ledger.held other start extent before cell above below
    · rw [if_pos ⟨above, below⟩]
  · rcases acquired other start extent holds with before | ⟨rfl, rfl, rfl⟩
    · rcases acquired another place size also with alsoBefore | ⟨rfl, rfl, rfl⟩
      · exact ledger.apart other another start extent place size before alsoBefore different
      · exact away other start extent before
    · rcases acquired another place size also with alsoBefore | ⟨rfl, _, _⟩
      · exact (away another place size alsoBefore).symm
      · exact absurd rfl different

/-- An owner releases a run: only its cells are counted anew. -/
theorem release (ledger : Ledger owns count) {owner : Owner} (holds : owns owner first length)
    (counted : ∀ cell, cell < first ∨ first + length ≤ cell → counts cell = count cell)
    (released : ∀ other start extent, later other start extent →
      owns other start extent ∧ other ≠ owner) : Ledger later counts := by
  refine ledger.mono (fun other start extent kept => (released other start extent kept).1)
    fun other start extent kept cell above below => counted cell ?_
  obtain ⟨before, different⟩ := released other start extent kept
  have apart := ledger.apart other owner start extent first length before holds different
  omega

end Ledger

end LightOS
