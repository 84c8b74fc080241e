import Mathlib.Data.Finset.Card
import Mathlib.Data.Fintype.Card
import Mathlib.Logic.Function.Basic

/-!
# Threads at program points

Threads of a concurrent program stand at program points, and a step moves one of
them.  A word that guards a region of the program is one while a thread is inside
the region and zero otherwise; a counter of a region equals the number of the
threads inside it.
-/

namespace LightOS
namespace Threads

variable {Thread Point : Type*}

/-- A word guards a region: at most one thread is inside, and the word tells
whether one is. -/
structure Guards (word : Nat) (inside : Thread → Prop) : Prop where
  single : ∀ first second, inside first → inside second → first = second
  taken : ∀ thread, inside thread → word = 1
  free : (∀ thread, ¬inside thread) → word = 0

namespace Guards

variable {word : Nat} {inside after : Thread → Prop} {thread : Thread}

/-- Nobody is inside a region whose word is zero. -/
theorem vacant (guards : Guards word inside) (isFree : word = 0) (thread : Thread) :
    ¬inside thread := by
  intro isInside
  rw [guards.taken thread isInside] at isFree
  cases isFree

/-- A step that moves nobody in or out. -/
theorem congr (guards : Guards word inside) (same : ∀ thread, after thread ↔ inside thread) :
    Guards word after := by
  refine ⟨?single, ?taken, ?free⟩
  case single =>
    intro first second inFirst inSecond
    exact guards.single first second ((same first).mp inFirst) ((same second).mp inSecond)
  case taken =>
    intro thread isInside
    exact guards.taken thread ((same thread).mp isInside)
  case free =>
    intro nobody
    exact guards.free fun thread isInside => nobody thread ((same thread).mpr isInside)

/-- A thread that finds the word zero sets it and enters. -/
theorem enter (guards : Guards word inside) (thread : Thread) (isFree : word = 0)
    (enters : ∀ other, after other ↔ other = thread ∨ inside other) : Guards 1 after := by
  have only (other : Thread) (isInside : after other) : other = thread :=
    ((enters other).mp isInside).resolve_right (guards.vacant isFree other)
  refine ⟨?single, fun _ _ => rfl, ?free⟩
  case single =>
    intro first second inFirst inSecond
    rw [only first inFirst, only second inSecond]
  case free =>
    intro nobody
    exact absurd ((enters thread).mpr (.inl rfl)) (nobody thread)

/-- The thread that is inside leaves and clears the word. -/
theorem leave (guards : Guards word inside) (thread : Thread) (isInside : inside thread)
    (leaves : ∀ other, after other ↔ other ≠ thread ∧ inside other) : Guards 0 after := by
  have nobody (other : Thread) : ¬after other := by
    intro still
    obtain ⟨apart, alsoInside⟩ := (leaves other).mp still
    exact apart (guards.single other thread alsoInside isInside)
  refine ⟨?single, ?taken, fun _ => rfl⟩
  case single =>
    intro first second inFirst
    exact absurd inFirst (nobody first)
  case taken =>
    intro other still
    exact absurd still (nobody other)

end Guards

section Tally

variable [Fintype Thread]

/-- The number of the threads inside a region. -/
def tally (inside : Thread → Prop) [DecidablePred inside] : Nat :=
  (Finset.univ.filter inside).card

variable {inside after : Thread → Prop} [DecidablePred inside] [DecidablePred after]
  {thread : Thread}

theorem tally_congr (same : ∀ thread, after thread ↔ inside thread) :
    tally after = tally inside := by
  unfold tally
  congr 1
  ext other
  simp [same other]

/-- A thread enters a region. -/
theorem tally_enter [DecidableEq Thread] (thread : Thread) (outside : ¬inside thread)
    (enters : ∀ other, after other ↔ other = thread ∨ inside other) :
    tally after = tally inside + 1 := by
  have grown : Finset.univ.filter after =
      insert thread (Finset.univ.filter inside) := by
    ext other
    simp [enters other]
  unfold tally
  rw [grown, Finset.card_insert_of_notMem (by simp [outside])]

/-- A thread leaves a region. -/
theorem tally_leave [DecidableEq Thread] (isInside : inside thread)
    (leaves : ∀ other, after other ↔ other ≠ thread ∧ inside other) :
    tally after + 1 = tally inside := by
  refine (tally_enter thread (fun still => ?_) fun other => ?_).symm
  · exact ((leaves thread).mp still).1 rfl
  · by_cases same : other = thread
    · simp [same, isInside]
    · simp [same, leaves other]

theorem tally_eq_zero : tally inside = 0 ↔ ∀ thread, ¬inside thread := by
  unfold tally
  rw [Finset.card_eq_zero, Finset.filter_eq_empty_iff]
  simp

/-- Not every thread is inside a region when one is outside. -/
theorem tally_lt_card (outside : ¬inside thread) : tally inside < Fintype.card Thread :=
  Finset.card_lt_univ_of_notMem (x := thread) (by simp [outside])

end Tally

end Threads
end LightOS
