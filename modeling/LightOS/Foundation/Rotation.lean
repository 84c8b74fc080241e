import Mathlib.Data.List.Range
import Mathlib.Logic.Basic

/-!
# Searching in rotation

A search in rotation begins behind the place where the last one ended and comes back to
that place last.  Every place that is found lies nearer to the next acceptable one than
the place before.
-/

namespace LightOS

/-- The places in the order in which a search from a place comes to them. -/
def rotation (count start : Nat) : List Nat :=
  (List.range count).map fun step => (start + 1 + step) % count

/-- The number of places that a search passes before it comes to a place. -/
def ahead (count start place : Nat) : Nat :=
  if start < place then place - start - 1 else place + count - start - 1

variable {count start place other : Nat}

theorem ahead_lt (inRange : place < count) (startInRange : start < count) :
    ahead count start place < count := by
  unfold ahead
  split <;> omega

/-- The search comes to a place after the places ahead of it. -/
theorem rotation_ahead (inRange : place < count) (startInRange : start < count) :
    (start + 1 + ahead count start place) % count = place := by
  unfold ahead
  split
  · have sum : start + 1 + (place - start - 1) = place := by omega
    rw [sum, Nat.mod_eq_of_lt inRange]
  · have sum : start + 1 + (place + count - start - 1) = place + count := by omega
    rw [sum, Nat.add_mod_right, Nat.mod_eq_of_lt inRange]

theorem ahead_rotation {step : Nat} (inRange : step < count) (startInRange : start < count) :
    ahead count start ((start + 1 + step) % count) = step := by
  unfold ahead
  by_cases wraps : start + 1 + step < count
  · rw [Nat.mod_eq_of_lt wraps]
    split <;> omega
  · rw [Nat.mod_eq_sub_mod (Nat.not_lt.mp wraps), Nat.mod_eq_of_lt (by omega)]
    split <;> omega

theorem mem_rotation (startInRange : start < count) :
    place ∈ rotation count start ↔ place < count := by
  unfold rotation
  rw [List.mem_map]
  constructor
  · rintro ⟨step, _, rfl⟩
    exact Nat.mod_lt _ (Nat.zero_lt_of_lt startInRange)
  · intro inRange
    exact ⟨ahead count start place, List.mem_range.mpr (ahead_lt inRange startInRange),
      rotation_ahead inRange startInRange⟩

/-- From a place that comes earlier the way is shorter. -/
theorem ahead_of_ahead (inRange : place < count) (startInRange : start < count)
    (before : ahead count start other < ahead count start place) :
    ahead count other place < ahead count start place := by
  unfold ahead at before ⊢
  split at before <;> split at before <;> split <;> omega

/-- A search finds a place that is acceptable and comes no later than any other one. -/
theorem find?_rotation {accepts : Nat → Bool} (startInRange : start < count)
    (inRange : place < count) (acceptable : accepts place = true) :
    ∃ found, (rotation count start).find? accepts = some found ∧
      accepts found = true ∧ found < count ∧
      ahead count start found ≤ ahead count start place := by
  cases search : (rotation count start).find? accepts with
  | none =>
      have absent := List.find?_eq_none.mp search place
        ((mem_rotation startInRange).mpr inRange)
      exact absurd acceptable absent
  | some found =>
      refine ⟨found, rfl, List.find?_some search,
        (mem_rotation startInRange).mp (List.mem_of_find?_eq_some search), ?_⟩
      unfold rotation at search
      rw [List.find?_map, Option.map_eq_some_iff] at search
      obtain ⟨step, isFirst, rfl⟩ := search
      have stepInRange := List.mem_range.mp (List.mem_of_find?_eq_some isFirst)
      rw [ahead_rotation stepInRange startInRange]
      by_contra later
      have earlier := (List.find?_range_eq_some.mp isFirst).2.2 (ahead count start place)
        (Nat.not_le.mp later)
      rw [Function.comp_apply, rotation_ahead inRange startInRange, acceptable] at earlier
      cases earlier

end LightOS
