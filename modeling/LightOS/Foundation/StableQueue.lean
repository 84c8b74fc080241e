import Mathlib.Data.List.Basic
import Mathlib.Data.List.Nodup
import Mathlib.Order.Lattice

/-!
# Queues ordered by a key

A queue keeps its items in the order of their keys and items with equal keys in the order
in which they came.  A new item goes in front of the first greater key.
-/

namespace LightOS

variable {Item Key Other : Type*} [LinearOrder Key] [LinearOrder Other]

/-- Insert an item in front of the first one with a greater key. -/
def insertLast (key : Item → Key) (item : Item) : List Item → List Item
  | [] => [item]
  | head :: rest =>
      if key item < key head then item :: head :: rest else head :: insertLast key item rest

/-- A queue holds the items that have come, in the order of their keys and among equal
keys in the order in which they came. -/
structure StableSort (key : Item → Key) (arrivals queue : List Item) : Prop where
  sorted : queue.Pairwise fun first second => key first ≤ key second
  stable : ∀ value, queue.filter (fun item => key item = value) =
    arrivals.filter fun item => key item = value

section Insertion

variable (key : Item → Key) (item : Item)

theorem mem_insertLast (other : Item) (queue : List Item) :
    other ∈ insertLast key item queue ↔ other = item ∨ other ∈ queue := by
  induction queue with
  | nil => simp [insertLast]
  | cons head rest inductionHypothesis =>
      rw [insertLast]
      split
      · simp
      · rw [List.mem_cons, inductionHypothesis, List.mem_cons]
        tauto

theorem pairwise_insertLast {queue : List Item}
    (sorted : queue.Pairwise fun first second => key first ≤ key second) :
    (insertLast key item queue).Pairwise fun first second => key first ≤ key second := by
  induction queue with
  | nil => exact List.pairwise_singleton _ _
  | cons head rest inductionHypothesis =>
      obtain ⟨least, sortedRest⟩ := List.pairwise_cons.mp sorted
      rw [insertLast]
      split
      case isTrue before =>
        refine List.pairwise_cons.mpr ⟨fun other present => ?_, sorted⟩
        rcases List.mem_cons.mp present with rfl | inRest
        · exact before.le
        · exact before.le.trans (least other inRest)
      case isFalse notBefore =>
        apply List.pairwise_cons.mpr
        refine ⟨fun other present => ?_, inductionHypothesis sortedRest⟩
        rcases (mem_insertLast key item other rest).mp present with rfl | inRest
        · exact not_lt.mp notBefore
        · exact least other inRest

/-- The new item stands behind the items whose keys are not greater than its own. -/
theorem insertLast_split {queue : List Item}
    (sorted : queue.Pairwise fun first second => key first ≤ key second) :
    ∃ front back, queue = front ++ back ∧ insertLast key item queue = front ++ item :: back ∧
      (∀ other ∈ front, key other ≤ key item) ∧ ∀ other ∈ back, key item < key other := by
  induction queue with
  | nil => exact ⟨[], [], rfl, rfl, by simp, by simp⟩
  | cons head rest inductionHypothesis =>
      obtain ⟨least, sortedRest⟩ := List.pairwise_cons.mp sorted
      rw [insertLast]
      split
      case isTrue before =>
        refine ⟨[], head :: rest, rfl, rfl, by simp, fun other present => ?_⟩
        rcases List.mem_cons.mp present with rfl | inRest
        · exact before
        · exact before.trans_le (least other inRest)
      case isFalse notBefore =>
        obtain ⟨front, back, parts, inserted, notGreater, greater⟩ := inductionHypothesis sortedRest
        refine ⟨head :: front, back, by rw [parts]; rfl, by rw [inserted]; rfl,
          fun other present => ?_, greater⟩
        rcases List.mem_cons.mp present with rfl | inFront
        · exact not_lt.mp notBefore
        · exact notGreater other inFront

/-- The new item is the last one of those with its key. -/
theorem filter_insertLast {queue : List Item}
    (sorted : queue.Pairwise fun first second => key first ≤ key second) (value : Key) :
    (insertLast key item queue).filter (fun other => key other = value) =
      (queue ++ [item]).filter fun other => key other = value := by
  induction queue with
  | nil => rfl
  | cons head rest inductionHypothesis =>
      obtain ⟨least, sortedRest⟩ := List.pairwise_cons.mp sorted
      rw [insertLast]
      split
      case isTrue before =>
        -- No item behind the place has the key of the new one.
        by_cases isKey : key item = value
        · have none : (head :: rest).filter (fun other => key other = value) = [] := by
            apply List.filter_eq_nil_iff.mpr
            intro other present
            have greater : key item < key other := by
              rcases List.mem_cons.mp present with rfl | inRest
              · exact before
              · exact before.trans_le (least other inRest)
            simp only [decide_eq_true_eq, ← isKey]
            exact greater.ne'
          rw [List.filter_cons_of_pos (by simpa using isKey), List.filter_append, none]
          simp [isKey]
        · rw [List.filter_cons_of_neg (by simpa using isKey), List.filter_append]
          simp [isKey]
      case isFalse =>
        rw [List.cons_append, List.filter_cons, List.filter_cons,
          inductionHypothesis sortedRest]

end Insertion

namespace StableSort

variable {key : Item → Key} {arrivals queue : List Item}

theorem nil : StableSort key ([] : List Item) [] :=
  ⟨List.Pairwise.nil, fun _ => rfl⟩

/-- The queue holds the items that have come. -/
theorem mem_iff (sort : StableSort key arrivals queue) (item : Item) :
    item ∈ queue ↔ item ∈ arrivals := by
  have same := congrArg (item ∈ ·) (sort.stable (key item))
  simpa using same

theorem perm [DecidableEq Item] (sort : StableSort key arrivals queue) :
    queue.Perm arrivals := by
  apply List.perm_iff_count.mpr
  intro item
  have isKey (items : List Item) :
      (items.filter fun one => key one = key item).count item = items.count item := by
    apply List.count_filter
    exact decide_eq_true rfl
  rw [← isKey queue, sort.stable (key item), isKey arrivals]

/-- A new item comes and is inserted. -/
theorem insert (sort : StableSort key arrivals queue) (item : Item) :
    StableSort key (arrivals ++ [item]) (insertLast key item queue) := by
  refine ⟨pairwise_insertLast key item sort.sorted, fun value => ?_⟩
  rw [filter_insertLast key item sort.sorted, List.filter_append, sort.stable value,
    List.filter_append]

/-- Some items are taken out. -/
theorem filter (sort : StableSort key arrivals queue) (stays : Item → Bool) :
    StableSort key (arrivals.filter stays) (queue.filter stays) := by
  refine ⟨sort.sorted.filter stays, fun value => ?_⟩
  rw [List.filter_comm, sort.stable value, List.filter_comm]

/-- A queue that happens to be in the order of a finer key. -/
theorem rekey (sort : StableSort key arrivals queue) {other : Item → Other}
    (finer : ∀ first second, other first = other second → key first = key second)
    (sorted : queue.Pairwise fun first second => other first ≤ other second) :
    StableSort other arrivals queue := by
  refine ⟨sorted, fun value => ?_⟩
  by_cases some : ∃ item, other item = value
  · obtain ⟨item, rfl⟩ := some
    have restrict (items : List Item) : items.filter (fun one => other one = other item) =
        (items.filter fun one => key one = key item).filter fun one =>
          other one = other item := by
      rw [List.filter_filter]
      apply List.filter_congr
      intro one _
      by_cases same : other one = other item
      · simp [same, finer one item same]
      · simp [same]
    rw [restrict queue, sort.stable (key item), ← restrict arrivals]
  · have none (items : List Item) :
        items.filter (fun one => other one = value) = [] := by
      apply List.filter_eq_nil_iff.mpr
      intro one _
      simpa using fun same => some ⟨one, same⟩
    rw [none, none]

end StableSort

/-- Two keys that a list is in the order of do not disagree. -/
theorem le_of_pairwise {key : Item → Key} {other : Item → Other} {queue : List Item}
    (byKey : queue.Pairwise fun first second => key first ≤ key second)
    (byOther : queue.Pairwise fun first second => other first ≤ other second)
    {first second : Item} (isFirst : first ∈ queue) (isSecond : second ∈ queue)
    (before : key first < key second) : other first ≤ other second := by
  refine List.Pairwise.forall_of_forall_of_flip (R := fun first second =>
    key first < key second → other first ≤ other second) ?_ ?_ ?_ isFirst isSecond before
  · exact fun _ _ _ => le_rfl
  · exact byOther.imp fun {first second} ordered (_ : key first < key second) => ordered
  · exact byKey.imp fun ordered reversed => absurd reversed (not_lt.mpr ordered)

section Prefix

variable {passes : Item → Bool} {queue : List Item}

/-- Where no item that passes stands behind one that does not, the items that pass are
those in front. -/
theorem takeWhile_eq_filter
    (closed : queue.Pairwise fun first second => passes second → passes first) :
    queue.takeWhile passes = queue.filter passes ∧
      queue.dropWhile passes = queue.filter fun item => !passes item := by
  induction queue with
  | nil => exact ⟨rfl, rfl⟩
  | cons head rest inductionHypothesis =>
      obtain ⟨front, closedRest⟩ := List.pairwise_cons.mp closed
      by_cases passesHead : passes head = true
      · obtain ⟨taken, dropped⟩ := inductionHypothesis closedRest
        simp [passesHead, taken, dropped]
      · have none : ∀ item ∈ rest, ¬passes item = true := fun item present passesItem =>
          passesHead (front item present passesItem)
        refine ⟨?_, ?_⟩
        · rw [List.takeWhile_cons_of_neg passesHead, List.filter_cons_of_neg passesHead,
            List.filter_eq_nil_iff.mpr none]
        · rw [List.dropWhile_cons_of_neg passesHead]
          symm
          apply List.filter_eq_self.mpr
          intro item present
          rcases List.mem_cons.mp present with rfl | inRest
          · simpa using passesHead
          · simpa using none item inRest

/-- Without the items in front that pass, a queue without repetitions is what is left. -/
theorem filter_notMem_takeWhile [DecidableEq Item] (nodup : queue.Nodup) :
    (queue.filter fun item => item ∉ queue.takeWhile passes) = queue.dropWhile passes := by
  have parts := List.takeWhile_append_dropWhile (p := passes) (l := queue)
  generalize queue.takeWhile passes = front at parts
  generalize queue.dropWhile passes = back at parts
  subst parts
  have apart := (List.nodup_append'.mp nodup).2.2
  rw [List.filter_append, List.filter_eq_nil_iff.mpr (by simp), List.nil_append]
  apply List.filter_eq_self.mpr
  intro item present
  simpa using fun inFront => apart inFront present

end Prefix

end LightOS
