import Mathlib.Data.List.Chain
import Mathlib.Data.List.Nodup
import Mathlib.Logic.Function.Basic

/-!
# Doubly linked places

A sequence of places, each with a link to the next one and a link back.  An item that is
linked in between two neighbours, or unlinked from between them, changes four links.  The
sequence around it stays linked, and so does every other sequence that has none of these
places.
-/

namespace LightOS

/-- The links of places in both directions. -/
structure Links (Place : Type*) where
  next : Place → Place
  prev : Place → Place

namespace Links

variable {Place : Type*}

/-- Two places are neighbours. -/
def Joined (links : Links Place) (before behind : Place) : Prop :=
  links.next before = behind ∧ links.prev behind = before

/-- A sequence of neighbours. -/
def Linked (links : Links Place) (places : List Place) : Prop :=
  places.IsChain links.Joined

/-- The links in the other direction. -/
def flip (links : Links Place) : Links Place :=
  ⟨links.prev, links.next⟩

/-- The places from one on, in front of a last one. -/
def walk [DecidableEq Place] (step : Place → Place) (last : Place) :
    Nat → Place → Option (List Place)
  | 0, _ => none
  | rounds + 1, place =>
      if place = last then some [] else (walk step last rounds (step place)).map (place :: ·)

variable {links others : Links Place} {front back places : List Place}
  {before item behind null : Place}

theorem linked_flip : links.flip.Linked places.reverse ↔ links.Linked places := by
  unfold Linked
  rw [List.isChain_reverse]
  exact ⟨fun linked => linked.imp fun _ _ joined => ⟨joined.2, joined.1⟩,
    fun linked => linked.imp fun _ _ joined => ⟨joined.2, joined.1⟩⟩

/-- A sequence is linked by what its places but the last have in front and its places but the
first have behind. -/
theorem Linked.congr (linked : links.Linked places)
    (nexts : ∀ place ∈ places.dropLast, others.next place = links.next place)
    (prevs : ∀ place ∈ places.tail, others.prev place = links.prev place) :
    others.Linked places := by
  induction places with
  | nil => exact .nil
  | cons first rest inductionHypothesis =>
      cases rest with
      | nil => exact .singleton _
      | cons second rest =>
          obtain ⟨joined, linkedRest⟩ := List.isChain_cons_cons.mp linked
          refine .cons_cons ⟨?_, ?_⟩ (inductionHypothesis linkedRest (fun place inRest => ?_)
            fun place inRest => ?_)
          · rw [nexts first (by simp), joined.1]
          · rw [prevs second (by simp), joined.2]
          · exact nexts place (by simp [inRest])
          · exact prevs place (by simp [List.mem_of_mem_tail inRest])

/-- The places in front of the last one are those that a walk visits. -/
theorem Linked.walk [DecidableEq Place] {last : Place} (linked : links.Linked (places ++ [last]))
    (apart : last ∉ places) {rounds : Nat} (enough : places.length < rounds) :
    walk links.next last rounds ((places ++ [last]).head (by simp)) = some places := by
  induction places generalizing rounds with
  | nil =>
      cases rounds with
      | zero => omega
      | succ rounds => simp [Links.walk]
  | cons place places inductionHypothesis =>
      cases rounds with
      | zero => omega
      | succ rounds =>
          have notLast : place ≠ last := fun same => apart (same ▸ List.mem_cons_self)
          have isNext : links.next place = (places ++ [last]).head (by simp) := by
            cases places with
            | nil => exact (List.isChain_cons_cons.mp linked).1.1
            | cons second places => exact (List.isChain_cons_cons.mp linked).1.1
          have linkedRest : links.Linked (places ++ [last]) := List.IsChain.tail linked
          simp only [List.cons_append, List.head_cons, Links.walk, if_neg notLast, isNext]
          rw [inductionHypothesis linkedRest (fun inRest => apart (.tail _ inRest))
            (Nat.lt_of_succ_lt_succ enough)]
          rfl

/-- A walk from behind a place visits what is between it and the last one. -/
theorem Linked.walk_next [DecidableEq Place] {place last : Place}
    (linked : links.Linked (place :: (places ++ [last]))) (apart : last ∉ places) {rounds : Nat}
    (enough : places.length < rounds) :
    Links.walk links.next last rounds (links.next place) = some places := by
  have isNext : links.next place = (places ++ [last]).head (by simp) := by
    cases places with
    | nil => exact (List.isChain_cons_cons.mp linked).1.1
    | cons second places => exact (List.isChain_cons_cons.mp linked).1.1
  rw [isNext]
  exact Linked.walk (List.IsChain.tail linked) apart enough

/-- What the places around an item in a sequence without repetitions are not. -/
theorem ne_of_nodup (distinct : (front ++ before :: item :: behind :: back).Nodup) :
    (∀ place ∈ front, place ≠ before ∧ place ≠ item ∧ place ≠ behind) ∧
      before ≠ item ∧ before ≠ behind ∧ item ≠ behind ∧
      ∀ place ∈ back, place ≠ before ∧ place ≠ item ∧ place ≠ behind := by
  obtain ⟨_, distinct, apart⟩ := List.nodup_append.mp distinct
  simp only [List.nodup_cons, List.mem_cons, not_or] at distinct
  obtain ⟨⟨notItem, notBehind, beforeBack⟩, ⟨itemBehind, itemBack⟩, behindBack, _⟩ := distinct
  refine ⟨fun place inFront => ⟨?_, ?_, ?_⟩, notItem, notBehind, itemBehind,
    fun place inBack => ⟨?_, ?_, ?_⟩⟩
  · exact apart place inFront before (by simp)
  · exact apart place inFront item (by simp)
  · exact apart place inFront behind (by simp)
  · exact fun same => beforeBack (same ▸ inBack)
  · exact fun same => itemBack (same ▸ inBack)
  · exact fun same => behindBack (same ▸ inBack)

section Change

variable [DecidableEq Place]

/-- An item between two neighbours. -/
def insert (links : Links Place) (before item behind : Place) : Links Place where
  next := Function.update (Function.update links.next item behind) before item
  prev := Function.update (Function.update links.prev item before) behind item

/-- An item taken from between its neighbours. -/
def unlink (links : Links Place) (before item behind null : Place) : Links Place where
  next := Function.update (Function.update links.next before behind) item null
  prev := Function.update (Function.update links.prev behind before) item null

theorem insert_next {place : Place} (notBefore : place ≠ before) (notItem : place ≠ item) :
    (links.insert before item behind).next place = links.next place := by
  simp only [insert, Function.update_of_ne notBefore, Function.update_of_ne notItem]

theorem insert_prev {place : Place} (notBehind : place ≠ behind) (notItem : place ≠ item) :
    (links.insert before item behind).prev place = links.prev place := by
  simp only [insert, Function.update_of_ne notBehind, Function.update_of_ne notItem]

theorem unlink_next {place : Place} (notBefore : place ≠ before) (notItem : place ≠ item) :
    (links.unlink before item behind null).next place = links.next place := by
  simp only [unlink, Function.update_of_ne notBefore, Function.update_of_ne notItem]

theorem unlink_prev {place : Place} (notBehind : place ≠ behind) (notItem : place ≠ item) :
    (links.unlink before item behind null).prev place = links.prev place := by
  simp only [unlink, Function.update_of_ne notBehind, Function.update_of_ne notItem]

/-- A sequence without the places around an insertion stays linked. -/
theorem Linked.insert_other (linked : links.Linked places) (notBefore : before ∉ places)
    (notItem : item ∉ places) (notBehind : behind ∉ places) :
    (links.insert before item behind).Linked places := by
  refine linked.congr (fun place isPlace => ?_) fun place isPlace => ?_
  · have inPlaces := (List.dropLast_sublist places).mem isPlace
    exact insert_next (fun same => notBefore (same ▸ inPlaces)) fun same =>
      notItem (same ▸ inPlaces)
  · have inPlaces := List.mem_of_mem_tail isPlace
    exact insert_prev (fun same => notBehind (same ▸ inPlaces)) fun same =>
      notItem (same ▸ inPlaces)

/-- A sequence without the places around an item stays linked when the item is unlinked. -/
theorem Linked.unlink_other (linked : links.Linked places) (notBefore : before ∉ places)
    (notItem : item ∉ places) (notBehind : behind ∉ places) :
    (links.unlink before item behind null).Linked places := by
  refine linked.congr (fun place isPlace => ?_) fun place isPlace => ?_
  · have inPlaces := (List.dropLast_sublist places).mem isPlace
    exact unlink_next (fun same => notBefore (same ▸ inPlaces)) fun same =>
      notItem (same ▸ inPlaces)
  · have inPlaces := List.mem_of_mem_tail isPlace
    exact unlink_prev (fun same => notBehind (same ▸ inPlaces)) fun same =>
      notItem (same ▸ inPlaces)

/-- A sequence stays linked around an item that is inserted into it. -/
theorem Linked.insert (linked : links.Linked (front ++ before :: behind :: back))
    (distinct : (front ++ before :: item :: behind :: back).Nodup) :
    (links.insert before item behind).Linked (front ++ before :: item :: behind :: back) := by
  obtain ⟨notFront, beforeItem, beforeBehind, itemBehind, notBack⟩ := ne_of_nodup distinct
  obtain ⟨first, _, second⟩ := List.isChain_append_cons_cons.mp linked
  refine List.isChain_append_cons_cons.mpr ⟨?_, ⟨?_, ?_⟩, .cons_cons ⟨?_, ?_⟩ ?_⟩
  · refine Linked.congr first (fun place isPlace => ?_) fun place isPlace => ?_
    · rw [List.dropLast_concat] at isPlace
      exact insert_next (notFront place isPlace).1 (notFront place isPlace).2.1
    · rcases List.mem_append.mp (List.mem_of_mem_tail isPlace) with inFront | isBefore
      · exact insert_prev (notFront place inFront).2.2 (notFront place inFront).2.1
      · rw [List.mem_singleton.mp isBefore]
        exact insert_prev beforeBehind beforeItem
  · simp [Links.insert]
  · simp [Links.insert, itemBehind]
  · simp [Links.insert, Ne.symm beforeItem]
  · simp [Links.insert]
  · refine Linked.congr second (fun place isPlace => ?_) fun place isPlace => ?_
    · rcases List.mem_cons.mp ((List.dropLast_sublist _).mem isPlace) with isBehind | inBack
      · rw [isBehind]
        exact insert_next (Ne.symm beforeBehind) (Ne.symm itemBehind)
      · exact insert_next (notBack place inBack).1 (notBack place inBack).2.1
    · exact insert_prev (notBack place isPlace).2.2 (notBack place isPlace).2.1

/-- A sequence stays linked without an item that is taken from it. -/
theorem Linked.unlink (linked : links.Linked (front ++ before :: item :: behind :: back))
    (distinct : (front ++ before :: item :: behind :: back).Nodup) :
    (links.unlink before item behind null).Linked (front ++ before :: behind :: back) := by
  obtain ⟨notFront, beforeItem, beforeBehind, itemBehind, notBack⟩ := ne_of_nodup distinct
  obtain ⟨first, _, second⟩ := List.isChain_append_cons_cons.mp linked
  refine List.isChain_append_cons_cons.mpr ⟨?_, ⟨?_, ?_⟩, ?_⟩
  · refine Linked.congr first (fun place isPlace => ?_) fun place isPlace => ?_
    · rw [List.dropLast_concat] at isPlace
      exact unlink_next (notFront place isPlace).1 (notFront place isPlace).2.1
    · rcases List.mem_append.mp (List.mem_of_mem_tail isPlace) with inFront | isBefore
      · exact unlink_prev (notFront place inFront).2.2 (notFront place inFront).2.1
      · rw [List.mem_singleton.mp isBefore]
        exact unlink_prev beforeBehind beforeItem
  · simp [Links.unlink, beforeItem]
  · simp [Links.unlink, Ne.symm itemBehind]
  · refine Linked.congr (List.isChain_cons_cons.mp second).2 (fun place isPlace => ?_)
      fun place isPlace => ?_
    · rcases List.mem_cons.mp ((List.dropLast_sublist _).mem isPlace) with isBehind | inBack
      · rw [isBehind]
        exact unlink_next (Ne.symm beforeBehind) (Ne.symm itemBehind)
      · exact unlink_next (notBack place inBack).1 (notBack place inBack).2.1
    · exact unlink_prev (notBack place isPlace).2.2 (notBack place isPlace).2.1

end Change

end Links
end LightOS
