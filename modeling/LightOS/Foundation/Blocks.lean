import Mathlib.Data.List.Chain

/-!
# Blocks laid end to end

A run of memory is cut into blocks, each a header of fixed size followed by its
body, each linked to the block after it and to the block before it.  This module
develops runs of blocks as lists of cells: where the blocks lie, which links are
right, and what splitting a block and absorbing blocks into the one before them
do to both.
-/

namespace LightOS

/-- What a block header records. -/
structure Cell where
  /-- Length of the body. -/
  length : Nat
  /-- Whether the block is in use. -/
  used : Bool
  /-- Address of the block before, zero if there is none. -/
  back : Nat
  /-- Address of the block after, zero if there is none. -/
  forward : Nat
  deriving DecidableEq, Repr

variable {address start previous : Nat} {cell : Cell} {cells before after : List Cell}

namespace Blocks

variable {header : Nat}

/-- Number of bytes that a list of blocks takes. -/
def span (header : Nat) : List Cell → Nat
  | [] => 0
  | cell :: rest => header + cell.length + span header rest

/-- The blocks of a list, each with its address, the first at a given address. -/
def place (header : Nat) : Nat → List Cell → List (Nat × Cell)
  | _, [] => []
  | address, cell :: rest =>
      (address, cell) :: place header (address + header + cell.length) rest

/-- Every forward link leads to the next block; the last leads to a given
address. -/
def ForwardTo (header final : Nat) : Nat → List Cell → Prop
  | _, [] => True
  | address, cell :: rest =>
      cell.forward =
          (if rest = [] then final else address + header + cell.length) ∧
        ForwardTo header final (address + header + cell.length) rest

/-- Every back link leads to the previous block; the first leads to a given
address. -/
def BackFrom (header : Nat) : Nat → Nat → List Cell → Prop
  | _, _, [] => True
  | previous, address, cell :: rest =>
      cell.back = previous ∧
        BackFrom header address (address + header + cell.length) rest

/-- Address of the last block of a list, or a given address if there is none. -/
def lastAddress (header : Nat) : Nat → Nat → List Cell → Nat
  | previous, _, [] => previous
  | _, address, cell :: rest =>
      lastAddress header address (address + header + cell.length) rest

/-- No two neighbouring blocks are both free. -/
def Separated (cells : List Cell) : Prop :=
  cells.IsChain fun left right => left.used = true ∨ right.used = true

@[simp] theorem span_append (left right : List Cell) :
    span header (left ++ right) = span header left + span header right := by
  induction left with
  | nil => simp [span]
  | cons cell rest inductionHypothesis =>
      simp only [List.cons_append, span, inductionHypothesis]
      omega

theorem place_append (address : Nat) (left right : List Cell) :
    place header address (left ++ right) =
      place header address left ++
        place header (address + span header left) right := by
  induction left generalizing address with
  | nil => simp [place, span]
  | cons cell rest inductionHypothesis =>
      have next : address + header + cell.length + span header rest =
          address + span header (cell :: rest) := by
        simp only [span]
        omega
      simp [place, inductionHypothesis, next]

/-- A placed block splits the list into the blocks before and after it. -/
theorem mem_place :
    (address, cell) ∈ place header start cells ↔
      ∃ before after, cells = before ++ cell :: after ∧
        address = start + span header before := by
  induction cells generalizing start with
  | nil => simp [place]
  | cons first rest inductionHypothesis =>
      simp only [place, List.mem_cons, Prod.mk.injEq, inductionHypothesis]
      constructor
      · rintro (⟨rfl, rfl⟩ | ⟨before, after, rfl, rfl⟩)
        · exact ⟨[], rest, rfl, by simp [span]⟩
        · refine ⟨first :: before, after, rfl, ?_⟩
          simp only [span]
          omega
      · rintro ⟨before, after, split, rfl⟩
        cases before with
        | nil =>
            simp only [List.nil_append, List.cons.injEq] at split
            exact .inl ⟨by simp [span], split.1.symm⟩
        | cons other before =>
            simp only [List.cons_append, List.cons.injEq] at split
            obtain ⟨rfl, rfl⟩ := split
            refine .inr ⟨before, after, rfl, ?_⟩
            simp only [span]
            omega

/-- A placed block lies inside the run. -/
theorem place_inside (placed : (address, cell) ∈ place header start cells) :
    start ≤ address ∧
      address + header + cell.length ≤ start + span header cells := by
  obtain ⟨before, after, rfl, rfl⟩ := mem_place.mp placed
  simp only [span_append, span]
  omega

/-- Two blocks of a run at the same address are the same block. -/
theorem place_inj {first second : Cell} (positive : 0 < header)
    (placedFirst : (address, first) ∈ place header start cells)
    (placedSecond : (address, second) ∈ place header start cells) : first = second := by
  induction cells generalizing start with
  | nil => simp [place] at placedFirst
  | cons cell rest inductionHypothesis =>
      simp only [place, List.mem_cons, Prod.mk.injEq] at placedFirst placedSecond
      rcases placedFirst with ⟨rfl, rfl⟩ | inFirst <;>
        rcases placedSecond with ⟨same, rfl⟩ | inSecond
      · rfl
      · have inside := place_inside inSecond
        omega
      · have inside := place_inside inFirst
        omega
      · exact inductionHypothesis inFirst inSecond

/-- Two blocks of a run at different addresses do not overlap. -/
theorem place_apart {other : Nat} {otherCell : Cell}
    (placed : (address, cell) ∈ place header start cells)
    (placedOther : (other, otherCell) ∈ place header start cells) (different : address ≠ other) :
    address + header + cell.length ≤ other ∨
      other + header + otherCell.length ≤ address := by
  induction cells generalizing start with
  | nil => simp [place] at placed
  | cons first rest inductionHypothesis =>
      simp only [place, List.mem_cons, Prod.mk.injEq] at placed placedOther
      rcases placed with ⟨rfl, rfl⟩ | inRest <;>
        rcases placedOther with ⟨rfl, rfl⟩ | otherInRest
      · exact absurd rfl different
      · exact .inl (place_inside otherInRest).1
      · exact .inr (place_inside inRest).1
      · exact inductionHypothesis inRest otherInRest

theorem forwardTo_append {final : Nat} {left right : List Cell} :
    ForwardTo header final address (left ++ right) ↔
      ForwardTo header
          (if right = [] then final else address + span header left)
          address left ∧
        ForwardTo header final (address + span header left) right := by
  induction left generalizing address with
  | nil => simp [ForwardTo, span]
  | cons cell rest inductionHypothesis =>
      have next : address + header + cell.length + span header rest =
          address + span header (cell :: rest) := by
        simp only [span]
        omega
      simp only [List.cons_append, ForwardTo, inductionHypothesis, next,
        List.append_eq_nil_iff, and_assoc]
      by_cases last : rest = []
      · subst last
        have alone : address + span header [cell] =
            address + header + cell.length := by
          simp only [span]
          omega
        by_cases empty : right = [] <;> simp [empty, alone, ForwardTo]
      · simp [last]

theorem backFrom_append {left right : List Cell} :
    BackFrom header previous address (left ++ right) ↔
      BackFrom header previous address left ∧
        BackFrom header (lastAddress header previous address left)
          (address + span header left) right := by
  induction left generalizing previous address with
  | nil => simp [BackFrom, lastAddress, span]
  | cons cell rest inductionHypothesis =>
      have next : address + header + cell.length + span header rest =
          address + span header (cell :: rest) := by
        simp only [span]
        omega
      simp only [List.cons_append, BackFrom, lastAddress, inductionHypothesis,
        next, and_assoc]

/-- Separation around one block. -/
theorem separated_around :
    Separated (before ++ [cell] ++ after) ↔
      Separated before ∧ Separated after ∧
        (∀ last ∈ before.getLast?, last.used = true ∨ cell.used = true) ∧
          ∀ next ∈ after.head?, cell.used = true ∨ next.used = true := by
  unfold Separated
  rw [List.isChain_append, List.isChain_append]
  simp only [List.isChain_singleton, List.head?_cons, Option.mem_some_iff,
    forall_eq', List.getLast?_append, List.getLast?_singleton,
    Option.some_or, true_and]
  constructor
  · rintro ⟨⟨isBefore, left⟩, isAfter, right⟩
    exact ⟨isBefore, isAfter, left, right⟩
  · rintro ⟨isBefore, isAfter, left, right⟩
    exact ⟨⟨isBefore, left⟩, isAfter, right⟩

theorem lastAddress_append
    (previous address : Nat) (left right : List Cell) :
    lastAddress header previous address (left ++ right) =
      lastAddress header (lastAddress header previous address left)
        (address + span header left) right := by
  induction left generalizing previous address with
  | nil => simp [lastAddress, span]
  | cons cell rest inductionHypothesis =>
      have next : address + header + cell.length + span header rest =
          address + span header (cell :: rest) := by
        simp only [span]
        omega
      simp only [List.cons_append, lastAddress, inductionHypothesis, next]

/-- The free block at the end of a separated list, if there is one. -/
theorem exists_free_last (separated : Separated cells) :
    ∃ before free, cells = before ++ free ∧
      (free = [] ∨ ∃ cell, free = [cell] ∧ cell.used = false) ∧
        ∀ last ∈ before.getLast?, last.used = true := by
  rcases List.eq_nil_or_concat' cells with rfl | ⟨init, cell, rfl⟩
  · exact ⟨[], [], rfl, .inl rfl, by simp⟩
  · cases inUse : cell.used with
    | true => exact ⟨init ++ [cell], [], by simp, .inl rfl, by simp [inUse]⟩
    | false =>
        refine ⟨init, [cell], rfl, .inr ⟨cell, rfl, inUse⟩, fun last isLast => ?_⟩
        have boundary := (List.isChain_append.mp separated).2.2 last isLast cell
          (by simp)
        simpa [inUse] using boundary

/-- The free block at the start of a separated list, if there is one. -/
theorem exists_free_head (separated : Separated cells) :
    ∃ free after, cells = free ++ after ∧
      (free = [] ∨ ∃ cell, free = [cell] ∧ cell.used = false) ∧
        ∀ next ∈ after.head?, next.used = true := by
  cases cells with
  | nil => exact ⟨[], [], rfl, .inl rfl, by simp⟩
  | cons cell rest =>
      cases inUse : cell.used with
      | true => exact ⟨[], cell :: rest, rfl, .inl rfl, by simp [inUse]⟩
      | false =>
          refine ⟨[cell], rest, rfl, .inr ⟨cell, rfl, inUse⟩, fun next isNext => ?_⟩
          have boundary := (List.isChain_cons.mp separated).1 next isNext
          simpa [inUse] using boundary

/-- The last of at least one block lies at or after the first. -/
theorem le_lastAddress
    (previous address : Nat) (cell : Cell) (rest : List Cell) :
    address ≤ lastAddress header previous address (cell :: rest) := by
  induction rest generalizing previous address cell with
  | nil => exact Nat.le_refl _
  | cons next rest inductionHypothesis =>
      have later := inductionHypothesis address
        (address + header + cell.length) next
      rw [lastAddress]
      omega

/-- What a run of blocks looks like around one of its blocks. -/
theorem forward_of_split {final : Nat}
    (linked : ForwardTo header final start (before ++ cell :: after)) :
    cell.forward =
      if after = [] then final
      else start + span header before + header + cell.length := by
  rw [forwardTo_append] at linked
  exact linked.2.1

theorem back_of_split (linked : BackFrom header previous start (before ++ cell :: after)) :
    cell.back = lastAddress header previous start before := by
  rw [backFrom_append] at linked
  exact linked.2.1

section Replace

variable {final : Nat} {middle middle' : List Cell}

/-- Forward links survive replacing some blocks by others that take the same
room and are linked among themselves. -/
theorem forwardTo_replace
    (linked : ForwardTo header final start (before ++ middle ++ after))
    (nonempty : middle ≠ [])
    (nonempty' : middle' ≠ [])
    (sameSpan : span header middle' = span header middle)
    (relinked : ForwardTo header
      (if after = [] then final else start + span header before + span header middle)
      (start + span header before) middle') :
    ForwardTo header final start (before ++ middle' ++ after) := by
  rw [List.append_assoc, forwardTo_append] at linked ⊢
  obtain ⟨linkedBefore, linked⟩ := linked
  rw [forwardTo_append] at linked ⊢
  rw [sameSpan]
  refine ⟨?_, relinked, linked.2⟩
  simpa [nonempty, nonempty'] using linkedBefore

/-- Back links after some blocks are replaced by others of the same room: what
comes before is not affected, what comes after must lead to the new last
block. -/
theorem backFrom_replace (linked : BackFrom header previous start (before ++ middle ++ after))
    (sameSpan : span header middle' = span header middle)
    (relinked : BackFrom header (lastAddress header previous start before)
      (start + span header before) middle') :
    BackFrom header previous start (before ++ middle' ++ after) ↔
      after = [] ∨
        lastAddress header (lastAddress header previous start before)
            (start + span header before) middle' =
          lastAddress header (lastAddress header previous start before)
            (start + span header before) middle := by
  rw [List.append_assoc, backFrom_append] at linked ⊢
  obtain ⟨linkedBefore, linked⟩ := linked
  rw [backFrom_append] at linked ⊢
  rw [sameSpan]
  cases after with
  | nil => simp [BackFrom, linkedBefore, relinked]
  | cons cell rest =>
      have cellBack := linked.2.1
      have restLinked := linked.2.2
      simp only [linkedBefore, relinked, true_and, BackFrom, reduceCtorEq,
        false_or, restLinked, and_true, cellBack]
      exact eq_comm

end Replace

end Blocks

end LightOS
