import LightOS.Foundation.Links
import LightOS.Foundation.Refinement
import LightOS.Foundation.StableQueue
import LightOS.Kernel.Fault
import Mathlib.Algebra.Group.Nat.Defs
import Mathlib.Algebra.Order.Ring.Int

/-!
# Intrusive lists

The functions of `list.c` on a heap of nodes.  A list has a node in front of its items and one
behind them.  As long as every node is on one list at most, the lists are sequences: each
function does to them what it is named for, both ways of going through a list visit its
items, and a node that is taken from a list has no links.
-/

namespace LightOS

/-- The fields of `list_node_t` at every address.  `NULL` is 0. -/
abbrev Nodes : Type :=
  Links Nat

namespace Nodes

/-- The address of the field `tail` of a list.  The field `head` is where the list is. -/
def tail (list : Nat) : Nat :=
  list + 8

/-- Read the field `next`. -/
def getNext (s : Nodes) (node : Nat) : Except Fault Nat := do
  bounded (node ≠ 0)
  return s.next node

/-- Read the field `prev`. -/
def getPrev (s : Nodes) (node : Nat) : Except Fault Nat := do
  bounded (node ≠ 0)
  return s.prev node

/-- Write the field `next`. -/
def setNext (s : Nodes) (node value : Nat) : Except Fault Nodes := do
  bounded (node ≠ 0)
  return { s with next := Function.update s.next node value }

/-- Write the field `prev`. -/
def setPrev (s : Nodes) (node value : Nat) : Except Fault Nodes := do
  bounded (node ≠ 0)
  return { s with prev := Function.update s.prev node value }

/-- `list_init`. -/
def listInit (s : Nodes) (list : Nat) : Except Fault Nodes := do
  let s ← s.setPrev list 0
  let s ← s.setNext (tail list) 0
  let s ← s.setNext list (tail list)
  s.setPrev (tail list) list

/-- `list_insert_before`. -/
def listInsertBefore (s : Nodes) (anchor node : Nat) : Except Fault Nodes := do
  let s ← s.setPrev node (← s.getPrev anchor)
  let s ← s.setNext node anchor
  let s ← s.setNext (← s.getPrev anchor) node
  s.setPrev anchor node

/-- `list_insert_after`. -/
def listInsertAfter (s : Nodes) (anchor node : Nat) : Except Fault Nodes := do
  let s ← s.setPrev node anchor
  let s ← s.setNext node (← s.getNext anchor)
  let s ← s.setPrev (← s.getNext anchor) node
  s.setNext anchor node

/-- The loop of `list_search`.  A loop of more rounds than there are addresses has been at the
same node before and never ends. -/
def searchFrom (s : Nodes) (list node : Nat) : Nat → Nat → Except Fault Bool
  | 0, _ => .error .blocked
  | rounds + 1, next =>
      if next = tail list then
        .ok false
      else if next = node then
        .ok true
      else do
        searchFrom s list node rounds (← s.getNext next)

/-- `list_search`. -/
def listSearch (s : Nodes) (list node : Nat) : Except Fault Bool := do
  searchFrom s list node (2 ^ 32) (← s.getNext list)

/-- `list_empty`. -/
def listEmpty (s : Nodes) (list : Nat) : Except Fault Bool := do
  return (← s.getNext list) = tail list

/-- `list_push`. -/
def listPush (s : Nodes) (list node : Nat) : Except Fault Nodes := do
  check ((← s.listSearch list node) = false)
  s.listInsertAfter list node

/-- `list_pushback`. -/
def listPushback (s : Nodes) (list node : Nat) : Except Fault Nodes := do
  check ((← s.listSearch list node) = false)
  s.listInsertBefore (tail list) node

/-- `list_remove`. -/
def listRemove (s : Nodes) (node : Nat) : Except Fault Nodes := do
  check ((← s.getPrev node) ≠ 0)
  check ((← s.getNext node) ≠ 0)
  let s ← s.setNext (← s.getPrev node) (← s.getNext node)
  let s ← s.setPrev (← s.getNext node) (← s.getPrev node)
  let s ← s.setNext node 0
  s.setPrev node 0

/-- `list_pop`. -/
def listPop (s : Nodes) (list : Nat) : Except Fault (Nat × Nodes) := do
  check ((← s.listEmpty list) = false)
  let node ← s.getNext list
  return (node, ← s.listRemove node)

/-- `list_popback`. -/
def listPopback (s : Nodes) (list : Nat) : Except Fault (Nat × Nodes) := do
  check ((← s.listEmpty list) = false)
  let node ← s.getPrev (tail list)
  return (node, ← s.listRemove node)

/-- The loop of `list_size`. -/
def sizeFrom (s : Nodes) (list : Nat) : Nat → Nat → Nat → Except Fault Nat
  | 0, _, _ => .error .blocked
  | rounds + 1, next, size =>
      if next = tail list then
        .ok size
      else do
        sizeFrom s list rounds (← s.getNext next) ((size + 1) % 2 ^ 32)

/-- `list_size`. -/
def listSize (s : Nodes) (list : Nat) : Except Fault Nat := do
  sizeFrom s list (2 ^ 32) (← s.getNext list) 0

/-- The loop of `list_insert_sort`. -/
def anchorFrom (s : Nodes) (list : Nat) (key : Nat → Int) (own : Int) :
    Nat → Nat → Except Fault Nat
  | 0, _ => .error .blocked
  | rounds + 1, ptr =>
      if ptr = tail list then
        .ok (tail list)
      else if own < key ptr then
        .ok ptr
      else do
        anchorFrom s list key own rounds (← s.getNext ptr)

/-- `element_node_key`: the word at an offset from a node, as a signed `int`. -/
def elementNodeKey (words : Nat → BitVec 32) (offset : Int) (node : Nat) : Int :=
  (words ((node + offset) % 2 ^ 32).toNat).toInt

/-- `list_insert_sort`, with the words at all addresses. -/
def listInsertSort (s : Nodes) (words : Nat → BitVec 32) (list node : Nat) (offset : Int) :
    Except Fault Nodes := do
  let key := elementNodeKey words offset
  let anchor ← anchorFrom s list key (key node) (2 ^ 32) (← s.getNext list)
  check ((← s.getNext node) = 0)
  check ((← s.getPrev node) = 0)
  s.listInsertBefore anchor node

/-! ## Sequences -/

/-- Calls of the functions. -/
inductive Call
  | push (list node : Nat)
  | pushback (list node : Nat)
  | pop (list : Nat)
  | popback (list : Nat)
  | insertSort (words : Nat → BitVec 32) (list node : Nat) (offset : Int)
  | remove (node : Nat)

/-- The items of every list, and the nodes that are known to have no links. -/
structure Sequences where
  items : Nat → List Nat
  clear : Nat → Prop

namespace Sequences

/-- The nodes of a list, with those in front of and behind its items. -/
def places (v : Sequences) (list : Nat) : List Nat :=
  list :: v.items list ++ [tail list]

/-- A node that is on none of the lists. -/
structure Free (lists : List Nat) (v : Sequences) (node : Nat) : Prop where
  positive : 0 < node
  word : node < 2 ^ 32
  apart : ∀ list ∈ lists, node ∉ v.places list

/-- The items of a list become others, with a node among them that was not. -/
def added (v : Sequences) (list node : Nat) (items : List Nat) : Sequences where
  items := Function.update v.items list items
  clear other := v.clear other ∧ other ≠ node

/-- The items of a list become others, without a node that was among them. -/
def taken (v : Sequences) (list node : Nat) (items : List Nat) : Sequences where
  items := Function.update v.items list items
  clear other := v.clear other ∨ other = node

end Sequences

open Sequences (Free)

/-- The lists as a data type.  A node is put on a list only while it is on none, and
`list_insert_sort` is given a node without links. -/
def sequences (lists : List Nat) : DataType Sequences Call (Option Nat) where
  allowed v
    | .push list node => list ∈ lists ∧ v.Free lists node
    | .pushback list node => list ∈ lists ∧ v.Free lists node
    | .pop list => list ∈ lists ∧ v.items list ≠ []
    | .popback list => list ∈ lists ∧ v.items list ≠ []
    | .insertSort _ list node _ => list ∈ lists ∧ v.Free lists node ∧ v.clear node
    | .remove node => ∃ list ∈ lists, node ∈ v.items list
  next v
    | .push list node => (none, v.added list node (node :: v.items list))
    | .pushback list node => (none, v.added list node (v.items list ++ [node]))
    | .pop list =>
        match v.items list with
        | [] => (none, v)
        | node :: rest => (some node, v.taken list node rest)
    | .popback list =>
        match (v.items list).getLast? with
        | none => (none, v)
        | some node => (some node, v.taken list node (v.items list).dropLast)
    | .insertSort words list node offset =>
        (none, v.added list node (insertLast (elementNodeKey words offset) node (v.items list)))
    | .remove node =>
        (none, ⟨fun list => (v.items list).erase node, fun other => v.clear other ∨ other = node⟩)

/-- A call of one of the functions. -/
def call (s : Nodes) : Call → Except Fault (Option Nat × Nodes)
  | .push list node => do return (none, ← s.listPush list node)
  | .pushback list node => do return (none, ← s.listPushback list node)
  | .pop list => do
      let popped ← s.listPop list
      return (some popped.1, popped.2)
  | .popback list => do
      let popped ← s.listPopback list
      return (some popped.1, popped.2)
  | .insertSort words list node offset => do
      return (none, ← s.listInsertSort words list node offset)
  | .remove node => do return (none, ← s.listRemove node)

/-- Every place is on one list at most, and there once. -/
structure Separate (lists : List Nat) (v : Sequences) : Prop where
  distinct : ∀ list ∈ lists, (v.places list).Nodup
  apart : ∀ list ∈ lists, ∀ other ∈ lists, list ≠ other →
    ∀ place ∈ v.places list, place ∉ v.places other
  range : ∀ list ∈ lists, ∀ place ∈ v.places list, 0 < place ∧ place < 2 ^ 32

/-- The heap of nodes has the lists of some sequences: their places are linked in both
directions. -/
structure Represents (lists : List Nat) (s : Nodes) (v : Sequences) : Prop where
  separate : Separate lists v
  linked : ∀ list ∈ lists, s.Linked (v.places list)
  ends : ∀ list ∈ lists, s.prev list = 0 ∧ s.next (tail list) = 0
  clear : ∀ node, v.clear node → s.prev node = 0 ∧ s.next node = 0 ∧
    ∀ list ∈ lists, node ∉ v.places list

/-- The items of a list from the front, as `next` leads through them. -/
def forward (s : Nodes) (list : Nat) : Option (List Nat) :=
  Links.walk s.next (tail list) (2 ^ 32) (s.next list)

/-- The items of a list from the back, as `prev` leads through them. -/
def backward (s : Nodes) (list : Nat) : Option (List Nat) :=
  Links.walk s.prev list (2 ^ 32) (s.prev (tail list))

variable {lists : List Nat} {s : Nodes} {v : Sequences} {list node before behind : Nat}
  {init front back rest : List Nat}

/-! ## Places -/

theorem places_split (items : v.items list = front ++ back)
    (isBefore : list :: front = init ++ [before])
    (isBehind : back ++ [tail list] = behind :: rest) :
    v.places list = init ++ before :: behind :: rest := by
  calc v.places list = (list :: front) ++ (back ++ [tail list]) := by
        simp [Sequences.places, items]
    _ = init ++ before :: behind :: rest := by
        rw [isBefore, isBehind]
        simp

/-- The places around an item of a list. -/
theorem places_split_item (items : v.items list = front ++ node :: back)
    (isBefore : list :: front = init ++ [before])
    (isBehind : back ++ [tail list] = behind :: rest) :
    v.places list = init ++ before :: node :: behind :: rest := by
  calc v.places list = (list :: front) ++ node :: (back ++ [tail list]) := by
        simp [Sequences.places, items]
    _ = init ++ before :: node :: behind :: rest := by
        rw [isBefore, isBehind]
        simp

theorem places_added_of_ne {other : Nat} (differ : other ≠ list) (items : List Nat) :
    (v.added list node items).places other = v.places other := by
  simp [Sequences.places, Sequences.added, Function.update_of_ne differ]

theorem places_taken_of_ne {other : Nat} (differ : other ≠ list) (items : List Nat) :
    (v.taken list node items).places other = v.places other := by
  simp [Sequences.places, Sequences.taken, Function.update_of_ne differ]

/-- One list gets other places, which were its own or on no list. -/
theorem Separate.change {w : Sequences} (separate : Separate lists v) (isList : list ∈ lists)
    (others : ∀ other ≠ list, w.places other = v.places other) (distinct : (w.places list).Nodup)
    (within : ∀ place ∈ w.places list, place ∈ v.places list ∨ v.Free lists place) :
    Separate lists w where
  distinct other isOther := by
    by_cases same : other = list
    · rw [same]
      exact distinct
    · rw [others other same]
      exact separate.distinct other isOther
  apart one isOne other isOther differ place isPlace := by
    have changed {place : Nat} (isPlace : place ∈ w.places list) {other : Nat}
        (isOther : other ∈ lists) (differ : list ≠ other) : place ∉ v.places other := by
      rcases within place isPlace with inList | free
      · exact separate.apart list isList other isOther differ place inList
      · exact free.apart other isOther
    by_cases first : one = list
    · subst first
      rw [others other (Ne.symm differ)]
      exact changed isPlace isOther differ
    · rw [others one first] at isPlace
      by_cases second : other = list
      · subst second
        exact fun inOther => changed inOther isOne (Ne.symm differ) isPlace
      · rw [others other second]
        exact separate.apart one isOne other isOther differ place isPlace
  range other isOther place isPlace := by
    by_cases same : other = list
    · rw [same] at isPlace
      rcases within place isPlace with inList | free
      · exact separate.range list isList place inList
      · exact ⟨free.positive, free.word⟩
    · rw [others other same] at isPlace
      exact separate.range other isOther place isPlace

/-- The places around a part of a list are on it.  The node in front of a list is behind no
place, and the one behind a list in front of none. -/
theorem Represents.neighbours (represents : Represents lists s v) (isList : list ∈ lists)
    (middle : List Nat) (items : v.items list = front ++ middle ++ back)
    (isBefore : list :: front = init ++ [before])
    (isBehind : back ++ [tail list] = behind :: rest) :
    before ∈ v.places list ∧ behind ∈ v.places list ∧
      ∀ other ∈ lists, other ≠ behind ∧ tail other ≠ before ∧
        ∀ item ∈ middle, other ≠ item ∧ tail other ≠ item := by
  have whole : v.places list = (list :: front) ++ (middle ++ (back ++ [tail list])) := by
    simp [Sequences.places, items]
  have first : before ∈ list :: front := by simp [isBefore]
  have second : behind ∈ middle ++ (back ++ [tail list]) := by simp [isBehind]
  have beforeIn : before ∈ v.places list := whole ▸ List.mem_append_left _ first
  have behindIn : behind ∈ v.places list := whole ▸ List.mem_append_right _ second
  refine ⟨beforeIn, behindIn, fun other isOther => ?_⟩
  by_cases same : other = list
  · have distinct := represents.separate.distinct list isList
    rw [whole, List.nodup_append] at distinct
    obtain ⟨_, later, apart⟩ := distinct
    rw [List.nodup_append] at later
    rw [same]
    exact ⟨apart list List.mem_cons_self behind second,
      (apart before first (tail list) (by simp)).symm,
      fun item isItem => ⟨apart list List.mem_cons_self item (List.mem_append_left _ isItem),
        (later.2.2 item isItem (tail list) (by simp)).symm⟩⟩
  · have notIn (place : Nat) (inList : place ∈ v.places list) : place ∉ v.places other :=
      represents.separate.apart list isList other isOther (Ne.symm same) place inList
    have isHead {place : Nat} (inList : place ∈ v.places list) : other ≠ place :=
      ne_of_mem_of_not_mem List.mem_cons_self (notIn place inList)
    have isTail {place : Nat} (inList : place ∈ v.places list) : tail other ≠ place :=
      ne_of_mem_of_not_mem (by simp [Sequences.places]) (notIn place inList)
    refine ⟨isHead behindIn, isTail beforeIn, fun item isItem => ?_⟩
    have inList : item ∈ v.places list := by simp [whole, isItem]
    exact ⟨isHead inList, isTail inList⟩

/-- A node is put between two neighbours of a list. -/
theorem Represents.added (represents : Represents lists s v) (isList : list ∈ lists)
    (free : v.Free lists node) (items : v.items list = front ++ back)
    (isBefore : list :: front = init ++ [before])
    (isBehind : back ++ [tail list] = behind :: rest) :
    Represents lists (s.insert before node behind)
      (v.added list node (front ++ node :: back)) := by
  have split := places_split items isBefore isBehind
  obtain ⟨beforeIn, behindIn, ends⟩ := represents.neighbours isList []
    (by simp [items]) isBefore isBehind
  have places : (v.added list node (front ++ node :: back)).places list =
      init ++ before :: node :: behind :: rest :=
    places_split_item (by simp [Sequences.added]) isBefore isBehind
  have others {other : Nat} (differ : other ≠ list) :
      (v.added list node (front ++ node :: back)).places other = v.places other :=
    places_added_of_ne differ _
  have member {place : Nat} : place ∈ init ++ before :: node :: behind :: rest ↔
      place = node ∨ place ∈ v.places list := by
    rw [split]
    simp only [List.mem_append, List.mem_cons]
    tauto
  have notIn {other place : Nat} (isOther : other ∈ lists) (differ : other ≠ list)
      (inList : place ∈ v.places list) : place ∉ v.places other :=
    represents.separate.apart list isList other isOther (Ne.symm differ) place inList
  have distinct : (init ++ before :: node :: behind :: rest).Nodup := by
    have moved : init ++ before :: node :: behind :: rest =
        (init ++ [before]) ++ node :: (behind :: rest) := by simp
    have old : (init ++ [before]) ++ behind :: rest = v.places list := by simp [split]
    rw [moved, List.nodup_middle, List.nodup_cons, old]
    exact ⟨free.apart list isList, represents.separate.distinct list isList⟩
  refine ⟨?_, fun other isOther => ?_, fun other isOther => ?_, ?_⟩
  · refine represents.separate.change isList (fun other differ => others differ)
      (places ▸ distinct) fun place isPlace => ?_
    rw [places, member] at isPlace
    exact isPlace.elim (fun same => .inr (same ▸ free)) .inl
  · by_cases same : other = list
    · rw [same, places]
      exact Links.Linked.insert (split ▸ represents.linked list isList) distinct
    · rw [others same]
      exact (represents.linked other isOther).insert_other (notIn isOther same beforeIn)
        (free.apart other isOther) (notIn isOther same behindIn)
  · have apart := free.apart other isOther
    have notHead : other ≠ node := ne_of_mem_of_not_mem List.mem_cons_self apart
    have notTail : tail other ≠ node := ne_of_mem_of_not_mem (by simp [Sequences.places]) apart
    rw [Links.insert_prev (ends other isOther).1 notHead,
      Links.insert_next (ends other isOther).2.1 notTail]
    exact represents.ends other isOther
  · rintro other ⟨isClear, notNode⟩
    obtain ⟨noPrev, noNext, apart⟩ := represents.clear other isClear
    have notPlace := apart list isList
    rw [Links.insert_prev (ne_of_mem_of_not_mem behindIn notPlace).symm notNode,
      Links.insert_next (ne_of_mem_of_not_mem beforeIn notPlace).symm notNode]
    refine ⟨noPrev, noNext, fun one isOne => ?_⟩
    by_cases same : one = list
    · rw [same, places, member]
      exact fun either => either.elim notNode notPlace
    · rw [others same]
      exact apart one isOne

/-- A node is taken from between its neighbours on a list. -/
theorem Represents.taken (represents : Represents lists s v) (isList : list ∈ lists)
    (items : v.items list = front ++ node :: back)
    (isBefore : list :: front = init ++ [before])
    (isBehind : back ++ [tail list] = behind :: rest) :
    Represents lists (s.unlink before node behind 0) (v.taken list node (front ++ back)) := by
  have split := places_split_item items isBefore isBehind
  obtain ⟨beforeIn, behindIn, ends⟩ := represents.neighbours isList [node]
    (by simp [items]) isBefore isBehind
  have nodeIn : node ∈ v.places list := by simp [split]
  have places : (v.taken list node (front ++ back)).places list =
      init ++ before :: behind :: rest :=
    places_split (by simp [Sequences.taken]) isBefore isBehind
  have others {other : Nat} (differ : other ≠ list) :
      (v.taken list node (front ++ back)).places other = v.places other :=
    places_taken_of_ne differ _
  have notIn {other place : Nat} (isOther : other ∈ lists) (differ : other ≠ list)
      (inList : place ∈ v.places list) : place ∉ v.places other :=
    represents.separate.apart list isList other isOther (Ne.symm differ) place inList
  have distinct : (init ++ before :: node :: behind :: rest).Nodup :=
    split ▸ represents.separate.distinct list isList
  have moved : init ++ before :: node :: behind :: rest =
      (init ++ [before]) ++ node :: (behind :: rest) := by simp
  have left : (init ++ [before]) ++ behind :: rest = init ++ before :: behind :: rest := by simp
  obtain ⟨gone, distinctLeft⟩ : node ∉ init ++ before :: behind :: rest ∧
      (init ++ before :: behind :: rest).Nodup := by
    rw [moved, List.nodup_middle, List.nodup_cons, left] at distinct
    exact distinct
  have within {place : Nat} (isPlace : place ∈ init ++ before :: behind :: rest) :
      place ∈ v.places list := by
    rw [← left] at isPlace
    rw [split, moved]
    exact List.mem_append.mpr ((List.mem_append.mp isPlace).imp id (List.mem_cons_of_mem _))
  refine ⟨?_, fun other isOther => ?_, fun other isOther => ?_, ?_⟩
  · exact represents.separate.change isList (fun other differ => others differ)
      (places ▸ distinctLeft) fun place isPlace => .inl (within (places ▸ isPlace))
  · by_cases same : other = list
    · rw [same, places]
      exact Links.Linked.unlink (split ▸ represents.linked list isList) distinct
    · rw [others same]
      exact (represents.linked other isOther).unlink_other (notIn isOther same beforeIn)
        (notIn isOther same nodeIn) (notIn isOther same behindIn)
  · have notNode := (ends other isOther).2.2 node List.mem_cons_self
    rw [Links.unlink_prev (ends other isOther).1 notNode.1,
      Links.unlink_next (ends other isOther).2.1 notNode.2]
    exact represents.ends other isOther
  · intro other isClear
    have apart : ∀ one ∈ lists, other ∉ (v.taken list node (front ++ back)).places one := by
      intro one isOne
      by_cases same : one = list
      · rw [same, places]
        rcases isClear with wasClear | rfl
        · exact fun isPlace => (represents.clear other wasClear).2.2 list isList (within isPlace)
        · exact gone
      · rw [others same]
        rcases isClear with wasClear | rfl
        · exact (represents.clear other wasClear).2.2 one isOne
        · exact notIn isOne same nodeIn
    rcases isClear with wasClear | rfl
    · obtain ⟨noPrev, noNext, apartBefore⟩ := represents.clear other wasClear
      have notThis {place : Nat} (inList : place ∈ v.places list) : other ≠ place :=
        (ne_of_mem_of_not_mem inList (apartBefore list isList)).symm
      rw [Links.unlink_prev (notThis behindIn) (notThis nodeIn),
        Links.unlink_next (notThis beforeIn) (notThis nodeIn)]
      exact ⟨noPrev, noNext, apart⟩
    · exact ⟨by simp [Links.unlink], by simp [Links.unlink], apart⟩

/-! ## Links -/

/-- The links of the places of a list are what they were. -/
def Untouched (s after : Nodes) (v : Sequences) (list : Nat) : Prop :=
  ∀ place ∈ v.places list, after.next place = s.next place ∧ after.prev place = s.prev place

/-- `list_insert_before` and `list_insert_after` put a node between two neighbours. -/
theorem listInsert_eq (joined : s.Joined before behind) (beforePlace : before ≠ 0)
    (nodePlace : node ≠ 0) (behindPlace : behind ≠ 0) (notBefore : node ≠ before)
    (notBehind : node ≠ behind) :
    s.listInsertBefore behind node = .ok (s.insert before node behind) ∧
      s.listInsertAfter before node = .ok (s.insert before node behind) := by
  obtain ⟨isNext, isPrev⟩ := joined
  constructor
  · simp only [listInsertBefore, getPrev, setPrev, setNext, bounded_true behindPlace,
      bounded_true nodePlace, ok_bind, pure_eq_ok, isPrev,
      Function.update_of_ne (Ne.symm notBehind), bounded_true beforePlace, Links.insert]
  · simp only [listInsertAfter, getNext, setPrev, setNext, bounded_true behindPlace,
      bounded_true nodePlace, ok_bind, pure_eq_ok, isNext,
      Function.update_of_ne (Ne.symm notBefore), bounded_true beforePlace, Links.insert]

/-- `list_remove` takes a node from between its neighbours. -/
theorem listRemove_eq (joined : s.Joined before node) (behindJoined : s.Joined node behind)
    (beforePlace : before ≠ 0) (nodePlace : node ≠ 0) (behindPlace : behind ≠ 0)
    (notBefore : node ≠ before) :
    s.listRemove node = .ok (s.unlink before node behind 0) := by
  have isPrev := joined.2
  have isNext := behindJoined.1
  simp only [listRemove, getPrev, getNext, setPrev, setNext, bounded_true nodePlace,
    bounded_true beforePlace, bounded_true behindPlace, ok_bind, pure_eq_ok, isPrev, isNext,
    Function.update_of_ne notBefore, check_true beforePlace, check_true behindPlace, Links.unlink]

/-- Where the parts of a list meet. -/
theorem meeting (list : Nat) (front back : List Nat) :
    ∃ init before behind rest, list :: front = init ++ [before] ∧
      back ++ [tail list] = behind :: rest := by
  have first : (list :: front).dropLast ++ [(list :: front).getLast (by simp)] = list :: front :=
    List.dropLast_append_getLast _
  cases back with
  | nil => exact ⟨_, _, tail list, [], first.symm, rfl⟩
  | cons behind back => exact ⟨_, _, behind, back ++ [tail list], first.symm, rfl⟩

/-- Putting a free node on a list. -/
theorem Represents.insert_spec (represents : Represents lists s v) (isList : list ∈ lists)
    (free : v.Free lists node) (items : v.items list = front ++ back)
    (isBefore : list :: front = init ++ [before])
    (isBehind : back ++ [tail list] = behind :: rest) :
    s.Joined before behind ∧ ∃ after, s.listInsertBefore behind node = .ok after ∧
      s.listInsertAfter before node = .ok after ∧
      Represents lists after (v.added list node (front ++ node :: back)) ∧
      ∀ other ∈ lists, other ≠ list → Untouched s after v other := by
  obtain ⟨beforeIn, behindIn, _⟩ := represents.neighbours isList []
    (by simp [items]) isBefore isBehind
  have linked := represents.linked list isList
  rw [places_split items isBefore isBehind] at linked
  obtain ⟨_, joined, _⟩ := List.isChain_append_cons_cons.mp linked
  have apart := free.apart list isList
  have notBefore : node ≠ before := (ne_of_mem_of_not_mem beforeIn apart).symm
  have notBehind : node ≠ behind := (ne_of_mem_of_not_mem behindIn apart).symm
  obtain ⟨inFront, behindOf⟩ := listInsert_eq joined
    (represents.separate.range list isList before beforeIn).1.ne' free.positive.ne'
    (represents.separate.range list isList behind behindIn).1.ne' notBefore notBehind
  refine ⟨joined, _, inFront, behindOf, represents.added isList free items isBefore isBehind,
    fun other isOther differ place isPlace => ?_⟩
  have notNode : place ≠ node := ne_of_mem_of_not_mem isPlace (free.apart other isOther)
  have notIn {this : Nat} (inList : this ∈ v.places list) : place ≠ this :=
    ne_of_mem_of_not_mem isPlace
      (represents.separate.apart list isList other isOther (Ne.symm differ) this inList)
  exact ⟨Links.insert_next (notIn beforeIn) notNode, Links.insert_prev (notIn behindIn) notNode⟩

/-- Taking a node from a list. -/
theorem Represents.remove_spec (represents : Represents lists s v) (isList : list ∈ lists)
    (items : v.items list = front ++ node :: back) :
    ∃ after, s.listRemove node = .ok after ∧
      Represents lists after (v.taken list node (front ++ back)) ∧
      ∀ other ∈ lists, other ≠ list → Untouched s after v other := by
  obtain ⟨init, before, behind, rest, isBefore, isBehind⟩ := meeting list front back
  obtain ⟨beforeIn, behindIn, _⟩ := represents.neighbours isList [node]
    (by simp [items]) isBefore isBehind
  have split := places_split_item items isBefore isBehind
  have nodeIn : node ∈ v.places list := by simp [split]
  have linked := represents.linked list isList
  have distinct := represents.separate.distinct list isList
  rw [split] at linked distinct
  obtain ⟨_, joined, later⟩ := List.isChain_append_cons_cons.mp linked
  have range {place : Nat} (inList : place ∈ v.places list) : place ≠ 0 :=
    (represents.separate.range list isList place inList).1.ne'
  refine ⟨_, listRemove_eq joined (List.isChain_cons_cons.mp later).1 (range beforeIn)
    (range nodeIn) (range behindIn) (Links.ne_of_nodup distinct).2.1.symm,
    represents.taken isList items isBefore isBehind, fun other isOther differ place isPlace => ?_⟩
  have notIn {this : Nat} (inList : this ∈ v.places list) : place ≠ this :=
    ne_of_mem_of_not_mem isPlace
      (represents.separate.apart list isList other isOther (Ne.symm differ) this inList)
  exact ⟨Links.unlink_next (notIn beforeIn) (notIn nodeIn),
    Links.unlink_prev (notIn behindIn) (notIn nodeIn)⟩

end Nodes
end LightOS
