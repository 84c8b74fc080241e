import LightOS.Kernel.Lists
import Mathlib.Data.List.Perm.Subperm

/-!
# Calls on intrusive lists

From any heap with lists on it, every sequence of calls of `list.c` that puts a node on a
list only while it is on none does to the lists what it does to sequences.
-/

namespace LightOS
namespace Nodes

open Sequences (Free)

variable {items lists : List Nat} {place rounds list node : Nat} {label : Call} {s : Nodes}
  {v : Sequences}

/-! ## Loops -/

/-- From a place on, the links lead through items to the node behind the list. -/
def Leads (s : Nodes) (list : Nat) : Nat → List Nat → Prop
  | place, [] => place = tail list
  | place, item :: items =>
      place = item ∧ item ≠ tail list ∧ item ≠ 0 ∧ s.Leads list (s.next item) items

theorem leads_of_linked (linked : s.Linked (place :: items ++ [tail list]))
    (apart : tail list ∉ items) (nonzero : ∀ item ∈ items, item ≠ 0) :
    s.Leads list (s.next place) items := by
  induction items generalizing place with
  | nil => exact (List.isChain_cons_cons.mp linked).1.1
  | cons item items inductionHypothesis =>
      obtain ⟨joined, linkedRest⟩ := List.isChain_cons_cons.mp linked
      refine ⟨joined.1, fun same => apart (same ▸ List.mem_cons_self),
        nonzero item List.mem_cons_self, ?_⟩
      exact inductionHypothesis linkedRest (fun inItems => apart (.tail _ inItems))
        fun other inItems => nonzero other (.tail _ inItems)

/-- The items of a list are between the nodes in front of and behind it. -/
theorem Represents.items_spec (represents : Represents lists s v) (isList : list ∈ lists) :
    list ∉ v.items list ∧ tail list ∉ v.items list ∧ (v.items list).Nodup ∧
      (v.items list).length < 2 ^ 32 ∧ ∀ item ∈ v.items list, item ≠ 0 := by
  have distinct := represents.separate.distinct list isList
  have range := represents.separate.range list isList
  unfold Sequences.places at distinct range
  rw [List.cons_append, List.nodup_cons] at distinct
  have notHead : list ∉ v.items list := fun inItems =>
    distinct.1 (List.mem_append_left _ inItems)
  obtain ⟨nodup, _, apart⟩ := List.nodup_append.mp distinct.2
  refine ⟨notHead, fun inItems => apart _ inItems (tail list) (by simp) rfl, nodup, ?_,
    fun item isItem => (range item (by simp [isItem])).1.ne'⟩
  have within : list :: v.items list ⊆ List.range (2 ^ 32) := by
    intro place isPlace
    refine List.mem_range.mpr (range place ?_).2
    exact List.mem_append_left _ isPlace
  have most := (List.subperm_of_subset (List.nodup_cons.mpr ⟨notHead, nodup⟩) within).length_le
  rw [List.length_range, List.length_cons] at most
  exact most

theorem Represents.leads (represents : Represents lists s v) (isList : list ∈ lists) :
    s.Leads list (s.next list) (v.items list) := by
  obtain ⟨_, apart, _, _, nonzero⟩ := represents.items_spec isList
  exact leads_of_linked (represents.linked list isList) apart nonzero

/-- `list_search` finds the items of a list. -/
theorem searchFrom_spec (leads : s.Leads list place items) (enough : items.length < rounds) :
    s.searchFrom list node rounds place = .ok (decide (node ∈ items)) := by
  induction items generalizing rounds place with
  | nil =>
      cases rounds with
      | zero => omega
      | succ rounds => simp [searchFrom, show place = tail list from leads]
  | cons item items inductionHypothesis =>
      cases rounds with
      | zero => omega
      | succ rounds =>
          obtain ⟨rfl, notTail, notNull, leads⟩ := leads
          rw [searchFrom, if_neg notTail]
          by_cases found : place = node
          · rw [if_pos found, found]
            simp
          · rw [if_neg found, getNext, bounded_true notNull, ok_bind, pure_eq_ok, ok_bind,
              inductionHypothesis leads (Nat.lt_of_succ_lt_succ enough)]
            simp [Ne.symm found]

theorem Represents.listSearch_eq (represents : Represents lists s v) (isList : list ∈ lists)
    (node : Nat) : s.listSearch list node = .ok (decide (node ∈ v.items list)) := by
  obtain ⟨_, _, _, few, _⟩ := represents.items_spec isList
  have notNull : list ≠ 0 :=
    (represents.separate.range list isList list List.mem_cons_self).1.ne'
  rw [listSearch, getNext, bounded_true notNull, ok_bind, pure_eq_ok, ok_bind]
  exact searchFrom_spec (represents.leads isList) few

/-- The loop of `list_insert_sort` stops in front of the first greater key. -/
theorem anchorFrom_spec (key : Nat → Int) (node : Nat) (leads : s.Leads list place items)
    (enough : items.length < rounds) :
    ∃ front back behind rest, items = front ++ back ∧
      insertLast key node items = front ++ node :: back ∧
      back ++ [tail list] = behind :: rest ∧
      anchorFrom s list key (key node) rounds place = .ok behind := by
  induction items generalizing rounds place with
  | nil =>
      cases rounds with
      | zero => omega
      | succ rounds =>
          refine ⟨[], [], tail list, [], rfl, rfl, rfl, ?_⟩
          rw [anchorFrom, if_pos (show place = tail list from leads)]
  | cons item items inductionHypothesis =>
      cases rounds with
      | zero => omega
      | succ rounds =>
          obtain ⟨rfl, notTail, notNull, leads⟩ := leads
          rw [anchorFrom, if_neg notTail, insertLast]
          by_cases greater : key node < key place
          · rw [if_pos greater, if_pos greater]
            exact ⟨[], place :: items, place, items ++ [tail list], rfl, rfl, rfl, rfl⟩
          · obtain ⟨front, back, behind, rest, split, inserted, isBehind, ran⟩ :=
              inductionHypothesis leads (Nat.lt_of_succ_lt_succ enough)
            refine ⟨place :: front, back, behind, rest, by rw [split]; rfl, ?_, isBehind, ?_⟩
            · rw [if_neg greater, inserted]
              rfl
            · rw [if_neg greater, getNext, bounded_true notNull, ok_bind, pure_eq_ok, ok_bind]
              exact ran

/-- `list_size` counts the items of a list. -/
theorem sizeFrom_spec {size : Nat} (leads : s.Leads list place items)
    (enough : items.length < rounds) (small : size + items.length < 2 ^ 32) :
    s.sizeFrom list rounds place size = .ok (size + items.length) := by
  induction items generalizing rounds place size with
  | nil =>
      cases rounds with
      | zero => omega
      | succ rounds => simp [sizeFrom, show place = tail list from leads]
  | cons item items inductionHypothesis =>
      cases rounds with
      | zero => omega
      | succ rounds =>
          obtain ⟨rfl, notTail, notNull, leads⟩ := leads
          rw [List.length_cons] at enough small
          have next : (size + 1) % 2 ^ 32 = size + 1 := Nat.mod_eq_of_lt (by omega)
          rw [sizeFrom, if_neg notTail, getNext, bounded_true notNull, ok_bind, pure_eq_ok,
            ok_bind, next, inductionHypothesis leads (by omega) (by omega), List.length_cons]
          congr 1
          omega

theorem Represents.listSize_eq (represents : Represents lists s v) (isList : list ∈ lists) :
    s.listSize list = .ok (v.items list).length := by
  obtain ⟨_, _, _, few, _⟩ := represents.items_spec isList
  have notNull : list ≠ 0 :=
    (represents.separate.range list isList list List.mem_cons_self).1.ne'
  rw [listSize, getNext, bounded_true notNull, ok_bind, pure_eq_ok, ok_bind,
    sizeFrom_spec (represents.leads isList) few (by omega), Nat.zero_add]

/-! ## Calls -/

/-- The call changes the sequence of a list. -/
def Touches (v : Sequences) : Call → Nat → Prop
  | .push list _, other => other = list
  | .pushback list _, other => other = list
  | .pop list, other => other = list
  | .popback list, other => other = list
  | .insertSort _ list _ _, other => other = list
  | .remove node, other => node ∈ v.items other

/-- The call returns, does to the sequences what it is for, and leaves the links of all other
lists alone. -/
def Correct (lists : List Nat) (s : Nodes) (v : Sequences) (label : Call) : Prop :=
  ∃ after, s.call label = .ok (((sequences lists).next v label).1, after) ∧
    Represents lists after ((sequences lists).next v label).2 ∧
    ∀ other ∈ lists, ¬Touches v label other → Untouched s after v other

theorem Represents.push (represents : Represents lists s v) (isList : list ∈ lists)
    (free : v.Free lists node) : Correct lists s v (.push list node) := by
  obtain ⟨init, before, behind, rest, isBefore, isBehind⟩ := meeting list [] (v.items list)
  obtain rfl : list = before := by
    have last := congrArg List.getLast? isBefore
    simpa using last
  obtain ⟨_, after, _, inserted, represented, untouched⟩ :=
    represents.insert_spec isList free (List.nil_append _).symm isBefore isBehind
  have absent : decide (node ∈ v.items list) = false :=
    decide_eq_false fun inItems => free.apart list isList (by simp [Sequences.places, inItems])
  refine ⟨after, ?_, represented, untouched⟩
  simp only [call, listPush, represents.listSearch_eq isList, absent, check_true, inserted, ok_bind,
    pure_eq_ok]
  rfl

theorem Represents.pushback (represents : Represents lists s v) (isList : list ∈ lists)
    (free : v.Free lists node) : Correct lists s v (.pushback list node) := by
  obtain ⟨init, before, behind, rest, isBefore, isBehind⟩ := meeting list (v.items list) []
  obtain rfl : tail list = behind := by
    have first := congrArg List.head? isBehind
    simpa using first
  obtain ⟨_, after, inserted, _, represented, untouched⟩ :=
    represents.insert_spec isList free (List.append_nil _).symm isBefore isBehind
  have absent : decide (node ∈ v.items list) = false :=
    decide_eq_false fun inItems => free.apart list isList (by simp [Sequences.places, inItems])
  refine ⟨after, ?_, represented, untouched⟩
  simp only [call, listPushback, represents.listSearch_eq isList, absent, check_true, inserted,
    ok_bind, pure_eq_ok]
  rfl

theorem Represents.insertSort (represents : Represents lists s v) (isList : list ∈ lists)
    (free : v.Free lists node) (isClear : v.clear node) (words : Nat → BitVec 32) (offset : Int) :
    Correct lists s v (.insertSort words list node offset) := by
  obtain ⟨_, _, _, few, _⟩ := represents.items_spec isList
  obtain ⟨front, back, behind, rest, split, sorted, isBehind, ran⟩ :=
    anchorFrom_spec (elementNodeKey words offset) node (represents.leads isList) few
  obtain ⟨init, before, _, _, isBefore, _⟩ := meeting list front back
  obtain ⟨_, after, inserted, _, represented, untouched⟩ :=
    represents.insert_spec isList free split isBefore isBehind
  obtain ⟨noPrev, noNext, _⟩ := represents.clear node isClear
  have notNull : list ≠ 0 :=
    (represents.separate.range list isList list List.mem_cons_self).1.ne'
  refine ⟨after, ?_, ?_, untouched⟩
  · simp only [call, listInsertSort, getNext, getPrev, bounded_true notNull,
      bounded_true free.positive.ne', ran, noPrev, noNext, check_true, inserted, ok_bind,
      pure_eq_ok]
    rfl
  · have same : (sequences lists).next v (.insertSort words list node offset) =
        (none, v.added list node (front ++ node :: back)) := by rw [← sorted]; rfl
    rw [same]
    exact represented

theorem Represents.pop (represents : Represents lists s v) (isList : list ∈ lists)
    (some : v.items list ≠ []) : Correct lists s v (.pop list) := by
  obtain ⟨node, rest, items⟩ := List.exists_cons_of_ne_nil some
  obtain ⟨after, removed, represented, untouched⟩ :=
    represents.remove_spec isList (show v.items list = [] ++ node :: rest from items)
  have leads := represents.leads isList
  rw [items] at leads
  obtain ⟨isFirst, notTail, _⟩ := leads
  have notNull : list ≠ 0 :=
    (represents.separate.range list isList list List.mem_cons_self).1.ne'
  have next : (sequences lists).next v (.pop list) = (.some node, v.taken list node rest) := by
    simp only [sequences, items]
  refine ⟨after, ?_, by rw [next]; exact represented, untouched⟩
  rw [next]
  simp only [call, listPop, listEmpty, getNext, bounded_true notNull, isFirst, ok_bind, pure_eq_ok,
    notTail, decide_false, check_true, removed]

theorem Represents.popback (represents : Represents lists s v) (isList : list ∈ lists)
    (some : v.items list ≠ []) : Correct lists s v (.popback list) := by
  obtain ⟨rest, node, items⟩ : ∃ rest node, v.items list = rest ++ [node] :=
    ⟨_, _, (List.dropLast_append_getLast some).symm⟩
  obtain ⟨after, removed, represented, untouched⟩ :=
    represents.remove_spec isList items
  have places : v.places list = (list :: rest) ++ node :: tail list :: [] := by
    simp [Sequences.places, items]
  have linked := represents.linked list isList
  rw [places] at linked
  obtain ⟨_, joined, _⟩ := List.isChain_append_cons_cons.mp linked
  have range := represents.separate.range list isList
  have notNull : list ≠ 0 := (range list List.mem_cons_self).1.ne'
  have tailNotNull : tail list ≠ 0 := (range (tail list) (by simp [places])).1.ne'
  have notEmpty : s.next list ≠ tail list := by
    have leads := represents.leads isList
    obtain ⟨first, others, same⟩ := List.exists_cons_of_ne_nil some
    rw [same] at leads
    obtain ⟨isFirst, notTail, _⟩ := leads
    rw [isFirst]
    exact notTail
  have next : (sequences lists).next v (.popback list) = (.some node, v.taken list node rest) := by
    simp [sequences, items]
  rw [List.append_nil] at represented
  refine ⟨after, ?_, by rw [next]; exact represented, untouched⟩
  rw [next]
  simp only [call, listPopback, listEmpty, getNext, getPrev, bounded_true notNull,
    bounded_true tailNotNull, joined.2, ok_bind, pure_eq_ok, notEmpty, decide_false, check_true,
    removed]

/-- The lists of a heap of nodes do not depend on anything but their items. -/
theorem Represents.congr {w : Sequences} (represents : Represents lists s v)
    (items : ∀ list ∈ lists, w.items list = v.items list)
    (clear : ∀ node, w.clear node → v.clear node) : Represents lists s w := by
  have places : ∀ list ∈ lists, w.places list = v.places list := by
    intro list isList
    simp only [Sequences.places, items list isList]
  refine ⟨⟨fun list isList => ?_, fun one isOne other isOther => ?_, fun list isList => ?_⟩,
    fun list isList => ?_, represents.ends, fun node isClear => ?_⟩
  · rw [places list isList]
    exact represents.separate.distinct list isList
  · rw [places one isOne, places other isOther]
    exact represents.separate.apart one isOne other isOther
  · rw [places list isList]
    exact represents.separate.range list isList
  · rw [places list isList]
    exact represents.linked list isList
  · obtain ⟨noPrev, noNext, apart⟩ := represents.clear node (clear node isClear)
    refine ⟨noPrev, noNext, fun list isList => ?_⟩
    rw [places list isList]
    exact apart list isList

theorem Represents.remove (represents : Represents lists s v) (isList : list ∈ lists)
    (isItem : node ∈ v.items list) : Correct lists s v (.remove node) := by
  obtain ⟨front, back, items⟩ := List.append_of_mem isItem
  obtain ⟨after, removed, represented, untouched⟩ := represents.remove_spec isList items
  have notOther {other : Nat} (isOther : other ∈ lists) (differ : other ≠ list) :
      node ∉ v.items other := by
    intro onOther
    refine represents.separate.apart list isList other isOther (Ne.symm differ) node ?_ ?_
    · simp [Sequences.places, isItem]
    · simp [Sequences.places, onOther]
  refine ⟨after, ?_, represented.congr (fun other isOther => ?_) fun _ isClear => isClear,
    fun other isOther notTouched => untouched other isOther ?_⟩
  · simp only [call, removed, ok_bind, pure_eq_ok]
    rfl
  · change (v.items other).erase node = Function.update v.items list (front ++ back) other
    by_cases same : other = list
    · have nodup := (represents.items_spec isList).2.2.1
      rw [items, List.nodup_append] at nodup
      have notFront : node ∉ front := fun inFront =>
        nodup.2.2 node inFront node List.mem_cons_self rfl
      rw [same, Function.update_self, items, List.erase_append_right _ notFront,
        List.erase_cons_head]
    · rw [Function.update_of_ne same]
      exact List.erase_of_not_mem (notOther isOther same)
  · rintro rfl
    exact notTouched isItem

/-- Every allowed call does what it is for. -/
theorem Represents.correct (represents : Represents lists s v)
    (allowed : (sequences lists).allowed v label) : Correct lists s v label := by
  cases label with
  | push list node => exact represents.push allowed.1 allowed.2
  | pushback list node => exact represents.pushback allowed.1 allowed.2
  | pop list => exact represents.pop allowed.1 allowed.2
  | popback list => exact represents.popback allowed.1 allowed.2
  | insertSort words list node offset =>
      exact represents.insertSort allowed.1 allowed.2.1 allowed.2.2 words offset
  | remove node =>
      obtain ⟨list, isList, isItem⟩ := allowed
      exact represents.remove isList isItem

/-- The functions of `list.c` refine sequences. -/
theorem refines (lists : List Nat) : (sequences lists).RefinedBy call (Represents lists) := by
  intro s v label represents allowed
  obtain ⟨after, ran, represented, _⟩ := represents.correct allowed
  exact ⟨after, ran, represented⟩

/-! ## Both ways through a list -/

/-- Both ways through every list visit its items, and the nodes without links have none. -/
structure Shows (lists : List Nat) (s : Nodes) (v : Sequences) : Prop where
  forward : ∀ list ∈ lists, s.forward list = some (v.items list)
  backward : ∀ list ∈ lists, s.backward list = some (v.items list).reverse
  clear : ∀ node, v.clear node → s.prev node = 0 ∧ s.next node = 0

theorem Represents.forward_eq (represents : Represents lists s v) (isList : list ∈ lists) :
    s.forward list = some (v.items list) := by
  obtain ⟨_, notTail, _, few, _⟩ := represents.items_spec isList
  exact (represents.linked list isList).walk_next notTail few

theorem Represents.backward_eq (represents : Represents lists s v) (isList : list ∈ lists) :
    s.backward list = some (v.items list).reverse := by
  obtain ⟨notHead, _, _, few, _⟩ := represents.items_spec isList
  have linked := Links.linked_flip.mpr (represents.linked list isList)
  have turned : (v.places list).reverse = tail list :: ((v.items list).reverse ++ [list]) := by
    simp [Sequences.places]
  rw [turned] at linked
  exact linked.walk_next (by simpa using notHead) (by simpa using few)

theorem Represents.shows (represents : Represents lists s v) : Shows lists s v where
  forward _ isList := represents.forward_eq isList
  backward _ isList := represents.backward_eq isList
  clear node isClear :=
    ⟨(represents.clear node isClear).1, (represents.clear node isClear).2.1⟩

/-- A call answers and leaves what it does to the sequences.  A node that it removes has no
links, and lists that it does not change keep theirs.  On an ascending list
`list_insert_sort` puts the node behind all keys that are not greater than its own, and the
list stays ascending. -/
structure Does (lists : List Nat) (s : Nodes) (v : Sequences) (label : Call) (after : Nodes) :
    Prop where
  answers : s.call label = .ok (((sequences lists).next v label).1, after)
  shows : Shows lists after ((sequences lists).next v label).2
  removed : ∀ node, ((sequences lists).next v label).1 = some node ∨ label = .remove node →
    after.prev node = 0 ∧ after.next node = 0
  untouched : ∀ other ∈ lists, ¬Touches v label other → Untouched s after v other
  sorted : ∀ words list node offset, label = .insertSort words list node offset →
    ((v.items list).Pairwise fun first second =>
      elementNodeKey words offset first ≤ elementNodeKey words offset second) →
    ∃ front back, v.items list = front ++ back ∧
      after.forward list = some (front ++ node :: back) ∧
      (∀ other ∈ front, elementNodeKey words offset other ≤ elementNodeKey words offset node) ∧
      (∀ other ∈ back, elementNodeKey words offset node < elementNodeKey words offset other) ∧
      (front ++ node :: back).Pairwise fun first second =>
        elementNodeKey words offset first ≤ elementNodeKey words offset second

/-- A node that a call removes is one without links. -/
theorem clear_of_removed
    (removed : ((sequences lists).next v label).1 = some node ∨ label = .remove node) :
    ((sequences lists).next v label).2.clear node := by
  cases label with
  | push | pushback | insertSort => simp [sequences] at removed
  | pop list =>
      cases items : v.items list with
      | nil => simp [sequences, items] at removed
      | cons first rest =>
          have same : first = node := by simpa [sequences, items] using removed
          simp only [sequences, items]
          exact .inr same.symm
  | popback list =>
      cases items : (v.items list).getLast? with
      | none => simp [sequences, items] at removed
      | some last =>
          have same : last = node := by simpa [sequences, items] using removed
          simp only [sequences, items]
          exact .inr same.symm
  | remove other =>
      have same : other = node := by simpa [sequences] using removed
      exact .inr same.symm

theorem Represents.does (represents : Represents lists s v)
    (allowed : (sequences lists).allowed v label) : ∃ after, Does lists s v label after := by
  obtain ⟨after, ran, represented, untouched⟩ := represents.correct allowed
  refine ⟨after, ran, represented.shows, fun node removed => ?_, untouched,
    fun words list node offset isSort ascending => ?_⟩
  · exact represented.shows.clear node (clear_of_removed removed)
  · subst isSort
    obtain ⟨front, back, parts, inserted, notGreater, greater⟩ :=
      insertLast_split (elementNodeKey words offset) node ascending
    have sorted := pairwise_insertLast (elementNodeKey words offset) node ascending
    have items : ((sequences lists).next v (.insertSort words list node offset)).2.items list =
        front ++ node :: back := by
      simp [sequences, Sequences.added, inserted]
    rw [inserted] at sorted
    refine ⟨front, back, parts, ?_, notGreater, greater, sorted⟩
    rw [represented.forward_eq allowed.1, items]

/-! ## New lists -/

/-- `list_init` of several lists. -/
def listInits (s : Nodes) : List Nat → Except Fault Nodes
  | [] => .ok s
  | list :: rest => do
      let s ← s.listInit list
      listInits s rest

/-- The nodes of a list without items. -/
structure Unused (s : Nodes) (list : Nat) : Prop where
  joined : s.Joined list (tail list)
  ends : s.prev list = 0 ∧ s.next (tail list) = 0

/-- The places of lists are addresses, and no list is where the node behind another is. -/
def Placed (lists : List Nat) : Prop :=
  ∀ list ∈ lists, 0 < list ∧ tail list < 2 ^ 32 ∧ ∀ other ∈ lists, tail other ≠ list

/-- Lists without items, and all nodes without links that are none of theirs. -/
def Sequences.unused (lists : List Nat) (s : Nodes) : Sequences where
  items _ := []
  clear node := s.prev node = 0 ∧ s.next node = 0 ∧ ∀ list ∈ lists, node ≠ list ∧ node ≠ tail list

theorem listInit_spec (s : Nodes) (positive : 0 < list) :
    ∃ after, s.listInit list = .ok after ∧ after.Unused list ∧
      ∀ place, place ≠ list → place ≠ tail list →
        after.next place = s.next place ∧ after.prev place = s.prev place := by
  have notTail : list ≠ tail list := by
    unfold tail
    omega
  have tailPlace : tail list ≠ 0 := by
    unfold tail
    omega
  refine ⟨⟨Function.update (Function.update s.next (tail list) 0) list (tail list),
    Function.update (Function.update s.prev list 0) (tail list) list⟩, ?_, ?_, ?_⟩
  · simp only [listInit, setNext, setPrev, bounded_true positive.ne', bounded_true tailPlace,
      ok_bind, pure_eq_ok]
  · exact ⟨⟨by simp, by simp⟩, by simp [notTail], by simp [Ne.symm notTail]⟩
  · intro place notHead notTail
    simp [Function.update_of_ne notHead, Function.update_of_ne notTail]

/-- New lists have no items, and all other nodes are left alone. -/
theorem listInits_spec (s : Nodes) (placed : Placed lists) :
    ∃ after, s.listInits lists = .ok after ∧ (∀ list ∈ lists, after.Unused list) ∧
      ∀ place, (∀ list ∈ lists, place ≠ list ∧ place ≠ tail list) →
        after.next place = s.next place ∧ after.prev place = s.prev place := by
  induction lists generalizing s with
  | nil => exact ⟨s, rfl, by simp, fun _ _ => ⟨rfl, rfl⟩⟩
  | cons list rest inductionHypothesis =>
      obtain ⟨positive, _, apart⟩ := placed list List.mem_cons_self
      have placedRest : Placed rest := fun other isOther =>
        ⟨(placed other (.tail _ isOther)).1, (placed other (.tail _ isOther)).2.1,
          fun one isOne => (placed other (.tail _ isOther)).2.2 one (.tail _ isOne)⟩
      obtain ⟨middle, first, unused, frame⟩ := s.listInit_spec positive
      obtain ⟨after, others, unusedRest, frameRest⟩ := inductionHypothesis middle placedRest
      refine ⟨after, ?_, fun one isOne => ?_, fun place notPlace => ?_⟩
      · simp only [listInits, first, ok_bind, others]
      · rcases List.mem_cons.mp isOne with rfl | inRest
        · by_cases again : one ∈ rest
          · exact unusedRest one again
          · have notHere : ∀ other ∈ rest, one ≠ other ∧ one ≠ tail other := fun other isOther =>
              ⟨fun same => again (same ▸ isOther), (apart other (.tail _ isOther)).symm⟩
            have notBehind : ∀ other ∈ rest, tail one ≠ other ∧ tail one ≠ tail other := by
              refine fun other isOther => ⟨?_, fun same => (notHere other isOther).1 ?_⟩
              · exact (placed other (.tail _ isOther)).2.2 one List.mem_cons_self
              · exact Nat.add_right_cancel same
            obtain ⟨isNext, isPrev⟩ := frameRest one notHere
            obtain ⟨isLast, isBefore⟩ := frameRest (tail one) notBehind
            exact ⟨⟨isNext.trans unused.joined.1, isBefore.trans unused.joined.2⟩,
              isPrev.trans unused.ends.1, isLast.trans unused.ends.2⟩
        · exact unusedRest one inRest
      · obtain ⟨notHead, notTail⟩ := notPlace list List.mem_cons_self
        obtain ⟨isNext, isPrev⟩ := frame place notHead notTail
        obtain ⟨isNextRest, isPrevRest⟩ := frameRest place fun one isOne =>
          notPlace one (.tail _ isOne)
        exact ⟨isNextRest.trans isNext, isPrevRest.trans isPrev⟩

/-- New lists represent sequences without items. -/
theorem represents_unused (placed : Placed lists) (unused : ∀ list ∈ lists, s.Unused list) :
    Represents lists s (.unused lists s) := by
  have places (list : Nat) : (Sequences.unused lists s).places list = [list, tail list] := rfl
  have notTail {list other : Nat} (isList : list ∈ lists) (isOther : other ∈ lists) :
      list ≠ tail other := ((placed list isList).2.2 other isOther).symm
  refine ⟨⟨fun list isList => ?_, fun one isOne other isOther differ place isPlace => ?_,
    fun list isList place isPlace => ?_⟩, fun list isList => ?_,
    fun list isList => (unused list isList).ends, fun node isClear => ?_⟩
  · simp [places, notTail isList isList]
  · simp only [places, List.mem_cons, List.not_mem_nil, or_false, not_or] at isPlace ⊢
    have apart : tail one ≠ tail other := fun same => differ (Nat.add_right_cancel same)
    rcases isPlace with rfl | rfl
    · exact ⟨differ, notTail isOne isOther⟩
    · exact ⟨Ne.symm (notTail isOther isOne), apart⟩
  · obtain ⟨positive, small, _⟩ := placed list isList
    simp only [places, List.mem_cons, List.not_mem_nil, or_false] at isPlace
    unfold tail at isPlace small
    omega
  · exact .cons_cons (unused list isList).joined (.singleton _)
  · obtain ⟨noPrev, noNext, apart⟩ := isClear
    refine ⟨noPrev, noNext, fun list isList => ?_⟩
    obtain ⟨notHead, notBehind⟩ := apart list isList
    simp [places, notHead, notBehind]

/-! ## Any sequence of calls -/

/-- Intrusive lists are sequences: on any heap with lists, every sequence of calls answers as
it does on sequences, both ways through every list then visit its items, and so does every
call that is allowed next. -/
theorem calls_represent (represents : Represents lists s v) (labels : List Call)
    (allows : (sequences lists).Allows v labels) :
    ∃ reached, DataType.calls call s labels = .ok (((sequences lists).run v labels).1, reached) ∧
      Shows lists reached ((sequences lists).run v labels).2 ∧
      ∀ label, (sequences lists).allowed ((sequences lists).run v labels).2 label →
        ∃ after, Does lists reached ((sequences lists).run v labels).2 label after := by
  obtain ⟨reached, ran, represented⟩ := (refines lists).calls represents labels allows
  exact ⟨reached, ran, represented.shows, fun label allowed => represented.does allowed⟩

/-- A node is pushed on one of two new lists and removed, and another one sorted into the
other list. -/
theorem calls_represent_two : ∃ s reached,
    listInits ⟨fun _ => 0, fun _ => 0⟩ [4096, 4352] = .ok s ∧
      DataType.calls call s
          [.push 4096 8192, .insertSort (fun _ => 0) 4352 8200 4, .remove 8192] =
        .ok ([none, none, none], reached) ∧
      reached.forward 4096 = some [] ∧ reached.backward 4352 = some [8200] := by
  have placed : Placed [4096, 4352] := by simp [Placed, tail]
  obtain ⟨s, init, unused, frame⟩ := listInits_spec ⟨fun _ => 0, fun _ => 0⟩ placed
  have unlinked : s.next 8200 = 0 ∧ s.prev 8200 = 0 := frame 8200 (by simp [tail])
  have allows : (sequences [4096, 4352]).Allows (.unused [4096, 4352] s)
      [.push 4096 8192, .insertSort (fun _ => 0) 4352 8200 4, .remove 8192] := by
    refine ⟨⟨by simp, ⟨by omega, by omega, ?_⟩⟩, ⟨by simp, ⟨by omega, by omega, ?_⟩, ?_⟩,
      ⟨4096, by simp, ?_⟩, trivial⟩
    · simp [Sequences.unused, Sequences.places, tail]
    · simp [sequences, Sequences.unused, Sequences.added, Sequences.places, tail]
    · simp [sequences, Sequences.unused, Sequences.added, tail, unlinked]
    · simp [sequences, Sequences.unused, Sequences.added]
  obtain ⟨reached, ran, shows, _⟩ := calls_represent (represents_unused placed unused) _ allows
  refine ⟨s, reached, init, ran, ?_, ?_⟩
  · rw [shows.forward 4096 (by simp)]
    simp [DataType.run, sequences, Sequences.unused, Sequences.added, insertLast]
  · rw [shows.backward 4352 (by simp)]
    simp [DataType.run, sequences, Sequences.unused, Sequences.added, insertLast]

end Nodes
end LightOS
