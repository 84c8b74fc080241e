import LightOS.Kernel.Fault
import Mathlib.Data.Multiset.OrderedMonoid
import Mathlib.Algebra.Order.Monoid.Canonical.Defs

/-!
# Accounts of counted resources

A state names the resources that it holds, and each resource has a count.  A function is
given references to resources and hands references on.  Its account is settled when the
counts have changed by as much as the references of the state and those of its caller.
Where references may be lost, the function passes a guard first; a run that is not allowed
to pass the guards tells whether any of them was on the way.
-/

namespace LightOS

/-- A state, with the counts of the resources. -/
structure Counted (State Resource : Type) where
  state : State
  count : Resource → Nat

/-- Computations over a counted state, which are told whether they may pass a guard. -/
abbrev Counting (State Resource : Type) : Type → Type :=
  ReaderT Bool (StateT (Counted State Resource) (Except Fault))

namespace Counting

variable {State Resource : Type} {Value Next : Type}

/-- The state without the counts. -/
def view : Counting State Resource State :=
  fun _ s => .ok (s.state, s)

/-- Replace the state and leave the counts. -/
def replace (state : State) : Counting State Resource Unit :=
  fun _ s => .ok ((), { s with state := state })

/-- One more reference to a resource. -/
def acquire [DecidableEq Resource] (resource : Resource) :
    Counting State Resource Unit :=
  fun _ s => .ok ((), { s with
    count := Function.update s.count resource (s.count resource + 1) })

/-- One reference less to a resource, which has to have one. -/
def release [DecidableEq Resource] (resource : Resource) :
    Counting State Resource Unit :=
  fun _ s => do
    check (0 < s.count resource)
    return ((), { s with
      count := Function.update s.count resource (s.count resource - 1) })

/-- Go on only where this is allowed. -/
def guarded : Counting State Resource Unit :=
  fun allowed s => if allowed then .ok ((), s) else .error .panic

theorem bind_run (prog : Counting State Resource Value)
    (next : Value → Counting State Resource Next) (allowed : Bool)
    (s : Counted State Resource) :
    (prog >>= next) allowed s = prog allowed s >>= fun out => next out.1 allowed out.2 :=
  rfl

theorem view_bind_run (next : State → Counting State Resource Next) (allowed : Bool)
    (s : Counted State Resource) :
    (view >>= next) allowed s = next s.state allowed s :=
  rfl

theorem acquire_bind_run [DecidableEq Resource] (resource : Resource)
    (next : Unit → Counting State Resource Next) (allowed : Bool)
    (s : Counted State Resource) :
    (acquire resource >>= next) allowed s = next () allowed { s with
      count := Function.update s.count resource (s.count resource + 1) } :=
  rfl

theorem lift_bind_run (result : Except Fault Value)
    (next : Value → Counting State Resource Next) (allowed : Bool)
    (s : Counted State Resource) :
    (liftM result >>= next : Counting State Resource Next) allowed s =
      result >>= fun value => next value allowed s := by
  cases result with
  | error fault => rfl
  | ok value => rfl

/-- The computation comes to no guard. -/
def Unguarded (prog : Counting State Resource Value) : Prop :=
  ∀ s, prog false s = prog true s

namespace Unguarded

variable {prog : Counting State Resource Value} {next : Value → Counting State Resource Next}

theorem pure (value : Value) :
    Unguarded (Pure.pure value : Counting State Resource Value) :=
  fun _ => rfl

theorem fail (fault : Fault) :
    Unguarded (throw fault : Counting State Resource Value) :=
  fun _ => rfl

theorem bind (first : Unguarded prog) (second : ∀ value, Unguarded (next value)) :
    Unguarded (prog >>= next) := by
  intro s
  rw [bind_run, bind_run, first]
  exact congrArg _ (funext fun out => second out.1 out.2)

theorem view : Unguarded (Counting.view : Counting State Resource State) :=
  fun _ => rfl

theorem replace (state : State) :
    Unguarded (Counting.replace state : Counting State Resource Unit) :=
  fun _ => rfl

theorem lift (result : Except Fault Value) :
    Unguarded (liftM result : Counting State Resource Value) :=
  fun _ => rfl

theorem acquire [DecidableEq Resource] (resource : Resource) :
    Unguarded (Counting.acquire resource : Counting State Resource Unit) :=
  fun _ => rfl

theorem release [DecidableEq Resource] (resource : Resource) :
    Unguarded (Counting.release resource : Counting State Resource Unit) :=
  fun _ => rfl

theorem ite {condition : Prop} [Decidable condition]
    {otherwise : Counting State Resource Value}
    (yes : Unguarded prog) (no : Unguarded otherwise) :
    Unguarded (if condition then prog else otherwise) := by
  split
  · exact yes
  · exact no

theorem forM {Item : Type} (items : List Item)
    {round : Item → Counting State Resource Unit} (each : ∀ item, Unguarded (round item)) :
    Unguarded (ForM.forM items round) := by
  induction items with
  | nil => exact .pure ()
  | cons item items inductionHypothesis =>
      rw [List.forM_cons]
      exact .bind (each item) fun _ => inductionHypothesis

end Unguarded

end Counting

/-- The resources that a state holds, and the states that count. -/
structure Books (State Resource : Type) where
  holds : State → Multiset Resource
  sound : State → Prop

namespace Books

variable {State Resource : Type} [DecidableEq Resource] {Value Next Plain Rest : Type}

/-- The counts have changed by as much as the references of the state and of the caller,
apart from the references that are lost. -/
def Changed (books : Books State Resource) (before after : Counted State Resource)
    (given handed lost : Multiset Resource) : Prop :=
  ∀ resource, after.count resource + (books.holds before.state + given).count resource =
    before.count resource + (books.holds after.state + handed + lost).count resource

/-- No guard is on the way of a run exactly when it loses nothing. -/
def Guards (prog : Counting State Resource Value) (before after : Counted State Resource)
    (value : Value) (lost : Multiset Resource) : Prop :=
  (lost = 0 → prog false before = .ok (value, after)) ∧
    (lost ≠ 0 → ∀ other, prog false before ≠ .ok other)

/-- From a state, with references that it is given, a computation does what a plain one
does and hands references on.  It loses none unless there is a guard on its way. -/
def Accounts (books : Books State Resource) (state : State) (given : Multiset Resource)
    (prog : Counting State Resource Value) (plain : Except Fault Plain)
    (agrees : Value → State → Plain → Prop) (handed : Value → Multiset Resource) : Prop :=
  ∀ count value after, books.sound state → prog true ⟨state, count⟩ = .ok (value, after) →
    books.sound after.state ∧
      (∃ result, plain = .ok result ∧ agrees value after.state result) ∧
      ∃ lost, books.Changed ⟨state, count⟩ after given (handed value) lost ∧
        Guards prog ⟨state, count⟩ after value lost

variable {books : Books State Resource} {state : State} {given : Multiset Resource}
  {prog : Counting State Resource Value} {next : Value → Counting State Resource Next}
  {plain : Except Fault Plain} {rest : Plain → Except Fault Rest}
  {agrees : Value → State → Plain → Prop} {handed : Value → Multiset Resource}
  {same : Next → State → Rest → Prop} {passed : Next → Multiset Resource}
  {onward : State → Counting State Resource Next} {whole : Except Fault Rest}

theorem Changed.trans {before middle after : Counted State Resource}
    {held lost more : Multiset Resource} {handed : Multiset Resource}
    (first : books.Changed before middle given held lost)
    (second : books.Changed middle after held handed more) :
    books.Changed before after given handed (lost + more) := by
  intro resource
  have toMiddle := first resource
  have fromMiddle := second resource
  simp only [Multiset.count_add] at toMiddle fromMiddle ⊢
  omega

namespace Accounts

/-- A statement about the account may take the state to be sound. -/
theorem ofSound (spec : books.sound state →
    books.Accounts state given prog plain agrees handed) :
    books.Accounts state given prog plain agrees handed :=
  fun count value after sound => spec sound count value after sound

/-- The rule for a value that is returned. -/
theorem ret {value : Value} {result : Plain} (hands : given = handed value)
    (same : agrees value state result) :
    books.Accounts state given (pure value) (.ok result) agrees handed := by
  intro count out after sound returned
  cases returned
  refine ⟨sound, ⟨result, rfl, same⟩, 0, fun resource => ?_, fun _ => rfl,
    fun lost => absurd rfl lost⟩
  rw [add_zero, hands]

/-- The rule for a computation composed of two. -/
theorem bind (first : books.Accounts state given prog plain agrees handed)
    (second : ∀ value state result, plain = .ok result → agrees value state result →
      books.sound state →
        books.Accounts state (handed value) (next value) (rest result) same passed) :
    books.Accounts state given (prog >>= next) (plain >>= rest) same passed := by
  intro count out after sound returned
  rw [Counting.bind_run, bind_eq_ok] at returned
  obtain ⟨⟨value, middle⟩, toMiddle, fromMiddle⟩ := returned
  obtain ⟨soundMiddle, ⟨result, isResult, agree⟩, lost, changed, free, stopped⟩ :=
    first count value middle sound toMiddle
  obtain ⟨soundAfter, ⟨final, isFinal, agreeFinal⟩, more, changedMore, freeMore, stoppedMore⟩ :=
    second value middle.state result isResult agree soundMiddle middle.count out after
      soundMiddle fromMiddle
  refine ⟨soundAfter, ⟨final, ?_, agreeFinal⟩, lost + more, changed.trans changedMore,
    fun none => ?_, fun some other denied => ?_⟩
  · rw [isResult, ok_bind, isFinal]
  · obtain ⟨rfl, rfl⟩ := add_eq_zero.mp none
    rw [Counting.bind_run, free rfl, ok_bind]
    exact freeMore rfl
  · rw [Counting.bind_run, bind_eq_ok] at denied
    obtain ⟨reached, toReached, fromReached⟩ := denied
    by_cases nothing : lost = 0
    · rw [free nothing] at toReached
      cases toReached
      refine stoppedMore ?_ other fromReached
      rintro rfl
      exact some (by rw [nothing, add_zero])
    · exact stopped nothing reached toReached

/-- The rule for a look at the state. -/
theorem view (rest : books.Accounts state given (onward state) whole same passed) :
    books.Accounts state given (Counting.view >>= onward) whole same passed :=
  rest

/-- The rule for a step of the plain computation that leaves the state alone. -/
theorem lift {result : Except Fault Value} {more : Value → Except Fault Rest}
    (second : ∀ value, result = .ok value →
      books.Accounts state given (next value) (more value) same passed) :
    books.Accounts state given (liftM result >>= next) (result >>= more) same passed := by
  intro count out after sound returned
  cases result with
  | error fault => cases returned
  | ok value => exact second value rfl count out after sound returned

/-- The rule for a new state.  What it does not hold any more is in the hands of the
function. -/
theorem replace {later : State} {held : Multiset Resource}
    {onward : Unit → Counting State Resource Next}
    (sound : books.sound state → books.sound later)
    (hands : books.holds state + given = books.holds later + held)
    (second : books.Accounts later held (onward ()) whole same passed) :
    books.Accounts state given (Counting.replace later >>= onward) whole same passed := by
  intro count out after soundBefore returned
  obtain ⟨soundAfter, agree, lost, changed, guards⟩ :=
    second count out after (sound soundBefore) returned
  refine ⟨soundAfter, agree, lost, fun resource => ?_, guards⟩
  rw [hands]
  exact changed resource

/-- The rule for a reference that is taken. -/
theorem acquire {resource : Resource} {onward : Unit → Counting State Resource Next}
    (second : books.Accounts state (resource ::ₘ given) (onward ()) whole same passed) :
    books.Accounts state given (Counting.acquire resource >>= onward) whole same
      passed := by
  intro count out after sound returned
  obtain ⟨soundAfter, agree, lost, changed, guards⟩ := second _ out after sound returned
  refine ⟨soundAfter, agree, lost, fun other => ?_, guards⟩
  have before := changed other
  by_cases own : other = resource
  · simp only [own, Function.update_self, Multiset.count_add, Multiset.count_cons_self]
      at before ⊢
    omega
  · simp only [Function.update_of_ne own, Multiset.count_add, Multiset.count_cons_of_ne own]
      at before ⊢
    omega

/-- The rule for a reference that is given back. -/
theorem release {resource : Resource} {onward : Unit → Counting State Resource Next}
    (second : books.Accounts state given (onward ()) whole same passed) :
    books.Accounts state (resource ::ₘ given) (Counting.release resource >>= onward)
      whole same passed := by
  intro count out after sound returned
  rw [Counting.bind_run, bind_eq_ok] at returned
  obtain ⟨⟨_, released⟩, first, returned⟩ := returned
  have run := first
  unfold Counting.release at first
  simp only [bind_eq_ok, check_eq_ok] at first
  obtain ⟨_, counted, same⟩ := first
  cases same
  obtain ⟨soundAfter, agree, lost, changed, free, stopped⟩ :=
    second _ out after sound returned
  refine ⟨soundAfter, agree, lost, fun other => ?_, fun nothing => ?_, fun some => ?_⟩
  · have before := changed other
    by_cases own : other = resource
    · simp only [own, Function.update_self, Multiset.count_add, Multiset.count_cons_self]
        at before counted ⊢
      omega
    · simp only [Function.update_of_ne own, Multiset.count_add,
        Multiset.count_cons_of_ne own] at before ⊢
      omega
  · rw [Counting.bind_run]
    exact (congrArg (· >>= _) run).trans (free nothing)
  · rw [Counting.bind_run]
    intro other denied
    exact stopped some other ((congrArg (· >>= _) run).symm.trans denied)

/-- A reference may be given back after a step of the plain computation as well. -/
theorem releaseLift {resource : Resource} {result : Except Fault Value}
    {more : Value → Except Fault Rest}
    (second : ∀ value, result = .ok value → books.Accounts state given
      (Counting.release resource >>= fun _ => next value) (more value) same passed) :
    books.Accounts state given
      (Counting.release resource >>= fun _ => liftM result >>= next) (result >>= more) same
      passed := by
  cases result with
  | error fault =>
      intro count out after sound returned
      rw [Counting.bind_run, bind_eq_ok] at returned
      obtain ⟨_, _, returned⟩ := returned
      cases returned
  | ok value => exact second value rfl

/-- The rule for a state that comes to hold a resource and takes its reference then. -/
theorem enter {later : State} {resource : Resource}
    {onward : Unit → Counting State Resource Next}
    (sound : books.sound state → books.sound later)
    (hands : resource ::ₘ books.holds state = books.holds later)
    (second : books.Accounts later given (onward ()) whole same passed) :
    books.Accounts state given
      (Counting.replace later >>= fun _ => Counting.acquire resource >>= onward) whole same
      passed := by
  have swapped : books.Accounts state given
      (Counting.acquire resource >>= fun _ => Counting.replace later >>= onward) whole same
      passed := by
    refine .acquire (.replace sound ?_ second)
    rw [← hands, Multiset.add_cons, Multiset.cons_add]
  exact swapped

/-- The rule for a state that gives a reference back and then ceases to hold the
resource. -/
theorem leave {later : State} {resource : Resource}
    {onward : Unit → Counting State Resource Next}
    (sound : books.sound state → books.sound later)
    (hands : books.holds state = resource ::ₘ books.holds later)
    (second : books.Accounts later given (onward ()) whole same passed) :
    books.Accounts state given
      (Counting.release resource >>= fun _ => Counting.replace later >>= onward) whole same
      passed := by
  have swapped : books.Accounts state given
      (Counting.replace later >>= fun _ => Counting.release resource >>= onward) whole same
      passed := by
    refine .replace sound ?_ (.release second)
    rw [hands, Multiset.add_cons, Multiset.cons_add]
  have equal : (Counting.release resource >>= fun _ => Counting.replace later >>= onward) =
      (Counting.replace later >>= fun _ => Counting.release resource >>= onward) := by
    funext allowed s
    simp only [Counting.bind_run, Counting.replace, Counting.release, ok_bind, bind_assoc,
      pure_eq_ok]
  rw [equal]
  exact swapped

/-- The rule for a test that both computations make. -/
theorem ite {condition : Prop} [Decidable condition]
    {otherwise : Counting State Resource Value} {plainOtherwise : Except Fault Plain}
    (yes : condition → books.Accounts state given prog plain agrees handed)
    (no : ¬condition → books.Accounts state given otherwise plainOtherwise agrees handed) :
    books.Accounts state given (if condition then prog else otherwise)
      (if condition then plain else plainOtherwise) agrees handed := by
  by_cases holds : condition
  · rw [if_pos holds, if_pos holds]
    exact yes holds
  · rw [if_neg holds, if_neg holds]
    exact no holds

/-- The rule for a computation that does not return. -/
theorem fail {fault : Fault} :
    books.Accounts state given (throw fault) plain agrees handed := by
  intro count out after sound returned
  cases returned

/-- The rule for a guard in front of a computation that loses references. -/
theorem guarded {onward : Unit → Counting State Resource Next}
    (loses : ∀ count out after, books.sound state →
      onward () true ⟨state, count⟩ = .ok (out, after) →
        books.sound after.state ∧
          (∃ result, whole = .ok result ∧ same out after.state result) ∧
          ∃ lost, lost ≠ 0 ∧
            books.Changed ⟨state, count⟩ after given (passed out) lost) :
    books.Accounts state given (Counting.guarded >>= onward) whole same passed := by
  intro count out after sound returned
  obtain ⟨soundAfter, agree, lost, some, changed⟩ := loses count out after sound returned
  refine ⟨soundAfter, agree, lost, changed, fun nothing => absurd nothing some,
    fun _ other denied => ?_⟩
  cases denied

/-- The last step of a computation may be seen as one before a return. -/
theorem last (step : books.Accounts state given (prog >>= pure) plain agrees handed) :
    books.Accounts state given prog plain agrees handed := by
  rwa [bind_pure] at step

/-- The last step of the plain computation, likewise. -/
theorem plainLast (step : books.Accounts state given prog (plain >>= pure) agrees handed) :
    books.Accounts state given prog plain agrees handed := by
  rwa [bind_pure] at step

/-- The rule for a loop. -/
theorem forM {Item : Type} {items : List Item}
    {round : Item → Counting State Resource Unit}
    {step : State → Item → Except Fault State}
    (each : ∀ item ∈ items, ∀ state, books.Accounts state given (round item)
      (step state item) (fun _ after result => result = after) fun _ => given) :
    books.Accounts state given (forM items round) (items.foldlM step state)
      (fun _ after result => result = after) fun _ => given := by
  induction items generalizing state with
  | nil => exact .ret rfl rfl
  | cons item items inductionHypothesis =>
      rw [List.forM_cons, List.foldlM_cons]
      refine .bind (each item List.mem_cons_self state) ?_
      rintro _ after _ _ rfl _
      exact inductionHypothesis fun other isItem =>
        each other (List.mem_cons_of_mem item isItem)

end Accounts

end Books

end LightOS
