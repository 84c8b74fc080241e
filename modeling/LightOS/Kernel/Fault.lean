import Mathlib.Logic.Basic

/-!
# Calls that do not return

A kernel call that trips an assertion or panics spins for ever, and a call may
put its task to sleep with nobody left to wake it.  Calls are therefore modelled
as computations in `Except Fault`.
-/

namespace LightOS

universe u

variable {ε : Type*} {β α : Type u} {start finish : β}

/-- Ways in which a call fails to return to its caller. -/
inductive Fault
  /-- `assertion_failure` prints its message and spins. -/
  | assertion
  /-- `panic` prints its message and spins. -/
  | panic
  /-- The task sleeps in `task_block` and no other task can wake it. -/
  | blocked
  /-- The caller is not in a position to make this call. -/
  | misuse
  /-- An access leaves the array or the buffer that it is made through. -/
  | wild
  deriving DecidableEq, Repr

/-- The `assert` macro. -/
def check (condition : Prop) [Decidable condition] : Except Fault Unit :=
  if condition then .ok () else .error .assertion

@[simp] theorem check_eq_ok
    (condition : Prop) [Decidable condition] (result : Unit) :
    check condition = .ok result ↔ condition := by
  unfold check
  split <;> simp_all

theorem check_true {condition : Prop} [Decidable condition]
    (holds : condition) : check condition = .ok () := by
  simp [holds]

/-- An access stays inside the array or the buffer that it is made through. -/
def bounded (condition : Prop) [Decidable condition] : Except Fault Unit :=
  if condition then .ok () else .error .wild

@[simp] theorem bounded_eq_ok
    (condition : Prop) [Decidable condition] (result : Unit) :
    bounded condition = .ok result ↔ condition := by
  unfold bounded
  split <;> simp_all

theorem bounded_true {condition : Prop} [Decidable condition]
    (holds : condition) : bounded condition = .ok () := by
  simp [holds]

/-- A computation composed of two succeeds exactly when both parts do. -/
@[simp] theorem bind_eq_ok (first : Except ε α) (next : α → Except ε β) (result : β) :
    (first >>= next) = .ok result ↔
      ∃ middle, first = .ok middle ∧ next middle = .ok result := by
  cases first with
  | error fault => simp [bind, Except.bind]
  | ok middle => simp [bind, Except.bind]

@[simp] theorem ok_bind (value : α) (next : α → Except ε β) :
    ((Except.ok value : Except ε α) >>= next) = next value := rfl

@[simp] theorem error_bind (fault : ε) (next : α → Except ε β) :
    ((Except.error fault : Except ε α) >>= next) = .error fault := rfl

@[simp] theorem pure_eq_ok (value : α) : (pure value : Except ε α) = .ok value := rfl

/-- A loop returns when each of its rounds does.  The predicate is about the state and
the items of the rounds before. -/
theorem foldlM_prefix {α : Type*} {round : β → α → Except ε β} (Good : β → List α → Prop)
    {items done : List α}
    (returns : ∀ before done item rest, items = done ++ item :: rest → Good before done →
      ∃ after, round before item = .ok after ∧ Good after (done ++ [item])) {rest : List α}
    (split : items = done ++ rest) (good : Good start done) :
    ∃ finish, rest.foldlM round start = .ok finish ∧ Good finish items := by
  induction rest generalizing start done with
  | nil =>
      rw [List.append_nil] at split
      exact ⟨start, rfl, split ▸ good⟩
  | cons item rest inductionHypothesis =>
      obtain ⟨after, round, goodAfter⟩ := returns start done item rest split good
      have next : items = (done ++ [item]) ++ rest := by rw [split, List.append_assoc]; rfl
      obtain ⟨finish, folded, goodFinish⟩ := inductionHypothesis next goodAfter
      refine ⟨finish, ?_, goodFinish⟩
      rw [List.foldlM_cons, round, ok_bind]
      exact folded

/-- A predicate that every round of a loop preserves holds after the loop. -/
theorem foldlM_invariant {α : Type*} {round : β → α → Except ε β} (Invariant : β → Prop)
    {items : List α} (preserved : ∀ before item after, item ∈ items → Invariant before →
      round before item = .ok after → Invariant after) (holds : Invariant start)
    (folded : items.foldlM round start = .ok finish) : Invariant finish := by
  induction items generalizing start with
  | nil =>
      cases folded
      exact holds
  | cons item items inductionHypothesis =>
      rw [List.foldlM_cons, bind_eq_ok] at folded
      obtain ⟨middle, first, rest⟩ := folded
      exact inductionHypothesis
        (fun before other after inRest =>
          preserved before other after (List.mem_cons_of_mem _ inRest))
        (preserved start item middle List.mem_cons_self holds first) rest

/-- When a loop returns, every round has returned. -/
theorem foldlM_round {α : Type*} {round : β → α → Except ε β} {items : List α}
    (folded : items.foldlM round start = .ok finish) {item : α} (isItem : item ∈ items) :
    ∃ before after, round before item = .ok after := by
  induction items generalizing start with
  | nil => cases isItem
  | cons first rest inductionHypothesis =>
      rw [List.foldlM_cons, bind_eq_ok] at folded
      obtain ⟨middle, stepped, folded⟩ := folded
      rcases List.mem_cons.mp isItem with rfl | inRest
      · exact ⟨start, middle, stepped⟩
      · exact inductionHypothesis folded inRest

/-- A loop over numbers whose rounds keep a property of the state and of the number. -/
theorem foldlM_range {round : β → Nat → Except ε β} (Good : β → Nat → Prop) {count : Nat}
    (keeps : ∀ before index after, index < count → Good before index →
      round before index = .ok after → Good after (index + 1)) (good : Good start 0)
    (folded : (List.range count).foldlM round start = .ok finish) : Good finish count := by
  induction count generalizing finish with
  | zero =>
      cases folded
      exact good
  | succ count inductionHypothesis =>
      rw [List.range_succ, List.foldlM_append, bind_eq_ok] at folded
      obtain ⟨middle, before, last⟩ := folded
      rw [List.foldlM_cons, bind_eq_ok] at last
      obtain ⟨next, stepped, result⟩ := last
      cases result
      have reached := inductionHypothesis (fun before index after inRange =>
        keeps before index after (Nat.lt_succ_of_lt inRange)) before
      exact keeps middle count finish (Nat.lt_succ_self count) reached stepped

/-- A loop whose rounds add one each. -/
theorem foldlM_counts {α : Type*} {round : β → α → Except ε β} (measure : β → Nat) {items : List α}
    (counts : ∀ before item after, round before item = .ok after →
      measure after = measure before + 1) (folded : items.foldlM round start = .ok finish) :
    measure finish = measure start + items.length := by
  induction items generalizing start with
  | nil =>
      cases folded
      rfl
  | cons item items inductionHypothesis =>
      rw [List.foldlM_cons, bind_eq_ok] at folded
      obtain ⟨middle, first, rest⟩ := folded
      rw [inductionHypothesis rest, counts start item middle first, List.length_cons]
      omega

/-- A computation makes no access outside an array or a buffer. -/
def StaysInside {α : Type u} (computation : Except Fault α) : Prop :=
  computation ≠ .error .wild

namespace StaysInside

@[simp] theorem ok (value : α) : StaysInside (.ok value) := by
  simp [StaysInside]

@[simp] theorem check (condition : Prop) [Decidable condition] :
    StaysInside (check condition) := by
  unfold StaysInside LightOS.check
  split <;> simp

/-- A computation composed of two stays inside when both parts do. -/
theorem bind {first : Except Fault α} {next : α → Except Fault β}
    (firstInside : StaysInside first)
    (nextInside : ∀ middle, first = .ok middle → StaysInside (next middle)) :
    StaysInside (first >>= next) := by
  cases first with
  | error fault =>
      intro isWild
      apply firstInside
      simpa using isWild
  | ok middle => exact nextInside middle rfl

end StaysInside

end LightOS
