import Mathlib.Algebra.GroupWithZero.Nat
import Mathlib.Logic.Basic
import Mathlib.Data.List.Basic

/-!
# Labelled transition systems

A system is an initial predicate together with a labelled step relation.  Paths
record the state and the label of every step taken, so that a property of the
visited states can be compared with a condition on the steps.  The rules proved
here are the induction rule for states reached by allowed steps and the
characterization of the paths that visit only good states.
-/

namespace LightOS

/-- The only one of a system of one task has a numeral. -/
instance (priority := 2000) one_neZero : NeZero 1 :=
  ⟨by decide⟩

/-- The tasks of a system of two have numerals. -/
instance (priority := 2000) two_neZero : NeZero 2 :=
  ⟨by decide⟩

/-- A labelled transition system on a type of states. -/
structure System (State : Type*) (Label : Type*) where
  /-- States from which a run may start. -/
  initial : State → Prop
  /-- One step, from the first state to the last, carrying a label. -/
  step : State → Label → State → Prop

namespace System

variable {State Label : Type*}

/-- States reached from an initial state by steps that all meet a condition on
their source state and label. -/
inductive ReachableWithin
    (system : System State Label)
    (allowed : State → Label → Prop) : State → Prop
  | initial {state : State} :
      system.initial state → ReachableWithin system allowed state
  | step {before after : State} {label : Label} :
      ReachableWithin system allowed before →
      allowed before label →
      system.step before label after →
      ReachableWithin system allowed after

/-- States reached by any steps at all. -/
abbrev Reachable (system : System State Label) : State → Prop :=
  ReachableWithin system fun _ _ => True

variable {system : System State Label} {allowed : State → Label → Prop} {good : State → Prop}
  {start final : State} {trace : List (State × Label)}

/-- A predicate that holds initially and is preserved by every allowed step
holds in every state reached by allowed steps. -/
theorem ReachableWithin.invariant
    (Invariant : State → Prop)
    (start : ∀ state, system.initial state → Invariant state)
    (preserved : ∀ before label after,
      Invariant before → allowed before label →
        system.step before label after → Invariant after)
    {state : State}
    (reached : ReachableWithin system allowed state) :
    Invariant state := by
  induction reached with
  | initial isInitial => exact start _ isInitial
  | step _ meets taken inductionHypothesis =>
      exact preserved _ _ _ inductionHypothesis meets taken

/-- A path from a start state.  The trace lists the steps taken, the most
recent first, each as its source state and label. -/
inductive Path (system : System State Label) (start : State) :
    List (State × Label) → State → Prop
  | nil : Path system start [] start
  | cons {trace : List (State × Label)} {before after : State} {label : Label} :
      Path system start trace before →
      system.step before label after →
      Path system start ((before, label) :: trace) after

/-- Every state on a path satisfies a predicate: the source of each step and
the state the path ends in. -/
def Visits
    (good : State → Prop)
    (trace : List (State × Label))
    (final : State) : Prop :=
  good final ∧ ∀ taken ∈ trace, good taken.1

/-- Every step of a trace meets a condition. -/
def Obeys
    (allowed : State → Label → Prop)
    (trace : List (State × Label)) : Prop :=
  ∀ taken ∈ trace, allowed taken.1 taken.2

@[simp] theorem obeys_nil (allowed : State → Label → Prop) :
    Obeys allowed [] := by
  intro taken present
  simp at present

@[simp] theorem obeys_cons
    (allowed : State → Label → Prop) (state : State) (label : Label)
    (trace : List (State × Label)) :
    Obeys allowed ((state, label) :: trace) ↔
      allowed state label ∧ Obeys allowed trace := by
  simp [Obeys]

@[simp] theorem visits_nil (good : State → Prop) (final : State) :
    Visits good ([] : List (State × Label)) final ↔ good final := by
  simp [Visits]

@[simp] theorem visits_cons
    (good : State → Prop)
    (state final : State) (label : Label)
    (trace : List (State × Label)) :
    Visits good ((state, label) :: trace) final ↔
      good final ∧ Visits good trace state := by
  simp [Visits]

/-- An invariant of the allowed steps holds at the end of every path that
takes only allowed steps. -/
theorem Path.invariant
    (Invariant : State → Prop)
    (path : system.Path start trace final)
    (holds : Invariant start)
    (preserved : ∀ before label after,
      Invariant before → allowed before label →
        system.step before label after → Invariant after)
    (obeys : Obeys allowed trace) :
    Invariant final := by
  induction path with
  | nil => exact holds
  | cons _ taken inductionHypothesis =>
      rw [obeys_cons] at obeys
      exact preserved _ _ _ (inductionHypothesis obeys.2) obeys.1 taken

/-- When an invariant of the allowed steps implies a property, a path of allowed
steps visits only states with the property. -/
theorem Path.visits_of_obeys
    (Invariant : State → Prop)
    (path : system.Path start trace final)
    (holds : Invariant start)
    (preserved : ∀ before label after,
      Invariant before → allowed before label →
        system.step before label after → Invariant after)
    (implies : ∀ state, Invariant state → good state)
    (obeys : Obeys allowed trace) :
    Visits good trace final := by
  induction path with
  | nil => simp [implies _ holds]
  | cons shorter taken inductionHypothesis =>
      rw [obeys_cons] at obeys
      have invariantBefore := shorter.invariant Invariant holds preserved obeys.2
      rw [visits_cons]
      exact ⟨implies _ (preserved _ _ _ invariantBefore obeys.1 taken),
        inductionHypothesis obeys.2⟩

/-- When an invariant of the allowed steps implies a property, and a step that
is not allowed destroys the property, a path visits only states with the
property exactly when it takes only allowed steps. -/
theorem Path.visits_iff_obeys
    (Invariant : State → Prop)
    (path : system.Path start trace final)
    (holds : Invariant start)
    (preserved : ∀ before label after,
      Invariant before → allowed before label →
        system.step before label after → Invariant after)
    (implies : ∀ state, Invariant state → good state)
    (destroys : ∀ before label after,
      Invariant before → ¬allowed before label →
        system.step before label after → ¬good after) :
    Visits good trace final ↔ Obeys allowed trace := by
  refine ⟨fun visits => ?_, path.visits_of_obeys Invariant holds preserved implies⟩
  induction path with
  | nil => simp
  | cons shorter taken inductionHypothesis =>
      rw [visits_cons] at visits
      have obeysBefore := inductionHypothesis visits.2
      have invariantBefore := shorter.invariant Invariant holds preserved obeysBefore
      rw [obeys_cons]
      refine ⟨?_, obeysBefore⟩
      by_contra notAllowed
      exact destroys _ _ _ invariantBefore notAllowed taken visits.1

section Run

variable {Fault : Type*}

/-- Run a partial step function over a list of labels. -/
def run (next : State → Label → Except Fault State) :
    State → List Label → Except Fault State
  | state, [] => .ok state
  | state, label :: rest =>
      match next state label with
      | .ok after => run next after rest
      | .error fault => .error fault

/-- A run succeeds in a state that passes a test. -/
def endsIn (test : State → Bool) : Except Fault State → Bool
  | .ok final => test final
  | .error _ => false

/-- A run of a step function whose steps are allowed steps of a system leads from
one reached state to another. -/
theorem ReachableWithin.extend_run
    (system : System State Label)
    (allowed : State → Label → Prop)
    (next : State → Label → Except Fault State)
    (agrees : ∀ before label after, next before label = .ok after →
      allowed before label ∧ system.step before label after)
    (labels : List Label)
    (test : State → Bool)
    {middle : State}
    (reached : ReachableWithin system allowed middle)
    (ends : endsIn test (run next middle labels) = true) :
    ∃ final, ReachableWithin system allowed final ∧ test final = true := by
  induction labels generalizing middle with
  | nil => exact ⟨middle, reached, ends⟩
  | cons label rest inductionHypothesis =>
      rw [run] at ends
      cases taken : next middle label with
      | ok after =>
          rw [taken] at ends
          obtain ⟨meets, step⟩ := agrees _ _ _ taken
          exact inductionHypothesis (reached.step meets step) ends
      | error fault =>
          rw [taken] at ends
          cases ends

/-- A run of a step function whose steps are allowed steps of a system extends a
path of allowed steps. -/
theorem Path.extend_run
    {next : State → Label → Except Fault State}
    (agrees : ∀ before label after, next before label = .ok after →
      allowed before label ∧ system.step before label after)
    {test : State → Bool}
    (labels : List Label)
    {middle : State}
    (path : system.Path start trace middle)
    (obeys : Obeys allowed trace)
    (ends : endsIn test (run next middle labels) = true) :
    ∃ longer final, system.Path start longer final ∧
      Obeys allowed longer ∧ test final = true := by
  induction labels generalizing middle trace with
  | nil => exact ⟨trace, middle, path, obeys, ends⟩
  | cons label rest inductionHypothesis =>
      rw [run] at ends
      cases taken : next middle label with
      | ok after =>
          rw [taken] at ends
          obtain ⟨meets, step⟩ := agrees _ _ _ taken
          exact inductionHypothesis (path.cons step)
            ((obeys_cons _ _ _ _).mpr ⟨meets, obeys⟩) ends
      | error fault =>
          rw [taken] at ends
          cases ends

/-- A run of a step function whose steps are allowed steps of a system is a
path of allowed steps. -/
theorem Path.of_run_within
    (system : System State Label)
    (allowed : State → Label → Prop)
    (next : State → Label → Except Fault State)
    (agrees : ∀ before label after, next before label = .ok after →
      allowed before label ∧ system.step before label after)
    (start : State)
    (labels : List Label)
    (test : State → Bool)
    (ends : endsIn test (run next start labels) = true) :
    ∃ trace final, system.Path start trace final ∧
      Obeys allowed trace ∧ test final = true :=
  Path.nil.extend_run agrees labels (obeys_nil allowed) ends

/-- A run of the step function that a system is made of is a path. -/
theorem Path.of_run
    (system : System State Label)
    (next : State → Label → Except Fault State)
    (agrees : ∀ before label after,
      next before label = .ok after → system.step before label after)
    (start : State)
    (labels : List Label)
    (test : State → Bool)
    (ends : endsIn test (run next start labels) = true) :
    ∃ trace final, system.Path start trace final ∧ test final = true := by
  obtain ⟨trace, final, path, _, passes⟩ := Path.of_run_within system
    (fun _ _ => True) next
    (fun before label after taken => ⟨trivial, agrees before label after taken⟩)
    start labels test ends
  exact ⟨trace, final, path, passes⟩

end Run

end System

end LightOS
