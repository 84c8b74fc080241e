import Mathlib.Logic.Basic

/-!
# Calls that refine a data type

A data type says what its calls answer and what they leave, as long as the caller may make
them.  An implementation refines it when every allowed call returns, gives the same answer
and leaves a state that represents what the data type has then.  Whole sequences of calls
then agree.
-/

namespace LightOS

/-- A data type: which calls are allowed, and what they answer and leave. -/
structure DataType (Value Call Answer : Type*) where
  allowed : Value → Call → Prop
  next : Value → Call → Answer × Value

namespace DataType

variable {Value Call Answer State : Type*} {Fault : Type*}

/-- Every call of a sequence is allowed when it is made. -/
def Allows (type : DataType Value Call Answer) : Value → List Call → Prop
  | _, [] => True
  | value, call :: rest =>
      type.allowed value call ∧ type.Allows (type.next value call).2 rest

/-- What a sequence of calls answers and leaves. -/
def run (type : DataType Value Call Answer) : Value → List Call → List Answer × Value
  | value, [] => ([], value)
  | value, call :: rest =>
      let first := type.next value call
      let others := type.run first.2 rest
      (first.1 :: others.1, others.2)

/-- A sequence of calls of an implementation. -/
def calls (call : State → Call → Except Fault (Answer × State)) :
    State → List Call → Except Fault (List Answer × State)
  | s, [] => .ok ([], s)
  | s, label :: rest =>
      match call s label with
      | .error fault => .error fault
      | .ok first =>
          match calls call first.2 rest with
          | .error fault => .error fault
          | .ok others => .ok (first.1 :: others.1, others.2)

/-- Every allowed call of an implementation returns, answers as the data type does and
leaves a state that represents what the data type has then. -/
def RefinedBy (type : DataType Value Call Answer)
    (call : State → Call → Except Fault (Answer × State)) (Represents : State → Value → Prop) :
    Prop :=
  ∀ s value label, Represents s value → type.allowed value label →
    ∃ after, call s label = .ok ((type.next value label).1, after) ∧
      Represents after (type.next value label).2

/-- An implementation that refines a data type agrees with it on every sequence of calls. -/
theorem RefinedBy.calls {type : DataType Value Call Answer}
    {call : State → Call → Except Fault (Answer × State)} {Represents : State → Value → Prop}
    (refined : type.RefinedBy call Represents) {s : State} {value : Value}
    (represents : Represents s value) (labels : List Call) (allows : type.Allows value labels) :
    ∃ after, DataType.calls call s labels = .ok ((type.run value labels).1, after) ∧
      Represents after (type.run value labels).2 := by
  induction labels generalizing s value with
  | nil => exact ⟨s, rfl, represents⟩
  | cons label rest inductionHypothesis =>
      obtain ⟨middle, first, representsMiddle⟩ := refined s value label represents allows.1
      obtain ⟨after, others, representsAfter⟩ := inductionHypothesis representsMiddle allows.2
      refine ⟨after, ?_, representsAfter⟩
      simp only [DataType.calls, first, others, run]

end DataType
end LightOS
