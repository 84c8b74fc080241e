import LightOS.Terminal.Delivery
import LightOS.Terminal.Keyboard

/-!
# The terminal

The keyboard and the tasks that read from it.  The readers get characters that the keys have
typed, in the order of the keys, and all of them exactly when a reader waited for each.
-/

namespace LightOS
namespace Terminal

/-- The keyboard, its readers, and the scan codes that have come so far. -/
structure Line where
  kb : Keyboard
  device : CharDevice
  codes : List UInt8

namespace Line

/-- What happens next. -/
inductive Label
  /-- The keyboard interrupts with a scan code. -/
  | scan (code : UInt8)
  /-- A task calls `keyboard_read`. -/
  | read (pid count : Nat)
  /-- A task goes on with its call. -/
  | go (pid : Nat)

/-- `keyboard_handler`. -/
def scan (s : Line) (code : UInt8) : Except Fault Line := do
  let (kb, output) := s.kb.type code
  let device ← match output.1 with
    | some ch => s.device.next .keyboard (.receive ch)
    | none => .ok s.device
  return ⟨kb, device, s.codes ++ [code]⟩

/-- A step of a reader. -/
def reader (s : Line) (label : CharDevice.Label) : Except Fault Line := do
  let device ← s.device.next .keyboard label
  return { s with device := device }

/-- One step. -/
def next (s : Line) : Label → Except Fault Line
  | .scan code => s.scan code
  | .read pid count => s.reader (.read pid count)
  | .go pid => s.reader (.go pid)

/-- The runs from the state that the kernel starts with. -/
def runs : System Line Label where
  initial s := ∃ buf, s = ⟨.initial, .fresh buf, []⟩
  step before label after := before.next label = .ok after

/-- The characters that scan codes type. -/
def typed (codes : List UInt8) : List UInt8 :=
  (Keyboard.initial.typeAll codes).2

/-- A reader waits for the character that a scan code types. -/
def Awaited (s : Line) : Label → Prop
  | .scan code => (s.kb.type code).2.1 ≠ none → s.device.waiter ≠ none
  | _ => True

theorem typeAll_append (kb : Keyboard) (codes : List UInt8) (code : UInt8) :
    kb.typeAll (codes ++ [code]) =
      (((kb.typeAll codes).1.type code).1,
        (kb.typeAll codes).2 ++ ((kb.typeAll codes).1.type code).2.1.toList) := by
  induction codes generalizing kb with
  | nil => simp [Keyboard.typeAll]
  | cons first codes inductionHypothesis =>
      rw [List.cons_append, Keyboard.typeAll, Keyboard.typeAll]
      dsimp only
      rw [inductionHypothesis, List.append_assoc]

/-- One more scan code types one more character, or none. -/
theorem typed_append (codes : List UInt8) (code : UInt8) :
    typed (codes ++ [code]) =
      typed codes ++ ((Keyboard.initial.typeAll codes).1.type code).2.1.toList := by
  rw [typed, typeAll_append]
  rfl

/-- The driver has seen the scan codes, and of the characters they type it has handed over
those that a reader waited for. -/
structure Follows (trace : List (Line × Label)) (s : Line) : Prop where
  kb : s.kb = (Keyboard.initial.typeAll s.codes).1
  device : s.device.Typed
  sublist : s.device.received.Sublist (typed s.codes)
  all : s.device.received = typed s.codes ↔ System.Obeys Awaited trace

variable {trace : List (Line × Label)} {s after : Line}

/-- A reader does not change what the keys have typed. -/
theorem Follows.reader (follows : Follows trace s) {label : Label}
    {readerLabel : CharDevice.Label} (isReader : ∀ ch, readerLabel ≠ .receive ch)
    (awaited : Awaited s label) (taken : s.reader readerLabel = .ok after) :
    Follows ((s, label) :: trace) after := by
  obtain ⟨device, stepped, returned⟩ := (bind_eq_ok _ _ _).mp taken
  cases returned
  have step := CharDevice.step_of_next stepped
  have typed := follows.device.step step
  have same : device.received = s.device.received := by
    rcases follows.device.ordered.step_stream step with ⟨ch, isReceive, _⟩ | ⟨_, _, same⟩
    · exact absurd isReceive (isReader ch)
    · exact same
  refine ⟨follows.kb, typed, ?_, ?_⟩
  · dsimp only
    rw [same]
    exact follows.sublist
  · dsimp only
    rw [same, follows.all, System.obeys_cons]
    exact (and_iff_right awaited).symm

/-- A scan code types a character that is handed over, or lost if no reader waits. -/
theorem Follows.scan (follows : Follows trace s) {code : UInt8}
    (taken : s.scan code = .ok after) : Follows ((s, .scan code) :: trace) after := by
  unfold Line.scan at taken
  dsimp only at taken
  have shown := typed_append s.codes code
  rw [← follows.kb] at shown
  have kb : (s.kb.type code).1 = (Keyboard.initial.typeAll (s.codes ++ [code])).1 := by
    rw [typeAll_append, follows.kb]
  cases output : (s.kb.type code).2.1 with
  | none =>
      rw [output] at taken shown
      cases taken
      rw [Option.toList_none, List.append_nil] at shown
      refine ⟨kb, follows.device, ?_, ?_⟩
      · rw [shown]
        exact follows.sublist
      · rw [shown, follows.all, System.obeys_cons]
        exact (and_iff_right fun types => absurd output types).symm
  | some ch =>
      rw [output] at taken shown
      obtain ⟨device, stepped, returned⟩ := (bind_eq_ok _ _ _).mp taken
      cases returned
      have step := CharDevice.step_of_next stepped
      suffices both : device.received.Sublist (typed (s.codes ++ [code])) ∧
          (device.received = typed (s.codes ++ [code]) ↔
            System.Obeys Awaited ((s, .scan code) :: trace)) from
        ⟨kb, follows.device.step step, both.1, both.2⟩
      rw [shown]
      cases step with
      | receives _ _ received =>
          change s.device.keyboardHandOver ch = .ok device at received
          unfold CharDevice.keyboardHandOver at received
          split at received
          · rename_i nobody
            cases received
            refine ⟨follows.sublist.trans (List.sublist_append_left _ _), ?_⟩
            -- a character is missing, and no later one makes up for it
            have short := follows.sublist.length_le
            constructor
            · intro same
              have lengths := congrArg List.length same
              rw [List.length_append, Option.toList_some, List.length_singleton] at lengths
              omega
            · intro obeys
              have awaited := ((System.obeys_cons _ _ _ _).mp obeys).1
              exact absurd nobody (awaited (by rw [output]; nofun))
          · rename_i isWaited
            obtain ⟨fifo, handedOver, _⟩ := follows.device.ordered.handOver_eq ch
            rw [handedOver] at received
            cases received
            refine ⟨follows.sublist.append_right [ch], ?_⟩
            dsimp only
            rw [Option.toList_some, List.append_left_inj, follows.all, System.obeys_cons]
            exact (and_iff_right fun _ => isWaited).symm

theorem Follows.step (follows : Follows trace s) {label : Label}
    (taken : s.next label = .ok after) : Follows ((s, label) :: trace) after := by
  cases label with
  | scan code => exact follows.scan taken
  | read pid count => exact follows.reader (fun _ => by simp) trivial taken
  | go pid => exact follows.reader (fun _ => by simp) trivial taken

/-- No step fails an assertion. -/
theorem Follows.next_ne (follows : Follows trace s) (label : Label) :
    s.next label ≠ .error .assertion := by
  have runs (label : CharDevice.Label) := follows.device.ordered.next_ne .keyboard label
  have reads (label : CharDevice.Label) : s.reader label ≠ .error .assertion := by
    unfold Line.reader
    cases stepped : s.device.next .keyboard label with
    | error fault =>
        rintro ⟨⟩
        exact runs label stepped
    | ok device => nofun
  cases label with
  | read pid count => exact reads _
  | go pid => exact reads _
  | scan code =>
      dsimp only [Line.next]
      unfold Line.scan
      dsimp only
      cases (s.kb.type code).2.1 with
      | none => nofun
      | some ch =>
          dsimp only
          cases stepped : s.device.next .keyboard (.receive ch) with
          | error fault =>
              rintro ⟨⟩
              exact runs _ stepped
          | ok device => nofun

/-- In every run of the keyboard and its readers no step fails an assertion, and the readers
get characters that the scan codes so far have typed, in their order and each once at most.
They get all of them exactly when a reader waited for each.  A reader that sleeps is the one
that the next character wakes. -/
theorem line_delivers {buf : Nat → UInt8}
    (path : runs.Path ⟨.initial, .fresh buf, []⟩ trace s) :
    (∀ label, s.next label ≠ .error .assertion) ∧ s.device.Delivers ∧
      (s.device.stored ++ s.device.fifo.bytes).Sublist (typed s.codes) ∧
      (s.device.stored ++ s.device.fifo.bytes = typed s.codes ↔ System.Obeys Awaited trace) := by
  have follows : Follows trace s := by
    induction path with
    | nil => exact ⟨rfl, .fresh buf, List.Sublist.refl _, by simp [typed, Keyboard.typeAll,
        CharDevice.fresh]⟩
    | cons _ taken inductionHypothesis => exact inductionHypothesis.step taken
  refine ⟨follows.next_ne, follows.device.delivers, ?_, ?_⟩
  · rw [follows.device.stream]
    exact follows.sublist
  · rw [follows.device.stream]
    exact follows.all

/-- A task reads a capital letter. -/
theorem line_delivers_capital : ∃ trace s,
    runs.Path ⟨.initial, .fresh fun _ => 0, []⟩ trace s ∧ s.device.stored = [0x41] ∧
      (∀ label, s.next label ≠ .error .assertion) ∧ s.device.Delivers ∧
      (s.device.stored ++ s.device.fifo.bytes = typed s.codes ↔ System.Obeys Awaited trace) := by
  obtain ⟨trace, final, path, one⟩ := System.Path.of_run runs Line.next
    (fun _ _ _ taken => taken) ⟨.initial, .fresh fun _ => 0, []⟩
    [.scan 0x1E, .scan 0x2A, .read 2 1, .go 2, .go 2, .scan 0x1E, .go 2]
    (fun s => s.device.stored = [0x41]) (by decide +kernel)
  obtain ⟨runs, delivers, _, all⟩ := line_delivers path
  exact ⟨trace, final, path, of_decide_eq_true one, runs, delivers, all⟩

end Line
end Terminal
end LightOS
