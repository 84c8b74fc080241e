import LightOS.Terminal.Readers

/-!
# The delivery of characters

Whatever the readers of a device do, the characters they get are those that the interrupt
handler has put into its queue, in their order.  The keyboard never has more than one
character in the queue, since it drops those that nobody waits for.  The serial port keeps
63 of them and drops the oldest one when there are more.
-/

namespace LightOS
namespace Terminal
namespace CharDevice

open Locks.Mutex (State)

/-- The readers get the characters one after the other.  One of them at a time takes
characters, and a reader sleeps only while there is none and will be woken by the next. -/
structure Delivers (s : CharDevice) : Prop where
  stream : s.stored ++ s.fifo.bytes = s.received
  single : ∀ first second, s.mutex.point first = .holding → s.mutex.point second = .holding →
    first = second
  sleeps : ∀ pid, s.asleep pid = true → s.waiter = some pid ∧ s.fifo.bytes = []

/-- A character finds room in the queue. -/
def HasRoom (s : CharDevice) : Label → Prop
  | .receive _ => s.fifo.full = false
  | _ => True

variable {s after : CharDevice} {driver : Driver} {label : Label}

theorem Ordered.sleeps_empty (ordered : s.Ordered) {pid : Nat} (isAsleep : s.asleep pid = true) :
    s.waiter = some pid ∧ s.fifo.bytes = [] := by
  have isWaiter := (ordered.sleeps pid).mp isAsleep
  exact ⟨isWaiter, (ordered.waits pid isWaiter).2.2⟩

/-! ## The keyboard -/

/-- The queue of the keyboard has one character at most, and none is lost from it. -/
structure Typed (s : CharDevice) : Prop where
  ordered : s.Ordered
  stream : s.stored ++ s.fifo.bytes = s.received
  short : s.fifo.bytes.length ≤ 1

/-- A character comes only into an empty queue. -/
theorem Typed.receive (typed : s.Typed) {ch : UInt8}
    (received : s.receive .keyboard ch = .ok after) :
    after.stored ++ after.fifo.bytes = after.received ∧ after.fifo.bytes.length ≤ 1 := by
  change s.keyboardHandOver ch = .ok after at received
  unfold keyboardHandOver at received
  split at received
  · cases received
    exact ⟨typed.stream, typed.short⟩
  · rename_i isWaited
    obtain ⟨pid, isWaiter⟩ := Option.ne_none_iff_exists'.mp isWaited
    have none := (typed.ordered.waits pid isWaiter).2.2
    obtain ⟨fifo, handedOver, holds⟩ := typed.ordered.handOver_eq ch
    have one : fifo.bytes = [ch] := by
      rw [holds.bytes, none]
      rfl
    have stream := typed.stream
    rw [none, List.append_nil] at stream
    rw [handedOver] at received
    cases received
    dsimp only
    rw [one, stream]
    exact ⟨rfl, Nat.le_refl _⟩

theorem Typed.step (typed : s.Typed) (step : Step .keyboard s label after) : after.Typed := by
  rcases typed.ordered.step_stream step with ⟨ch, _, received⟩ | ⟨stream, shorter, same⟩
  · obtain ⟨stream, short⟩ := typed.receive received
    exact ⟨typed.ordered.step step, stream, short⟩
  · refine ⟨typed.ordered.step step, ?_, Nat.le_trans shorter typed.short⟩
    rw [stream, typed.stream, same]

theorem Typed.fresh (buf : Nat → UInt8) : (fresh buf).Typed where
  ordered := .fresh buf
  stream := by simp [CharDevice.fresh, Fifo.init, Fifo.bytes, Ring.items_empty]
  short := by simp [CharDevice.fresh, Fifo.init, Fifo.bytes, Ring.items_empty]

theorem Typed.delivers (typed : s.Typed) : s.Delivers :=
  ⟨typed.stream, typed.ordered.mutex.guards.single, fun _ => typed.ordered.sleeps_empty⟩

/-! ## The serial port -/

/-- The serial driver puts every character into the queue. -/
theorem Ordered.recvData_eq (ordered : s.Ordered) {ch : UInt8}
    (received : s.receive .serial ch = .ok after) :
    after.stored = s.stored ∧ after.received = s.received ++ [if ch = 0x0D then 0x0A else ch] ∧
      after.fifo.bytes =
        BoundedQueue.put 63 s.fifo.bytes (if ch = 0x0D then 0x0A else ch) := by
  obtain ⟨fifo, handedOver, holds⟩ := ordered.handOver_eq (if ch = 0x0D then 0x0A else ch)
  change s.handOver (if ch = 0x0D then 0x0A else ch) = .ok after at received
  rw [handedOver] at received
  cases received
  exact ⟨rfl, rfl, holds.bytes⟩

theorem Ordered.full_iff (ordered : s.Ordered) :
    s.fifo.full = true ↔ s.fifo.bytes.length = 63 := by
  rw [ordered.inBuffer.full_iff, ordered.size]

/-- The readers have got the characters of a path in their order, and all of them exactly
when each found room in the queue. -/
structure Kept (trace : List (CharDevice × Label)) (s : CharDevice) : Prop where
  ordered : s.Ordered
  sublist : (s.stored ++ s.fifo.bytes).Sublist s.received
  all : s.stored ++ s.fifo.bytes = s.received ↔ System.Obeys HasRoom trace

theorem Kept.step {trace : List (CharDevice × Label)} (kept : Kept trace s)
    (step : Step .serial s label after) : Kept ((s, label) :: trace) after := by
  have ordered := kept.ordered.step step
  rcases kept.ordered.step_stream step with ⟨ch, rfl, received⟩ | ⟨stream, _, same⟩
  · obtain ⟨stored, all, bytes⟩ := kept.ordered.recvData_eq received
    generalize (if ch = 0x0D then (0x0A : UInt8) else ch) = ch' at all bytes
    cases full : s.fifo.full with
    | false =>
        have room : s.fifo.bytes.length ≠ 63 := by
          rw [ne_eq, ← kept.ordered.full_iff, full]
          decide
        rw [BoundedQueue.put, if_neg room] at bytes
        refine ⟨ordered, ?sublist, ?all⟩
        case sublist =>
          rw [stored, bytes, all, ← List.append_assoc]
          exact kept.sublist.append_right [ch']
        case all =>
          rw [stored, bytes, all, ← List.append_assoc, List.append_left_inj, kept.all,
            System.obeys_cons]
          exact (and_iff_right full).symm
    | true =>
        have length := kept.ordered.full_iff.mp full
        rw [BoundedQueue.put, if_pos length] at bytes
        refine ⟨ordered, ?sublist, ?all⟩
        case sublist =>
          rw [stored, bytes, all, ← List.append_assoc]
          have shorter := (List.tail_sublist s.fifo.bytes).append_left s.stored
          exact (shorter.trans kept.sublist).append_right [ch']
        case all =>
          -- the characters that are left are too few
          have before := kept.sublist.length_le
          constructor
          · intro same
            have lengths := congrArg List.length same
            rw [stored, bytes, all] at lengths
            simp only [List.length_append, List.length_tail, List.length_singleton] at lengths
            rw [List.length_append] at before
            omega
          · intro obeys
            have room : s.fifo.full = false := ((System.obeys_cons _ _ _ _).mp obeys).1
            rw [full] at room
            cases room
  · have roomy : HasRoom s label := by
      cases label with
      | receive ch =>
          cases step with
          | receives _ _ received =>
              obtain ⟨_, all, _⟩ := kept.ordered.recvData_eq received
              rw [all] at same
              simp at same
      | _ => trivial
    refine ⟨ordered, ?sublist, ?all⟩
    case sublist =>
      rw [stream, same]
      exact kept.sublist
    case all =>
      rw [stream, same, kept.all, System.obeys_cons]
      exact (and_iff_right roomy).symm

/-- In every run of the serial port no step fails an assertion, one reader at a time takes
characters, and the readers get what has been received in its order.  They get all of it
exactly when each character found room in the queue. -/
theorem serial_delivers {buf : Nat → UInt8} {trace : List (CharDevice × Label)}
    (path : (runs .serial).Path (fresh buf) trace s) :
    (∀ label, s.next .serial label ≠ .error .assertion) ∧
      (∀ first second, s.mutex.point first = .holding → s.mutex.point second = .holding →
        first = second) ∧
      (∀ pid, s.asleep pid = true ↔ s.waiter = some pid) ∧
      (s.stored ++ s.fifo.bytes).Sublist s.received ∧
      (s.stored ++ s.fifo.bytes = s.received ↔ System.Obeys HasRoom trace) := by
  have kept : Kept trace s := by
    induction path with
    | nil =>
        refine ⟨.fresh buf, ?_, ?_⟩
        · simp [fresh, Fifo.init, Fifo.bytes, Ring.items_empty]
        · simp [fresh, Fifo.init, Fifo.bytes, Ring.items_empty]
    | cons _ taken inductionHypothesis => exact inductionHypothesis.step (step_of_next taken)
  exact ⟨kept.ordered.next_ne .serial, kept.ordered.mutex.guards.single, kept.ordered.sleeps,
    kept.sublist, kept.all⟩

/-- Two tasks ask for a character each.  The second one blocks at the mutex, and the first
one sleeps until a carriage return comes, which it reads as a line feed. -/
theorem serial_delivers_two : ∃ trace s,
    (runs .serial).Path (fresh fun _ => 0) trace s ∧ s.stored = [0x0A] ∧
      s.mutex.point 3 = .holding ∧ (∀ label, s.next .serial label ≠ .error .assertion) ∧
      (s.stored ++ s.fifo.bytes = s.received ↔ System.Obeys HasRoom trace) := by
  obtain ⟨trace, final, path, holds⟩ := System.Path.of_run (runs .serial) (next .serial)
    (fun _ _ _ taken => taken) (fresh fun _ => 0)
    [.read 2 1, .go 2, .go 2, .read 3 1, .go 3, .go 3, .receive 0x0D, .go 2, .go 2, .go 2, .go 3]
    (fun s => s.stored = [0x0A] ∧ s.mutex.point 3 = .holding) (by decide +kernel)
  obtain ⟨one, locked⟩ := of_decide_eq_true holds
  obtain ⟨runs, _, _, _, all⟩ := serial_delivers path
  exact ⟨trace, final, path, one, locked, runs, all⟩

end CharDevice
end Terminal
end LightOS
