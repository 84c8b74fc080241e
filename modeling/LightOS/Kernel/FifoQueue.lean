import LightOS.Foundation.Refinement
import LightOS.Kernel.Fifo

/-!
# Byte queues are bounded queues

A bounded queue drops its oldest item when one more is put into it than it has room for.
The buffer of `kfifo.c` with `n` bytes is such a queue with room for `n - 1`.
-/

namespace LightOS

namespace BoundedQueue

variable {α : Type*}

/-- Put an item behind the others.  A full queue loses its oldest one first. -/
def put (capacity : Nat) (queue : List α) (item : α) : List α :=
  (if queue.length = capacity then queue.tail else queue) ++ [item]

/-- Take the oldest item.  An empty queue answers with a default. -/
def get (default : α) : List α → α × List α
  | [] => (default, [])
  | item :: queue => (item, queue)

/-- Calls of a queue. -/
inductive Call (α : Type*)
  | put (item : α)
  | get

/-- Queues of bounded length. -/
def bounded (capacity : Nat) (default : α) : DataType (List α) (Call α) (Option α) where
  allowed _ _ := True
  next queue
    | .put item => (none, put capacity queue item)
    | .get => (some (get default queue).1, (get default queue).2)

/-- A queue takes every sequence of calls. -/
theorem bounded_allows {capacity : Nat} {default : α} (queue : List α) (calls : List (Call α)) :
    (bounded capacity default).Allows queue calls := by
  induction calls generalizing queue with
  | nil => trivial
  | cons call rest inductionHypothesis => exact ⟨trivial, inductionHypothesis _⟩

end BoundedQueue

namespace Fifo

open BoundedQueue (Call)

/-- A call of a function of `kfifo.c`. -/
def call (fifo : Fifo) : Call UInt8 → Except Fault (Option UInt8 × Fifo)
  | .put byte => do return (none, ← fifo.put byte)
  | .get => return (some fifo.get.1, fifo.get.2)

variable {fifo after : Fifo} {n : Nat}

/-- The buffer has `n` bytes, and its bytes from `tail` to `head` are the queue. -/
structure Holds (n : Nat) (fifo : Fifo) (queue : List UInt8) : Prop where
  inBuffer : fifo.InBuffer
  size : fifo.bufSize = n
  bytes : fifo.bytes = queue

/-- A queue in a buffer of two bytes or more is not both full and empty. -/
theorem InBuffer.not_empty_of_full (inBuffer : fifo.InBuffer) (large : 2 ≤ fifo.bufSize)
    (full : fifo.full = true) : fifo.empty = false := by
  have length := inBuffer.full_iff.mp full
  rw [← Bool.not_eq_true, inBuffer.empty_iff]
  intro none
  rw [none, List.length_nil] at length
  omega

/-- A full queue that has lost a byte has room. -/
theorem InBuffer.full_get (inBuffer : fifo.InBuffer) (large : 2 ≤ fifo.bufSize)
    (full : fifo.full = true) : fifo.get.2.full = false := by
  obtain ⟨inside, taken, size⟩ := inBuffer.get_spec (inBuffer.not_empty_of_full large full)
  have length := inBuffer.full_iff.mp full
  rw [taken, List.length_cons] at length
  rw [← Bool.not_eq_true, inside.full_iff, size]
  omega

/-- The loop of `kfifo_put` ends after at most one drop. -/
theorem InBuffer.makeRoom_eq (inBuffer : fifo.InBuffer) (large : 2 ≤ fifo.bufSize)
    (rounds : Nat) :
    fifo.makeRoom (rounds + 2) = .ok (if fifo.full then fifo.get.2 else fifo) := by
  cases full : fifo.full with
  | false => simp [makeRoom, full]
  | true => simp [makeRoom, full, inBuffer.full_get large full]

/-- `kfifo_get` on an empty queue. -/
theorem get_of_empty (empty : fifo.empty = true) : fifo.get = (0, fifo) := by
  simp [get, empty]

/-- `kfifo_put` on a queue that is not full does not loop, and on a full one it is
`kfifo_put` after `kfifo_get`. -/
theorem InBuffer.put_of_full (inBuffer : fifo.InBuffer) (large : 2 ≤ fifo.bufSize) (byte : UInt8)
    (full : fifo.full = true) : fifo.put byte = fifo.get.2.put byte := by
  have room := inBuffer.full_get large full
  simp only [put, inBuffer.makeRoom_eq large 0, full, if_true]
  simp only [makeRoom, room, Bool.false_eq_true, if_false]

/-- `kfifo_get` takes the oldest byte, and answers 0 when there is none. -/
theorem InBuffer.get_holds (inBuffer : fifo.InBuffer) :
    fifo.get.1 = (BoundedQueue.get 0 fifo.bytes).1 ∧
      Holds fifo.bufSize fifo.get.2 (BoundedQueue.get 0 fifo.bytes).2 := by
  cases used : fifo.empty with
  | true =>
      have none := inBuffer.empty_iff.mp used
      rw [get_of_empty used, none]
      exact ⟨rfl, inBuffer, rfl, none⟩
  | false =>
      obtain ⟨inside, taken, size⟩ := inBuffer.get_spec used
      rw [taken]
      exact ⟨rfl, inside, size, rfl⟩

/-- `kfifo_put` adds a byte, and drops the oldest one of a full queue. -/
theorem InBuffer.put_holds (inBuffer : fifo.InBuffer) (large : 2 ≤ fifo.bufSize)
    (byte : UInt8) :
    ∃ after, fifo.put byte = .ok after ∧
      Holds fifo.bufSize after (BoundedQueue.put (fifo.bufSize - 1) fifo.bytes byte) := by
  unfold BoundedQueue.put
  cases full : fifo.full with
  | true =>
      obtain ⟨inside, taken, size⟩ := inBuffer.get_spec (inBuffer.not_empty_of_full large full)
      obtain ⟨after, added, insideAfter, bytes, sizeAfter⟩ :=
        inside.put_spec byte (inBuffer.full_get large full)
      rw [if_pos (inBuffer.full_iff.mp full), taken, List.tail_cons]
      exact ⟨after, (inBuffer.put_of_full large byte full).trans added, insideAfter,
        sizeAfter.trans size, bytes⟩
  | false =>
      obtain ⟨after, added, insideAfter, bytes, size⟩ := inBuffer.put_spec byte full
      have notFull : ¬fifo.bytes.length = fifo.bufSize - 1 := by
        rw [← inBuffer.full_iff, full]
        decide
      rw [if_neg notFull]
      exact ⟨after, added, insideAfter, size, bytes⟩

/-- The functions of `kfifo.c` refine a bounded queue. -/
theorem refines (large : 2 ≤ n) : (BoundedQueue.bounded (n - 1) 0).RefinedBy call (Holds n) := by
  rintro fifo _ label ⟨inBuffer, rfl, rfl⟩ -
  cases label with
  | get =>
      obtain ⟨answer, holds⟩ := inBuffer.get_holds
      exact ⟨fifo.get.2, by simp [call, BoundedQueue.bounded, answer], holds⟩
  | put byte =>
      obtain ⟨after, added, holds⟩ := inBuffer.put_holds large byte
      exact ⟨after, by simp [call, BoundedQueue.bounded, added], holds⟩

/-- A new queue is empty. -/
theorem init_holds (buf : Nat → UInt8) (positive : 0 < n) (small : n < 2 ^ 32) :
    Holds n (init buf n) [] :=
  ⟨.init positive small, rfl, Ring.items_empty⟩

/-- After `kfifo_init` every sequence of calls answers as a queue with room for one byte less
than the buffer has.  The bytes from `tail` to `head` are the queue, `kfifo_full` and
`kfifo_empty` answer for it, and the loop of the next `kfifo_put` drops one byte at most. -/
theorem calls_refine (buf : Nat → UInt8) (large : 2 ≤ n) (small : n < 2 ^ 32)
    (calls : List (Call UInt8)) :
    ∃ after, DataType.calls call (init buf n) calls =
        .ok (((BoundedQueue.bounded (n - 1) 0).run [] calls).1, after) ∧
      after.bytes = ((BoundedQueue.bounded (n - 1) 0).run [] calls).2 ∧
      (after.full = true ↔ after.bytes.length = n - 1) ∧
      (after.empty = true ↔ after.bytes = []) ∧
      after.head < n ∧ after.tail < n ∧
      ∀ rounds, after.makeRoom (rounds + 2) = .ok (if after.full then after.get.2 else after) := by
  obtain ⟨after, ran, holds⟩ := (refines large).calls (init_holds buf (by omega) small) calls
    (BoundedQueue.bounded_allows [] calls)
  obtain ⟨inBuffer, rfl, bytes⟩ := holds
  exact ⟨after, ran, bytes, inBuffer.full_iff, inBuffer.empty_iff, inBuffer.head, inBuffer.tail,
    inBuffer.makeRoom_eq large⟩

/-- A buffer of two bytes after two calls of `kfifo_put`. -/
theorem calls_refine_two : ∃ after,
    DataType.calls call (init (fun _ => 0) 2) [.put 1, .put 2, .get, .get] =
      .ok ([none, none, some 2, some 0], after) := by
  obtain ⟨after, ran, _⟩ :=
    calls_refine (fun _ => 0) (n := 2) (by decide) (by decide) [.put 1, .put 2, .get, .get]
  exact ⟨after, ran⟩

end Fifo
end LightOS
