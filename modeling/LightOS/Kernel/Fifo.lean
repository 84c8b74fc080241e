import LightOS.Foundation.Ring
import LightOS.Foundation.Words
import LightOS.Kernel.Fault

/-!
# Byte queues

The functions of `kfifo.c`.  The bytes between `tail` and `head` form a queue; a
byte that is put into a full queue takes the place of the oldest one.
-/

namespace LightOS

/-- The structure `kfifo_t`. -/
structure Fifo where
  head : Nat
  tail : Nat
  bufSize : Nat
  /-- The bytes behind the pointer `buf`. -/
  buf : Nat → UInt8

namespace Fifo

/-- `kfifo_next`. -/
def next (fifo : Fifo) (pos : Nat) : Nat :=
  add32 pos 1 % fifo.bufSize

/-- `kfifo_init`. -/
def init (buf : Nat → UInt8) (bufSize : Nat) : Fifo :=
  ⟨0, 0, bufSize, buf⟩

/-- `kfifo_full`. -/
def full (fifo : Fifo) : Bool :=
  fifo.next fifo.head = fifo.tail

/-- `kfifo_empty`. -/
def empty (fifo : Fifo) : Bool :=
  fifo.head = fifo.tail

/-- `kfifo_get`. -/
def get (fifo : Fifo) : UInt8 × Fifo :=
  if fifo.empty then
    (0, fifo)
  else
    (fifo.buf fifo.tail, { fifo with tail := fifo.next fifo.tail })

/-- The loop of `kfifo_put`.  A queue that is still full after a round has no room
for any byte, and the loop goes on for ever. -/
def makeRoom : Nat → Fifo → Except Fault Fifo
  | 0, _ => .error .blocked
  | rounds + 1, fifo => if fifo.full then makeRoom rounds fifo.get.2 else .ok fifo

/-- `kfifo_put`. -/
def put (fifo : Fifo) (byte : UInt8) : Except Fault Fifo := do
  let fifo ← fifo.makeRoom 2
  return { fifo with
    buf := Function.update fifo.buf fifo.head byte
    head := fifo.next fifo.head }

/-- The positions of a queue lie in its buffer. -/
structure InBuffer (fifo : Fifo) : Prop where
  head : fifo.head < fifo.bufSize
  tail : fifo.tail < fifo.bufSize
  small : fifo.bufSize < 2 ^ 32

/-- The bytes of a queue, the oldest one first. -/
def bytes (fifo : Fifo) : List UInt8 :=
  Ring.items fifo.buf fifo.bufSize fifo.tail fifo.head

variable {fifo after : Fifo}

namespace InBuffer

theorem next (inBuffer : fifo.InBuffer) {pos : Nat} (inside : pos < fifo.bufSize) :
    fifo.next pos = Ring.next fifo.bufSize pos := by
  have small := inBuffer.small
  unfold Fifo.next Ring.next add32
  rw [Nat.mod_eq_of_lt (a := pos + 1) (by omega)]

theorem init {buf : Nat → UInt8} {bufSize : Nat} (positive : 0 < bufSize)
    (small : bufSize < 2 ^ 32) : (Fifo.init buf bufSize).InBuffer :=
  ⟨positive, positive, small⟩

theorem empty_iff (inBuffer : fifo.InBuffer) : fifo.empty = true ↔ fifo.bytes = [] := by
  rw [← List.length_eq_zero_iff]
  unfold Fifo.empty bytes
  rw [Ring.items_length, Ring.span_eq_zero inBuffer.tail, decide_eq_true_iff]

theorem full_iff (inBuffer : fifo.InBuffer) :
    fifo.full = true ↔ fifo.bytes.length = fifo.bufSize - 1 := by
  unfold Fifo.full bytes
  rw [Ring.items_length, decide_eq_true_iff, inBuffer.next inBuffer.head,
    Ring.span_full inBuffer.tail inBuffer.head]

theorem length_lt (inBuffer : fifo.InBuffer) : fifo.bytes.length < fifo.bufSize := by
  unfold bytes
  rw [Ring.items_length]
  exact Ring.span_lt inBuffer.head inBuffer.tail

/-- `kfifo_get` takes the oldest byte. -/
theorem get_spec (inBuffer : fifo.InBuffer) (used : fifo.empty = false) :
    fifo.get.2.InBuffer ∧ fifo.bytes = fifo.get.1 :: fifo.get.2.bytes ∧
      fifo.get.2.bufSize = fifo.bufSize := by
  have differ : fifo.head ≠ fifo.tail := by
    simpa [Fifo.empty] using used
  have taken : fifo.get =
      (fifo.buf fifo.tail, { fifo with tail := Ring.next fifo.bufSize fifo.tail }) := by
    rw [← inBuffer.next inBuffer.tail]
    simp [Fifo.get, used]
  rw [taken]
  refine ⟨⟨inBuffer.head, Ring.next_lt inBuffer.tail, inBuffer.small⟩, ?_, rfl⟩
  exact Ring.items_cons inBuffer.tail inBuffer.head differ

/-- `kfifo_put` adds a byte behind the others of a queue that is not full. -/
theorem put_spec (inBuffer : fifo.InBuffer) (byte : UInt8) (room : fifo.full = false) :
    ∃ after, fifo.put byte = .ok after ∧ after.InBuffer ∧
      after.bytes = fifo.bytes ++ [byte] ∧ after.bufSize = fifo.bufSize := by
  have apart : Ring.next fifo.bufSize fifo.head ≠ fifo.tail := by
    rw [← inBuffer.next inBuffer.head]
    simpa [Fifo.full] using room
  refine ⟨{ fifo with
    buf := Function.update fifo.buf fifo.head byte
    head := Ring.next fifo.bufSize fifo.head }, ?_, ?_, ?_, rfl⟩
  · rw [← inBuffer.next inBuffer.head]
    simp [Fifo.put, makeRoom, room]
  · exact ⟨Ring.next_lt inBuffer.head, inBuffer.tail, inBuffer.small⟩
  · exact Ring.items_snoc inBuffer.tail inBuffer.head apart byte

end InBuffer

end Fifo
end LightOS
