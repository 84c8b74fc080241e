import LightOS.Foundation.Transition
import LightOS.Kernel.Fifo
import LightOS.Kernel.Pages

/-!
# Pipes

The loops of `pipe_read` and `pipe_write` over one pipe.  A task gives up the
processor when it blocks; here it may do so after each byte as well.  A task that
blocks has stored a pointer to itself in the inode of the pipe, and the task that
wakes it clears the pointer.  What has gone through the pipe is recorded.
-/

namespace LightOS

/-- What a task is doing with the pipe: the count that it was called with, and the
number of bytes copied so far. -/
inductive PipeCall
  | outside
  | reading (count : Int) (nr : Nat)
  | writing (buf : Nat → UInt8) (count : Int) (nr : Nat)

/-- The inode of a pipe, as far as `pipe.c` uses it, and the tasks. -/
structure Pipe where
  /-- The queue that `desc` points to. -/
  fifo : Fifo
  rxwaiter : Option Nat
  txwaiter : Option Nat
  call : Nat → PipeCall
  /-- The tasks in the state `TASK_BLOCKED`. -/
  blocked : Nat → Bool
  /-- The bytes stored in the buffers of readers so far. -/
  stored : List UInt8
  /-- The bytes taken from the buffers of writers so far. -/
  taken : List UInt8
  /-- An assertion has failed. -/
  failed : Bool

namespace Pipe

/-- A task goes on with another call. -/
def setCall (s : Pipe) (pid : Nat) (call : PipeCall) : Pipe :=
  { s with call := Function.update s.call pid call }

/-- `task_block`. -/
def block (s : Pipe) (pid : Nat) : Pipe :=
  { s with blocked := Function.update s.blocked pid true }

/-- `task_intr_unblock_no_waiting_list`. -/
def unblock (s : Pipe) (pid : Nat) : Pipe :=
  { s with blocked := Function.update s.blocked pid false }

/-- A reader wakes the writer that waits, if there is one. -/
def wakeWriter (s : Pipe) : Pipe :=
  match s.txwaiter with
  | some pid => { s.unblock pid with txwaiter := none }
  | none => s

/-- A writer wakes the reader that waits, if there is one. -/
def wakeReader (s : Pipe) : Pipe :=
  match s.rxwaiter with
  | some pid => { s.unblock pid with rxwaiter := none }
  | none => s

/-- A round of the loop of `pipe_read`. -/
def readRound (s : Pipe) (pid : Nat) (count : Int) (nr : Nat) : Pipe :=
  if count ≤ nr then
    s.setCall pid .outside
  else if s.fifo.empty then
    if s.rxwaiter = none then
      { s.block pid with rxwaiter := some pid }
    else
      { s with failed := true }
  else
    let (byte, fifo) := s.fifo.get
    ({ s with fifo := fifo, stored := s.stored ++ [byte] }.setCall pid
      (.reading count (nr + 1))).wakeWriter

/-- A round of the loop of `pipe_write`. -/
def writeRound (s : Pipe) (pid : Nat) (buf : Nat → UInt8) (count : Int) (nr : Nat) :
    Except Fault Pipe :=
  if count ≤ nr then
    return s.setCall pid .outside
  else if s.fifo.full then
    if s.txwaiter = none then
      return { s.block pid with txwaiter := some pid }
    else
      return { s with failed := true }
  else do
    let fifo ← s.fifo.put (buf nr)
    return ({ s with fifo := fifo, taken := s.taken ++ [buf nr] }.setCall pid
      (.writing buf count (nr + 1))).wakeReader

/-- What happens next. -/
inductive Label
  /-- A task calls `pipe_read`. -/
  | read (pid : Nat) (count : Int)
  /-- A task calls `pipe_write`. -/
  | write (pid : Nat) (buf : Nat → UInt8) (count : Int)
  /-- A task goes on with its call. -/
  | go (pid : Nat)

/-- One step of a task.  A failed assertion stops the kernel. -/
def next (s : Pipe) (label : Label) : Except Fault Pipe :=
  if s.failed then
    .error .assertion
  else
    match label with
    | .read pid count =>
        match s.call pid with
        | .outside => .ok (s.setCall pid (.reading count 0))
        | _ => .error .misuse
    | .write pid buf count =>
        match s.call pid with
        | .outside => .ok (s.setCall pid (.writing buf count 0))
        | _ => .error .misuse
    | .go pid =>
        if s.blocked pid then
          .error .blocked
        else
          match s.call pid with
          | .outside => .error .misuse
          | .reading count nr => .ok (s.readRound pid count nr)
          | .writing buf count nr => s.writeRound pid buf count nr

/-- A pipe as `get_pipe_inode` makes it, with nobody using it yet. -/
def fresh (page : Nat → UInt8) : Pipe where
  fifo := Fifo.init page pageSize
  rxwaiter := none
  txwaiter := none
  call := fun _ => .outside
  blocked := fun _ => false
  stored := []
  taken := []
  failed := false

/-- The runs of a pipe. -/
def runs : System Pipe Label where
  initial s := ∃ page, s = fresh page
  step before label after := before.next label = .ok after

/-- A task sleeps in `pipe_read`. -/
def SleepsReading (s : Pipe) (pid : Nat) : Prop :=
  s.blocked pid = true ∧ ∃ count nr, s.call pid = .reading count nr

/-- A task sleeps in `pipe_write`. -/
def SleepsWriting (s : Pipe) (pid : Nat) : Prop :=
  s.blocked pid = true ∧ ∃ buf count nr, s.call pid = .writing buf count nr

/-! ## Waking -/

section Wake

variable (s : Pipe)

@[simp] theorem wakeWriter_fifo : s.wakeWriter.fifo = s.fifo := by
  unfold wakeWriter
  split <;> rfl

@[simp] theorem wakeWriter_call : s.wakeWriter.call = s.call := by
  unfold wakeWriter
  split <;> rfl

@[simp] theorem wakeWriter_rxwaiter : s.wakeWriter.rxwaiter = s.rxwaiter := by
  unfold wakeWriter
  split <;> rfl

@[simp] theorem wakeWriter_txwaiter : s.wakeWriter.txwaiter = none := by
  unfold wakeWriter
  split
  · rfl
  · assumption

@[simp] theorem wakeWriter_stored : s.wakeWriter.stored = s.stored := by
  unfold wakeWriter
  split <;> rfl

@[simp] theorem wakeWriter_taken : s.wakeWriter.taken = s.taken := by
  unfold wakeWriter
  split <;> rfl

@[simp] theorem wakeWriter_failed : s.wakeWriter.failed = s.failed := by
  unfold wakeWriter
  split <;> rfl

@[simp] theorem wakeReader_fifo : s.wakeReader.fifo = s.fifo := by
  unfold wakeReader
  split <;> rfl

@[simp] theorem wakeReader_call : s.wakeReader.call = s.call := by
  unfold wakeReader
  split <;> rfl

@[simp] theorem wakeReader_txwaiter : s.wakeReader.txwaiter = s.txwaiter := by
  unfold wakeReader
  split <;> rfl

@[simp] theorem wakeReader_rxwaiter : s.wakeReader.rxwaiter = none := by
  unfold wakeReader
  split
  · rfl
  · assumption

@[simp] theorem wakeReader_stored : s.wakeReader.stored = s.stored := by
  unfold wakeReader
  split <;> rfl

@[simp] theorem wakeReader_taken : s.wakeReader.taken = s.taken := by
  unfold wakeReader
  split <;> rfl

@[simp] theorem wakeReader_failed : s.wakeReader.failed = s.failed := by
  unfold wakeReader
  split <;> rfl

/-- The task that `txwaiter` points to is the one that wakes. -/
theorem wakeWriter_blocked (pid : Nat) : s.wakeWriter.blocked pid = true ↔
    s.blocked pid = true ∧ s.txwaiter ≠ some pid := by
  unfold wakeWriter unblock
  split
  · rename_i waiter isWaiter
    by_cases same : pid = waiter
    · simp [same, isWaiter]
    · have other : waiter ≠ pid := Ne.symm same
      simp [same, isWaiter, other]
  · rename_i nobody
    simp [nobody]

/-- The task that `rxwaiter` points to is the one that wakes. -/
theorem wakeReader_blocked (pid : Nat) : s.wakeReader.blocked pid = true ↔
    s.blocked pid = true ∧ s.rxwaiter ≠ some pid := by
  unfold wakeReader unblock
  split
  · rename_i waiter isWaiter
    by_cases same : pid = waiter
    · simp [same, isWaiter]
    · have other : waiter ≠ pid := Ne.symm same
      simp [same, isWaiter, other]
  · rename_i nobody
    simp [nobody]

end Wake

end Pipe
end LightOS
