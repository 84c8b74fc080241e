import LightOS.Kernel.FifoQueue
import LightOS.Locks.Mutex

/-!
# Readers of a character device

The functions `keyboard_read` and `serial_read`, and the parts of the interrupt handlers
that hand a character over.  A reader holds the mutex of the device while it takes
characters, and it gives up the processor only when it blocks: system calls run with
interrupts disabled.  Here it may do so after each character as well.

The serial port is the first one: `serial_handler` takes `serials[irq - IRQ_SERIAL_1]`, which
for the second port lies in front of the array.  A timer that a task has left behind in an
earlier call makes it READY wherever it waits; no task has one here, so that only the
interrupt handler wakes a task that waits for a character.
-/

namespace LightOS

open Locks.Mutex (State)

namespace Terminal

/-- The drivers whose devices tasks read characters from. -/
inductive Driver
  | keyboard
  | serial
  deriving DecidableEq

variable {driver : Driver}

/-- A character device, and the tasks that read from it. -/
structure CharDevice where
  /-- `kb_mutex`, or `rlock`. -/
  mutex : State Nat
  /-- `kb_fifo`, or `rx_fifo`. -/
  fifo : Fifo
  /-- `fg_task`, or `rx_waiter`. -/
  waiter : Option Nat
  /-- The argument `count` of the call that a task has made. -/
  count : Nat → Nat
  /-- The characters that the call of a task has copied. -/
  nr : Nat → Nat
  /-- The tasks that have blocked because there was no character. -/
  asleep : Nat → Bool
  /-- The characters stored in the buffers of readers so far. -/
  stored : List UInt8
  /-- The characters that have been put into the queue so far. -/
  received : List UInt8

namespace CharDevice

/-- A task wakes that waits for a character. -/
def wake (s : CharDevice) (pid : Nat) : CharDevice :=
  { s with asleep := Function.update s.asleep pid false }

/-- Put a character into the queue, and wake the task that waits. -/
def handOver (s : CharDevice) (ch : UInt8) : Except Fault CharDevice := do
  let fifo ← s.fifo.put ch
  let s := { s with fifo := fifo, received := s.received ++ [ch] }
  match s.waiter with
  | some pid => return { s.wake pid with waiter := none }
  | none => return s

/-- The end of `keyboard_handler`.  A character that no task waits for is lost. -/
def keyboardHandOver (s : CharDevice) (ch : UInt8) : Except Fault CharDevice :=
  if s.waiter = none then .ok s else s.handOver ch

/-- `recv_data`. -/
def recvData (s : CharDevice) (ch : UInt8) : Except Fault CharDevice :=
  s.handOver (if ch = 0x0D then 0x0A else ch)

/-- The interrupt handler has got a character. -/
def receive (s : CharDevice) : Driver → UInt8 → Except Fault CharDevice
  | .keyboard => s.keyboardHandOver
  | .serial => s.recvData

/-- A round of the loops of `keyboard_read` and `serial_read`.  Only the latter asserts that
nobody waits already. -/
def readRound (s : CharDevice) (driver : Driver) (pid : Nat) : Except Fault CharDevice :=
  if s.fifo.empty then do
    check (driver = .serial → s.waiter = none)
    return { s with waiter := some pid, asleep := Function.update s.asleep pid true }
  else
    .ok { s with
      fifo := s.fifo.get.2
      stored := s.stored ++ [s.fifo.get.1]
      nr := Function.update s.nr pid (s.nr pid + 1) }

/-- What happens next. -/
inductive Label
  /-- A task calls the function that reads. -/
  | read (pid count : Nat)
  /-- A task goes on with its call. -/
  | go (pid : Nat)
  /-- The interrupt handler gets a character. -/
  | receive (ch : UInt8)

variable {label : Label}

/-- A task takes a step of `mutex_lock` or `mutex_unlock`. -/
def lockStep (s : CharDevice) (pid : Nat) : Except Fault CharDevice := do
  let mutex ← s.mutex.step pid
  return { s with mutex := mutex }

/-- One step. -/
def next (driver : Driver) (s : CharDevice) : Label → Except Fault CharDevice
  | .read pid count =>
      if s.mutex.point pid = .outside then
        { s with
          count := Function.update s.count pid count
          nr := Function.update s.nr pid 0 }.lockStep pid
      else
        .error .misuse
  | .go pid =>
      if s.asleep pid then
        .error .blocked
      else if s.mutex.point pid = .outside then
        .error .misuse
      else if s.mutex.point pid = .holding ∧ s.nr pid < s.count pid then
        s.readRound driver pid
      else
        s.lockStep pid
  | .receive ch => s.receive driver ch

/-- A device as `keyboard_init` and `serial_init` leave it. -/
def fresh (buf : Nat → UInt8) : CharDevice where
  mutex := Locks.Mutex.init
  fifo := Fifo.init buf 64
  waiter := none
  count := fun _ => 0
  nr := fun _ => 0
  asleep := fun _ => false
  stored := []
  received := []

/-- The runs of a device. -/
def runs (driver : Driver) : System CharDevice Label where
  initial s := ∃ buf, s = fresh buf
  step before label after := before.next driver label = .ok after

/-! ## One reader at a time -/

/-- A task that the device takes for the one that sleeps does so, and no other.  It holds the
mutex and has found the queue empty. -/
structure Ordered (s : CharDevice) : Prop where
  mutex : s.mutex.Ordered
  inBuffer : s.fifo.InBuffer
  size : s.fifo.bufSize = 64
  waits : ∀ pid, s.waiter = some pid →
    s.mutex.point pid = .holding ∧ s.nr pid < s.count pid ∧ s.fifo.bytes = []
  sleeps : ∀ pid, s.asleep pid = true ↔ s.waiter = some pid

variable {s after : CharDevice} {pid : Nat}

/-- A step of one task leaves another one behind the compare-exchange where it is. -/
theorem holding_step {mutex stepped : State Nat} (ordered : mutex.Ordered) {task other : Nat}
    (taken : mutex.step task = .ok stepped) (apart : other ≠ task)
    (holds : mutex.point other = .holding) : stepped.point other = .holding := by
  unfold State.step at taken
  cases point : mutex.point task with
  | outside =>
      rw [point] at taken
      cases taken
      rw [State.goto_point, if_neg apart, holds]
  | trying =>
      rw [point] at taken
      cases taken
      unfold State.compareExchange
      split
      · rw [State.goto_point, if_neg apart]
        exact holds
      · rw [State.goto_point, if_neg apart, holds]
  | refused =>
      rw [point] at taken
      obtain ⟨_, _, returned⟩ := (bind_eq_ok _ _ _).mp taken
      cases returned
      rw [State.goto_point, if_neg apart]
      exact holds
  | blocked =>
      rw [point] at taken
      cases taken
  | holding =>
      rw [point] at taken
      cases taken
      unfold State.decrement
      rw [State.goto_point, if_neg apart]
      exact holds
  | releasing =>
      rw [point] at taken
      cases taken
      unfold State.taskUnblock
      split
      · rw [State.goto_point, if_neg apart, holds]
      · rename_i first rest queue
        have isBlocked : mutex.point first = .blocked :=
          (ordered.queued first).mp (by rw [queue]; exact List.mem_cons_self)
        have notFirst : other ≠ first := by
          rintro rfl
          rw [holds] at isBlocked
          cases isBlocked
        rw [State.goto_point, if_neg apart, State.goto_point, if_neg notFirst]
        exact holds

/-- What a step of a lock changes. -/
theorem lockStep_eq_ok : s.lockStep pid = .ok after ↔
    ∃ mutex, s.mutex.step pid = .ok mutex ∧ after = { s with mutex := mutex } := by
  unfold lockStep
  rw [bind_eq_ok]
  exact exists_congr fun mutex => and_congr_right fun _ => ⟨fun returned => by
    cases returned; rfl, fun same => by rw [same]; rfl⟩

/-- Handing over a character puts it into the queue, which drops its oldest one if it is
full, and leaves nobody waiting. -/
theorem Ordered.handOver_eq (ordered : s.Ordered) (ch : UInt8) :
    ∃ fifo, s.handOver ch = .ok { s with
        fifo := fifo
        received := s.received ++ [ch]
        waiter := none
        asleep := fun _ => false } ∧
      Fifo.Holds 64 fifo (BoundedQueue.put 63 s.fifo.bytes ch) := by
  have large : 2 ≤ s.fifo.bufSize := by
    rw [ordered.size]
    decide
  obtain ⟨fifo, put, holds⟩ := ordered.inBuffer.put_holds large ch
  rw [ordered.size] at holds
  refine ⟨fifo, ?_, holds⟩
  unfold handOver
  rw [put, ok_bind]
  cases isWaiter : s.waiter with
  | none =>
      have nobody : s.asleep = fun _ => false := by
        funext other
        rw [← Bool.not_eq_true]
        intro isAsleep
        have waits := (ordered.sleeps other).mp isAsleep
        rw [isWaiter] at waits
        cases waits
      simp [← nobody]
  | some waiter =>
      have only : Function.update s.asleep waiter false = fun _ => false := by
        funext other
        by_cases same : other = waiter
        · simp [same]
        · rw [Function.update_of_ne same, ← Bool.not_eq_true]
          intro isAsleep
          have waits := (ordered.sleeps other).mp isAsleep
          rw [isWaiter] at waits
          exact same (Option.some.inj waits).symm
      simp [wake, only]

theorem Ordered.handOver (ordered : s.Ordered) {ch : UInt8}
    (taken : s.handOver ch = .ok after) : after.Ordered := by
  obtain ⟨fifo, handedOver, holds⟩ := ordered.handOver_eq ch
  rw [handedOver] at taken
  cases taken
  exact ⟨ordered.mutex, holds.inBuffer, holds.size, nofun, fun _ => by simp⟩

theorem Ordered.receive (ordered : s.Ordered) {ch : UInt8}
    (taken : s.receive driver ch = .ok after) : after.Ordered := by
  cases driver with
  | keyboard =>
      change s.keyboardHandOver ch = .ok after at taken
      unfold keyboardHandOver at taken
      split at taken
      · cases taken
        exact ordered
      · exact ordered.handOver taken
  | serial => exact ordered.handOver taken

/-- Nobody waits when a task that runs holds the mutex. -/
theorem Ordered.nobody (ordered : s.Ordered) (awake : s.asleep pid = false)
    (holds : s.mutex.point pid = .holding) : s.waiter = none := by
  by_contra isWaited
  obtain ⟨waiter, isWaiter⟩ := Option.ne_none_iff_exists'.mp isWaited
  have same := ordered.mutex.guards.single waiter pid (ordered.waits waiter isWaiter).1 holds
  rw [← same, (ordered.sleeps waiter).mpr isWaiter] at awake
  cases awake

/-- A task that holds the mutex takes a character, or sleeps if there is none. -/
theorem Ordered.readRound_eq (ordered : s.Ordered) (driver : Driver)
    (awake : s.asleep pid = false) (holds : s.mutex.point pid = .holding) :
    s.readRound driver pid = .ok (if s.fifo.empty then
        { s with waiter := some pid, asleep := Function.update s.asleep pid true }
      else { s with
        fifo := s.fifo.get.2
        stored := s.stored ++ [s.fifo.get.1]
        nr := Function.update s.nr pid (s.nr pid + 1) }) := by
  unfold CharDevice.readRound
  split
  · rw [check_true fun _ => ordered.nobody awake holds]
    rfl
  · rfl

theorem Ordered.readRound (ordered : s.Ordered) (awake : s.asleep pid = false)
    (holds : s.mutex.point pid = .holding) (left : s.nr pid < s.count pid)
    (taken : s.readRound driver pid = .ok after) : after.Ordered := by
  have nobody := ordered.nobody awake holds
  have nobodySleeps (other : Nat) : s.asleep other = false := by
    rw [← Bool.not_eq_true, ordered.sleeps, nobody]
    nofun
  rw [ordered.readRound_eq driver awake holds] at taken
  cases taken
  split
  · rename_i isEmpty
    have none := ordered.inBuffer.empty_iff.mp isEmpty
    refine { ordered with waits := fun other isWaiter => ?_, sleeps := fun other => ?_ }
    · cases isWaiter
      exact ⟨holds, left, none⟩
    · by_cases same : other = pid
      · simp [same]
      · simp [Function.update_of_ne same, nobodySleeps, Ne.symm same]
  · rename_i isEmpty
    obtain ⟨inside, _, size⟩ :=
      ordered.inBuffer.get_spec (Bool.eq_false_iff.mpr isEmpty)
    refine ⟨ordered.mutex, inside, size.trans ordered.size, ?_, ordered.sleeps⟩
    intro other isWaiter
    dsimp only at isWaiter
    rw [nobody] at isWaiter
    cases isWaiter

/-- What a step can do. -/
inductive Step (driver : Driver) (s : CharDevice) : Label → CharDevice → Prop
  /-- A task begins with `mutex_lock`. -/
  | starts (pid count : Nat) (mutex : State Nat) : s.mutex.point pid = .outside →
      s.mutex.step pid = .ok mutex →
      Step driver s (.read pid count) { s with
        mutex := mutex
        count := Function.update s.count pid count
        nr := Function.update s.nr pid 0 }
  | reads (pid : Nat) (after : CharDevice) : s.asleep pid = false →
      s.mutex.point pid = .holding → s.nr pid < s.count pid →
      s.readRound driver pid = .ok after → Step driver s (.go pid) after
  | locks (pid : Nat) (mutex : State Nat) :
      ¬(s.mutex.point pid = .holding ∧ s.nr pid < s.count pid) → s.mutex.step pid = .ok mutex →
      Step driver s (.go pid) { s with mutex := mutex }
  | receives (ch : UInt8) (after : CharDevice) : s.receive driver ch = .ok after →
      Step driver s (.receive ch) after

theorem step_of_next (taken : s.next driver label = .ok after) : Step driver s label after := by
  cases label with
  | read pid count =>
      dsimp only [CharDevice.next] at taken
      split at taken
      · rename_i isOutside
        obtain ⟨mutex, stepped, rfl⟩ := lockStep_eq_ok.mp taken
        exact .starts pid count mutex isOutside stepped
      · cases taken
  | go pid =>
      dsimp only [CharDevice.next] at taken
      split at taken
      · cases taken
      · rename_i awake
        split at taken
        · cases taken
        · split at taken
          · rename_i reads
            exact .reads pid after (Bool.eq_false_iff.mpr awake) reads.1 reads.2 taken
          · rename_i notReading
            obtain ⟨mutex, stepped, rfl⟩ := lockStep_eq_ok.mp taken
            exact .locks pid mutex notReading stepped
  | receive ch => exact .receives ch after taken

/-- The assertion of `list_pushback` in a step of a lock holds. -/
theorem lockStep_ne (ordered : s.mutex.Ordered) (pid : Nat) :
    s.lockStep pid ≠ .error .assertion := by
  intro fails
  by_cases isBlocked : s.mutex.point pid = .blocked
  · simp [lockStep, State.step, isBlocked] at fails
  · obtain ⟨mutex, stepped⟩ := ordered.step_ok isBlocked
    simp [lockStep, stepped] at fails

/-- No step fails an assertion. -/
theorem Ordered.next_ne (ordered : s.Ordered) (driver : Driver) (label : Label) :
    s.next driver label ≠ .error .assertion := by
  have handOver (ch : UInt8) : s.handOver ch ≠ .error .assertion := by
    obtain ⟨fifo, handedOver, _⟩ := ordered.handOver_eq ch
    rw [handedOver]
    nofun
  cases label with
  | read pid count =>
      dsimp only [CharDevice.next]
      split
      · apply lockStep_ne
        exact ordered.mutex
      · nofun
  | go pid =>
      dsimp only [CharDevice.next]
      split
      · nofun
      · rename_i awake
        split
        · nofun
        · split
          · rename_i reads
            rw [ordered.readRound_eq driver (Bool.eq_false_iff.mpr awake) reads.1]
            nofun
          · exact lockStep_ne ordered.mutex pid
  | receive ch =>
      cases driver with
      | keyboard =>
          change s.keyboardHandOver ch ≠ _
          unfold keyboardHandOver
          split
          · nofun
          · exact handOver ch
      | serial => exact handOver _

/-- Every step keeps the order. -/
theorem Ordered.step (ordered : s.Ordered) (step : Step driver s label after) : after.Ordered := by
  cases step with
  | starts pid count mutex isOutside stepped =>
      have apart (other : Nat) (isWaiter : s.waiter = some other) : other ≠ pid := by
        rintro rfl
        rw [(ordered.waits other isWaiter).1] at isOutside
        cases isOutside
      refine { ordered with
        mutex := ordered.mutex.step stepped, waits := fun other isWaiter => ?_ }
      have different := apart other isWaiter
      obtain ⟨holds, left, none⟩ := ordered.waits other isWaiter
      dsimp only
      rw [Function.update_of_ne different, Function.update_of_ne different]
      exact ⟨holding_step ordered.mutex stepped different holds, left, none⟩
  | reads pid _ awake holds left taken => exact ordered.readRound awake holds left taken
  | locks pid mutex notReading stepped =>
      refine { ordered with
        mutex := ordered.mutex.step stepped, waits := fun other isWaiter => ?_ }
      obtain ⟨holds, left, none⟩ := ordered.waits other isWaiter
      refine ⟨holding_step ordered.mutex stepped ?_ holds, left, none⟩
      rintro rfl
      exact notReading ⟨holds, left⟩
  | receives ch _ received => exact ordered.receive received

theorem Ordered.fresh (buf : Nat → UInt8) : (fresh buf).Ordered where
  mutex := State.Ordered.init
  inBuffer := Fifo.InBuffer.init (by decide) (by decide)
  size := rfl
  waits := nofun
  sleeps := fun _ => by simp [CharDevice.fresh]

/-! ## The stream of characters -/

/-- A reader and the queue together have what they had, and a character that is taken
leaves the queue. -/
theorem Ordered.readRound_stream (ordered : s.Ordered) (awake : s.asleep pid = false)
    (holds : s.mutex.point pid = .holding) (taken : s.readRound driver pid = .ok after) :
    after.stored ++ after.fifo.bytes = s.stored ++ s.fifo.bytes ∧
      after.fifo.bytes.length ≤ s.fifo.bytes.length ∧ after.received = s.received := by
  rw [ordered.readRound_eq driver awake holds] at taken
  cases taken
  split
  · exact ⟨rfl, Nat.le_refl _, rfl⟩
  · rename_i isEmpty
    obtain ⟨_, taken, _⟩ := ordered.inBuffer.get_spec (Bool.eq_false_iff.mpr isEmpty)
    refine ⟨?_, ?_, rfl⟩
    · dsimp only
      rw [taken, List.append_assoc, List.singleton_append]
    · dsimp only
      rw [taken, List.length_cons]
      exact Nat.le_succ _

/-- A step that is not the interrupt handler's moves characters only from the queue to the
readers. -/
theorem Ordered.step_stream (ordered : s.Ordered) (step : Step driver s label after) :
    (∃ ch, label = .receive ch ∧ s.receive driver ch = .ok after) ∨
      after.stored ++ after.fifo.bytes = s.stored ++ s.fifo.bytes ∧
        after.fifo.bytes.length ≤ s.fifo.bytes.length ∧ after.received = s.received := by
  cases step with
  | receives ch _ received => exact .inl ⟨ch, rfl, received⟩
  | reads pid _ awake holds _ taken => exact .inr (ordered.readRound_stream awake holds taken)
  | _ => exact .inr ⟨rfl, Nat.le_refl _, rfl⟩

end CharDevice
end Terminal
end LightOS
