import LightOS.Pipe.State

/-!
# The stream of bytes through a pipe

The bytes that readers have got and those in the queue are the bytes that writers
have given.  A reader that waits finds the queue empty and a writer that waits finds
it full, so never both wait.  The inode has one pointer for each end: a second task
that has to wait at the same end fails the assertion in front of `task_block`.
-/

namespace LightOS
namespace Pipe

variable {label : Label} {count : Int} {nr reader writer : Nat}

/-- Each pointer of the inode points to the task that sleeps at its end of the pipe,
and the queue is as that task found it. -/
structure Sound (s : Pipe) : Prop where
  inBuffer : s.fifo.InBuffer
  size : s.fifo.bufSize = pageSize
  running : s.failed = false
  busy : ∀ pid, s.blocked pid = true → s.call pid ≠ .outside
  reader : ∀ pid, s.rxwaiter = some pid ↔ s.SleepsReading pid
  writer : ∀ pid, s.txwaiter = some pid ↔ s.SleepsWriting pid
  waitsEmpty : ∀ pid, s.rxwaiter = some pid → s.fifo.empty = true
  waitsFull : ∀ pid, s.txwaiter = some pid → s.fifo.full = true
  stream : s.stored ++ s.fifo.bytes = s.taken

/-- A task goes to sleep at an end of the pipe only when no other task sleeps there. -/
def SleepsAlone (s : Pipe) : Label → Prop
  | .go pid =>
      (∀ count nr, s.call pid = .reading count nr → (nr : Int) < count →
        s.fifo.empty = true → ∀ other, ¬s.SleepsReading other) ∧
      ∀ buf count nr, s.call pid = .writing buf count nr → (nr : Int) < count →
        s.fifo.full = true → ∀ other, ¬s.SleepsWriting other
  | _ => True

variable {s after : Pipe} {pid : Nat}

/-- A queue with room for a byte is not empty and full. -/
theorem Sound.not_full (sound : s.Sound) (isEmpty : s.fifo.empty = true) :
    s.fifo.full = false := by
  have none := sound.inBuffer.empty_iff.mp isEmpty
  have size := sound.size
  cases isFull : s.fifo.full with
  | false => rfl
  | true =>
      have all := sound.inBuffer.full_iff.mp isFull
      rw [none, size] at all
      simp [pageSize] at all

/-- A task that is awake starts or ends a call. -/
theorem Sound.setCall (sound : s.Sound) (awake : s.blocked pid = false) (call : PipeCall) :
    (s.setCall pid call).Sound := by
  have others (other : Nat) (asleep : s.blocked other = true) :
      (s.setCall pid call).call other = s.call other := by
    apply Function.update_of_ne
    rintro rfl
    rw [awake] at asleep
    cases asleep
  refine { sound with busy := ?busy, reader := ?reader, writer := ?writer }
  case busy =>
    intro other asleep
    rw [others other asleep]
    exact sound.busy other asleep
  case reader =>
    intro other
    refine (sound.reader other).trans (and_congr_right fun asleep => ?_)
    rw [others other asleep]
  case writer =>
    intro other
    refine (sound.writer other).trans (and_congr_right fun asleep => ?_)
    rw [others other asleep]

theorem fresh_sound (page : Nat → UInt8) : (fresh page).Sound where
  inBuffer := Fifo.InBuffer.init (by decide) (by decide)
  size := rfl
  running := rfl
  busy := fun _ asleep => by cases asleep
  reader := fun pid => by simp [fresh, SleepsReading]
  writer := fun pid => by simp [fresh, SleepsWriting]
  waitsEmpty := fun _ isWaiter => by cases isWaiter
  waitsFull := fun _ isWaiter => by cases isWaiter
  stream := by simp [fresh, Fifo.init, Fifo.bytes, Ring.items_empty]

/-- A reader goes to sleep. -/
theorem Sound.sleepReading (sound : s.Sound) (calls : s.call pid = .reading count nr)
    (awake : s.blocked pid = false) (isEmpty : s.fifo.empty = true) (nobody : s.rxwaiter = none) :
    Sound { s.block pid with rxwaiter := some pid } := by
  have asleep (other : Nat) : (s.block pid).blocked other = true ↔
      other = pid ∨ s.blocked other = true := by
    by_cases same : other = pid
    · simp [block, same]
    · simp [block, same]
  refine { sound with
    busy := fun other sleeping => ?busy
    reader := fun other => ?reader
    writer := fun other => ?writer
    waitsEmpty := fun _ _ => isEmpty }
  case busy =>
    rcases (asleep other).mp sleeping with rfl | before
    · change s.call other ≠ .outside
      rw [calls]
      simp
    · exact sound.busy other before
  case reader =>
    have before := sound.reader other
    rw [nobody] at before
    unfold SleepsReading at before ⊢
    rw [Option.some.injEq]
    change pid = other ↔ (s.block pid).blocked other = true ∧
      ∃ count nr, s.call other = .reading count nr
    rw [asleep]
    constructor
    · rintro rfl
      exact ⟨.inl rfl, count, nr, calls⟩
    · rintro ⟨rfl | sleeping, isReading⟩
      · rfl
      · exact absurd (before.mpr ⟨sleeping, isReading⟩) (by simp)
  case writer =>
    have before := sound.writer other
    unfold SleepsWriting at before ⊢
    change s.txwaiter = some other ↔ (s.block pid).blocked other = true ∧
      ∃ buf count nr, s.call other = .writing buf count nr
    rw [asleep, before]
    constructor
    · rintro ⟨sleeping, isWriting⟩
      exact ⟨.inr sleeping, isWriting⟩
    · rintro ⟨rfl | sleeping, buf, otherCount, otherNr, isWriting⟩
      · rw [calls] at isWriting
        cases isWriting
      · exact ⟨sleeping, buf, otherCount, otherNr, isWriting⟩

/-- A writer goes to sleep. -/
theorem Sound.sleepWriting (sound : s.Sound) {buf : Nat → UInt8}
    (calls : s.call pid = .writing buf count nr) (awake : s.blocked pid = false)
    (isFull : s.fifo.full = true) (nobody : s.txwaiter = none) :
    Sound { s.block pid with txwaiter := some pid } := by
  have asleep (other : Nat) : (s.block pid).blocked other = true ↔
      other = pid ∨ s.blocked other = true := by
    by_cases same : other = pid
    · simp [block, same]
    · simp [block, same]
  refine { sound with
    busy := fun other sleeping => ?busy
    reader := fun other => ?reader
    writer := fun other => ?writer
    waitsFull := fun _ _ => isFull }
  case busy =>
    rcases (asleep other).mp sleeping with rfl | before
    · change s.call other ≠ .outside
      rw [calls]
      simp
    · exact sound.busy other before
  case reader =>
    have before := sound.reader other
    unfold SleepsReading at before ⊢
    change s.rxwaiter = some other ↔ (s.block pid).blocked other = true ∧
      ∃ count nr, s.call other = .reading count nr
    rw [asleep, before]
    constructor
    · rintro ⟨sleeping, isReading⟩
      exact ⟨.inr sleeping, isReading⟩
    · rintro ⟨rfl | sleeping, otherCount, otherNr, isReading⟩
      · rw [calls] at isReading
        cases isReading
      · exact ⟨sleeping, otherCount, otherNr, isReading⟩
  case writer =>
    have before := sound.writer other
    rw [nobody] at before
    unfold SleepsWriting at before ⊢
    rw [Option.some.injEq]
    change pid = other ↔ (s.block pid).blocked other = true ∧
      ∃ buf count nr, s.call other = .writing buf count nr
    rw [asleep]
    constructor
    · rintro rfl
      exact ⟨.inl rfl, buf, count, nr, calls⟩
    · rintro ⟨rfl | sleeping, isWriting⟩
      · rfl
      · exact absurd (before.mpr ⟨sleeping, isWriting⟩) (by simp)

/-- A task whose call goes on is the only one whose call changes. -/
theorem setCall_call_other {other : Nat} (different : other ≠ pid) (call : PipeCall) :
    (s.setCall pid call).call other = s.call other :=
  Function.update_of_ne different _ _

/-- A reader takes a byte and wakes the writer that waits. -/
theorem Sound.take (sound : s.Sound) (awake : s.blocked pid = false) (used : s.fifo.empty = false) :
    ({ s with fifo := s.fifo.get.2, stored := s.stored ++ [s.fifo.get.1] }.setCall pid
      (.reading count (nr + 1))).wakeWriter.Sound := by
  obtain ⟨inBuffer, bytes, size⟩ := sound.inBuffer.get_spec used
  have nobody : s.rxwaiter = none := by
    cases isWaiter : s.rxwaiter with
    | none => rfl
    | some waiter =>
        rw [sound.waitsEmpty waiter isWaiter] at used
        cases used
  have notSelf {other : Nat} (asleep : s.blocked other = true) : other ≠ pid := by
    rintro rfl
    rw [awake] at asleep
    cases asleep
  constructor
  case inBuffer =>
    rw [wakeWriter_fifo]
    exact inBuffer
  case size =>
    rw [wakeWriter_fifo]
    exact size.trans sound.size
  case running =>
    rw [wakeWriter_failed]
    exact sound.running
  case busy =>
    intro other asleep
    have before := ((wakeWriter_blocked _ other).mp asleep).1
    rw [wakeWriter_call, setCall_call_other (notSelf before)]
    exact sound.busy other before
  case reader =>
    intro other
    rw [wakeWriter_rxwaiter]
    change s.rxwaiter = some other ↔ _
    rw [nobody]
    refine ⟨nofun, ?_⟩
    rintro ⟨asleep, sleeperCount, sleeperNr, isReading⟩
    have before := ((wakeWriter_blocked _ other).mp asleep).1
    rw [wakeWriter_call, setCall_call_other (notSelf before)] at isReading
    rw [← nobody]
    exact (sound.reader other).mpr ⟨before, sleeperCount, sleeperNr, isReading⟩
  case writer =>
    intro other
    rw [wakeWriter_txwaiter]
    refine ⟨nofun, ?_⟩
    rintro ⟨asleep, buf, sleeperCount, sleeperNr, isWriting⟩
    obtain ⟨before, notWoken⟩ := (wakeWriter_blocked _ other).mp asleep
    rw [wakeWriter_call, setCall_call_other (notSelf before)] at isWriting
    exact absurd ((sound.writer other).mpr
      ⟨before, buf, sleeperCount, sleeperNr, isWriting⟩) notWoken
  case waitsEmpty =>
    intro other isWaiter
    rw [wakeWriter_rxwaiter] at isWaiter
    exact absurd (nobody.symm.trans isWaiter) (by simp)
  case waitsFull =>
    intro other isWaiter
    rw [wakeWriter_txwaiter] at isWaiter
    cases isWaiter
  case stream =>
    rw [wakeWriter_fifo, wakeWriter_stored, wakeWriter_taken]
    change s.stored ++ [s.fifo.get.1] ++ s.fifo.get.2.bytes = s.taken
    rw [← sound.stream, bytes, List.append_assoc, List.singleton_append]

/-- A writer gives a byte and wakes the reader that waits. -/
theorem Sound.give (sound : s.Sound) (buf : Nat → UInt8) (count : Int) (nr : Nat)
    (awake : s.blocked pid = false) (room : s.fifo.full = false) :
    ∃ fifo, s.fifo.put (buf nr) = .ok fifo ∧ fifo.empty = false ∧
      ({ s with fifo := fifo, taken := s.taken ++ [buf nr] }.setCall pid
        (.writing buf count (nr + 1))).wakeReader.Sound := by
  obtain ⟨fifo, put, inBuffer, bytes, size⟩ := sound.inBuffer.put_spec (buf nr) room
  have used : fifo.empty = false := by
    cases isEmpty : fifo.empty with
    | false => rfl
    | true =>
        rw [inBuffer.empty_iff.mp isEmpty] at bytes
        simp at bytes
  refine ⟨fifo, put, used, ?_⟩
  have nobody : s.txwaiter = none := by
    cases isWaiter : s.txwaiter with
    | none => rfl
    | some waiter =>
        rw [sound.waitsFull waiter isWaiter] at room
        cases room
  have notSelf {other : Nat} (asleep : s.blocked other = true) : other ≠ pid := by
    rintro rfl
    rw [awake] at asleep
    cases asleep
  constructor
  case inBuffer =>
    rw [wakeReader_fifo]
    exact inBuffer
  case size =>
    rw [wakeReader_fifo]
    exact size.trans sound.size
  case running =>
    rw [wakeReader_failed]
    exact sound.running
  case busy =>
    intro other asleep
    have before := ((wakeReader_blocked _ other).mp asleep).1
    rw [wakeReader_call, setCall_call_other (notSelf before)]
    exact sound.busy other before
  case reader =>
    intro other
    rw [wakeReader_rxwaiter]
    refine ⟨nofun, ?_⟩
    rintro ⟨asleep, sleeperCount, sleeperNr, isReading⟩
    obtain ⟨before, notWoken⟩ := (wakeReader_blocked _ other).mp asleep
    rw [wakeReader_call, setCall_call_other (notSelf before)] at isReading
    exact absurd ((sound.reader other).mpr
      ⟨before, sleeperCount, sleeperNr, isReading⟩) notWoken
  case writer =>
    intro other
    rw [wakeReader_txwaiter]
    change s.txwaiter = some other ↔ _
    rw [nobody]
    refine ⟨nofun, ?_⟩
    rintro ⟨asleep, sleeperBuf, sleeperCount, sleeperNr, isWriting⟩
    have before := ((wakeReader_blocked _ other).mp asleep).1
    rw [wakeReader_call, setCall_call_other (notSelf before)] at isWriting
    rw [← nobody]
    exact (sound.writer other).mpr
      ⟨before, sleeperBuf, sleeperCount, sleeperNr, isWriting⟩
  case waitsEmpty =>
    intro other isWaiter
    rw [wakeReader_rxwaiter] at isWaiter
    cases isWaiter
  case waitsFull =>
    intro other isWaiter
    rw [wakeReader_txwaiter] at isWaiter
    exact absurd (nobody.symm.trans isWaiter) (by simp)
  case stream =>
    rw [wakeReader_fifo, wakeReader_stored, wakeReader_taken]
    change s.stored ++ fifo.bytes = s.taken ++ [buf nr]
    rw [bytes, ← sound.stream, List.append_assoc]

/-- What a step of a task is, in a pipe whose assertions have held so far. -/
theorem next_cases (running : s.failed = false) (stepped : s.next label = .ok after) :
    (∃ pid count, label = .read pid count ∧ s.call pid = .outside ∧
      after = s.setCall pid (.reading count 0)) ∨
    (∃ pid buf count, label = .write pid buf count ∧ s.call pid = .outside ∧
      after = s.setCall pid (.writing buf count 0)) ∨
    (∃ pid count nr, label = .go pid ∧ s.blocked pid = false ∧
      s.call pid = .reading count nr ∧ after = s.readRound pid count nr) ∨
    ∃ pid buf count nr, label = .go pid ∧ s.blocked pid = false ∧
      s.call pid = .writing buf count nr ∧ s.writeRound pid buf count nr = .ok after := by
  unfold next at stepped
  rw [running, if_neg (by simp)] at stepped
  cases label with
  | read pid count =>
      dsimp only at stepped
      split at stepped
      · rename_i isOutside
        cases stepped
        exact .inl ⟨pid, count, rfl, isOutside, rfl⟩
      · cases stepped
  | write pid buf count =>
      dsimp only at stepped
      split at stepped
      · rename_i isOutside
        cases stepped
        exact .inr (.inl ⟨pid, buf, count, rfl, isOutside, rfl⟩)
      · cases stepped
  | go pid =>
      dsimp only at stepped
      split at stepped
      · cases stepped
      · rename_i awake
        have isAwake : s.blocked pid = false := by simpa using awake
        split at stepped
        · cases stepped
        · rename_i count nr isReading
          cases stepped
          exact .inr (.inr (.inl ⟨pid, count, nr, rfl, isAwake, isReading, rfl⟩))
        · rename_i buf count nr isWriting
          exact .inr (.inr (.inr ⟨pid, buf, count, nr, rfl, isAwake, isWriting, stepped⟩))

/-- A task outside of the two functions is awake. -/
theorem Sound.awake (sound : s.Sound) (isOutside : s.call pid = .outside) :
    s.blocked pid = false := by
  cases asleep : s.blocked pid with
  | false => rfl
  | true => exact absurd isOutside (sound.busy pid asleep)

theorem Sound.step (sound : s.Sound) (alone : s.SleepsAlone label)
    (stepped : s.next label = .ok after) : after.Sound := by
  rcases next_cases sound.running stepped with
    ⟨pid, count, rfl, isOutside, rfl⟩ | ⟨pid, buf, count, rfl, isOutside, rfl⟩ |
    ⟨pid, count, nr, rfl, awake, isReading, rfl⟩ |
    ⟨pid, buf, count, nr, rfl, awake, isWriting, round⟩
  · exact sound.setCall (sound.awake isOutside) _
  · exact sound.setCall (sound.awake isOutside) _
  · unfold readRound
    split
    · exact sound.setCall awake _
    · rename_i more
      split
      · rename_i isEmpty
        have nobody : s.rxwaiter = none := by
          cases isWaiter : s.rxwaiter with
          | none => rfl
          | some waiter =>
              exact absurd ((sound.reader waiter).mp isWaiter)
                (alone.1 count nr isReading (Int.not_le.mp more) isEmpty waiter)
        rw [if_pos nobody]
        exact sound.sleepReading isReading awake isEmpty nobody
      · rename_i notEmpty
        exact sound.take awake (by simpa using notEmpty)
  · unfold writeRound at round
    split at round
    · cases round
      exact sound.setCall awake _
    · rename_i more
      split at round
      · rename_i isFull
        have nobody : s.txwaiter = none := by
          cases isWaiter : s.txwaiter with
          | none => rfl
          | some waiter =>
              exact absurd ((sound.writer waiter).mp isWaiter)
                (alone.2 buf count nr isWriting (Int.not_le.mp more) isFull waiter)
        rw [if_pos nobody] at round
        cases round
        exact sound.sleepWriting isWriting awake isFull nobody
      · rename_i notFull
        obtain ⟨fifo, put, _, soundAfter⟩ :=
          sound.give buf count nr awake (by simpa using notFull)
        rw [put, ok_bind] at round
        cases round
        exact soundAfter

/-! ## One reader and one writer -/

/-- Only one task reads the pipe and only one writes it. -/
def OneEach (reader writer : Nat) : Pipe → Label → Prop
  | _, .read pid _ => pid = reader
  | _, .write pid _ _ => pid = writer
  | _, .go _ => True

/-- The bytes that the readers have got and those in the queue are the bytes that the
writers have given, and a task waits only while it has to. -/
structure StreamIntact (s : Pipe) : Prop where
  stream : s.stored ++ s.fifo.bytes = s.taken
  bounded : s.fifo.bytes.length ≤ pageSize - 1
  notBoth : ¬(s.rxwaiter.isSome ∧ s.txwaiter.isSome)
  readerWaits : s.rxwaiter.isSome → s.fifo.empty = true
  writerWaits : s.txwaiter.isSome → s.fifo.full = true
  running : s.failed = false

theorem Sound.streamIntact (sound : s.Sound) : s.StreamIntact where
  stream := sound.stream
  bounded := by
    have below := sound.inBuffer.length_lt
    rw [sound.size] at below
    exact Nat.le_sub_one_of_lt below
  notBoth := by
    rintro ⟨isReader, isWriter⟩
    obtain ⟨reader, isReader⟩ := Option.isSome_iff_exists.mp isReader
    obtain ⟨writer, isWriter⟩ := Option.isSome_iff_exists.mp isWriter
    have notFull := sound.not_full (sound.waitsEmpty reader isReader)
    rw [sound.waitsFull writer isWriter] at notFull
    cases notFull
  readerWaits := by
    intro isReader
    obtain ⟨reader, isReader⟩ := Option.isSome_iff_exists.mp isReader
    exact sound.waitsEmpty reader isReader
  writerWaits := by
    intro isWriter
    obtain ⟨writer, isWriter⟩ := Option.isSome_iff_exists.mp isWriter
    exact sound.waitsFull writer isWriter
  running := sound.running

/-- The tasks in the two functions are the reader and the writer. -/
structure Keeps (s : Pipe) (reader writer : Nat) : Prop where
  sound : s.Sound
  reads : ∀ pid count nr, s.call pid = .reading count nr → pid = reader
  writes : ∀ pid buf count nr, s.call pid = .writing buf count nr → pid = writer

/-- A round of the loop of `pipe_read` leaves the calls of the other tasks alone. -/
theorem readRound_call (s : Pipe) (pid : Nat) (count : Int) (nr other : Nat) :
    (s.readRound pid count nr).call other = s.call other ∨
      other = pid ∧ ((s.readRound pid count nr).call other = .outside ∨
        (s.readRound pid count nr).call other = .reading count (nr + 1)) := by
  unfold readRound
  split
  · by_cases same : other = pid
    · exact .inr ⟨same, .inl (by simp [setCall, same])⟩
    · exact .inl (setCall_call_other same _)
  · split
    · split
      · exact .inl rfl
      · exact .inl rfl
    · by_cases same : other = pid
      · exact .inr ⟨same, .inr (by simp [setCall, same])⟩
      · left
        rw [wakeWriter_call]
        exact setCall_call_other same _

/-- A round of the loop of `pipe_write` leaves the calls of the other tasks alone. -/
theorem writeRound_call {buf : Nat → UInt8} (other : Nat)
    (round : s.writeRound pid buf count nr = .ok after) :
    after.call other = s.call other ∨
      other = pid ∧ (after.call other = .outside ∨
        after.call other = .writing buf count (nr + 1)) := by
  unfold writeRound at round
  split at round
  · cases round
    by_cases same : other = pid
    · exact .inr ⟨same, .inl (by simp [setCall, same])⟩
    · exact .inl (setCall_call_other same _)
  · split at round
    · split at round
      · cases round
        exact .inl rfl
      · cases round
        exact .inl rfl
    · rw [bind_eq_ok] at round
      obtain ⟨fifo, _, same⟩ := round
      cases same
      by_cases same : other = pid
      · exact .inr ⟨same, .inr (by simp [setCall, same])⟩
      · left
        rw [wakeReader_call]
        exact setCall_call_other same _

/-- A task that goes on is awake. -/
theorem awake_of_go (running : s.failed = false) (stepped : s.next (.go pid) = .ok after) :
    s.blocked pid = false := by
  rcases next_cases running stepped with
    ⟨_, _, other, _⟩ | ⟨_, _, _, other, _⟩ | ⟨_, _, _, same, awake, _⟩ |
    ⟨_, _, _, _, same, awake, _⟩
  · cases other
  · cases other
  · cases same
    exact awake
  · cases same
    exact awake

theorem Keeps.alone (keeps : s.Keeps reader writer) (stepped : s.next label = .ok after) :
    s.SleepsAlone label := by
  cases label with
  | read => trivial
  | write => trivial
  | go pid =>
      have awake := awake_of_go keeps.sound.running stepped
      refine ⟨fun count nr isReading _ _ other sleeps => ?_,
        fun buf count nr isWriting _ _ other sleeps => ?_⟩
      · obtain ⟨asleep, otherCount, otherNr, alsoReading⟩ := sleeps
        rw [keeps.reads other otherCount otherNr alsoReading,
          ← keeps.reads pid count nr isReading, awake] at asleep
        cases asleep
      · obtain ⟨asleep, otherBuf, otherCount, otherNr, alsoWriting⟩ := sleeps
        rw [keeps.writes other otherBuf otherCount otherNr alsoWriting,
          ← keeps.writes pid buf count nr isWriting, awake] at asleep
        cases asleep

theorem Keeps.setCall (keeps : s.Keeps reader writer) {call : PipeCall}
    (sound : (s.setCall pid call).Sound)
    (reads : ∀ count nr, call = .reading count nr → pid = reader)
    (writes : ∀ buf count nr, call = .writing buf count nr → pid = writer) :
    (s.setCall pid call).Keeps reader writer := by
  refine ⟨sound, fun other count nr isReading => ?_, fun other buf count nr isWriting => ?_⟩
  · by_cases same : other = pid
    · rw [same] at isReading ⊢
      exact reads count nr (by simpa [Pipe.setCall] using isReading)
    · rw [setCall_call_other same] at isReading
      exact keeps.reads other count nr isReading
  · by_cases same : other = pid
    · rw [same] at isWriting ⊢
      exact writes buf count nr (by simpa [Pipe.setCall] using isWriting)
    · rw [setCall_call_other same] at isWriting
      exact keeps.writes other buf count nr isWriting

theorem Keeps.step (keeps : s.Keeps reader writer) (oneEach : OneEach reader writer s label)
    (stepped : s.next label = .ok after) : after.Keeps reader writer := by
  have sound := keeps.sound.step (keeps.alone stepped) stepped
  rcases next_cases keeps.sound.running stepped with
    ⟨pid, count, rfl, _, rfl⟩ | ⟨pid, buf, count, rfl, _, rfl⟩ |
    ⟨pid, count, nr, rfl, _, isReading, rfl⟩ | ⟨pid, buf, count, nr, rfl, _, isWriting, round⟩
  · exact keeps.setCall sound (fun _ _ _ => oneEach) nofun
  · exact keeps.setCall sound nofun (fun _ _ _ _ => oneEach)
  · refine ⟨sound, fun other otherCount otherNr alsoReading => ?_,
      fun other buf otherCount otherNr alsoWriting => ?_⟩
    · rcases s.readRound_call pid count nr other with same | ⟨rfl, _⟩
      · rw [same] at alsoReading
        exact keeps.reads other _ _ alsoReading
      · exact keeps.reads other count nr isReading
    · rcases s.readRound_call pid count nr other with same | ⟨rfl, ends | continues⟩
      · rw [same] at alsoWriting
        exact keeps.writes other _ _ _ alsoWriting
      · exact absurd (ends.symm.trans alsoWriting) nofun
      · exact absurd (continues.symm.trans alsoWriting) nofun
  · refine ⟨sound, fun other otherCount otherNr alsoReading => ?_,
      fun other otherBuf otherCount otherNr alsoWriting => ?_⟩
    · rcases writeRound_call other round with same | ⟨rfl, ends | continues⟩
      · rw [same] at alsoReading
        exact keeps.reads other _ _ alsoReading
      · exact absurd (ends.symm.trans alsoReading) nofun
      · exact absurd (continues.symm.trans alsoReading) nofun
    · rcases writeRound_call other round with same | ⟨rfl, _⟩
      · rw [same] at alsoWriting
        exact keeps.writes other _ _ _ alsoWriting
      · exact keeps.writes other buf count nr isWriting

/-- With one reader and one writer the stream through a pipe is intact. -/
theorem streamIntact_of_reachable {reader writer : Nat} {s : Pipe}
    (reached : runs.ReachableWithin (OneEach reader writer) s) : s.StreamIntact := by
  have keeps : s.Keeps reader writer := by
    apply reached.invariant fun state => state.Keeps reader writer
    · rintro state ⟨page, rfl⟩
      exact ⟨fresh_sound page, nofun, nofun⟩
    · exact fun before label after keeps oneEach stepped => keeps.step oneEach stepped
  exact keeps.sound.streamIntact

/-- Task 1 waits for two bytes, and task 2 gives it the first one. -/
def firstByte : List Label :=
  [.read 1 2, .go 1, .write 2 (fun i => if i = 0 then 104 else 105) 2, .go 2, .go 1]

instance (reader writer : Nat) (s : Pipe) (label : Label) :
    Decidable (OneEach reader writer s label) := by
  cases label <;> unfold OneEach <;> infer_instance

theorem streamIntact_of_reachable_firstByte :
    ∃ s, runs.ReachableWithin (OneEach 1 2) s ∧ s.stored = [104] ∧ s.StreamIntact := by
  obtain ⟨s, reached, stored⟩ := System.ReachableWithin.extend_run runs (OneEach 1 2)
    (fun before label => if oneEach : OneEach 1 2 before label then before.next label
      else .error .misuse)
    (fun before label after stepped => by
      split at stepped
      · exact ⟨‹_›, stepped⟩
      · cases stepped)
    firstByte (fun s => s.stored = [104]) (.initial ⟨fun _ => 0, rfl⟩) (by decide +kernel)
  have isStored : s.stored = [104] := of_decide_eq_true stored
  exact ⟨s, reached, isStored, streamIntact_of_reachable reached⟩

/-! ## Shared ends -/

/-- The assertions have held, and no reader sleeps while there is a byte for it. -/
def EndsShared (s : Pipe) : Prop :=
  s.failed = false ∧
    (s.fifo.empty = false → ∀ pid, ¬s.SleepsReading pid)

theorem Sound.endsShared (sound : s.Sound) : s.EndsShared := by
  refine ⟨sound.running, fun used pid sleeps => ?_⟩
  rw [sound.waitsEmpty pid ((sound.reader pid).mpr sleeps)] at used
  cases used

/-- A second task that has to wait at an end fails the assertion. -/
theorem Sound.destroyed (sound : s.Sound) (together : ¬s.SleepsAlone label)
    (stepped : s.next label = .ok after) : ¬after.EndsShared := by
  cases label with
  | read => exact absurd trivial together
  | write => exact absurd trivial together
  | go pid =>
      have awake := awake_of_go sound.running stepped
      rintro ⟨stillRunning, _⟩
      apply together
      refine ⟨fun count nr isReading more isEmpty other sleeps => ?_,
        fun buf count nr isWriting more isFull other sleeps => ?_⟩
      · have isWaiter := (sound.reader other).mpr sleeps
        have fails : s.next (.go pid) = .ok { s with failed := true } := by
          simp [next, sound.running, awake, isReading, readRound, Int.not_le.mpr more,
            isEmpty, isWaiter]
        rw [fails] at stepped
        cases stepped
        cases stillRunning
      · have isWaiter := (sound.writer other).mpr sleeps
        have fails : s.next (.go pid) = .ok { s with failed := true } := by
          simp [next, sound.running, awake, isWriting, writeRound, Int.not_le.mpr more,
            isFull, isWaiter]
        rw [fails] at stepped
        cases stepped
        cases stillRunning

/-- Tasks that share the ends of a pipe get on with each other exactly as long as no
two of them have to wait at the same end. -/
theorem endsShared_iff_sleepsAlone {start final : Pipe} {trace : List (Pipe × Label)}
    (begins : runs.initial start) (path : runs.Path start trace final) :
    System.Visits EndsShared trace final ↔ System.Obeys SleepsAlone trace := by
  obtain ⟨page, rfl⟩ := begins
  exact path.visits_iff_obeys Sound (fresh_sound page)
    (fun before label after sound alone stepped => sound.step alone stepped)
    (fun state sound => sound.endsShared)
    (fun before label after sound together stepped => sound.destroyed together stepped)

theorem endsShared_iff_sleepsAlone_firstByte :
    ∃ trace final, runs.Path (fresh fun _ => 0) trace final ∧ final.stored = [104] ∧
      (System.Visits EndsShared trace final ↔ System.Obeys SleepsAlone trace) := by
  obtain ⟨trace, final, path, stored⟩ := System.Path.of_run runs next
    (fun _ _ _ stepped => stepped) (fresh fun _ => 0) firstByte
    (fun s => s.stored = [104]) (by decide +kernel)
  exact ⟨trace, final, path, of_decide_eq_true stored,
    endsShared_iff_sleepsAlone ⟨_, rfl⟩ path⟩

/-- Two tasks read from the empty pipe, and the second one fails the assertion. -/
theorem endsShared_secondReader :
    ¬∀ s, runs.Reachable s → s.EndsShared := by
  intro always
  obtain ⟨s, reached, failed⟩ := System.ReachableWithin.extend_run runs
    (fun _ _ => True) next (fun _ _ _ stepped => ⟨trivial, stepped⟩)
    [.read 1 1, .go 1, .read 2 1, .go 2] (fun s => s.failed)
    (.initial ⟨fun _ => 0, rfl⟩) (by decide +kernel)
  rw [(always s reached).1] at failed
  cases failed

end Pipe
end LightOS
