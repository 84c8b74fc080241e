import LightOS.Foundation.StableQueue
import LightOS.Foundation.Transition
import LightOS.Sched.Sleep
import Mathlib.Data.Int.Order.Basic
import Mathlib.Data.List.TakeWhile
import Mathlib.Data.Nat.Basic

/-!
# The order in which timers fire

The list of timers is sorted by the signed words that `list_insert_sort` compares, and
`timer_wakeup` compares unsigned ones.  The two agree as long as no timer that is due
stands behind one with a set sign bit, and `EOF` stands for the end of the list as long
as it is not the time.
-/

namespace LightOS
namespace Sched

/-- The key that the list of timers is sorted by. -/
def Timer.key (timer : Timer) : Int :=
  toSigned timer.expires

namespace Kernel

theorem insertTimer_eq (timer : Timer) (timers : List Timer) :
    insertTimer timer timers = insertLast Timer.key timer timers := by
  induction timers with
  | nil => rfl
  | cons head rest inductionHypothesis =>
      rw [insertTimer, insertLast, inductionHypothesis]
      rfl

/-- `timer_update` of the timer with a serial number.  One that is not in the list has been
freed. -/
def timerUpdate (s : Kernel) (serial ms : Nat) : Except Fault Kernel :=
  match s.timers.find? fun timer => timer.serial = serial with
  | none => .error .misuse
  | some timer =>
      .ok { s with
        timers := insertTimer { timer with expires := add32 s.jiffies (ms / jiffy) }
          (s.timers.erase timer) }

/-- The beginning of `clock_handler`. -/
def tick (s : Kernel) : Kernel :=
  { s with jiffies := add32 s.jiffies 1 }

/-- A timer is due. -/
def due (s : Kernel) (timer : Timer) : Bool :=
  timer.expires ≤ s.jiffies

/-- The timers whose handlers `timer_wakeup` runs. -/
def fired (s : Kernel) : List Timer :=
  (s.firings s.timers).map Prod.snd

variable {s after : Kernel}

@[simp] theorem handle_jiffies (s : Kernel) (timer : Timer) :
    (s.handle timer).jiffies = s.jiffies := by
  unfold handle
  split <;> rfl

@[simp] theorem handle_serial (s : Kernel) (timer : Timer) :
    (s.handle timer).serial = s.serial := by
  unfold handle
  split <;> rfl

theorem handle_due (s : Kernel) (timer : Timer) : (s.handle timer).due = s.due := by
  funext other
  unfold due
  rw [handle_jiffies]

/-- The handlers that run are those of the timers in front that are due. -/
theorem firings_eq (s : Kernel) (queue : List Timer) :
    (s.firings queue).map Prod.snd = queue.takeWhile s.due := by
  induction queue generalizing s with
  | nil => rfl
  | cons timer rest inductionHypothesis =>
      rw [firings]
      split
      case isTrue isDue =>
        rw [List.map_cons, inductionHypothesis, handle_due,
          List.takeWhile_cons_of_pos (by simpa [due] using isDue)]
      case isFalse notDue =>
        rw [List.takeWhile_cons_of_neg (by simpa [due] using notDue)]
        rfl

/-- `timer_wakeup` stops at the first timer that is not due. -/
theorem timerWakeupFrom_spec {queue : List Timer}
    (ran : s.timerWakeupFrom queue = .ok after) :
    after.timers = queue.dropWhile s.due ∧ after.jiffies = s.jiffies ∧
      after.serial = s.serial := by
  induction queue generalizing s with
  | nil =>
      rw [timerWakeupFrom] at ran
      simp only [bind_eq_ok, pure_eq_ok] at ran
      obtain ⟨_, _, ran⟩ := ran
      cases ran
      exact ⟨rfl, rfl, rfl⟩
  | cons timer rest inductionHypothesis =>
      rw [timerWakeupFrom] at ran
      split at ran
      case isTrue isDue =>
        obtain ⟨timers, jiffies, serial⟩ := inductionHypothesis ran
        rw [handle_jiffies] at jiffies
        rw [handle_serial] at serial
        rw [handle_due] at timers
        rw [List.dropWhile_cons_of_pos (by simpa [due] using isDue)]
        exact ⟨timers, jiffies, serial⟩
      case isFalse notDue =>
        cases ran
        rw [List.dropWhile_cons_of_neg (by simpa [due] using notDue)]
        exact ⟨rfl, rfl, rfl⟩

/-- `timer_wakeup` returns when it stops at a timer, or when `EOF` is no time that has
come. -/
theorem timerWakeupFrom_returns (queue : List Timer) :
    (∃ after, s.timerWakeupFrom queue = .ok after) ↔
      queue.dropWhile s.due ≠ [] ∨ s.jiffies < eof := by
  induction queue generalizing s with
  | nil =>
      rw [timerWakeupFrom]
      by_cases early : s.jiffies < eof
      · simp [early, bounded]
      · simp [early, bounded, bind, Except.bind]
  | cons timer rest inductionHypothesis =>
      rw [timerWakeupFrom]
      split
      case isTrue isDue =>
        rw [inductionHypothesis, handle_due, handle_jiffies,
          List.dropWhile_cons_of_pos (by simpa [due] using isDue)]
      case isFalse notDue =>
        rw [List.dropWhile_cons_of_neg (by simpa [due] using notDue)]
        simp

end Kernel

/-! ## Runs -/

/-- The kernel, with the queued timers in the order in which they were inserted. -/
structure Timeline where
  kernel : Kernel
  arrivals : List Timer

/-- What happens to the timers. -/
inductive TimerEvent
  | add (ms : Nat) (handler : Handler)
  | update (serial ms : Nat)
  | remove (pid : Nat)
  | tick
  /-- The kernel does something else. -/
  | other

namespace Timeline

/-- One step.  A timer that is updated is inserted anew. -/
inductive Step (x : Timeline) : TimerEvent → Timeline → Prop
  | add (ms : Nat) (handler : Handler) :
      Step x (.add ms handler)
        ⟨x.kernel.timerAdd ms handler, x.arrivals ++
          [⟨x.kernel.serial, x.kernel.current, add32 x.kernel.jiffies (ms / jiffy), handler⟩]⟩
  | update {serial ms : Nat} {timer : Timer} {after : Kernel} :
      timer ∈ x.kernel.timers → timer.serial = serial →
      x.kernel.timerUpdate serial ms = .ok after →
      Step x (.update serial ms) ⟨after, x.arrivals.erase timer ++
        [{ timer with expires := add32 x.kernel.jiffies (ms / jiffy) }]⟩
  | remove (pid : Nat) :
      Step x (.remove pid)
        ⟨x.kernel.timerRemove pid, x.arrivals.filter fun timer => timer.task ≠ pid⟩
  | tick {after : Kernel} :
      x.kernel.tick.timerWakeup = .ok after →
      Step x .tick
        ⟨after, x.arrivals.filter fun timer => timer ∉ x.kernel.tick.fired⟩
  | other {after : Kernel} :
      after.timers = x.kernel.timers → after.serial = x.kernel.serial →
      after.jiffies = x.kernel.jiffies → Step x .other ⟨after, x.arrivals⟩

/-- The runs from any time without timers. -/
def runs : System Timeline TimerEvent where
  initial x := x.kernel.timers = [] ∧ x.arrivals = [] ∧ x.kernel.jiffies < 2 ^ 32
  step := Step

/-- The next tick runs the handlers of the timers that are due, in the order of their
times and among equal times in the order of insertion, and leaves the other timers. -/
def Punctual (x : Timeline) : Prop :=
  ∃ after, x.kernel.tick.timerWakeup = .ok after ∧
    StableSort Timer.expires (x.arrivals.filter x.kernel.tick.due) x.kernel.tick.fired ∧
    after.timers = x.kernel.timers.filter fun timer => !x.kernel.tick.due timer

/-- The time is not `EOF`, and no timer without the sign bit is due while one with the
sign bit is queued. -/
def SignAgrees (x : Timeline) : Prop :=
  x.kernel.tick.jiffies ≠ eof ∧
    ∀ timer ∈ x.kernel.timers, x.kernel.tick.due timer → timer.expires < 2 ^ 31 →
      ∀ other ∈ x.kernel.timers, other.expires < 2 ^ 31

/-- The list holds the queued timers in the order of their signed times. -/
structure Sorted (x : Timeline) : Prop where
  sort : StableSort Timer.key x.arrivals x.kernel.timers
  word : ∀ timer ∈ x.kernel.timers, timer.expires < 2 ^ 32
  time : x.kernel.jiffies < 2 ^ 32
  old : ∀ timer ∈ x.kernel.timers, timer.serial < x.kernel.serial
  distinct : (x.kernel.timers.map Timer.serial).Nodup

variable {x after : Timeline}

theorem add32_lt (left right : Nat) : add32 left right < 2 ^ 32 :=
  Nat.mod_lt _ (Nat.two_pow_pos 32)

namespace Sorted

theorem nodup (sorted : x.Sorted) : x.kernel.timers.Nodup :=
  sorted.distinct.of_map _

theorem arrivals_nodup (sorted : x.Sorted) : x.arrivals.Nodup :=
  sorted.sort.perm.nodup_iff.mp sorted.nodup

/-- Fewer timers. -/
theorem fewer (sorted : x.Sorted) {stays : Timer → Bool} {kernel : Kernel}
    (timers : kernel.timers = x.kernel.timers.filter stays)
    (serial : kernel.serial = x.kernel.serial) (time : kernel.jiffies < 2 ^ 32) :
    Sorted ⟨kernel, x.arrivals.filter stays⟩ := by
  have subset (timer : Timer) (queued : timer ∈ kernel.timers) :
      timer ∈ x.kernel.timers := by
    rw [timers] at queued
    exact (List.mem_filter.mp queued).1
  refine ⟨?_, fun timer queued => sorted.word timer (subset timer queued), time,
    fun timer queued => ?_, ?_⟩
  · change StableSort Timer.key _ kernel.timers
    rw [timers]
    exact sorted.sort.filter stays
  · change timer.serial < kernel.serial
    rw [serial]
    exact sorted.old timer (subset timer queued)
  · change (kernel.timers.map Timer.serial).Nodup
    rw [timers]
    exact sorted.distinct.sublist (List.filter_sublist.map Timer.serial)

/-- A timer is inserted with a serial number that no other one has. -/
theorem insert (sorted : x.Sorted) {timer : Timer} {kernel : Kernel}
    (timers : kernel.timers = Kernel.insertTimer timer x.kernel.timers)
    (word : timer.expires < 2 ^ 32) (time : kernel.jiffies = x.kernel.jiffies)
    (serial : x.kernel.serial ≤ kernel.serial) (old : timer.serial < kernel.serial)
    (new : timer.serial ∉ x.kernel.timers.map Timer.serial) :
    Sorted ⟨kernel, x.arrivals ++ [timer]⟩ := by
  have queued (other : Timer) :
      other ∈ kernel.timers ↔ other = timer ∨ other ∈ x.kernel.timers := by
    rw [timers, Kernel.insertTimer_eq, mem_insertLast]
  refine ⟨?_, fun other isQueued => ?_, ?_, fun other isQueued => ?_, ?_⟩
  · change StableSort Timer.key _ kernel.timers
    rw [timers, Kernel.insertTimer_eq]
    exact sorted.sort.insert timer
  · rcases (queued other).mp isQueued with rfl | before
    · exact word
    · exact sorted.word other before
  · change kernel.jiffies < 2 ^ 32
    rw [time]
    exact sorted.time
  · rcases (queued other).mp isQueued with rfl | before
    · exact old
    · exact (sorted.old other before).trans_le serial
  · change (kernel.timers.map Timer.serial).Nodup
    rw [timers]
    apply ((Kernel.Orderly.insertTimer_perm timer _).map Timer.serial).nodup_iff.mpr
    exact List.nodup_cons.mpr ⟨new, sorted.distinct⟩

theorem step (sorted : x.Sorted) {event : TimerEvent} (taken : Step x event after) :
    after.Sorted := by
  cases taken with
  | add ms handler =>
      refine sorted.insert rfl (add32_lt _ _) rfl (Nat.le_succ _) (Nat.lt_succ_self _) ?_
      intro present
      obtain ⟨timer, queued, same⟩ := List.mem_map.mp present
      exact Nat.ne_of_lt (sorted.old timer queued) same
  | update queued isSerial ran =>
      rename_i serial ms timer after
      have isFound : x.kernel.timers.find? (fun other => other.serial = serial) =
          some timer := by
        cases found : x.kernel.timers.find? (fun other => other.serial = serial) with
        | none =>
            have absent := List.find?_eq_none.mp found timer queued
            simp [isSerial] at absent
        | some other =>
            have isOther : other.serial = serial := by
              simpa using List.find?_some found
            exact congrArg some (List.inj_on_of_nodup_map sorted.distinct
              (List.mem_of_find?_eq_some found) queued (isOther.trans isSerial.symm))
      unfold Kernel.timerUpdate at ran
      rw [isFound] at ran
      cases ran
      have shorter : Sorted ⟨{ x.kernel with timers := x.kernel.timers.erase timer },
          x.arrivals.erase timer⟩ := by
        rw [sorted.arrivals_nodup.erase_eq_filter]
        exact sorted.fewer (sorted.nodup.erase_eq_filter timer) rfl sorted.time
      refine shorter.insert rfl (add32_lt _ _) rfl (Nat.le_refl _) (sorted.old timer queued) ?_
      intro present
      obtain ⟨other, isOther, same⟩ := List.mem_map.mp present
      rw [sorted.nodup.mem_erase_iff] at isOther
      exact isOther.1 (List.inj_on_of_nodup_map sorted.distinct isOther.2 queued same)
  | remove pid => exact sorted.fewer rfl rfl sorted.time
  | tick ran =>
      obtain ⟨timers, jiffies, serial⟩ := Kernel.timerWakeupFrom_spec ran
      refine sorted.fewer ?_ serial ?_
      · rw [timers]
        unfold Kernel.fired
        rw [Kernel.firings_eq]
        exact (filter_notMem_takeWhile sorted.nodup).symm
      · rw [jiffies]
        exact add32_lt _ _
  | other timers serial jiffies =>
      refine ⟨?_, ?_, ?_, ?_, ?_⟩
      · rw [timers]
        exact sorted.sort
      · rw [timers]
        exact sorted.word
      · rw [jiffies]
        exact sorted.time
      · rw [timers, serial]
        exact sorted.old
      · rw [timers]
        exact sorted.distinct

theorem of_reachable (reached : runs.Reachable x) : x.Sorted := by
  refine reached.invariant Sorted ?start fun before event after sorted _ taken =>
    sorted.step taken
  rintro x ⟨timers, arrivals, time⟩
  refine ⟨?_, ?_, time, ?_, ?_⟩
  · rw [timers, arrivals]
    exact StableSort.nil
  · rw [timers]
    exact nofun
  · rw [timers]
    exact nofun
  · rw [timers]
    exact List.nodup_nil

/-! ## The next tick -/

/-- When every expiry time has the same sign bit, the list is in the order of the times. -/
theorem sorted_expires (sorted : x.Sorted)
    (agrees : ∀ timer ∈ x.kernel.timers, ∀ other ∈ x.kernel.timers,
      timer.expires < 2 ^ 31 → other.expires < 2 ^ 31) :
    x.kernel.timers.Pairwise fun first second => first.expires ≤ second.expires := by
  refine sorted.sort.sorted.imp_of_mem fun {first second} isFirst isSecond before => ?_
  have firstWord := sorted.word first isFirst
  have secondWord := sorted.word second isSecond
  have firstAgrees := agrees first isFirst second isSecond
  have secondAgrees := agrees second isSecond first isFirst
  unfold Timer.key toSigned at before
  split at before <;> split at before <;> omega

/-- What the tick has to do, when no timer that is due stands behind one that is not. -/
theorem punctual_of_closed (sorted : x.Sorted) (early : x.kernel.tick.jiffies < eof)
    (closed : x.kernel.timers.Pairwise fun first second =>
      x.kernel.tick.due second → x.kernel.tick.due first)
    (ordered : (x.kernel.timers.filter x.kernel.tick.due).Pairwise
      fun first second => first.expires ≤ second.expires) : x.Punctual := by
  obtain ⟨taken, dropped⟩ := takeWhile_eq_filter closed
  obtain ⟨after, ran⟩ :=
    (Kernel.timerWakeupFrom_returns (s := x.kernel.tick) x.kernel.timers).mpr (.inr early)
  refine ⟨after, ran, ?_, ?_⟩
  · unfold Kernel.fired
    rw [Kernel.firings_eq]
    change StableSort _ _ (x.kernel.timers.takeWhile _)
    rw [taken]
    refine (sorted.sort.filter _).rekey (fun first second same => ?_) ordered
    exact congrArg toSigned same
  · rw [(Kernel.timerWakeupFrom_spec ran).1]
    exact dropped

theorem punctual (sorted : x.Sorted) (agrees : x.SignAgrees) : x.Punctual := by
  obtain ⟨notEof, alike⟩ := agrees
  have time : x.kernel.tick.jiffies < 2 ^ 32 := add32_lt _ _
  have early : x.kernel.tick.jiffies < eof := by
    unfold eof at notEof ⊢
    omega
  by_cases mixed : ∃ timer ∈ x.kernel.timers, timer.expires < 2 ^ 31 ∧
      ∃ other ∈ x.kernel.timers, ¬other.expires < 2 ^ 31
  · -- Nothing is due: the time is below that of a timer without the sign bit.
    obtain ⟨timer, queued, small, other, isOther, large⟩ := mixed
    have none : ∀ one ∈ x.kernel.timers, ¬x.kernel.tick.due one := by
      intro one isOne isDue
      by_cases smallOne : one.expires < 2 ^ 31
      · exact large (alike one isOne isDue smallOne other isOther)
      · refine large (alike timer queued ?_ small other isOther)
        simp only [Kernel.due, decide_eq_true_eq] at isDue ⊢
        omega
    have nothing := List.filter_eq_nil_iff.mpr none
    refine sorted.punctual_of_closed early ?_ ?_
    · exact List.pairwise_of_forall_mem_list fun first _ second isSecond isDue =>
        absurd isDue (none second isSecond)
    · rw [nothing]
      exact List.Pairwise.nil
  · have ordered := sorted.sorted_expires fun timer queued other isOther small => by
      by_contra large
      exact mixed ⟨timer, queued, small, other, isOther, large⟩
    refine sorted.punctual_of_closed early (ordered.imp fun before isDue => ?_)
      (ordered.filter _)
    simp only [Kernel.due, decide_eq_true_eq] at isDue ⊢
    omega

theorem signAgrees (sorted : x.Sorted) (punctual : x.Punctual) : x.SignAgrees := by
  obtain ⟨after, ran, order, _⟩ := punctual
  have fired : x.kernel.tick.fired = x.kernel.timers.takeWhile x.kernel.tick.due :=
    Kernel.firings_eq _ _
  have parts := List.takeWhile_append_dropWhile (p := x.kernel.tick.due)
    (l := x.kernel.timers)
  refine ⟨fun isEof => ?_, fun timer queued isDue small other isOther => ?_⟩
  · rcases (Kernel.timerWakeupFrom_returns _).mp ⟨after, ran⟩ with stops | early
    · apply stops
      apply List.dropWhile_eq_nil_iff.mpr
      intro timer queued
      have word := sorted.word timer queued
      simp only [Kernel.due, isEof, decide_eq_true_eq, eof]
      omega
    · exact Nat.ne_of_lt early isEof
  · by_contra large
    -- The timer fires, and the other one stands in front of it.
    have isFired : timer ∈ x.kernel.tick.fired :=
      (order.mem_iff timer).mpr
        (List.mem_filter.mpr ⟨(sorted.sort.mem_iff timer).mp queued, isDue⟩)
    have before : other.key < timer.key := by
      have word := sorted.word other isOther
      unfold Timer.key toSigned
      split <;> split <;> omega
    have byKey := sorted.sort.sorted
    rw [← parts] at byKey isOther
    rw [← fired] at byKey isOther
    obtain ⟨keys, _, across⟩ := List.pairwise_append.mp byKey
    rcases List.mem_append.mp isOther with firesToo | stays
    · have inOrder := le_of_pairwise keys order.sorted firesToo isFired before
      omega
    · have inOrder := across timer isFired other stays
      omega

end Sorted

/-- The next tick of a run is punctual exactly when no sign bit is in the way. -/
theorem punctual_iff_signAgrees (reached : runs.Reachable x) :
    x.Punctual ↔ x.SignAgrees :=
  ⟨(Sorted.of_reachable reached).signAgrees, (Sorted.of_reachable reached).punctual⟩

/-- Two ticks before the sign bit of the time is set, with one timer that is due at the
next tick and one that is due a tick later. -/
def beforeSign : Timeline :=
  let early : Kernel := { Kernel.boot with jiffies := 2 ^ 31 - 2 }
  ⟨(early.timerAdd 10 .taskWakeup).timerAdd 20 .taskWakeup,
    [⟨0, 0, 2 ^ 31 - 1, .taskWakeup⟩, ⟨1, 0, 2 ^ 31, .taskWakeup⟩]⟩

theorem beforeSign_reachable : runs.Reachable beforeSign := by
  have start : runs.Reachable ⟨{ Kernel.boot with jiffies := 2 ^ 31 - 2 }, []⟩ :=
    .initial ⟨rfl, rfl, by decide⟩
  have first := start.step trivial (Step.add 10 .taskWakeup)
  exact first.step trivial (Step.add 20 .taskWakeup)

theorem punctual_fails : runs.Reachable beforeSign ∧ ¬beforeSign.Punctual := by
  refine ⟨beforeSign_reachable, fun punctual => ?_⟩
  have agrees := (Sorted.of_reachable beforeSign_reachable).signAgrees punctual
  have small := agrees.2 ⟨0, 0, 2 ^ 31 - 1, .taskWakeup⟩ (by decide) (by decide)
    (by decide) ⟨1, 0, 2 ^ 31, .taskWakeup⟩ (by decide)
  exact absurd small (by decide)

theorem punctual_iff_signAgrees_beforeSign :
    beforeSign.Punctual ↔ beforeSign.SignAgrees :=
  punctual_iff_signAgrees beforeSign_reachable

end Timeline
end Sched
end LightOS
