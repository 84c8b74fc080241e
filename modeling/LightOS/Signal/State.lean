import LightOS.Foundation.Memory
import LightOS.Kernel.Fault
import Mathlib.Logic.Function.Basic

/-!
# Signals

The calls of `signal.c` on one task, and `task_signal`, which runs when a task goes
back from the kernel to its user program.  It either lets the program go on, ends the
task, or builds a frame on the stack of the user program and diverts it to a handler.
-/

namespace LightOS

/-- The structure `sigaction_t`. -/
structure Sigaction where
  handler : BitVec 32
  mask : BitVec 32
  flags : BitVec 32
  restorer : BitVec 32
  deriving DecidableEq

/-- The registers of a user program in an interrupt frame, as far as `task_signal`
reads them. -/
structure Registers where
  eax : BitVec 32
  ecx : BitVec 32
  edx : BitVec 32
  eflags : BitVec 32
  eip : BitVec 32
  esp : BitVec 32
  deriving DecidableEq

/-- The structure `task_t`, as far as signals are concerned. -/
structure SignalTask where
  uid : Nat
  ppid : Nat
  sid : Nat
  /-- The task has the state `TASK_DEAD`. -/
  dead : Bool
  /-- The bitmap of pending signals. -/
  signal : BitVec 32
  /-- The bitmap of blocked signals. -/
  blocked : BitVec 32
  actions : Nat → Sigaction
  /-- The interrupt frame at the top of the kernel stack. -/
  frame : Registers
  /-- The memory of the user program. -/
  memory : Memory

namespace Signal

/-- `MINSIG`. -/
abbrev minsig : Nat := 1

/-- `MAXSIG`. -/
abbrev maxsig : Nat := 31

/-- `SIGHUP`. -/
abbrev sighup : Nat := 1

/-- `SIGKILL`. -/
abbrev sigkill : Nat := 9

/-- `SIGCHLD`. -/
abbrev sigchld : Nat := 17

/-- `SIGMASK`. -/
def sigmask (sig : Nat) : BitVec 32 :=
  1#32 <<< (sig - 1)

/-- `SIG_NOMASK`. -/
abbrev sigNomask : BitVec 32 := 0x40000000#32

/-- `SIG_ONESHOT`. -/
abbrev sigOneshot : BitVec 32 := 0x80000000#32

/-- `SIG_DFL`. -/
abbrev sigDfl : BitVec 32 := 0#32

/-- `SIG_IGN`. -/
abbrev sigIgn : BitVec 32 := 1#32

/-- `EOF`. -/
abbrev eof : BitVec 32 := BitVec.allOnes 32

/-- `-EPERM`. -/
abbrev noPermission : BitVec 32 := -1#32

/-- The bit of a signal in a bitmap. -/
theorem getLsbD_sigmask {sig : Nat} (inRange : sig - 1 < 32) (bit : Nat) :
    (sigmask sig).getLsbD bit = decide (sig - 1 = bit) := by
  have isTwoPow : sigmask sig = BitVec.twoPow 32 (sig - 1) := rfl
  rw [isTwoPow, BitVec.getLsbD_twoPow]
  simp [inRange]

/-- A bitmap has no bit in common with the bit of a signal. -/
theorem and_sigmask_eq_zero {sig : Nat} (inRange : sig - 1 < 32) (mask : BitVec 32) :
    mask &&& sigmask sig = 0#32 ↔ mask.getLsbD (sig - 1) = false := by
  constructor
  · intro none
    have bit := congrArg (fun word => word.getLsbD (sig - 1)) none
    simpa [getLsbD_sigmask inRange] using bit
  · intro clear
    apply BitVec.eq_of_getLsbD_eq
    intro bit _
    rw [BitVec.getLsbD_and, getLsbD_sigmask inRange]
    by_cases same : sig - 1 = bit
    · rw [← same, clear]
      simp
    · simp [same]

end Signal

namespace SignalTask

open Signal

/-- `sys_sgetmask`. -/
def sysSgetmask (task : SignalTask) : BitVec 32 :=
  task.blocked

/-- `sys_ssetmask`: the result and the task. -/
def sysSsetmask (task : SignalTask) (newmask : BitVec 32) : BitVec 32 × SignalTask :=
  if newmask = Signal.eof then
    (noPermission, task)
  else
    (task.blocked, { task with blocked := newmask &&& ~~~sigmask sigkill })

/-- Replace the action for a signal. -/
def setAction (task : SignalTask) (sig : Nat) (action : Sigaction) : SignalTask :=
  { task with actions := Function.update task.actions (sig - 1) action }

/-- A signal that has no action of its own to register. -/
def Refuses (sig : Int) : Prop :=
  sig < minsig ∨ maxsig < sig ∨ sig = sigkill

instance (sig : Int) : Decidable (Refuses sig) := by
  unfold Refuses
  infer_instance

/-- `sys_signal`. -/
def sysSignal (task : SignalTask) (sig : Int) (handler restorer : BitVec 32) :
    BitVec 32 × SignalTask :=
  if Refuses sig then
    (Signal.eof, task)
  else
    (handler, task.setAction sig.toNat {
      handler := handler
      mask := 0
      flags := sigOneshot ||| sigNomask
      restorer := restorer })

/-- `sys_sigaction`: the result, the old action, and the task. -/
def sysSigaction (task : SignalTask) (sig : Int) (action : Sigaction) :
    BitVec 32 × Option Sigaction × SignalTask :=
  if Refuses sig then
    (Signal.eof, none, task)
  else
    (0, some (task.actions (sig.toNat - 1)), task.setAction sig.toNat
      { action with
        mask :=
          if action.flags &&& sigNomask ≠ 0 then 0
          else action.mask ||| sigmask sig.toNat })

/-- Read a word of the user program. -/
def read (memory : Memory) (address : BitVec 32) : BitVec 32 :=
  BitVec.ofNat 32 (memory.word address.toNat)

/-- Write a word of the user program. -/
def write (memory : Memory) (address value : BitVec 32) : Memory :=
  memory.setWord address.toNat value.toNat

/-- Build the structure `signal_frame_t` on the stack of the user program and divert it
to the handler of a signal. -/
def divert (task : SignalTask) (sig : Nat) : SignalTask :=
  let action := task.actions (sig - 1)
  let sigFrame := task.frame.esp - 32#32
  let memory := write task.memory (sigFrame + 28#32) task.frame.eip
  let memory := write memory (sigFrame + 24#32) task.frame.eflags
  let memory := write memory (sigFrame + 20#32) task.frame.edx
  let memory := write memory (sigFrame + 16#32) task.frame.ecx
  let memory := write memory (sigFrame + 12#32) task.frame.eax
  let memory := write memory (sigFrame + 8#32)
    (if action.flags &&& sigNomask ≠ 0 then task.blocked else Signal.eof)
  let memory := write memory (sigFrame + 4#32) (BitVec.ofNat 32 sig)
  let memory := write memory sigFrame action.restorer
  { task with
    memory := memory
    frame := { task.frame with esp := sigFrame, eip := action.handler }
    actions :=
      if action.flags &&& sigOneshot ≠ 0 then
        Function.update task.actions (sig - 1) { action with handler := sigDfl }
      else
        task.actions
    blocked := task.blocked ||| action.mask }

/-- What `task_signal` does with a task. -/
inductive Delivery
  /-- The user program goes on. -/
  | resumes (task : SignalTask)
  /-- `sys_exit` is called. -/
  | exits (task : SignalTask) (status : BitVec 32)
  /-- The user program goes on in the handler of a signal. -/
  | diverts (sig : Nat) (task : SignalTask)

/-- The signals that are pending and not blocked. -/
def deliverable (task : SignalTask) : BitVec 32 :=
  task.signal &&& ~~~task.blocked

/-- The loop of `task_signal`: the first signal of a bitmap. -/
def firstSignal (map : BitVec 32) : Option Nat :=
  (List.range' minsig maxsig).find? fun sig => map &&& sigmask sig ≠ 0

/-- A signal is no longer pending. -/
def clearSignal (task : SignalTask) (sig : Nat) : SignalTask :=
  { task with signal := task.signal &&& ~~~sigmask sig }

/-- `task_signal`.  The array of actions has no entry for a signal after the last. -/
def taskSignal (task : SignalTask) : Except Fault Delivery :=
  if task.deliverable = 0 then
    .ok (.resumes task)
  else if task.uid = 0 then
    .error .assertion
  else
    match firstSignal task.deliverable with
    | none => .error .wild
    | some sig =>
        let task := task.clearSignal sig
        let handler := (task.actions (sig - 1)).handler
        if handler = sigIgn then
          .ok (.resumes task)
        else if handler = sigDfl ∧ sig = sigchld then
          .ok (.resumes task)
        else if handler = sigDfl then
          .ok (.exits task (sigmask sig))
        else
          .ok (.diverts sig (task.divert sig))

variable {task : SignalTask}

/-- The signal of the loop is in range, and its bit is set. -/
theorem firstSignal_spec {map : BitVec 32} {sig : Nat} (first : firstSignal map = some sig) :
    minsig ≤ sig ∧ sig ≤ maxsig ∧ map &&& sigmask sig ≠ 0 := by
  have inRange := List.mem_range'_1.mp (List.mem_of_find?_eq_some first)
  have isSet := List.find?_some first
  have below : sig < 1 + 31 := inRange.2
  exact ⟨inRange.1, Nat.le_of_lt_succ (by omega), by simpa using isSet⟩

/-- A signal with a handler of its own diverts the task. -/
theorem taskSignal_handler {sig : Nat} (pending : task.deliverable ≠ 0)
    (isUser : task.uid ≠ 0) (isFirst : firstSignal task.deliverable = some sig)
    (notIgnored : (task.actions (sig - 1)).handler ≠ sigIgn)
    (notDefault : (task.actions (sig - 1)).handler ≠ sigDfl) :
    task.taskSignal = .ok (.diverts sig ((task.clearSignal sig).divert sig)) := by
  have ignored : ((task.clearSignal sig).actions (sig - 1)).handler ≠ sigIgn := notIgnored
  have isDefault : ((task.clearSignal sig).actions (sig - 1)).handler ≠ sigDfl := notDefault
  simp only [taskSignal, if_neg pending, if_neg isUser, isFirst, if_neg ignored,
    isDefault, false_and, if_false]

/-- When `task_signal` diverts a task to a handler. -/
theorem taskSignal_diverts {sig : Nat} {diverted : SignalTask}
    (delivered : task.taskSignal = .ok (.diverts sig diverted)) :
    firstSignal task.deliverable = some sig ∧
      (task.actions (sig - 1)).handler ≠ sigIgn ∧
      (task.actions (sig - 1)).handler ≠ sigDfl ∧
      diverted = (task.clearSignal sig).divert sig := by
  unfold taskSignal at delivered
  split at delivered
  · cases delivered
  · split at delivered
    · cases delivered
    · split at delivered
      · cases delivered
      · rename_i first isFirst
        dsimp only at delivered
        split at delivered
        · cases delivered
        · rename_i notIgnored
          split at delivered
          · cases delivered
          · split at delivered
            · cases delivered
            · rename_i notDefault
              cases delivered
              exact ⟨isFirst, notIgnored, notDefault, rfl⟩

end SignalTask

end LightOS
