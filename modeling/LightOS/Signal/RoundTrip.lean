import LightOS.Signal.State

/-!
# Delivery of a signal and back

A handler returns into `restorer.asm`, which gives the saved bitmap of blocked signals to
`ssetmask` and takes the saved registers from the frame that `task_signal` has built.
For a handler without `SIG_NOMASK` the saved bitmap is `EOF`, which `sys_ssetmask`
refuses, so that the bitmap stays as the handler leaves it.
-/

namespace LightOS
namespace SignalTask

open Signal

/-- What a handler has done by the time that it returns. -/
structure HandlerRun where
  eax : BitVec 32
  ecx : BitVec 32
  edx : BitVec 32
  eflags : BitVec 32
  memory : Memory
  /-- The bitmaps that it has given to `ssetmask`, one after the other. -/
  newmasks : List (BitVec 32)
  /-- The signals that have been sent to the task in the meantime. -/
  arrived : BitVec 32
  /-- The actions, which it may have changed. -/
  actions : Nat → Sigaction

/-- The handler has left its return address and the saved words as they were.  The
word in between is its argument. -/
def HandlerRun.Intact (run : HandlerRun) (task : SignalTask) : Prop :=
  ∀ offset ∈ [0#32, 8#32, 12#32, 16#32, 20#32, 24#32, 28#32],
    read run.memory (task.frame.esp + offset) = read task.memory (task.frame.esp + offset)

/-- A handler makes its calls of `ssetmask`. -/
def setMasks (task : SignalTask) (newmasks : List (BitVec 32)) : SignalTask :=
  newmasks.foldl (fun task newmask => (task.sysSsetmask newmask).2) task

/-- A handler runs and returns. -/
def handlerReturns (task : SignalTask) (run : HandlerRun) : SignalTask :=
  { task.setMasks run.newmasks with
    signal := task.signal ||| run.arrived
    actions := run.actions
    memory := run.memory
    frame := {
      eax := run.eax
      ecx := run.ecx
      edx := run.edx
      eflags := run.eflags
      eip := read run.memory task.frame.esp
      esp := task.frame.esp + 4#32 } }

/-- `add esp`. -/
def addEsp (task : SignalTask) (size : BitVec 32) : SignalTask :=
  { task with frame := { task.frame with esp := task.frame.esp + size } }

/-- `push`. -/
def push (task : SignalTask) (value : BitVec 32) : SignalTask :=
  { task with
    memory := write task.memory (task.frame.esp - 4#32) value
    frame := { task.frame with esp := task.frame.esp - 4#32 } }

/-- `pop`: the word and the task. -/
def pop (task : SignalTask) : BitVec 32 × SignalTask :=
  (read task.memory task.frame.esp, task.addEsp 4#32)

/-- `call ssetmask`, which takes its argument from the stack.  The call is eight bytes
into `restorer`. -/
def callSsetmask (task : SignalTask) : SignalTask :=
  let task := task.push (task.frame.eip + 8#32)
  let (eax, task) := task.sysSsetmask (read task.memory (task.frame.esp + 4#32))
  let (eip, task) := task.pop
  { task with frame := { task.frame with eax := eax, eip := eip } }

/-- `restorer`.  The bits of `eflags` that `popf` leaves alone are those that a user
program cannot change. -/
def restorer (task : SignalTask) : SignalTask :=
  let task := task.addEsp 4#32
  let task := task.callSsetmask
  let task := task.addEsp 4#32
  let (eax, task) := task.pop
  let (ecx, task) := task.pop
  let (edx, task) := task.pop
  let (eflags, task) := task.pop
  let (eip, task) := task.pop
  { task with frame := ⟨eax, ecx, edx, eflags, eip, task.frame.esp⟩ }

/-- A task is as it was before a signal was delivered, apart from the signal itself
and those that have arrived since. -/
structure Restored (before : SignalTask) (sig : Nat) (arrived : BitVec 32)
    (after : SignalTask) : Prop where
  frame : after.frame = before.frame
  blocked : after.blocked = before.blocked
  signal : after.signal = (before.signal &&& ~~~sigmask sig) ||| arrived

/-- With `SIG_NOMASK` the saved bitmap comes back as it was unless it blocks `SIGKILL`;
without, the handler itself has to restore the bitmap that delivery has extended. -/
def RestoresMask (task : SignalTask) (sig : Nat) (run : HandlerRun) : Prop :=
  if (task.actions (sig - 1)).flags &&& sigNomask ≠ 0 then
    task.blocked &&& sigmask sigkill = 0
  else
    ({ task with blocked := task.blocked ||| (task.actions (sig - 1)).mask }.setMasks
      run.newmasks).blocked = task.blocked

instance (task : SignalTask) (sig : Nat) (run : HandlerRun) :
    Decidable (task.RestoresMask sig run) := by
  unfold RestoresMask
  infer_instance

variable {task diverted : SignalTask}

/-! ## Words of the user program -/

@[simp] theorem read_write_same (memory : Memory) (address value : BitVec 32) :
    read (write memory address value) address = value := by
  unfold read write
  rw [Memory.word_setWord, Nat.mod_eq_of_lt value.isLt, BitVec.ofNat_toNat, BitVec.setWidth_eq]

theorem read_write_other (memory : Memory) {address other : BitVec 32} (value : BitVec 32)
    (apart : other.toNat + 4 ≤ address.toNat ∨ address.toNat + 4 ≤ other.toNat) :
    read (write memory address value) other = read memory other := by
  unfold read write
  rw [Memory.word_setWord_other _ apart]

/-! ## The frame -/

/-- The words of the frame on the stack of the user program. -/
theorem divert_frame (task : SignalTask) (sig : Nat) :
    (task.divert sig).frame.esp = task.frame.esp - 32#32 ∧
    read (task.divert sig).memory (task.divert sig).frame.esp =
      (task.actions (sig - 1)).restorer ∧
    read (task.divert sig).memory ((task.divert sig).frame.esp + 8#32) =
      (if (task.actions (sig - 1)).flags &&& sigNomask ≠ 0 then task.blocked else Signal.eof) ∧
    read (task.divert sig).memory ((task.divert sig).frame.esp + 12#32) = task.frame.eax ∧
    read (task.divert sig).memory ((task.divert sig).frame.esp + 16#32) = task.frame.ecx ∧
    read (task.divert sig).memory ((task.divert sig).frame.esp + 20#32) = task.frame.edx ∧
    read (task.divert sig).memory ((task.divert sig).frame.esp + 24#32) = task.frame.eflags ∧
    read (task.divert sig).memory ((task.divert sig).frame.esp + 28#32) = task.frame.eip := by
  unfold divert
  dsimp only
  generalize task.frame.esp - 32#32 = base
  refine ⟨rfl, ?_, ?_, ?_, ?_, ?_, ?_, ?_⟩ <;>
    simp (disch := bv_omega) only [read_write_same, read_write_other]

/-! ## The way back -/

@[simp] theorem sysSsetmask_frame (task : SignalTask) (newmask : BitVec 32) :
    (task.sysSsetmask newmask).2.frame = task.frame := by
  unfold sysSsetmask
  split <;> rfl

@[simp] theorem sysSsetmask_memory (task : SignalTask) (newmask : BitVec 32) :
    (task.sysSsetmask newmask).2.memory = task.memory := by
  unfold sysSsetmask
  split <;> rfl

@[simp] theorem sysSsetmask_signal (task : SignalTask) (newmask : BitVec 32) :
    (task.sysSsetmask newmask).2.signal = task.signal := by
  unfold sysSsetmask
  split <;> rfl

theorem sysSsetmask_blocked (task : SignalTask) (newmask : BitVec 32) :
    (task.sysSsetmask newmask).2.blocked =
      if newmask = Signal.eof then task.blocked else newmask &&& ~~~sigmask sigkill := by
  unfold sysSsetmask
  split <;> rfl

/-- The calls of `ssetmask` depend on the bitmap only. -/
theorem setMasks_blocked {other : SignalTask} (same : other.blocked = task.blocked)
    (newmasks : List (BitVec 32)) :
    (other.setMasks newmasks).blocked = (task.setMasks newmasks).blocked := by
  induction newmasks generalizing task other with
  | nil => exact same
  | cons newmask newmasks inductionHypothesis =>
      apply inductionHypothesis
      rw [sysSsetmask_blocked, sysSsetmask_blocked, same]

/-- What the restorer makes of the stack. -/
theorem restorer_spec (task : SignalTask) :
    task.restorer.frame =
      ⟨read task.memory (task.frame.esp + 8#32), read task.memory (task.frame.esp + 12#32),
        read task.memory (task.frame.esp + 16#32), read task.memory (task.frame.esp + 20#32),
        read task.memory (task.frame.esp + 24#32), task.frame.esp + 28#32⟩ ∧
    task.restorer.blocked =
      (task.sysSsetmask (read task.memory (task.frame.esp + 4#32))).2.blocked ∧
    task.restorer.signal = task.signal := by
  unfold restorer callSsetmask
  simp only [pop, addEsp, push, sysSsetmask_frame, sysSsetmask_memory, sysSsetmask_signal,
    BitVec.add_sub_cancel, BitVec.add_assoc, BitVec.reduceAdd]
  generalize task.frame.esp = base
  simp (disch := bv_omega) only [read_write_other, sysSsetmask_blocked, and_self]

/-- A bitmap loses nothing with a bit that it does not have. -/
theorem and_not_eq_self (mask bit : BitVec 32) :
    mask &&& ~~~bit = mask ↔ mask &&& bit = 0 := by
  constructor
  · intro same
    rw [← same, BitVec.and_assoc, BitVec.and_comm (~~~bit), BitVec.and_not_self]
    exact BitVec.and_zero
  · intro none
    apply BitVec.eq_of_getLsbD_eq
    intro index inside
    have noBit : (mask &&& bit).getLsbD index = false := by
      rw [none]
      exact BitVec.getLsbD_zero
    rw [BitVec.getLsbD_and] at noBit
    rw [BitVec.getLsbD_and, BitVec.getLsbD_not, decide_eq_true inside]
    cases isSet : mask.getLsbD index with
    | false => rfl
    | true =>
        rw [isSet, Bool.true_and] at noBit
        rw [noBit]
        rfl

/-- When every signal is blocked, none is delivered. -/
theorem blocked_ne_eof {sig : Nat} (isFirst : firstSignal task.deliverable = some sig) :
    task.blocked ≠ Signal.eof := by
  intro all
  obtain ⟨_, _, isSet⟩ := firstSignal_spec isFirst
  apply isSet
  simp [deliverable, all]

/-- The bitmap of blocked signals at the end of the round trip. -/
theorem restored_blocked {sig : Nat} {run : HandlerRun} {left after : SignalTask}
    (isFirst : firstSignal task.deliverable = some sig)
    (isLeft : left.blocked =
      ({ task with blocked := task.blocked ||| (task.actions (sig - 1)).mask }.setMasks
        run.newmasks).blocked)
    (isAfter : after.blocked =
      (left.sysSsetmask
        (if (task.actions (sig - 1)).flags &&& sigNomask ≠ 0 then task.blocked
          else Signal.eof)).2.blocked) :
    after.blocked = task.blocked ↔ task.RestoresMask sig run := by
  rw [isAfter, sysSsetmask_blocked]
  unfold RestoresMask
  split
  · rw [if_neg (blocked_ne_eof isFirst), and_not_eq_self]
  · rw [if_pos rfl, isLeft]

/-- The registers and the pending signals come back, and the bitmap of blocked signals
does under a condition on it and the handler. -/
theorem roundTrip_spec {sig : Nat} {run : HandlerRun}
    (delivered : task.taskSignal = .ok (.diverts sig diverted)) (intact : run.Intact diverted) :
    (diverted.handlerReturns run).frame.eip = (task.actions (sig - 1)).restorer ∧
      (diverted.handlerReturns run).restorer.frame = task.frame ∧
      (diverted.handlerReturns run).restorer.signal =
        (task.signal &&& ~~~sigmask sig) ||| run.arrived ∧
      ((diverted.handlerReturns run).restorer.blocked = task.blocked ↔
        task.RestoresMask sig run) := by
  obtain ⟨isFirst, _, _, rfl⟩ := taskSignal_diverts delivered
  obtain ⟨esp, isRestorer, isBlocked, eax, ecx, edx, eflags, eip⟩ :=
    divert_frame (task.clearSignal sig) sig
  have saved (offset : BitVec 32)
      (present : offset ∈ [0#32, 8#32, 12#32, 16#32, 20#32, 24#32, 28#32]) :=
    intact offset present
  have leftEsp : (((task.clearSignal sig).divert sig).handlerReturns run).frame.esp =
      ((task.clearSignal sig).divert sig).frame.esp + 4#32 := rfl
  have leftMemory : (((task.clearSignal sig).divert sig).handlerReturns run).memory =
      run.memory := rfl
  have leftBlocked : (((task.clearSignal sig).divert sig).handlerReturns run).blocked =
      ({ task with blocked := task.blocked ||| (task.actions (sig - 1)).mask }.setMasks
        run.newmasks).blocked := by
    apply setMasks_blocked
    rfl
  obtain ⟨frame, blocked, signal⟩ :=
    restorer_spec (((task.clearSignal sig).divert sig).handlerReturns run)
  rw [leftEsp, leftMemory] at frame blocked
  simp only [BitVec.add_assoc, BitVec.reduceAdd] at frame blocked
  rw [saved _ (by simp), eax, saved _ (by simp), ecx, saved _ (by simp), edx,
    saved _ (by simp), eflags, saved _ (by simp), eip, esp, BitVec.sub_add_cancel] at frame
  rw [saved _ (by simp), isBlocked] at blocked
  have address := saved 0#32 (by simp)
  rw [BitVec.add_zero] at address
  exact ⟨address.trans isRestorer, frame, signal,
    restored_blocked isFirst leftBlocked blocked⟩

/-- A signal is delivered, its handler runs and returns into the restorer: the task is
then as it was exactly when the bitmap of blocked signals is restored. -/
theorem restored_iff {sig : Nat} {run : HandlerRun}
    (delivered : task.taskSignal = .ok (.diverts sig diverted)) (intact : run.Intact diverted) :
    (diverted.handlerReturns run).frame.eip = (task.actions (sig - 1)).restorer ∧
      (task.Restored sig run.arrived (diverted.handlerReturns run).restorer ↔
        task.RestoresMask sig run) := by
  obtain ⟨address, frame, signal, blocked⟩ := roundTrip_spec delivered intact
  exact ⟨address, fun restored => blocked.mp restored.blocked,
    fun restores => ⟨frame, blocked.mpr restores, signal⟩⟩

/-- A user program with `SIGUSR1` pending. -/
def interrupted : SignalTask where
  uid := 1000
  ppid := 1
  sid := 2
  dead := false
  signal := sigmask 10
  blocked := 0
  actions := fun _ => ⟨sigDfl, 0, 0, 0⟩
  frame := ⟨1#32, 2#32, 3#32, 0x202#32, 0x8048000#32, 0xBFFFF000#32⟩
  memory := ⟨fun _ => 0⟩

/-- A handler that does nothing. -/
def idleHandler (task : SignalTask) : HandlerRun where
  eax := task.frame.eax
  ecx := task.frame.ecx
  edx := task.frame.edx
  eflags := task.frame.eflags
  memory := task.memory
  newmasks := []
  arrived := 0
  actions := task.actions

theorem idleHandler_intact (task : SignalTask) : (idleHandler task).Intact task :=
  fun _ _ => rfl

theorem restored_iff_signal :
    ∃ diverted,
      (interrupted.sysSignal 10 0x8049000#32 0x804A000#32).2.taskSignal =
        .ok (.diverts 10 diverted) ∧
      ((interrupted.sysSignal 10 0x8049000#32 0x804A000#32).2.Restored 10 0
          (diverted.handlerReturns (idleHandler diverted)).restorer ↔
        (interrupted.sysSignal 10 0x8049000#32 0x804A000#32).2.RestoresMask 10
          (idleHandler diverted)) := by
  have delivered := @taskSignal_handler
    (interrupted.sysSignal 10 0x8049000#32 0x804A000#32).2 10
    (by decide) (by decide) (by decide) (by decide) (by decide)
  exact ⟨_, delivered, (restored_iff delivered (idleHandler_intact _)).2⟩

/-- A handler that `sys_sigaction` has registered without flags returns with its signal
still blocked. -/
theorem restored_fails :
    ¬∀ (task : SignalTask) (sig : Nat) (action : Sigaction) (diverted : SignalTask)
      (run : HandlerRun),
      (task.sysSigaction sig action).2.2.taskSignal = .ok (.diverts sig diverted) →
        run.Intact diverted →
        (task.sysSigaction sig action).2.2.Restored sig run.arrived
          (diverted.handlerReturns run).restorer := by
  intro always
  have delivered := @taskSignal_handler
    (interrupted.sysSigaction 10 ⟨0x8049000#32, 0, 0, 0x804A000#32⟩).2.2 10
    (by decide) (by decide) (by decide) (by decide) (by decide)
  have restored := always interrupted 10 ⟨0x8049000#32, 0, 0, 0x804A000#32⟩ _
    _ delivered (idleHandler_intact _)
  have restores := (roundTrip_spec delivered (idleHandler_intact _)).2.2.2.mp
    restored.blocked
  exact absurd restores (by decide)

end SignalTask
end LightOS
