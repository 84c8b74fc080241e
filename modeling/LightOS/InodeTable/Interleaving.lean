import LightOS.Cache.Reading
import LightOS.Fs.Inodes

/-!
# Interleaved use of the inode table

Any number of tasks call `iget` and `iput`, and use the buffer cache for
themselves in between.  `iget` gives up the processor inside its call of `bread`
and `iput` inside its calls of `bwrite` and `brelse`; the rest of their code runs
without interruption.  A buffer that an inode keeps in its field `cache` is held
by the inode's entry of the table, which takes part in the cache like a task that
never runs.
-/

namespace LightOS
namespace InodeTable

/-- A place in `inode_table`. -/
abbrev Slot := Fin inodeNr

/-- The structure `inode_t`.  The field `cache` names a buffer, and `desc` a
buffer with the index of a descriptor in it. -/
structure Entry where
  dev : Nat
  nr : Nat
  count : Nat
  mount : Nat
  pipe : Bool
  cache : Option Nat
  desc : Option (Nat × Nat)
  deriving DecidableEq

/-- What `inode.c` uses of the structure `super_block_t`. -/
structure Super where
  desc : SuperDesc
  iroot : Option Slot
  inodeList : List Slot

/-- An inode that a task got from `iget`, with the arguments of the call. -/
structure Ref where
  slot : Slot
  dev : Nat
  nr : Nat
  deriving DecidableEq

/-- Where a task stands with respect to `inode.c`.  An `iput` that `fit_inode`
calls carries the device mounted there. -/
inductive Point
  | outside
  /-- In the call of `bread` in `iget`. -/
  | loading (ref : Ref)
  /-- In the call of `bwrite` in `iput`. -/
  | writing (ref : Ref) (fitting : Option Nat)
  /-- In the call of `brelse` in `iput`. -/
  | releasing (ref : Ref) (fitting : Option Nat)
  deriving DecidableEq

/-- The inode table together with the cache and the tasks.  `refs` lists the
references of each task, one entry for each `iget` that returned. -/
structure State (taskCount : Nat) where
  cache : Cache.State (taskCount + inodeNr)
  entry : Slot → Entry
  /-- What `get_super` finds for a device. -/
  super : Nat → Option Super
  point : Fin taskCount → Point
  refs : Fin taskCount → List Ref

/-- Steps of a task. -/
inductive Label (taskCount : Nat)
  | iget (task : Fin taskCount) (dev nr : Nat)
  | iput (task : Fin taskCount) (ref : Ref)
  /-- A step of the task inside the cache, or a call that it makes there on its
  own account. -/
  | cache (task : Fin taskCount) (label : Cache.Label (taskCount + inodeNr))

/-- `inode_block`. -/
def inodeBlock (desc : SuperDesc) (nr : Nat) : Cache.BlockNo :=
  Fin.ofNat _ (Fs.inodeBlock desc nr)

/-- Index in its block of the descriptor of an inode. -/
def descIndex (nr : Nat) : Nat :=
  sub32 nr 1 % blockInodes

/-- A task as a user of the cache. -/
def self {taskCount : Nat} (task : Fin taskCount) : Fin (taskCount + inodeNr) :=
  Fin.castAdd inodeNr task

/-- An entry of the table as a user of the cache. -/
def keeper {taskCount : Nat} (slot : Slot) : Fin (taskCount + inodeNr) :=
  Fin.natAdd taskCount slot

/-- A reference to a buffer passes from one user of the cache to another. -/
def passBuffer {users : Nat} (state : Cache.State users) (giver taker : Fin users)
    (id : Nat) : Cache.State users :=
  let held := Function.update state.held giver ((state.held giver).erase id)
  { state with held := Function.update held taker (id :: held taker) }

namespace State

variable {taskCount : Nat}

/-- Replace the cache. -/
def setCache (state : State taskCount) (cache : Cache.State (taskCount + inodeNr)) :
    State taskCount :=
  { state with cache := cache }

/-- Change an entry of the table. -/
def modifyEntry (state : State taskCount) (slot : Slot) (change : Entry → Entry) :
    State taskCount :=
  { state with
    entry := Function.update state.entry slot (change (state.entry slot)) }

/-- Set the position of one task. -/
def setPoint (state : State taskCount) (task : Fin taskCount) (point : Point) :
    State taskCount :=
  { state with point := Function.update state.point task point }

/-- `iget` returns an inode to the task. -/
def give (state : State taskCount) (task : Fin taskCount) (ref : Ref) :
    State taskCount :=
  { state.setPoint task .outside with
    refs := Function.update state.refs task (ref :: state.refs task) }

/-- Change a super block. -/
def setSuper (state : State taskCount) (dev : Nat) (super : Super) :
    State taskCount :=
  { state with super := Function.update state.super dev (some super) }

/-- `list_remove` of an inode from the list that it lies on. -/
def unlistInode (state : State taskCount) (slot : Slot) : State taskCount :=
  { state with super := fun dev => (state.super dev).map fun super =>
      { super with inodeList := super.inodeList.erase slot } }

/-- `get_free_inode`. -/
def getFreeInode (state : State taskCount) : Except Fault Slot :=
  match (List.finRange inodeNr).find? fun slot => (state.entry slot).dev = eof with
  | some slot => .ok slot
  | none => .error .panic

/-- `put_free_inode`. -/
def putFreeInode (state : State taskCount) (slot : Slot) :
    Except Fault (State taskCount) := do
  check (slot.val ≠ Fs.rootInode)
  check ((state.entry slot).count = 0)
  return state.modifyEntry slot fun entry => { entry with dev := eof }

/-- Take a reference away from an inode. -/
def dropCount (state : State taskCount) (slot : Slot) : State taskCount :=
  state.modifyEntry slot fun entry => { entry with count := sub32 entry.count 1 }

/-- Add a reference to an inode. -/
def addCount (state : State taskCount) (slot : Slot) : State taskCount :=
  state.modifyEntry slot fun entry => { entry with count := add32 entry.count 1 }

/-- `put_pipe_inode`. -/
def putPipeInode (state : State taskCount) (slot : Slot) :
    Except Fault (State taskCount) := do
  let state := state.dropCount slot
  if (state.entry slot).count ≠ 0 then
    return state
  let state := state.modifyEntry slot fun entry => { entry with pipe := false }
  state.putFreeInode slot

/-- Go on when `iput` returns: to the caller of `iput`, or to `fit_inode`, which
takes the root of the device mounted there. -/
def afterIput (state : State taskCount) (task : Fin taskCount) (ref : Ref) :
    Option Nat → Except Fault (State taskCount)
  | none =>
      .ok { state.setPoint task .outside with
        refs := Function.update state.refs task ((state.refs task).erase ref) }
  | some mounted =>
      match (state.super mounted).bind Super.iroot with
      | none => .error .wild
      | some root => .ok ((state.addCount root).give task { ref with slot := root })

/-- `iput` behind its call of `brelse`. -/
def afterRelease (state : State taskCount) (task : Fin taskCount) (ref : Ref)
    (fitting : Option Nat) : Except Fault (State taskCount) := do
  let state ← (state.unlistInode ref.slot).putFreeInode ref.slot
  state.afterIput task ref fitting

/-- `iput` behind its call of `bwrite`. -/
def afterWrite (poolSize : Nat) (state : State taskCount) (task : Fin taskCount)
    (ref : Ref) (fitting : Option Nat) : Except Fault (State taskCount) := do
  let state := state.dropCount ref.slot
  if (state.entry ref.slot).count ≠ 0 then
    state.afterIput task ref fitting
  else
    match (state.entry ref.slot).cache with
    | none => state.afterRelease task ref fitting
    | some id =>
        let passed := passBuffer state.cache (keeper ref.slot) (self task) id
        let cache ← passed.step poolSize (.brelse (self task) id)
        let state := state.setCache cache
        if cache.pc (self task) = .client then
          state.afterRelease task ref fitting
        else
          return state.setPoint task (.releasing ref fitting)

/-- `iput`. -/
def iput (poolSize : Nat) (state : State taskCount) (task : Fin taskCount)
    (ref : Ref) (fitting : Option Nat) : Except Fault (State taskCount) := do
  if (state.entry ref.slot).pipe then
    let state ← state.putPipeInode ref.slot
    state.afterIput task ref fitting
  else
    match (state.entry ref.slot).cache with
    | none => throw .wild
    | some id =>
        let buffer := state.cache.cache.buffer id
        if buffer.dirty then
          let cache := state.cache.setPc (self task)
            (.writeIo id buffer.dev buffer.block 0 false)
          return (state.setCache cache).setPoint task (.writing ref fitting)
        else
          state.afterWrite poolSize task ref fitting

/-- `iget` behind its call of `bread`, which has returned a buffer. -/
def afterRead (state : State taskCount) (task : Fin taskCount) (ref : Ref)
    (id : Nat) : State taskCount :=
  let passed := passBuffer state.cache (self task) (keeper ref.slot) id
  ((state.setCache passed).modifyEntry ref.slot fun entry =>
    { entry with cache := some id, desc := some (id, descIndex entry.nr) }).give
      task ref

/-- A task that is back from the cache goes on in `inode.c`. -/
def settle (poolSize : Nat) (state : State taskCount) (task : Fin taskCount) :
    Except Fault (State taskCount) :=
  if state.cache.pc (self task) = .client then
    match state.point task with
    | .outside => .ok state
    | .loading ref =>
        match (state.cache.held (self task)).head? with
        | none => .error .misuse
        | some id => .ok (state.afterRead task ref id)
    | .writing ref fitting => state.afterWrite poolSize task ref fitting
    | .releasing ref fitting => state.afterRelease task ref fitting
  else
    .ok state

/-- The part of `iget` for an inode that is not in memory, up to its end or to
the first sleep of `bread`. -/
def loadInode (poolSize : Nat) (state : State taskCount) (task : Fin taskCount)
    (dev nr : Nat) (super : Super) : Except Fault (State taskCount) := do
  check (nr ≤ super.desc.inodes)
  let slot ← state.getFreeInode
  check (slot.val = Fs.rootInode → (state.entry slot).count = 4)
  check (slot ∉ super.inodeList)
  let state := state.modifyEntry slot fun entry => { entry with
    dev := dev
    nr := nr
    count := if slot.val = Fs.rootInode then 4 else 1 }
  let state := state.setSuper dev { super with inodeList := slot :: super.inodeList }
  let cache ← state.cache.step poolSize
    (.bread (self task) dev (inodeBlock super.desc nr))
  ((state.setCache cache).setPoint task (.loading ⟨slot, dev, nr⟩)).settle
    poolSize task

/-- `iget`, with `find_inode` and `fit_inode`. -/
def iget (poolSize : Nat) (state : State taskCount) (task : Fin taskCount)
    (dev nr : Nat) : Except Fault (State taskCount) := do
  match state.super dev with
  | none => throw .assertion
  | some super =>
      match super.inodeList.find? fun slot => (state.entry slot).nr = nr with
      | none => state.loadInode poolSize task dev nr super
      | some slot =>
          let state := state.addCount slot
          let mounted := (state.entry slot).mount
          if mounted = 0 then
            return state.give task ⟨slot, dev, nr⟩
          else
            check (state.super mounted).isSome
            state.iput poolSize task ⟨slot, dev, nr⟩ (some mounted)

/-- One step.  A task that is inside `inode.c` calls nothing else, and a task
puts back only what it got. -/
def step (poolSize : Nat) (state : State taskCount) :
    Label taskCount → Except Fault (State taskCount)
  | .iget task dev nr =>
      if state.point task = .outside ∧ state.cache.pc (self task) = .client then
        state.iget poolSize task dev nr
      else
        .error .misuse
  | .iput task ref =>
      if state.point task = .outside ∧ state.cache.pc (self task) = .client ∧
          ref ∈ state.refs task then
        state.iput poolSize task ref none
      else
        .error .misuse
  | .cache task label =>
      if label.task = self task ∧
          (state.point task = .outside ∨ state.cache.pc (self task) ≠ .client) then do
        let cache ← state.cache.step poolSize label
        (state.setCache cache).settle poolSize task
      else
        .error .misuse

end State

/-- The table as `inode_init` leaves it, with the four references of the first
two tasks to the root inode, before any inode is read.  Every set of devices with
super blocks is possible. -/
structure Booted {taskCount : Nat} (state : State taskCount) : Prop where
  cache : Cache.Booted state.cache
  free : ∀ slot, (state.entry slot).dev = eof
  mount : ∀ slot, (state.entry slot).mount = 0
  pipe : ∀ slot, (state.entry slot).pipe = false
  count : ∀ slot, (state.entry slot).count = if slot.val = Fs.rootInode then 4 else 0
  noDevice : state.super eof = none
  inodeList : ∀ dev super, state.super dev = some super → super.inodeList = []
  point : ∀ task, state.point task = .outside
  refs : ∀ task, state.refs task = []

/-- The interleavings of a number of tasks over a buffer pool of some size. -/
def interleavings (taskCount poolSize : Nat) :
    System (State taskCount) (Label taskCount) where
  initial := Booted
  step := fun before label after => before.step poolSize label = .ok after

end InodeTable
end LightOS
