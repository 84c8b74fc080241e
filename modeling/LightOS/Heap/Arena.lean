import LightOS.Kernel.Pages
import LightOS.Foundation.Words
import LightOS.Foundation.Blocks
import LightOS.Foundation.Transition

/-!
# The kernel heap

The functions of `arena.c` over a byte memory.  A header `arena_t` takes 28 bytes:
a word with the magic number and the flags, the two physical links, the list
node, the length of the body and its address.  The two lists are kept as
sequences of headers; `list_remove` asserts that the node is linked in one of
them.  Two ghost fields record the page runs obtained so far and the headers
that the last `kfree` followed.
-/

namespace LightOS

/-- `sizeof(arena_t)`. -/
abbrev arenaSize : Nat := 28

/-- `ARENA_MAGIC`. -/
abbrev arenaMagic : Nat := 0xA1B2C3

/-- `MIN_BLOCK_SIZE`. -/
abbrev minBlockSize : Nat := 16

namespace Arena

/-- The field `magic`. -/
def magic (memory : Memory) (arena : Nat) : Nat :=
  memory.word arena % 2 ^ 30

/-- The field `is_used`. -/
def isUsed (memory : Memory) (arena : Nat) : Bool :=
  memory.word arena / 2 ^ 30 % 2 = 1

/-- The field `back_ptr`. -/
def backPtr (memory : Memory) (arena : Nat) : Nat :=
  memory.word (arena + 4)

/-- The field `forward_ptr`. -/
def forwardPtr (memory : Memory) (arena : Nat) : Nat :=
  memory.word (arena + 8)

/-- The field `length`. -/
def length (memory : Memory) (arena : Nat) : Nat :=
  memory.word (arena + 20)

/-- The field `buf`. -/
def buf (memory : Memory) (arena : Nat) : Nat :=
  memory.word (arena + 24)

def setMagic (memory : Memory) (arena value : Nat) : Memory :=
  memory.setWord arena (value % 2 ^ 30 + memory.word arena / 2 ^ 30 * 2 ^ 30)

def setUsed (memory : Memory) (arena : Nat) (value : Bool) : Memory :=
  memory.setWord arena (memory.word arena % 2 ^ 30 +
    (if value then 2 ^ 30 else 0) + memory.word arena / 2 ^ 31 * 2 ^ 31)

def setHead (memory : Memory) (arena : Nat) (value : Bool) : Memory :=
  memory.setWord arena (memory.word arena % 2 ^ 31 +
    if value then 2 ^ 31 else 0)

def setBackPtr (memory : Memory) (arena value : Nat) : Memory :=
  memory.setWord (arena + 4) value

def setForwardPtr (memory : Memory) (arena value : Nat) : Memory :=
  memory.setWord (arena + 8) value

def setLength (memory : Memory) (arena value : Nat) : Memory :=
  memory.setWord (arena + 20) value

def setBuf (memory : Memory) (arena value : Nat) : Memory :=
  memory.setWord (arena + 24) value

end Arena

/-- The state of the kernel heap. -/
structure Heap where
  /-- Kernel memory, by virtual address. -/
  memory : Memory
  /-- The kernel's page allocator. -/
  pages : PageMaps
  /-- `free_list`, from its head. -/
  freeList : List Nat
  /-- `used_list`, from its head. -/
  usedList : List Nat
  /-- Base address and number of pages of every run obtained so far. -/
  runs : List (Nat × Nat)
  /-- Headers that the last `kfree` followed. -/
  followed : List Nat

namespace Heap

open Arena

/-- `list_push` to `free_list`. -/
def pushFree (heap : Heap) (arena : Nat) : Except Fault Heap := do
  check (arena ∉ heap.freeList)
  return { heap with freeList := arena :: heap.freeList }

/-- `list_push` to `used_list`. -/
def pushUsed (heap : Heap) (arena : Nat) : Except Fault Heap := do
  check (arena ∉ heap.usedList)
  return { heap with usedList := arena :: heap.usedList }

/-- `list_remove`. -/
def listRemove (heap : Heap) (arena : Nat) : Except Fault Heap := do
  check (arena ∈ heap.freeList ∨ arena ∈ heap.usedList)
  return { heap with
    freeList := heap.freeList.erase arena
    usedList := heap.usedList.erase arena }

/-- The fields that `_arena_add_new_pages` writes. -/
def newArena (memory : Memory) (arena pageCnt : Nat) : Memory :=
  let memory := setMagic memory arena arenaMagic
  let memory := setHead memory arena true
  let memory := setBackPtr memory arena 0
  let memory := setForwardPtr memory arena 0
  let memory := setUsed memory arena false
  let memory := setBuf memory arena (add32 arena arenaSize)
  setLength memory arena (sub32 (pageSize * pageCnt % 2 ^ 32) arenaSize)

/-- `_arena_add_new_pages`. -/
def arenaAddNewPages (heap : Heap) (size : Nat) : Except Fault Heap := do
  let pageCnt := add32 size arenaSize / pageSize + 1
  let (arena, pages) ← heap.pages.allocKpage pageCnt
  let heap := { heap with
    memory := newArena heap.memory arena pageCnt
    pages := pages
    runs := (arena, pageCnt) :: heap.runs }
  heap.pushFree arena

/-- The search loop of `kmalloc`. -/
def firstFit (heap : Heap) (size : Nat) : Option Nat :=
  heap.freeList.find? fun arena =>
    decide (add32 arenaSize size ≤ length heap.memory arena)

/-- The loop at the label `refind`.  Every round that finds nothing takes at
least one kernel page, so a round for each page of `kernel_map` is enough for
`alloc_kpage` to panic. -/
def refind : Nat → Heap → Nat → Except Fault (Nat × Heap)
  | 0, _, _ => .error .panic
  | rounds + 1, heap, size =>
      match heap.firstFit size with
      | some arena => .ok (arena, heap)
      | none => do refind rounds (← heap.arenaAddNewPages size) size

/-- The fields that `kmalloc` writes when it divides a block. -/
def divide (memory : Memory) (arena divided size : Nat) : Memory :=
  let memory := setBackPtr memory divided arena
  let memory := setForwardPtr memory divided (forwardPtr memory arena)
  let memory := setBuf memory divided (add32 divided arenaSize)
  let memory := setLength memory divided
    (sub32 (sub32 (length memory arena) size) arenaSize)
  let memory := setUsed memory divided false
  let memory := setHead memory divided false
  let memory := setMagic memory divided arenaMagic
  let memory := setForwardPtr memory arena divided
  setLength memory arena size

/-- What is left of a block after cutting off a size does not make a block. -/
def TooSmall (memory : Memory) (arena size : Nat) : Prop :=
  sub32 (length memory arena) size < arenaSize + minBlockSize

instance (memory : Memory) (arena size : Nat) :
    Decidable (TooSmall memory arena size) := by
  unfold TooSmall
  infer_instance

/-- The part of `kmalloc` that takes a block from `free_list`. -/
def take (heap : Heap) (arena size : Nat) : Except Fault Heap := do
  let heap ← heap.listRemove arena
  let heap ← heap.pushUsed arena
  let memory := setUsed heap.memory arena true
  if TooSmall memory arena size then
    return { heap with memory := memory }
  else
    let divided := add32 (buf memory arena) size
    let heap := { heap with memory := divide memory arena divided size }
    heap.pushFree divided

/-- End of the addresses that the kernel's page tables cover: its 16 MiB and the
window of `kmap`. -/
abbrev kernelEnd : Nat := 0xC1400000

/-- The size that `kmalloc` works with. -/
def roundSize (request : Nat) : Nat :=
  if minBlockSize ≤ request then request else minBlockSize

/-- `kmalloc`.  A `memset` that leaves the addresses of the kernel does not
return. -/
def kmalloc (heap : Heap) (request : Nat) : Except Fault (Nat × Heap) := do
  if request = 0 then
    return (0, heap)
  let size := roundSize request
  let heap ←
    if heap.freeList = [] then heap.arenaAddNewPages size else pure heap
  let (arena, heap) ← refind 3841 heap size
  let heap ← heap.take arena size
  let start := buf heap.memory arena
  if kernelEnd < start + size then
    throw .panic
  let memory := heap.memory.fill start size 0
  return (buf memory arena, { heap with memory := memory })

/-- Record that a header is followed. -/
def follow (heap : Heap) (arena : Nat) : Heap :=
  { heap with followed := arena :: heap.followed }

/-- The upward loop of `kfree`.  The loop changes nothing, so it never ends when
it has not ended after as many rounds as there are addresses. -/
def climb : Nat → Heap → Nat → Except Fault (Nat × Heap)
  | 0, _, _ => .error .blocked
  | rounds + 1, heap, arena =>
      let back := backPtr heap.memory arena
      if back = 0 then
        .ok (arena, heap)
      else if isUsed heap.memory back then
        .ok (arena, heap.follow back)
      else
        climb rounds (heap.follow back) back

/-- The body of the downward loop of `kfree`. -/
def absorbNext (heap : Heap) (arena : Nat) : Except Fault Heap := do
  let next := forwardPtr heap.memory arena
  let heap ← heap.listRemove next
  let memory := setLength heap.memory arena
    (add32 (length heap.memory arena)
      (add32 (length heap.memory next) arenaSize))
  let memory := setForwardPtr memory arena (forwardPtr memory next)
  return { heap with memory := memory }

/-- The downward loop of `kfree`.  Every round removes a node from the lists. -/
def absorb : Nat → Heap → Nat → Except Fault Heap
  | 0, _, _ => .error .blocked
  | rounds + 1, heap, arena =>
      let next := forwardPtr heap.memory arena
      if next = 0 then
        .ok heap
      else if isUsed heap.memory next then
        .ok (heap.follow next)
      else do
        absorb rounds (← (heap.follow next).absorbNext arena) arena

/-- The overflow check of `kfree`. -/
def checkMagic (heap : Heap) (arena : Nat) : Except Fault Heap :=
  let next := forwardPtr heap.memory arena
  if next = 0 then
    .ok { heap with followed := [] }
  else if magic heap.memory next = arenaMagic then
    .ok { heap with followed := [next] }
  else
    .error .panic

/-- The part of `kfree` that moves a block to `free_list`. -/
def release (heap : Heap) (arena : Nat) : Except Fault Heap := do
  check (arena ∈ heap.usedList)
  let heap ← heap.listRemove arena
  let heap ← heap.pushFree arena
  return { heap with memory := setUsed heap.memory arena false }

/-- `kfree`. -/
def kfree (heap : Heap) (ptr : Nat) : Except Fault Heap := do
  if ptr = 0 then
    return { heap with followed := [] }
  let arena := sub32 ptr arenaSize
  let heap ← heap.checkMagic arena
  let heap ← heap.release arena
  let (first, heap) ← climb (2 ^ 32) heap arena
  absorb (heap.freeList.length + heap.usedList.length + 1) heap first

end Heap

/-- The kernel heap and its clients. -/
structure HeapState where
  heap : Heap
  /-- Pointers that `kmalloc` returned and that were not freed since, each with
  the size asked for. -/
  allocated : List (Nat × Nat)

/-- What may happen to the heap. -/
inductive HeapLabel
  /-- A call of `kmalloc`. -/
  | kmalloc (request : Nat)
  /-- A call of `kfree`. -/
  | kfree (ptr : Nat)
  /-- A client writes a byte of memory it asked for. -/
  | write (address : Nat) (value : UInt8)
  /-- The rest of the kernel writes a byte outside the runs of the heap. -/
  | poke (address : Nat) (value : UInt8)
  /-- The rest of the kernel allocates pages. -/
  | allocPages (count : Nat)
  /-- The rest of the kernel frees pages outside the runs of the heap. -/
  | freePages (first count : Nat)
  deriving DecidableEq, Repr

namespace HeapState

/-- The caller keeps to the interface of the heap. -/
def require (condition : Prop) [Decidable condition] : Except Fault Unit :=
  if condition then .ok () else .error .misuse

@[simp] theorem require_eq_ok
    (condition : Prop) [Decidable condition] (result : Unit) :
    require condition = .ok result ↔ condition := by
  unfold require
  split <;> simp_all

/-- An address lies in memory that a client asked for. -/
def Owned (state : HeapState) (address : Nat) : Prop :=
  ∃ block ∈ state.allocated, block.1 ≤ address ∧ address < block.1 + block.2

instance (state : HeapState) (address : Nat) : Decidable (state.Owned address) := by
  unfold Owned
  infer_instance

/-- An interval does not meet the page runs of the heap. -/
def OutsideRuns (state : HeapState) (start length : Nat) : Prop :=
  ∀ run ∈ state.heap.runs,
    start + length ≤ run.1 ∨ run.1 + pageSize * run.2 ≤ start

instance (state : HeapState) (start length : Nat) :
    Decidable (state.OutsideRuns start length) := by
  unfold OutsideRuns
  infer_instance

/-- One step of the heap and its clients. -/
def next (state : HeapState) : HeapLabel → Except Fault HeapState
  | .kmalloc request => do
      require (request < 2 ^ 32)
      let (ptr, heap) ← state.heap.kmalloc request
      if ptr = 0 then
        return { state with heap := heap }
      else
        return { heap := heap, allocated := (ptr, request) :: state.allocated }
  | .kfree ptr => do
      require (ptr = 0 ∨ ptr ∈ state.allocated.map Prod.fst)
      let heap ← state.heap.kfree ptr
      return {
        heap := heap
        allocated := state.allocated.filter fun block => block.1 ≠ ptr }
  | .write address value => do
      require (state.Owned address)
      return { state with heap := { state.heap with
        memory := state.heap.memory.store address 1 fun _ => value } }
  | .poke address value => do
      require (state.OutsideRuns address 1)
      return { state with heap := { state.heap with
        memory := state.heap.memory.store address 1 fun _ => value } }
  | .allocPages count => do
      let (_, pages) ← state.heap.pages.allocKpage count
      return { state with heap := { state.heap with pages := pages } }
  | .freePages first count => do
      let vaddr := 0xC0100000 + first * pageSize
      require (state.OutsideRuns vaddr (count * pageSize))
      let pages ← state.heap.pages.freeKpage vaddr count
      return { state with heap := { state.heap with pages := pages } }

/-- The heap as `aerna_init` leaves it, over any memory and any allocation of
pages. -/
def Initial (state : HeapState) : Prop :=
  state.heap.freeList = [] ∧ state.heap.usedList = [] ∧
    state.heap.runs = [] ∧ state.allocated = []

end HeapState

/-- The kernel heap as a labelled transition system. -/
def heapSystem : System HeapState HeapLabel where
  initial := HeapState.Initial
  step state label after := state.next label = .ok after

end LightOS
