import LightOS.Fs.Format
import LightOS.Kernel.MemoryMap
import LightOS.Paging.Machine
import LightOS.UserMemory.Kmap

/-!
# User memory

The part of `memory.c` about page tables of user tasks, with the system calls that are
made of it and the steps of `sys_fork`, `sys_execve` and `sys_exit` on user memory.  The
words of a physical page are seen as entries, whatever is stored there.  The bitmaps of
tasks are bytes of the kernel's memory, apart from the pages that hold directories, tables
and user data.  The translation look-aside buffer is left out.
-/

namespace LightOS
namespace UserMemory

open Sched (taskNr userRing3)

/-- `USER_STACK_TOP`. -/
abbrev userStackTop : Nat := kernelVaddrOffset - 1

/-- `USER_STACK_BOTTOM`. -/
abbrev userStackBottom : Nat := userStackTop - 0x200000

/-- `USER_EXEC_ADDR`. -/
abbrev userExecAddr : Nat := 0x08048000

/-- `USER_MMAP_ADDR`. -/
abbrev userMmapAddr : Nat := 0x10000000

/-- `USER_MMAP_SIZE`. -/
abbrev userMmapSize : Nat := userStackBottom - userMmapAddr

/-- The entries of a page directory or a page table. -/
abbrev entryNr : Nat := 1024

/-- `PDE_IDX(KERNEL_VADDR_OFFSET)`: the entries of a directory before those of the kernel. -/
abbrev userTables : Nat := 768

/-- `PDE_IDX`. -/
def pdeIdx (vaddr : Nat) : Nat :=
  vaddr / 2 ^ 22

/-- `PTE_IDX`. -/
def pteIdx (vaddr : Nat) : Nat :=
  vaddr / 2 ^ 12 % 2 ^ 10

/-- `PROT_WRITE`. -/
abbrev protWrite : Nat := 2

/-- `MAP_SHARED`. -/
abbrev mapShared : Nat := 1

/-- `MAP_PRIVATE`. -/
abbrev mapPrivate : Nat := 2

/-- The structure `task_t`, as far as it is about user memory. -/
structure Task where
  uid : Nat
  /-- The task has exited and waits for its parent. -/
  dead : Bool
  /-- The page of the structure and of the kernel stack. -/
  page : Nat
  pde : Nat
  /-- `*vmap`. -/
  vmap : Bitmap
  text : Nat
  data : Nat
  /-- `end`. -/
  end_ : Nat
  brk : Nat

/-- The state of the kernel. -/
structure Machine where
  pages : PageMaps
  kmap : KmapPool
  /-- The words of the physical pages. -/
  frames : Nat → Nat → Entry
  /-- The pages of the kernel that hold bitmaps, by virtual address. -/
  memory : Memory
  tasks : Nat → Option Task
  current : Nat
  /-- Every byte that has been accessed as a byte of a bitmap, behind the field `bits` of
  the bitmap. -/
  touched : List (Nat × Nat)

/-- How a call ends that does not return. -/
inductive Stop
  | fault (fault : Fault)
  /-- `sys_exit` is called with a status. -/
  | exit (status : Int) (s : Machine)

/-- A call that does not exit. -/
def lift {α : Type} : Except Fault α → Except Stop α
  | .ok result => .ok result
  | .error fault => .error (.fault fault)

@[simp] theorem lift_eq_ok {α : Type} {call : Except Fault α} {result : α} :
    lift call = .ok result ↔ call = .ok result := by
  cases call with
  | ok value => simp [lift]
  | error fault => simp [lift]

/-- A pointer to an entry of a page that `kmap` has mapped: the address of the page and the
number of the entry. -/
abbrev EntryPointer : Type := Nat × Nat

namespace Machine

/-- Change a word of a physical page. -/
def setWord (s : Machine) (frame index : Nat) (word : Entry) : Machine :=
  { s with frames := fun other position =>
      if other = frame ∧ position = index then word else s.frames other position }

/-- Change all words of a physical page. -/
def setFrame (s : Machine) (frame : Nat) (words : Nat → Entry) : Machine :=
  { s with frames := Function.update s.frames frame words }

/-- `get_current`. -/
def getCurrent (s : Machine) : Except Fault Task :=
  match s.tasks s.current with
  | some task => .ok task
  | none => .error .wild

/-- Change a task. -/
def modify (s : Machine) (pid : Nat) (change : Task → Task) : Machine :=
  { s with tasks := Function.update s.tasks pid ((s.tasks pid).map change) }

/-- The physical page behind an address that `kmap` has returned. -/
def frameAt (s : Machine) (vaddr : Nat) : Nat :=
  (s.kmap.pte (KmapPool.slotOf vaddr)).index

/-- Read an entry through a pointer. -/
def read (s : Machine) (pointer : EntryPointer) : Entry :=
  s.frames (s.frameAt pointer.1) pointer.2

/-- Write an entry through a pointer. -/
def write (s : Machine) (pointer : EntryPointer) (entry : Entry) : Machine :=
  s.setWord (s.frameAt pointer.1) pointer.2 entry

/-- `kmap`. -/
def map (s : Machine) (paddr : Nat) : Except Fault (Nat × Machine) := do
  let (vaddr, kmap) ← s.kmap.kmap paddr
  return (vaddr, { s with kmap := kmap })

/-- `kunmap`. -/
def unmap (s : Machine) (vaddr : Nat) : Except Fault Machine := do
  return { s with kmap := ← s.kmap.kunmap vaddr }

/-- `get_user_page`. -/
def getUserPage (s : Machine) : Except Fault (Nat × Machine) := do
  let (paddr, pages) ← s.pages.getUserPage
  return (paddr, { s with pages := pages })

/-- `put_user_page`. -/
def putUserPage (s : Machine) (paddr : Nat) : Except Fault Machine := do
  return { s with pages := ← s.pages.putUserPage paddr }

/-- `alloc_kpage`. -/
def allocKpage (s : Machine) (count : Nat) : Except Fault (Nat × Machine) := do
  let (vaddr, pages) ← s.pages.allocKpage count
  return (vaddr, { s with pages := pages })

/-- `free_kpage`. -/
def freeKpage (s : Machine) (vaddr count : Nat) : Except Fault Machine := do
  return { s with pages := ← s.pages.freeKpage vaddr count }

/-- An entry for a user page. -/
def userEntry (paddr : Nat) : Entry :=
  { Entry.init (paddr / pageSize) with user := true }

/-- `get_pde`: the physical page of the directory. -/
def getPde (s : Machine) : Except Fault Nat := do
  let task ← s.getCurrent
  return task.pde / pageSize

/-- `get_pte`. -/
def getPte (s : Machine) (vaddr : Nat) : Except Fault (EntryPointer × Machine) := do
  let pde ← s.getPde
  let idx := pdeIdx vaddr
  let entry := s.frames pde idx
  if entry.present then
    let (kvaddr, s) ← s.map (entry.index * pageSize)
    return ((kvaddr, pteIdx vaddr), s)
  let (paddr, s) ← s.getUserPage
  let s := s.setWord pde idx (userEntry paddr)
  let (kvaddr, s) ← s.map paddr
  return ((kvaddr, pteIdx vaddr), s.setFrame (s.frameAt kvaddr) fun _ => .zero)

/-- `link_user_page`. -/
def linkUserPage (s : Machine) (vaddr : Nat) : Except Fault Machine := do
  let (entry, s) ← s.getPte vaddr
  if (s.read entry).present then
    s.unmap entry.1
  else
    let (paddr, s) ← s.getUserPage
    (s.write entry (userEntry paddr)).unmap entry.1

/-- `unlink_user_page`. -/
def unlinkUserPage (s : Machine) (vaddr : Nat) : Except Fault Machine := do
  check (vaddr % pageSize = 0)
  let (entry, s) ← s.getPte vaddr
  if (s.read entry).present then
    let s := s.write entry { s.read entry with present := false }
    let s ← s.putUserPage ((s.read entry).index * pageSize)
    s.unmap entry.1
  else
    s.unmap entry.1

/-! ## Page faults -/

/-- The bits of the error code that `page_fault` looks at. -/
structure ErrorCode where
  present : Bool
  write : Bool
  deriving DecidableEq, Repr

/-- The branch of `page_fault` for a page that is shared: the page gets a copy. -/
def copyOnWrite (s : Machine) (entry : EntryPointer) : Except Fault Machine := do
  let old := (s.read entry).index
  check (s.pages.memMap old = 2)
  let s := { s with pages := s.pages.setCount old (s.pages.memMap old - 1) }
  let (paddr, s) ← s.getUserPage
  let (newVaddr, s) ← s.map paddr
  let (oldVaddr, s) ← s.map ((s.read entry).index * pageSize)
  let s := s.setFrame (s.frameAt newVaddr) (s.frames (s.frameAt oldVaddr))
  return s.write entry (userEntry paddr)

/-- `page_fault`, at an address that is not mapped or must not be accessed so. -/
def pageFault (s : Machine) (addr : Nat) (code : ErrorCode) : Except Stop Machine := do
  let task ← lift s.getCurrent
  lift (check (task.uid = userRing3))
  if userStackTop < addr then
    throw (.exit (-1) s)
  if code.present then
    lift (check (code.write = true))
    let (entry, s) ← lift (s.getPte addr)
    lift (check ((s.read entry).present = true))
    lift (check (memoryBase / pageSize ≤ (s.read entry).index))
    lift (check (s.pages.memMap (s.read entry).index ≠ 0))
    lift (check ((s.read entry).shared = false))
    if (s.read entry).readonly then
      throw (.exit 500 s)
    if s.pages.memMap (s.read entry).index = 1 then
      lift ((s.write entry { s.read entry with write := true }).unmap entry.1)
    else
      let s ← lift (s.copyOnWrite entry)
      lift (s.unmap entry.1)
  else if userStackBottom < addr ∧ addr ≤ userStackTop then
    lift (s.linkUserPage addr)
  else
    throw (.exit (-1) s)

/-- The entries of the directory and of the table for an address. -/
def walk (s : Machine) (pde vaddr : Nat) : Entry × Entry :=
  let table := s.frames pde (pdeIdx vaddr)
  (table, s.frames table.index (pteIdx vaddr))

/-- An address is mapped. -/
def Mapped (s : Machine) (pde vaddr : Nat) : Prop :=
  (s.walk pde vaddr).1.present = true ∧ (s.walk pde vaddr).2.present = true

instance (s : Machine) (pde vaddr : Nat) : Decidable (s.Mapped pde vaddr) :=
  inferInstanceAs (Decidable (_ ∧ _))

/-- A program may access an address. -/
def Permitted (s : Machine) (pde vaddr : Nat) (write : Bool) : Prop :=
  (s.walk pde vaddr).1.user = true ∧ (s.walk pde vaddr).2.user = true ∧
    (write = true → (s.walk pde vaddr).1.write = true ∧ (s.walk pde vaddr).2.write = true)

instance (s : Machine) (pde vaddr : Nat) (write : Bool) :
    Decidable (s.Permitted pde vaddr write) :=
  inferInstanceAs (Decidable (_ ∧ _ ∧ _))

/-- Change the word at an address that is mapped. -/
def setAt (s : Machine) (pde vaddr : Nat) (word : Entry) : Machine :=
  s.setWord (s.walk pde vaddr).2.index (vaddr % pageSize / 4) word

/-- A program loads or stores a word.  The access is done or it faults; a program whose
access has faulted makes it again when the kernel returns. -/
def access (s : Machine) (vaddr : Nat) (store : Option Entry) : Except Stop Machine := do
  let pde ← lift s.getPde
  if s.Mapped pde vaddr then
    if s.Permitted pde vaddr store.isSome then
      match store with
      | some word => return s.setAt pde vaddr word
      | none => return s
    else
      s.pageFault vaddr ⟨true, store.isSome⟩
  else
    s.pageFault vaddr ⟨false, store.isSome⟩

/-- The kernel stores a word at a user address.  As CR0.WP is clear, it may write to every
page that is mapped.  A store above user addresses changes the kernel itself. -/
def kernelStore (s : Machine) (vaddr : Nat) (word : Entry) : Except Stop Machine := do
  lift (bounded (vaddr < kernelVaddrOffset))
  let pde ← lift s.getPde
  if s.Mapped pde vaddr then
    return s.setAt pde vaddr word
  let s ← s.pageFault vaddr ⟨false, true⟩
  if s.Mapped pde vaddr then
    return s.setAt pde vaddr word
  throw (.fault .blocked)

/-- The kernel stores bytes at a user address: `length` bytes, which leave the words
given. -/
def kernelStores (s : Machine) (vaddr length : Nat) (words : Nat → Entry) :
    Except Stop Machine :=
  (List.range ((vaddr % 4 + length + 3) / 4)).foldlM
    (fun s index => s.kernelStore ((vaddr / 4 * 4 + 4 * index) % 2 ^ 32) (words index)) s

/-! ## Directories -/

/-- `copy_pde`: the address of the new directory. -/
def copyPde (s : Machine) : Except Fault (Nat × Machine) := do
  let (vaddr, s) ← s.allocKpage 1
  let pde ← s.getPde
  let target := vaddr - kernelVaddrOffset
  return (target, s.setFrame (target / pageSize) (s.frames pde))

/-- A round of the inner loop of `copy_pte`: count one more reference to a user page, and
make the page unwritable unless it is shared. -/
def shareEntry (table : Nat) (s : Machine) (index : Nat) : Except Fault Machine := do
  let entry := s.read (table, index)
  if entry.present then
    let s := if entry.shared then s else s.write (table, index) { entry with write := false }
    let s := { s with pages := s.pages.setCount entry.index (s.pages.memMap entry.index + 1) }
    check (s.pages.memMap entry.index < 255)
    return s
  else
    return s

/-- A round of the loop of `copy_pte`. -/
def copyTable (pde target : Nat) (s : Machine) (index : Nat) : Except Fault Machine := do
  let entry := s.frames pde index
  if entry.present then
    let (paddr, s) ← s.getUserPage
    let s := s.setWord target index (userEntry paddr)
    let (currentPte, s) ← s.map (entry.index * pageSize)
    let (targetPte, s) ← s.map paddr
    let s ← (List.range entryNr).foldlM (shareEntry currentPte) s
    let s := s.setFrame (s.frameAt targetPte) (s.frames (s.frameAt currentPte))
    let s ← s.unmap currentPte
    s.unmap targetPte
  else
    return s

/-- `copy_pte`: the address of the new directory. -/
def copyPte (s : Machine) : Except Fault (Nat × Machine) := do
  let pde ← s.getPde
  let (target, s) ← s.copyPde
  let s ← (List.range userTables).foldlM (copyTable pde (target / pageSize)) s
  return (target, s)

/-- A round of the inner loop of `free_pte`. -/
def freeEntry (table : Nat) (s : Machine) (index : Nat) : Except Fault Machine := do
  let entry := s.read (table, index)
  if entry.present then
    let s ← s.putUserPage (entry.index * pageSize)
    return s.write (table, index) { entry with present := false }
  else
    return s

/-- A round of the loop of `free_pte`. -/
def freeTable (pde : Nat) (s : Machine) (index : Nat) : Except Fault Machine := do
  let entry := s.frames pde index
  if entry.present then
    let (table, s) ← s.map (entry.index * pageSize)
    let s ← (List.range entryNr).foldlM (freeEntry table) s
    let s ← s.unmap table
    let s ← s.putUserPage (entry.index * pageSize)
    return s.setWord pde index { entry with present := false }
  else
    return s

/-- `free_pte`. -/
def freePte (s : Machine) : Except Fault Machine := do
  let pde ← s.getPde
  (List.range userTables).foldlM (freeTable pde) s

/-! ## Bitmaps -/

/-- `bitmap_init`. -/
def bitmapInit (s : Machine) (bits length offset : Nat) : Bitmap × Machine :=
  (⟨bits, length, offset⟩, { s with
    memory := s.memory.fill bits length 0
    touched := (List.range length).map (fun byte => (bits, bits + byte)) ++ s.touched })

/-- `bitmap_test`. -/
def bitmapTest (s : Machine) (map : Bitmap) (index : Nat) :
    Except Fault (Bool × Machine) := do
  let bit ← map.test s.memory index
  return (bit, { s with
    touched := (map.bits, map.bits + (index - map.offset) / 8) :: s.touched })

/-- `bitmap_set`. -/
def bitmapSet (s : Machine) (map : Bitmap) (index : Nat) (value : Bool) :
    Except Fault Machine := do
  let memory ← map.set s.memory index value
  return { s with
    memory := memory
    touched := (map.bits, map.bits + (index - map.offset) / 8) :: s.touched }

/-- `bitmap_scan`.  It looks at the bits from the first to the last of the run that it
finds, or at all of them. -/
def bitmapScan (s : Machine) (map : Bitmap) (count : Nat) :
    Except Fault (Option Nat × Machine) := do
  match ← map.scan s.memory count with
  | none =>
      return (none, { s with touched :=
        (List.range map.length).map (fun byte => (map.bits, map.bits + byte)) ++ s.touched })
  | some (index, memory) =>
      let seen := index - map.offset + count
      return (some index, { s with
        memory := memory
        touched :=
          (List.range seen).map (fun bit => (map.bits, map.bits + bit / 8)) ++ s.touched })

/-! ## System calls -/

/-- `sys_brk`. -/
def sysBrk (s : Machine) (brk : Nat) : Except Fault (Int × Machine) := do
  check (brk % pageSize = 0)
  let task ← s.getCurrent
  check (task.uid = userRing3)
  if userMmapAddr ≤ brk then
    return (-1, s)
  if brk < task.end_ then
    return (-1, s)
  if brk < task.brk then
    let s ← (List.range ((task.brk - brk + (pageSize - 1)) / pageSize)).foldlM
      (fun s index => s.unlinkUserPage (brk + pageSize * index)) s
    return (0, s.modify s.current fun task => { task with brk := brk })
  if s.pages.freePages * pageSize % 2 ^ 32 < brk - task.brk then
    return (-1, s)
  return (0, s.modify s.current fun task => { task with brk := brk })

/-- The structure `mmap_args`.  The file is given by what it holds: the number of bytes and
the words that they leave in memory. -/
structure MmapArgs where
  addr : Nat
  length : Nat
  prot : Nat
  flags : Nat
  file : Option (Nat × (Nat → Entry))

/-- The entry of a page as `sys_mmap` leaves it. -/
def mmapEntry (args : MmapArgs) (entry : Entry) : Entry :=
  let entry := { entry with user := true }
  let entry :=
    if args.prot &&& protWrite ≠ 0 then
      { entry with write := true, readonly := false }
    else
      { entry with write := false, readonly := true }
  if args.flags &&& mapShared ≠ 0 then
    { entry with shared := true }
  else if args.flags &&& mapPrivate ≠ 0 then
    { entry with privat := true }
  else
    entry

/-- A round of the loop of `sys_mmap`. -/
def mmapPage (args : MmapArgs) (vmap : Bitmap) (vaddr : Nat) (s : Machine) (index : Nat) :
    Except Fault Machine := do
  let page := (vaddr + pageSize * index) % 2 ^ 32
  let s ← s.linkUserPage page
  let s ← s.bitmapSet vmap (page / pageSize) true
  let (entry, s) ← s.getPte page
  return s.write entry (mmapEntry args (s.read entry))

/-- The address at which `sys_mmap` begins: the one given, or one that the bitmap has room
at. -/
def mmapStart (s : Machine) (args : MmapArgs) (vmap : Bitmap) :
    Except Fault (Nat × Machine) := do
  if args.addr = 0 then
    let (index, s) ← s.bitmapScan vmap (Fs.divRoundUp args.length pageSize)
    return (index.getD eof * pageSize % 2 ^ 32, s)
  else
    return (args.addr, s)

/-- `sys_mmap`. -/
def sysMmap (s : Machine) (args : MmapArgs) : Except Stop (Nat × Machine) := do
  lift (check (args.addr % pageSize = 0))
  lift (check (0 < args.length))
  let task ← lift s.getCurrent
  let (vaddr, s) ← lift (s.mmapStart args task.vmap)
  lift (check (userMmapAddr ≤ vaddr ∧ add32 vaddr args.length ≤ userMmapAddr + userMmapSize))
  let s ← lift ((List.range (Fs.divRoundUp args.length pageSize)).foldlM
    (mmapPage args task.vmap vaddr) s)
  match args.file with
  | none => return (vaddr, s)
  | some (size, words) =>
      return (vaddr, ← s.kernelStores vaddr (min size args.length) words)

/-- A round of the loop of `sys_munmap`. -/
def munmapPage (vmap : Bitmap) (vaddr : Nat) (s : Machine) (index : Nat) :
    Except Fault Machine := do
  let page := (vaddr + pageSize * index) % 2 ^ 32
  let s ← s.unlinkUserPage page
  let (bit, s) ← s.bitmapTest vmap (page / pageSize)
  check (bit = true)
  s.bitmapSet vmap (page / pageSize) false

/-- `sys_munmap`. -/
def sysMunmap (s : Machine) (addr length : Nat) : Except Fault (Int × Machine) := do
  let task ← s.getCurrent
  check (userMmapAddr ≤ addr ∧ add32 addr length ≤ userMmapAddr + userMmapSize)
  check (addr % pageSize = 0)
  let s ← (List.range (Fs.divRoundUp length pageSize)).foldlM (munmapPage task.vmap addr) s
  return (0, s)

/-! ## Programs -/

/-- The structure `Elf32_Phdr`, with what the file holds for the segment: the number of bytes
and the words that they leave in memory. -/
structure Segment where
  align : Nat
  vaddr : Nat
  memsz : Nat
  filesz : Nat
  flags : Nat
  file : Nat × (Nat → Entry)
  /-- The words that clearing the rest of the segment leaves. -/
  cleared : Nat → Entry

/-- A round of the first loop of `load_segment`. -/
def linkSegmentPage (vaddr : Nat) (s : Machine) (index : Nat) : Except Fault Machine := do
  let addr := (vaddr + index * pageSize) % 2 ^ 32
  check (userExecAddr ≤ addr ∧ addr < userMmapAddr)
  s.linkUserPage addr

/-- A round of the second loop of `load_segment`. -/
def protectPage (vaddr : Nat) (s : Machine) (index : Nat) : Except Fault Machine := do
  let (entry, s) ← s.getPte ((vaddr + index * pageSize) % 2 ^ 32)
  (s.write entry { s.read entry with write := false, readonly := true }).unmap entry.1

/-- The part of `load_segment` that clears what the file does not hold. -/
def clearSegment (s : Machine) (segment : Segment) : Except Stop Machine :=
  if segment.filesz < segment.memsz then
    s.kernelStores ((segment.vaddr + segment.filesz) % 2 ^ 32)
      (segment.memsz - segment.filesz) segment.cleared
  else
    return s

/-- The part of `load_segment` that makes the pages of a segment read-only. -/
def protectSegment (s : Machine) (segment : Segment) (count : Nat) : Except Fault Machine :=
  if segment.flags &&& 2 = 0 then
    (List.range count).foldlM (protectPage segment.vaddr) s
  else
    return s

/-- `load_segment`. -/
def loadSegment (s : Machine) (segment : Segment) : Except Stop Machine := do
  lift (check (segment.align = 0x1000))
  lift (check (segment.vaddr % pageSize = 0))
  let vaddr := segment.vaddr
  let count := Fs.divRoundUp (max segment.memsz segment.filesz) pageSize
  let s ← lift ((List.range count).foldlM (linkSegmentPage vaddr) s)
  let s ← s.kernelStores vaddr (min segment.file.1 segment.filesz) segment.file.2
  let s ← s.clearSegment segment
  let s ← lift (s.protectSegment segment count)
  let s := s.modify s.current fun task =>
    if segment.flags = 5 then { task with text := vaddr }
    else if segment.flags = 6 then { task with data := vaddr }
    else task
  return s.modify s.current fun task =>
    { task with end_ := (vaddr + count * pageSize) % 2 ^ 32 }

/-- A task without user pages on a machine with 32 MiB, all user pages of which are free. -/
def vacant : Machine where
  pages := ⟨⟨fun _ => 0⟩, ⟨fun _ => 0⟩, 8192, 4096⟩
  kmap := .init
  frames _ _ := .zero
  memory := ⟨fun _ => 0⟩
  tasks pid :=
    if pid = 1 then
      some ⟨userRing3, false, 0xC0202000, 0x200000,
        ⟨0xC0201000, userMmapSize / pageSize / 8, userMmapAddr / pageSize⟩,
        userExecAddr, userExecAddr, userExecAddr, userExecAddr⟩
    else
      none
  current := 1
  touched := []

end Machine

end UserMemory
end LightOS
