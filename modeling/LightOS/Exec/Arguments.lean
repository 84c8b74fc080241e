import LightOS.Exec.Strings
import LightOS.UserMemory.Machine

/-!
# The arguments of a program

The function `set_env_and_clean_fork` of `execve.c`.  It puts the strings that a program is
started with together in kernel pages, with the arrays of pointers to them and their number,
and moves the block to the top of the new stack, where `__libc_start_main` finds it.  Every
store to the kernel pages is recorded.
-/

namespace LightOS
namespace Exec

open UserMemory (userStackTop)

/-- What `alloc_kpage` returns for the four pages of the block and for the page of the
pointers. -/
structure Buffers where
  pages : Nat
  argvk : Nat
  pagesAligned : pages % pageSize = 0
  argvkAligned : argvk % pageSize = 0
  pagesAbove : kernelVaddrOffset ≤ pages
  pagesBelow : pages + 4 * pageSize ≤ kernelVaddrOffset + kernelMemSize
  argvkAbove : kernelVaddrOffset ≤ argvk
  argvkBelow : argvk + pageSize ≤ kernelVaddrOffset + kernelMemSize
  apart : pages + 4 * pageSize ≤ argvk ∨ argvk + pageSize ≤ pages

/-- `alloc_kpage` returns two such runs of pages. -/
theorem exists_buffers {maps middle after : PageMaps} {pages argvk : Nat}
    (synced : maps.Synced) (isPages : maps.allocKpage 4 = .ok (pages, middle))
    (isArgvk : middle.allocKpage 1 = .ok (argvk, after)) :
    ∃ b : Buffers, b.pages = pages ∧ b.argvk = argvk := by
  obtain ⟨middleSynced, first, _, firstFits, rfl, _, counts⟩ := synced.alloc isPages
  obtain ⟨_, second, _, secondFits, rfl, fresh, _⟩ := middleSynced.alloc isArgvk
  have free := fresh second (Nat.le_refl second) (by omega)
  have outside : ¬(first ≤ second ∧ second < first + 4) := by
    intro inside
    rw [PageMaps.count, counts, if_pos (by omega)] at free
    exact absurd free (by decide)
  refine ⟨⟨3222274048 + first * 4096, 3222274048 + second * 4096, ?_, ?_, ?_, ?_, ?_, ?_, ?_⟩,
    rfl, rfl⟩
  all_goals simp only [pageSize, kernelVaddrOffset, kernelMemSize]
  all_goals omega

namespace Buffers

/-- `pages_end`. -/
def pagesEnd (b : Buffers) : Nat :=
  add32 b.pages (4 * pageSize)

/-- The address is in one of the pages. -/
def Covers (b : Buffers) (address : Nat) : Prop :=
  b.pages ≤ address ∧ address < b.pages + 4 * pageSize ∨
    b.argvk ≤ address ∧ address < b.argvk + pageSize

instance (b : Buffers) (address : Nat) : Decidable (b.Covers address) :=
  inferInstanceAs (Decidable (_ ∨ _))

/-- The store is to the pages only. -/
def Contains (b : Buffers) (store : Nat × Nat) : Prop :=
  ∀ index < store.2, b.Covers (store.1 + index)

/-- The interval has nothing in common with the pages. -/
def Clear (b : Buffers) (address length : Nat) : Prop :=
  ∀ index < length, ¬b.Covers (address + index)

end Buffers

/-- Why `set_env_and_clean_fork` does not return. -/
inductive Stop
  | endless
  | assertion
  deriving DecidableEq

/-- A call that does not return, with the stores that it has made. -/
structure Halt where
  stop : Stop
  stores : List (Nat × Nat)

/-- The memory and the cursors `ktop` and `utop`, with the stores that have been made, each
by its address and its length. -/
structure Staging where
  memory : Memory
  ktop : Nat
  utop : Nat
  stores : List (Nat × Nat)

namespace Staging

/-- A store of a pointer or of a number. -/
def putWord (s : Staging) (address value : Nat) : Staging :=
  { s with
    memory := s.memory.setWord address value
    stores := (address, 4) :: s.stores }

/-- Lower `ktop` and copy there. -/
def push (s : Staging) (src len : Nat) : Staging :=
  { s with
    memory := memcpy s.memory (sub32 s.ktop len) src len
    ktop := sub32 s.ktop len
    stores := (sub32 s.ktop len, len) :: s.stores }

/-- Lower both cursors by the length of a string, and copy it. -/
def pushString (s : Staging) (string : Nat) : Except Halt Staging :=
  match strlen s.memory string with
  | none => .error ⟨.endless, s.stores⟩
  | some length =>
      let len := add32 length 1
      .ok { s.push string len with utop := sub32 s.utop len }

/-- The loops over `envp` and `argv`, from the last string to the first one.  The second one
counts its strings from `argv[0]` and their pointers from `argvk[1]`. -/
def copyStrings (source pointers : Nat) : Nat → Staging → Except Halt Staging
  | 0, s => .ok s
  | i + 1, s => do
      let s ← s.pushString (element s.memory source i)
      copyStrings source pointers i (s.putWord (add32 pointers (4 * i)) s.utop)

end Staging

/-- `count_argv`, before anything has been stored. -/
def counted (memory : Memory) (argv : Nat) : Except Halt Nat :=
  match countArgv memory argv with
  | none => .error ⟨.endless, []⟩
  | some count => .ok count

/-- The first part of `set_env_and_clean_fork`, which ends the arrays of pointers with null
pointers, copies the strings and stores the pointers to them. -/
def gather (b : Buffers) (filename argv envp argc envc : Nat) (s : Staging) :
    Except Halt Staging := do
  let envpk := add32 b.argvk (4 * (argc + 1))
  let s := s.putWord (add32 b.argvk (4 * argc)) 0
  let s := s.putWord (add32 envpk (4 * envc)) 0
  let s ← s.copyStrings envp envpk envc
  let s ← s.copyStrings argv (add32 b.argvk 4) (argc - 1)
  let s ← s.pushString filename
  return s.putWord b.argvk s.utop

/-- The second part, which copies the arrays and stores `argc`. -/
def finish (b : Buffers) (argc envc : Nat) (s : Staging) : Staging :=
  let s := s.push (add32 b.argvk (4 * (argc + 1))) ((envc + 1) * 4 % 2 ^ 32)
  let s := s.push b.argvk ((argc + 1) * 4 % 2 ^ 32)
  let s := { s with ktop := sub32 s.ktop 4 }
  s.putWord s.ktop argc

/-- `set_env_and_clean_fork` before its assertion. -/
def stage (memory : Memory) (b : Buffers) (filename argv envp : Nat) : Except Halt Staging := do
  let entries ← counted memory argv
  let argc := entries + 1
  let envc ← counted memory envp
  let s ← gather b filename argv envp argc envc ⟨memory, b.pagesEnd, userStackTop, []⟩
  return finish b argc envc s

/-- `set_env_and_clean_fork`, which returns `utop`.  `fork_clean` releases what belongs to the
old program, and the pages of the new stack are linked when they are stored to. -/
def setEnvAndCleanFork (memory : Memory) (b : Buffers) (forkClean : Memory → Memory)
    (filename argv envp : Nat) : Except Halt Staging := do
  let s ← stage memory b filename argv envp
  if b.pages < s.ktop then
    let memory := forkClean s.memory
    let len := sub32 b.pagesEnd s.ktop
    let utop := sub32 userStackTop len
    return { s with memory := memcpy memory utop s.ktop len, utop := utop }
  else
    throw ⟨.assertion, s.stores⟩

/-- The stores of a call, whether it returns or not. -/
def storesOf : Except Halt Staging → List (Nat × Nat)
  | .ok s => s.stores
  | .error halt => halt.stores

/-- The parameters of `main`. -/
structure MainCall where
  argc : Nat
  argv : Nat
  envp : Nat

/-- `__libc_start_main`, as far as the call of `main`. -/
def libcStartMain (argc argv : Nat) : MainCall :=
  ⟨argc, argv, add32 argv (4 * (argc + 1))⟩

/-- `_start`: the number is popped off the stack, and the array is what comes next. -/
def start (memory : Memory) (esp : Nat) : MainCall :=
  libcStartMain (memory.word esp) (add32 esp 4)

/-! ## What a program is started with -/

/-- The strings of a call of `execve`. -/
structure Arguments where
  filename : List UInt8
  argv : List (List UInt8)
  envp : List (List UInt8)

namespace Arguments

/-- The number of arguments of `main`, with the name of the program. -/
def argc (args : Arguments) : Nat :=
  args.argv.length + 1

/-- The number of strings of the environment. -/
def envc (args : Arguments) : Nat :=
  args.envp.length

/-- All strings, in the order in which they lie in memory. -/
def strings (args : Arguments) : List (List UInt8) :=
  args.filename :: args.argv ++ args.envp

/-- The number of bytes of the block: the number of arguments, the two arrays and the
strings. -/
def blockSize (args : Arguments) : Nat :=
  4 + (args.argc + 1) * 4 + (args.envc + 1) * 4 + (packed args.strings).length

/-- The number of pointers, with the null pointers that end the two arrays. -/
def pointers (args : Arguments) : Nat :=
  args.argc + 1 + (args.envc + 1)

/-- The strings and the pointers fit into the pages. -/
def Fit (args : Arguments) : Prop :=
  args.blockSize ≤ 4 * pageSize ∧ args.pointers * 4 ≤ pageSize

instance (args : Arguments) : Decidable args.Fit :=
  inferInstanceAs (Decidable (_ ∧ _))

end Arguments

/-- A string lies at an address, outside the pages. -/
structure StringGiven (b : Buffers) (memory : Memory) (address : Nat) (string : List UInt8) :
    Prop where
  lies : memory.StringAt address string
  clear : b.Clear address (string.length + 1)

/-- An array has pointers to strings as its elements, outside the pages. -/
structure StringsGiven (b : Buffers) (memory : Memory) (array : Nat)
    (strings : List (List UInt8)) : Prop where
  inSpace : array + 4 * strings.length < 2 ^ 32
  clear : b.Clear array (4 * strings.length)
  given : ∀ index (inside : index < strings.length),
    StringGiven b memory (memory.word (array + 4 * index)) strings[index]

/-- A parameter `argv` or `envp`: a null pointer, or an array that a null pointer ends. -/
def ArrayGiven (b : Buffers) (memory : Memory) (array : Nat) (strings : List (List UInt8)) :
    Prop :=
  array = 0 ∧ strings = [] ∨
    array ≠ 0 ∧ array + 4 * (strings.length + 1) ≤ 2 ^ 32 ∧
      StringsGiven b memory array strings ∧
      (∀ index < strings.length, memory.word (array + 4 * index) ≠ 0) ∧
      memory.word (array + 4 * strings.length) = 0

/-- The parameters of `execve` are pointers to the strings of a call, which are not in the
pages that `alloc_kpage` returns. -/
structure Passed (memory : Memory) (b : Buffers) (filename argv envp : Nat)
    (args : Arguments) : Prop where
  filename : StringGiven b memory filename args.filename
  argv : ArrayGiven b memory argv args.argv
  envp : ArrayGiven b memory envp args.envp

end Exec
end LightOS
