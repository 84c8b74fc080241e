import LightOS.Foundation.ByteStrings
import LightOS.Foundation.Words

/-!
# Strings and pointers of C

The functions of `lib/string.c` that `execve` uses, and `count_argv`.  Pointers wrap around
at the end of the address space.  A loop that looks for the end of a string or of an array
has seen every address when it comes back to its first one, and never returns then.
-/

namespace LightOS
namespace Exec

/-- Count from `nr` on to the first number that passes a test, `left` numbers at most. -/
def firstFrom (found : Nat → Bool) (nr : Nat) : Nat → Option Nat
  | 0 => none
  | left + 1 => if found nr then some nr else firstFrom found (nr + 1) left

theorem firstFrom_eq {found : Nat → Bool} {nr left last : Nat} (atLeast : nr ≤ last)
    (below : last < nr + left) (here : found last = true)
    (earlier : ∀ before, nr ≤ before → before < last → found before = false) :
    firstFrom found nr left = some last := by
  induction left generalizing nr with
  | zero => omega
  | succ left inductionHypothesis =>
      rw [firstFrom]
      by_cases isLast : nr = last
      · rw [isLast, here, if_pos rfl]
      · rw [earlier nr (Nat.le_refl nr) (by omega), if_neg Bool.false_ne_true]
        exact inductionHypothesis (by omega) (by omega) fun before above =>
          earlier before (by omega)

/-- `strlen`. -/
def strlen (memory : Memory) (str : Nat) : Option Nat :=
  firstFrom (fun nr => memory (add32 str nr) = 0) 0 (2 ^ 32)

/-- `memcpy`, byte by byte. -/
def memcpy (memory : Memory) (dest src : Nat) : Nat → Memory
  | 0 => memory
  | count + 1 =>
      memcpy (memory.store dest 1 fun _ => memory src) (add32 dest 1) (add32 src 1) count

/-- `argv[i]`. -/
def element (memory : Memory) (argv i : Nat) : Nat :=
  memory.word (add32 argv (4 * i))

/-- `count_argv`. -/
def countArgv (memory : Memory) (argv : Nat) : Option Nat :=
  if argv = 0 then some 0
  else firstFrom (fun i => element memory argv i = 0) 0 (2 ^ 30)

variable {memory : Memory}

theorem add32_eq {left right : Nat} (small : left + right < 2 ^ 32) :
    add32 left right = left + right :=
  Nat.mod_eq_of_lt small

/-- `strlen` counts the bytes before the zero byte. -/
theorem strlen_eq {str : Nat} {string : List UInt8} (lies : memory.StringAt str string) :
    strlen memory str = some string.length := by
  have inSpace := lies.inSpace
  apply firstFrom_eq (Nat.zero_le _) (by omega)
  · rw [add32_eq inSpace, lies.ended]
    rfl
  · intro before _ inside
    rw [add32_eq (by omega)]
    exact decide_eq_false (lies.ne_zero inside)

theorem memcpy_changesIn {dest : Nat} (src : Nat) {count : Nat} (noWrap : dest + count ≤ 2 ^ 32) :
    Memory.ChangesIn memory (memcpy memory dest src count) dest count := by
  induction count generalizing memory dest src with
  | zero => exact Memory.ChangesIn.refl memory dest 0
  | succ count inductionHypothesis =>
      rw [memcpy]
      have first : Memory.ChangesIn memory (memory.store dest 1 fun _ => memory src)
          dest (count + 1) :=
        (Memory.changesIn_store memory dest 1 _).mono (Nat.le_refl dest) (by omega)
      apply first.trans
      by_cases isLast : count = 0
      · subst isLast
        exact Memory.ChangesIn.refl _ _ _
      · rw [add32_eq (by omega)]
        exact (inductionHypothesis _ (by omega)).mono (by omega) (by omega)

/-- Where its source and its destination do not meet, `memcpy` copies. -/
theorem memcpy_eq_copy {dest src count : Nat} (noWrap : dest + count ≤ 2 ^ 32)
    (sourceNoWrap : src + count ≤ 2 ^ 32)
    (disjoint : src + count ≤ dest ∨ dest + count ≤ src) :
    memcpy memory dest src count = memory.copy dest src count := by
  induction count generalizing memory dest src with
  | zero => exact (Memory.store_none dest _).symm
  | succ count inductionHypothesis =>
      have rest : memcpy (memory.store dest 1 fun _ => memory src) (add32 dest 1) (add32 src 1)
          count = (memory.store dest 1 fun _ => memory src).copy (dest + 1) (src + 1) count := by
        by_cases isLast : count = 0
        · subst isLast
          exact (Memory.store_none _ _).symm
        · rw [add32_eq (by omega), add32_eq (by omega)]
          exact inductionHypothesis (by omega) (by omega) (by omega)
      rw [memcpy, rest, Memory.copy, Memory.store_append, Memory.copy, Nat.add_comm 1 count]
      apply Memory.store_congr
      intro offset inside
      by_cases isFirst : offset < 1
      · rw [if_pos isFirst, show offset = 0 by omega, Nat.add_zero]
      · rw [if_neg isFirst, Memory.store_outside _ (by omega),
          show src + 1 + (offset - 1) = src + offset by omega]

/-- An array of pointers that ends with a null pointer has as many elements as there are
before it. -/
theorem countArgv_eq {argv count : Nat} (isArray : argv ≠ 0) (few : count < 2 ^ 30)
    (elements : ∀ i < count, element memory argv i ≠ 0)
    (ended : element memory argv count = 0) : countArgv memory argv = some count := by
  rw [countArgv, if_neg isArray]
  apply firstFrom_eq (Nat.zero_le _) (by omega) (decide_eq_true ended)
  intro before _ inside
  exact decide_eq_false (elements before inside)

end Exec
end LightOS
