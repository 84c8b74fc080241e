import LightOS.Foundation.Memory
import Mathlib.Data.List.Forall2

/-!
# Strings of bytes in memory

Lists of bytes as the content of a memory from an address on.  Words are lists of four
bytes, strings end with a zero byte, and strings may lie one behind the other below a top
address.  A list that is put together from parts is read part by part.
-/

namespace LightOS

variable {bytes string : List UInt8} {top value : Nat} {values : List Nat}

/-- The bytes of a 32-bit word, the lowest first. -/
def wordBytes (value : Nat) : List UInt8 :=
  (List.range 4).map fun offset => UInt8.ofNat (value / 256 ^ offset)

/-- The bytes of words one behind the other. -/
def wordsBytes (values : List Nat) : List UInt8 :=
  values.flatMap wordBytes

/-- Strings one behind the other, each with the zero byte that ends it. -/
def packed (strings : List (List UInt8)) : List UInt8 :=
  strings.flatMap (· ++ [0])

/-- Where strings lie that are packed below a top address. -/
def addresses (top : Nat) : List (List UInt8) → List Nat
  | [] => []
  | string :: rest => (top - (packed (string :: rest)).length) :: addresses top rest

@[simp] theorem wordBytes_length (value : Nat) : (wordBytes value).length = 4 := by
  simp [wordBytes]

@[simp] theorem wordsBytes_nil : wordsBytes [] = [] := rfl

@[simp] theorem wordsBytes_cons (value : Nat) (values : List Nat) :
    wordsBytes (value :: values) = wordBytes value ++ wordsBytes values := rfl

@[simp] theorem wordsBytes_append (values others : List Nat) :
    wordsBytes (values ++ others) = wordsBytes values ++ wordsBytes others :=
  List.flatMap_append

@[simp] theorem wordsBytes_length (values : List Nat) :
    (wordsBytes values).length = 4 * values.length := by
  induction values with
  | nil => rfl
  | cons value values inductionHypothesis =>
      rw [wordsBytes_cons, List.length_append, inductionHypothesis, wordBytes_length,
        List.length_cons]
      omega

@[simp] theorem packed_nil : packed [] = [] := rfl

@[simp] theorem packed_append (strings others : List (List UInt8)) :
    packed (strings ++ others) = packed strings ++ packed others :=
  List.flatMap_append

theorem packed_cons (string : List UInt8) (rest : List (List UInt8)) :
    packed (string :: rest) = string ++ [0] ++ packed rest := rfl

@[simp] theorem packed_cons_length (string : List UInt8) (rest : List (List UInt8)) :
    (packed (string :: rest)).length = string.length + 1 + (packed rest).length := by
  rw [packed_cons, List.length_append, List.length_append, List.length_singleton]

@[simp] theorem addresses_nil (top : Nat) : addresses top [] = [] := rfl

@[simp] theorem addresses_length (top : Nat) (strings : List (List UInt8)) :
    (addresses top strings).length = strings.length := by
  induction strings with
  | nil => rfl
  | cons string rest inductionHypothesis => simp [addresses, inductionHypothesis]

theorem addresses_append (top : Nat) (strings others : List (List UInt8)) :
    addresses top (strings ++ others) =
      addresses (top - (packed others).length) strings ++ addresses top others := by
  induction strings with
  | nil => rfl
  | cons string rest inductionHypothesis =>
      rw [List.cons_append, addresses, addresses, inductionHypothesis, List.cons_append,
        packed_cons_length, packed_cons_length, packed_append, List.length_append, Nat.sub_sub]
      congr 2
      omega

theorem addresses_le {address : Nat} {strings : List (List UInt8)}
    (present : address ∈ addresses top strings) : address ≤ top := by
  induction strings with
  | nil => cases present
  | cons string rest inductionHypothesis =>
      cases present with
      | head => exact Nat.sub_le _ _
      | tail _ later => exact inductionHypothesis later

/-- The interval that each string takes up, at the address in a list. -/
def extents (addresses : List Nat) (strings : List (List UInt8)) : List (Nat × Nat) :=
  List.zipWith (fun address string => (address, string.length + 1)) addresses strings

/-- Packed strings lie between the address of the first one and the top, in order. -/
theorem extents_packed {strings : List (List UInt8)} (fits : (packed strings).length ≤ top) :
    (extents (addresses top strings) strings).Pairwise
        (fun piece other => piece.1 + piece.2 ≤ other.1) ∧
      ∀ piece ∈ extents (addresses top strings) strings,
        top - (packed strings).length ≤ piece.1 ∧ piece.1 + piece.2 ≤ top := by
  induction strings with
  | nil => exact ⟨List.Pairwise.nil, nofun⟩
  | cons string rest inductionHypothesis =>
      rw [packed_cons_length] at fits
      obtain ⟨apart, inside⟩ := inductionHypothesis (by omega)
      rw [extents, addresses, List.zipWith_cons_cons, packed_cons_length]
      refine ⟨List.pairwise_cons.mpr ⟨fun other later => ?_, apart⟩, fun piece present => ?_⟩
      · have above := (inside other later).1
        dsimp only
        omega
      · cases present with
        | head =>
            dsimp only
            omega
        | tail _ later =>
            have within := inside piece later
            omega

namespace Memory

/-- The words one behind the other from an address on. -/
def words (memory : Memory) (address count : Nat) : List Nat :=
  (List.range count).map fun index => memory.word (address + 4 * index)

/-- The memory has the bytes of a list from an address on. -/
def Holds (memory : Memory) (address : Nat) (bytes : List UInt8) : Prop :=
  ∀ index (inside : index < bytes.length), memory (address + index) = bytes[index]

/-- A string lies at an address, with the zero byte that ends it. -/
structure StringAt (memory : Memory) (address : Nat) (string : List UInt8) : Prop where
  inSpace : address + string.length < 2 ^ 32
  bytes : memory.Holds address (string ++ [0])
  nonzero : 0 ∉ string

variable {memory left right : Memory} {address : Nat}

theorem holds_nil (memory : Memory) (address : Nat) : memory.Holds address [] :=
  fun _ inside => absurd inside (Nat.not_lt_zero _)

theorem holds_append {others : List UInt8} :
    memory.Holds address (bytes ++ others) ↔
      memory.Holds address bytes ∧ memory.Holds (address + bytes.length) others := by
  constructor
  · intro holds
    refine ⟨fun index inside => ?_, fun index inside => ?_⟩
    · rw [holds index (by rw [List.length_append]; omega), List.getElem_append_left inside]
    · rw [Nat.add_assoc, holds _ (by rw [List.length_append]; omega),
        List.getElem_append_right (Nat.le_add_right _ _)]
      congr 1
      omega
  · rintro ⟨first, second⟩ index inside
    rw [List.length_append] at inside
    by_cases isFirst : index < bytes.length
    · rw [List.getElem_append_left isFirst, first index isFirst]
    · rw [List.getElem_append_right (by omega),
        ← second (index - bytes.length) (by omega)]
      congr 1
      omega

theorem holds_wordsBytes_cons :
    memory.Holds address (wordsBytes (value :: values)) ↔
      memory.Holds address (wordBytes value) ∧ memory.Holds (address + 4) (wordsBytes values) := by
  rw [wordsBytes_cons, holds_append, wordBytes_length]

theorem holds_wordsBytes_concat :
    memory.Holds address (wordsBytes (values ++ [value])) ↔
      memory.Holds address (wordsBytes values) ∧
        memory.Holds (address + 4 * values.length) (wordBytes value) := by
  rw [wordsBytes_append, wordsBytes_cons, wordsBytes_nil, List.append_nil, holds_append,
    wordsBytes_length]

/-- Bytes that are the same elsewhere in another memory are held there. -/
theorem Holds.moved {other : Nat} (holds : left.Holds address bytes)
    (same : ∀ index < bytes.length, right (other + index) = left (address + index)) :
    right.Holds other bytes :=
  fun index inside => (same index inside).trans (holds index inside)

theorem Holds.congr (holds : left.Holds address bytes)
    (agree : AgreeOn right left address bytes.length) : right.Holds address bytes :=
  holds.moved fun index inside => agree _ (by omega) (by omega)

/-- A copy holds what its source holds. -/
theorem Holds.copy {source length : Nat} (holds : memory.Holds source bytes)
    (isLength : bytes.length = length) :
    (memory.copy address source length).Holds address bytes := by
  apply holds.moved
  intro index inside
  rw [Memory.copy, store_inside _ (by omega) (by omega), Nat.add_sub_cancel_left]

theorem holds_setWord (memory : Memory) (address value : Nat) :
    (memory.setWord address value).Holds address (wordBytes value) := by
  intro index inside
  rw [wordBytes_length] at inside
  rw [setWord, store_inside _ (by omega) (by omega), Nat.add_sub_cancel_left]
  simp [wordBytes]

theorem Holds.word (holds : memory.Holds address (wordBytes value)) (small : value < 2 ^ 32) :
    memory.word address = value := by
  have same : memory.word address = (memory.setWord address value).word address := by
    apply word_congr
    intro index inside
    have isIndex : index < (wordBytes value).length := by
      rw [wordBytes_length]
      exact inside
    rw [holds index isIndex, holds_setWord memory address value index isIndex]
  rw [same, word_setWord, Nat.mod_eq_of_lt small]

theorem words_append (memory : Memory) (address count more : Nat) :
    memory.words address (count + more) =
      memory.words address count ++ memory.words (address + 4 * count) more := by
  unfold words
  rw [List.range_add, List.map_append, List.map_map]
  congr 1
  apply List.map_congr_left
  intro index _
  rw [Function.comp_apply, Nat.mul_add, Nat.add_assoc]

theorem Holds.words (holds : memory.Holds address (wordsBytes values))
    (small : ∀ value ∈ values, value < 2 ^ 32) : memory.words address values.length = values := by
  induction values generalizing address with
  | nil => rfl
  | cons value values inductionHypothesis =>
      rw [holds_wordsBytes_cons] at holds
      rw [List.length_cons, Nat.add_comm, words_append, Nat.mul_one,
        inductionHypothesis holds.2 fun other later => small other (.tail _ later)]
      show [memory.word address] ++ values = value :: values
      rw [holds.1.word (small value (.head _)), List.singleton_append]

theorem StringAt.ended (lies : memory.StringAt address string) :
    memory (address + string.length) = 0 := by
  have last := (holds_append.mp lies.bytes).2 0 (by simp)
  rw [Nat.add_zero] at last
  exact last

theorem StringAt.ne_zero (lies : memory.StringAt address string) {index : Nat}
    (inside : index < string.length) : memory (address + index) ≠ 0 := by
  rw [(holds_append.mp lies.bytes).1 index inside]
  intro isZero
  exact lies.nonzero (isZero ▸ List.getElem_mem inside)

theorem StringAt.congr (lies : left.StringAt address string)
    (agree : AgreeOn right left address (string.length + 1)) :
    right.StringAt address string where
  inSpace := lies.inSpace
  bytes := lies.bytes.congr (by rw [List.length_append]; exact agree)
  nonzero := lies.nonzero

/-- Every one of packed strings lies at its address. -/
theorem Holds.strings {strings : List (List UInt8)}
    (holds : memory.Holds (top - (packed strings).length) (packed strings))
    (fits : (packed strings).length ≤ top) (small : top ≤ 2 ^ 32)
    (nonzero : ∀ string ∈ strings, 0 ∉ string) :
    List.Forall₂ memory.StringAt (addresses top strings) strings := by
  induction strings with
  | nil => exact .nil
  | cons string rest inductionHypothesis =>
      have length := packed_cons_length string rest
      rw [packed_cons, holds_append] at holds
      rw [← packed_cons] at holds
      refine .cons ⟨by omega, holds.1, nonzero string (.head _)⟩
        (inductionHypothesis ?_ (by omega) fun other later => nonzero other (.tail _ later))
      have second := holds.2
      rw [List.length_append, List.length_singleton,
        show top - (packed (string :: rest)).length + (string.length + 1) =
          top - (packed rest).length by omega] at second
      exact second

end Memory

end LightOS
