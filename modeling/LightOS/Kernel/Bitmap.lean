import LightOS.Foundation.Memory
import LightOS.Kernel.Fault
import Mathlib.Data.Nat.Init

/-!
# Bitmaps

The functions of `bitmap.c` over a byte memory.  A bitmap owns an interval of
bytes; its indexes start at an offset.  The scan is a first fit: it marks the
least run of clear bits of the wanted length.
-/

namespace LightOS

/-- The structure `bitmap_t`: address of the bits, number of bytes, and index of
the first bit.  Indexes are sums that do not wrap around at `2 ^ 32`, as the offset
of a zone map without a zone in front of it would have them do. -/
structure Bitmap where
  bits : Nat
  length : Nat
  offset : Nat

namespace Bitmap

/-- Bit of a byte. -/
def byteBit (byte : UInt8) (bit : Nat) : Bool :=
  byte.toNat.testBit bit

/-- Bit of a bitmap, counted from its first. -/
def bit (map : Bitmap) (memory : Memory) (index : Nat) : Bool :=
  byteBit (memory (map.bits + index / 8)) (index % 8)

/-- `bitmap_test`. -/
def test (map : Bitmap) (memory : Memory) (index : Nat) : Except Fault Bool := do
  check (map.offset ≤ index)
  check ((index - map.offset) / 8 < map.length)
  return map.bit memory (index - map.offset)

/-- `bitmap_set`. -/
def set (map : Bitmap) (memory : Memory) (index : Nat) (value : Bool) :
    Except Fault Memory := do
  check (map.offset ≤ index)
  let idx := index - map.offset
  check (idx / 8 < map.length)
  let address := map.bits + idx / 8
  let mask : UInt8 := 1 <<< UInt8.ofNat (idx % 8)
  let byte := if value then memory address ||| mask else memory address &&& ~~~mask
  return memory.store address 1 fun _ => byte

/-- The first loop of `bitmap_scan`: `left` bits are still to be looked at, and
the last `counter` bits before `index` were clear. -/
def search (map : Bitmap) (memory : Memory) (count : Nat) :
    Nat → Nat → Nat → Except Fault (Option Nat)
  | 0, _, _ => .ok none
  | left + 1, index, counter => do
      let taken ← map.test memory (map.offset + index)
      let counter := if taken then 0 else counter + 1
      if counter = count then
        return some (index + 1 - count)
      else
        search map memory count left (index + 1) counter

/-- The second loop of `bitmap_scan`: mark `left` bits from `index` on. -/
def mark (map : Bitmap) : Memory → Nat → Nat → Except Fault Memory
  | memory, 0, _ => .ok memory
  | memory, left + 1, index => do
      mark map (← map.set memory (map.offset + index) true) left (index + 1)

/-- `bitmap_scan`. -/
def scan (map : Bitmap) (memory : Memory) (count : Nat) :
    Except Fault (Option (Nat × Memory)) := do
  match ← map.search memory count (map.length * 8) 0 0 with
  | none => return none
  | some start =>
      return some (start + map.offset, ← map.mark memory count start)

/-- The bits of a mask with one bit set, and of its complement. -/
theorem testBit_mask :
    ∀ bit other : Fin 8,
      (1 <<< UInt8.ofNat bit.val : UInt8).toNat.testBit other.val =
          decide (other = bit) ∧
        (~~~(1 <<< UInt8.ofNat bit.val) : UInt8).toNat.testBit other.val =
          decide (other ≠ bit) := by
  decide

/-- Setting or clearing a bit of a byte. -/
theorem byteBit_write (byte : UInt8) {bit other : Nat} (value : Bool)
    (inByte : bit < 8) (otherInByte : other < 8) :
    byteBit (if value then byte ||| (1 <<< UInt8.ofNat bit)
      else byte &&& ~~~(1 <<< UInt8.ofNat bit)) other =
        if other = bit then value else byteBit byte other := by
  obtain ⟨set, cleared⟩ := testBit_mask ⟨bit, inByte⟩ ⟨other, otherInByte⟩
  simp only [Fin.mk.injEq] at set cleared
  unfold byteBit
  cases value with
  | true =>
      simp only [if_true, UInt8.toNat_or, Nat.testBit_or, set]
      split <;> simp_all
  | false =>
      simp only [Bool.false_eq_true, if_false, UInt8.toNat_and, Nat.testBit_and,
        cleared]
      split <;> simp_all

variable {map : Bitmap} {memory : Memory}

/-- A test inside the bitmap reads the bit. -/
theorem test_eq
    (memory : Memory) {index : Nat} (inside : index < map.length * 8) :
    map.test memory (map.offset + index) = .ok (map.bit memory index) := by
  have bounded : index / 8 < map.length := by omega
  simp [test, check, bounded]

/-- Writing a bit inside the bitmap changes that bit only, and no byte outside
the interval of the bitmap. -/
theorem set_spec
    (memory : Memory) {index : Nat} (inside : index < map.length * 8)
    (value : Bool) :
    ∃ after, map.set memory (map.offset + index) value = .ok after ∧
      (∀ other, map.bit after other =
        if other = index then value else map.bit memory other) ∧
      ∀ address, address < map.bits ∨ map.bits + map.length ≤ address →
        after address = memory address := by
  have start : map.offset ≤ map.offset + index := by omega
  have bounded : (map.offset + index - map.offset) / 8 < map.length := by omega
  have inByte : index / 8 < map.length := by omega
  refine ⟨_, by simp only [set, check, start, bounded, if_true, ok_bind,
    pure_eq_ok]; rfl, ?_, ?_⟩
  · intro other
    simp only [Nat.add_sub_cancel_left]
    unfold bit
    by_cases sameByte : other / 8 = index / 8
    · rw [Memory.store_inside _ (by omega) (by omega), sameByte,
        byteBit_write _ _ (by omega) (by omega)]
      have same : other % 8 = index % 8 ↔ other = index := by omega
      simp only [same]
    · rw [Memory.store_outside _ (by omega)]
      have different : other ≠ index := by
        rintro rfl
        exact sameByte rfl
      simp [different]
  · intro address outside
    exact Memory.store_outside _ (by omega)

/-- Marking a run inside the bitmap sets its bits and changes no other. -/
theorem mark_spec
    (memory : Memory) (count : Nat) {start : Nat}
    (inside : start + count ≤ map.length * 8) :
    ∃ after, map.mark memory count start = .ok after ∧
      (∀ other, map.bit after other =
        (decide (start ≤ other ∧ other < start + count) ||
          map.bit memory other)) ∧
      ∀ address, address < map.bits ∨ map.bits + map.length ≤ address →
        after address = memory address := by
  induction count generalizing start memory with
  | zero =>
      refine ⟨memory, rfl, fun other => ?_, fun _ _ => rfl⟩
      have empty : ¬(start ≤ other ∧ other < start + 0) := by omega
      rw [decide_eq_false empty, Bool.false_or]
  | succ count inductionHypothesis =>
      have firstInside : start < map.length * 8 := by omega
      obtain ⟨middle, isSet, middleBit, middleOutside⟩ :=
        set_spec memory firstInside true
      have rest : start + 1 + count ≤ map.length * 8 := by omega
      obtain ⟨after, isMarked, afterBit, afterOutside⟩ :=
        inductionHypothesis middle rest
      refine ⟨after, by simp [mark, isSet, isMarked], fun other => ?_, ?_⟩
      · rw [afterBit, middleBit]
        by_cases same : other = start
        · subst same
          simp
        · have within : (start + 1 ≤ other ∧ other < start + 1 + count) ↔
              (start ≤ other ∧ other < start + (count + 1)) := by omega
          simp only [within, same, if_false]
      · intro address outside
        rw [afterOutside address outside, middleOutside address outside]

/-- The bits of a run are all clear. -/
def ClearRun (map : Bitmap) (memory : Memory) (start count : Nat) : Prop :=
  ∀ index, start ≤ index → index < start + count →
    map.bit memory index = false

/-- The search returns the least clear run, or nothing when there is none. -/
theorem search_spec
    (map : Bitmap) (memory : Memory) {count : Nat} (positive : 0 < count)
    (left : Nat) {index counter : Nat}
    (total : index + left = map.length * 8)
    (short : counter < count)
    (counted : counter ≤ index)
    (clear : map.ClearRun memory (index - counter) counter)
    (maximal : counter < index → map.bit memory (index - counter - 1) = true)
    (missed : ∀ start, start + count ≤ index →
      ¬map.ClearRun memory start count) :
    (map.search memory count left index counter = .ok none ∧
      ∀ start, start + count ≤ map.length * 8 →
        ¬map.ClearRun memory start count) ∨
    ∃ start, map.search memory count left index counter = .ok (some start) ∧
      start + count ≤ map.length * 8 ∧
      map.ClearRun memory start count ∧
      ∀ earlier, earlier < start → ¬map.ClearRun memory earlier count := by
  induction left generalizing index counter with
  | zero =>
      refine .inl ⟨rfl, fun start bounded => missed start (by omega)⟩
  | succ left inductionHypothesis =>
      have inside : index < map.length * 8 := by omega
      have tested := test_eq memory inside
      simp only [search, tested, ok_bind]
      cases taken : map.bit memory index with
      | true =>
          have notYet : 0 ≠ count := by omega
          simp only [if_true, notYet, if_false]
          refine inductionHypothesis (by omega) positive (by omega) ?_ ?_ ?_
          · intro other above below
            omega
          · intro _
            exact taken
          · intro start bounded
            by_cases earlier : start + count ≤ index
            · exact missed start earlier
            · intro run
              have isClear := run index (by omega) (by omega)
              simp [taken] at isClear
      | false =>
          simp only [Bool.false_eq_true, if_false]
          have extended :
              map.ClearRun memory (index - counter) (counter + 1) := by
            intro other above below
            by_cases last : other = index
            · rw [last, taken]
            · exact clear other above (by omega)
          split
          · rename_i found
            refine .inr ⟨index + 1 - count, rfl, by omega, ?_, ?_⟩
            · have begins : index + 1 - count = index - counter := by omega
              rw [begins, ← found]
              exact extended
            · intro earlier before
              exact missed earlier (by omega)
          · rename_i notFound
            refine inductionHypothesis (by omega) (by omega) (by omega) ?_ ?_ ?_
            · have begins : index + 1 - (counter + 1) = index - counter := by
                omega
              rw [begins]
              exact extended
            · intro inside
              have before : index + 1 - (counter + 1) - 1 =
                  index - counter - 1 := by omega
              rw [before]
              exact maximal (by omega)
            · intro start bounded
              by_cases earlier : start + count ≤ index
              · exact missed start earlier
              · intro run
                have isClear := run (index - counter - 1) (by omega) (by omega)
                rw [maximal (by omega)] at isClear
                cases isClear

/-- `bitmap_scan` is first fit: it marks the least clear run and returns where
it begins, or returns nothing when there is none. -/
theorem scan_spec
    (map : Bitmap) (memory : Memory) {count : Nat} (positive : 0 < count) :
    (map.scan memory count = .ok none ∧
      ∀ start, start + count ≤ map.length * 8 →
        ¬map.ClearRun memory start count) ∨
    ∃ start after,
      map.scan memory count = .ok (some (start + map.offset, after)) ∧
      start + count ≤ map.length * 8 ∧
      map.ClearRun memory start count ∧
      (∀ earlier, earlier < start → ¬map.ClearRun memory earlier count) ∧
      (∀ other, map.bit after other =
        (decide (start ≤ other ∧ other < start + count) ||
          map.bit memory other)) ∧
      ∀ address, address < map.bits ∨ map.bits + map.length ≤ address →
        after address = memory address := by
  have empty : map.ClearRun memory (0 - 0) 0 := by
    intro index _ below
    omega
  rcases map.search_spec memory positive (map.length * 8) (Nat.zero_add _)
      positive (Nat.le_refl _) empty (fun impossible => absurd impossible (by omega))
      (fun start bounded => absurd bounded (by omega)) with
    ⟨notFound, none⟩ | ⟨start, found, bounded, run, least⟩
  · exact .inl ⟨by simp [scan, notFound], none⟩
  · obtain ⟨after, isMarked, afterBit, afterOutside⟩ :=
      mark_spec memory count bounded
    exact .inr ⟨start, after, by simp [scan, found, isMarked], bounded, run,
      least, afterBit, afterOutside⟩

end Bitmap

end LightOS
