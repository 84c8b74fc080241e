import LightOS.Foundation.Words
import LightOS.Kernel.Bitmap

/-!
# First fit on machine words

`bitmap_scan` with the words of the target: indexes and counters wrap, and the start of
the run is a signed number with `EOF` for none.  Every byte that is read or written is
noted.  On a bitmap whose last index is below the sign bit nothing wraps, and the scan is
that of `Bitmap`.
-/

namespace LightOS
namespace Bitmap

/-- A memory, with the numbers of the bytes of a bitmap that were read or written. -/
structure Traced where
  memory : Memory
  touched : List Nat

namespace Traced

/-- `bitmap_test`. -/
def bitmapTest (s : Traced) (map : Bitmap) (index : Nat) : Except Fault (Bool × Traced) := do
  check (map.offset ≤ index)
  let idx := sub32 index map.offset
  let bytes := idx / 8
  let bits := idx % 8
  check (bytes < map.length)
  return (byteBit (s.memory (map.bits + bytes)) bits, { s with touched := bytes :: s.touched })

/-- `bitmap_set`. -/
def bitmapSet (s : Traced) (map : Bitmap) (index : Nat) (value : Bool) : Except Fault Traced := do
  check (map.offset ≤ index)
  let idx := sub32 index map.offset
  let bytes := idx / 8
  check (bytes < map.length)
  let bits := idx % 8
  let byte := s.memory (map.bits + bytes)
  let mask : UInt8 := 1 <<< UInt8.ofNat bits
  let byte := if value then byte ||| mask else byte &&& ~~~mask
  return ⟨s.memory.store (map.bits + bytes) 1 fun _ => byte, bytes :: s.touched⟩

/-- The first loop of `bitmap_scan`. -/
def findRun (map : Bitmap) (count : Nat) :
    (bitsLeft index counter : Nat) → Traced → Except Fault (Int × Traced)
  | 0, _, _, s => return (-1, s)
  | bitsLeft + 1, index, counter, s => do
      let (taken, s) ← s.bitmapTest map (add32 map.offset index)
      let counter := if taken then 0 else add32 counter 1
      let index := add32 index 1
      if counter = count then
        return (toSigned (sub32 index count), s)
      else
        findRun map count bitsLeft index counter s

/-- The second loop of `bitmap_scan`. -/
def markRun (map : Bitmap) : (bitsLeft index : Nat) → Traced → Except Fault Traced
  | 0, _, s => return s
  | bitsLeft + 1, index, s => do
      let s ← s.bitmapSet map (add32 map.offset index) true
      markRun map bitsLeft (add32 index 1) s

/-- `bitmap_scan`. -/
def bitmapScan (s : Traced) (map : Bitmap) (count : Nat) : Except Fault (Int × Traced) := do
  let (start, s) ← findRun map count (map.length * 8 % 2 ^ 32) 0 0 s
  if start = -1 then
    return (-1, s)
  else
    let s ← markRun map count (toUnsigned start) s
    return (toSigned (add32 (toUnsigned start) map.offset), s)

/-- Every byte that was read or written since is a byte of the bitmap. -/
def Within (map : Bitmap) (s after : Traced) : Prop :=
  ∀ bytes ∈ after.touched, bytes ∈ s.touched ∨ bytes < map.length

variable {map : Bitmap} {s middle after : Traced}

theorem Within.refl (map : Bitmap) (s : Traced) : Within map s s :=
  fun _ => .inl

theorem Within.trans (first : Within map s middle) (second : Within map middle after) :
    Within map s after := by
  intro bytes isTouched
  rcases second bytes isTouched with before | inside
  · exact first bytes before
  · exact .inr inside

/-- A step that touches one byte of the bitmap. -/
theorem Within.cons {bytes : Nat} (inside : bytes < map.length) (memory : Memory) :
    Within map s ⟨memory, bytes :: s.touched⟩ := by
  intro other isTouched
  rcases List.mem_cons.mp isTouched with rfl | before
  · exact .inr inside
  · exact .inl before

/-- The index of a bit is a word, and the number of the bit is found from it. -/
theorem sub32_add32 {index : Nat} (small : map.offset + 8 * map.length < 2 ^ 31)
    (inside : index < map.length * 8) :
    map.offset ≤ add32 map.offset index ∧ sub32 (add32 map.offset index) map.offset = index := by
  have fits : add32 map.offset index = map.offset + index :=
    Nat.mod_eq_of_lt (by omega)
  rw [fits, sub32_eq (Nat.le_add_right _ _)]
  omega

/-- A test inside the bitmap reads one byte of it. -/
theorem bitmapTest_eq {index : Nat} (small : map.offset + 8 * map.length < 2 ^ 31)
    (inside : index < map.length * 8) (s : Traced) :
    s.bitmapTest map (add32 map.offset index) =
      .ok (map.bit s.memory index, { s with touched := index / 8 :: s.touched }) := by
  obtain ⟨above, isIndex⟩ := sub32_add32 small inside
  have inLength : index / 8 < map.length := by omega
  simp only [bitmapTest, isIndex, check_true above, check_true inLength, ok_bind, pure_eq_ok, bit]

/-- Setting a bit inside the bitmap touches one byte of it. -/
theorem bitmapSet_eq {index : Nat} (small : map.offset + 8 * map.length < 2 ^ 31)
    (inside : index < map.length * 8) {value : Bool} {memory : Memory}
    (isSet : map.set s.memory (map.offset + index) value = .ok memory) :
    s.bitmapSet map (add32 map.offset index) value = .ok ⟨memory, index / 8 :: s.touched⟩ := by
  obtain ⟨above, isIndex⟩ := sub32_add32 small inside
  have inLength : index / 8 < map.length := by omega
  have start : map.offset ≤ map.offset + index := by omega
  simp only [set, Nat.add_sub_cancel_left, check_true start, check_true inLength, ok_bind,
    pure_eq_ok, Except.ok.injEq] at isSet
  simp only [bitmapSet, isIndex, check_true above, check_true inLength, ok_bind, pure_eq_ok, isSet]

/-- The start of a run as the first loop has it. -/
def startOf : Option Nat → Int
  | none => -1
  | some start => start

/-- The first loop is the search, and touches no byte behind the bitmap. -/
theorem findRun_spec (small : map.offset + 8 * map.length < 2 ^ 31) {count : Nat} (left : Nat)
    {index counter : Nat} (total : index + left = map.length * 8) (counted : counter ≤ index)
    {found : Option Nat} (searched : map.search s.memory count left index counter = .ok found) :
    ∃ touched, findRun map count left index counter s =
        .ok (startOf found, { s with touched := touched }) ∧
      Within map s { s with touched := touched } := by
  induction left generalizing index counter s with
  | zero =>
      cases searched
      exact ⟨s.touched, rfl, .refl map s⟩
  | succ left inductionHypothesis =>
      have inside : index < map.length * 8 := by omega
      have next : add32 index 1 = index + 1 := Nat.mod_eq_of_lt (by omega)
      have more : add32 counter 1 = counter + 1 := Nat.mod_eq_of_lt (by omega)
      have touches : Within map s { s with touched := index / 8 :: s.touched } :=
        .cons (by omega) s.memory
      simp only [search, test_eq _ inside, ok_bind] at searched
      simp only [findRun, bitmapTest_eq small inside, ok_bind, next, more]
      have atMost : (if map.bit s.memory index then 0 else counter + 1) ≤ index + 1 := by
        split <;> omega
      generalize (if map.bit s.memory index then 0 else counter + 1) = counter at *
      by_cases isCount : counter = count
      · rw [if_pos isCount] at searched ⊢
        cases searched
        refine ⟨_, ?_, touches⟩
        rw [sub32_eq (by omega), toSigned_of_lt (by omega)]
        rfl
      · rw [if_neg isCount] at searched ⊢
        obtain ⟨touched, ran, within⟩ := inductionHypothesis
          (s := { s with touched := index / 8 :: s.touched }) (by omega) atMost searched
        exact ⟨touched, ran, touches.trans within⟩

/-- The second loop marks the run, and touches no byte behind the bitmap. -/
theorem markRun_spec (small : map.offset + 8 * map.length < 2 ^ 31) (count : Nat) {start : Nat}
    (inside : start + count ≤ map.length * 8) {memory : Memory}
    (marked : map.mark s.memory count start = .ok memory) :
    ∃ touched, markRun map count start s = .ok ⟨memory, touched⟩ ∧
      Within map s ⟨memory, touched⟩ := by
  induction count generalizing start s with
  | zero =>
      cases marked
      exact ⟨s.touched, rfl, .refl map s⟩
  | succ count inductionHypothesis =>
      simp only [mark, bind_eq_ok] at marked
      obtain ⟨middle, isSet, rest⟩ := marked
      have next : add32 start 1 = start + 1 := Nat.mod_eq_of_lt (by omega)
      simp only [markRun, bitmapSet_eq small (by omega) isSet, ok_bind, next]
      obtain ⟨touched, ran, within⟩ := inductionHypothesis
        (s := ⟨middle, start / 8 :: s.touched⟩) (by omega) rest
      exact ⟨touched, ran, (Within.cons (by omega) middle).trans within⟩

/-- `bitmap_scan` marks the least run of clear bits and returns the index of its first, or
returns `EOF` and changes nothing when there is none.  It reads and writes no byte behind
the bitmap. -/
theorem bitmapScan_firstFit (map : Bitmap) (memory : Memory) {count : Nat} (positive : 1 ≤ count)
    (small : map.offset + 8 * map.length < 2 ^ 31) :
    ∃ result after, bitmapScan ⟨memory, []⟩ map count = .ok (result, after) ∧
      (∀ bytes ∈ after.touched, bytes < map.length) ∧
      ((result = -1 ∧ after.memory = memory ∧
          ∀ start, start + count ≤ map.length * 8 → ¬map.ClearRun memory start count) ∨
        ∃ start : Nat, result = map.offset + start ∧ start + count ≤ map.length * 8 ∧
          map.ClearRun memory start count ∧
          (∀ earlier < start, ¬map.ClearRun memory earlier count) ∧
          (∀ other, map.bit after.memory other =
            (decide (start ≤ other ∧ other < start + count) || map.bit memory other)) ∧
          ∀ address, address < map.bits ∨ map.bits + map.length ≤ address →
            after.memory address = memory address) := by
  have length : map.length * 8 % 2 ^ 32 = map.length * 8 := Nat.mod_eq_of_lt (by omega)
  have searches {found : Option Nat} (searched : map.search memory count (map.length * 8) 0 0 =
      .ok found) :=
    findRun_spec (s := ⟨memory, []⟩) small _ (Nat.zero_add _) (Nat.le_refl 0) searched
  have inside {touched : List Nat} {changed : Memory}
      (within : Within map ⟨memory, []⟩ ⟨changed, touched⟩) :
      ∀ bytes ∈ touched, bytes < map.length :=
    fun bytes isTouched => (within bytes isTouched).resolve_left List.not_mem_nil
  rcases map.scan_spec memory positive with
    ⟨scanned, none⟩ | ⟨start, marked, scanned, bounded, run, least, isMarked, outside⟩
  all_goals
    simp only [scan, bind_eq_ok] at scanned
    obtain ⟨found, searched, result⟩ := scanned
    obtain ⟨touched, looked, within⟩ := searches searched
  · cases found with
    | some start => simp at result
    | none =>
        refine ⟨-1, ⟨memory, touched⟩, ?_, inside within, .inl ⟨rfl, rfl, none⟩⟩
        simp only [bitmapScan, length, looked, ok_bind, startOf, if_true, pure_eq_ok]
  · cases found with
    | none => cases result
    | some first =>
        simp only [bind_eq_ok, pure_eq_ok, Except.ok.injEq, Option.some.injEq,
          Prod.mk.injEq] at result
        obtain ⟨changed, isChanged, same, rfl⟩ := result
        obtain rfl : first = start := by omega
        obtain ⟨all, ran, more⟩ := markRun_spec (s := ⟨memory, touched⟩) small count bounded
          isChanged
        have notEof : startOf (some first) ≠ -1 := by
          simp only [startOf]
          omega
        have word : toUnsigned (startOf (some first)) = first := toUnsigned_natCast (by omega)
        have sum : toSigned (add32 first map.offset) = map.offset + first := by
          have fits : add32 first map.offset = first + map.offset := Nat.mod_eq_of_lt (by omega)
          rw [fits, toSigned_of_lt (by omega)]
          omega
        refine ⟨map.offset + first, ⟨changed, all⟩, ?_, inside (within.trans more),
          .inr ⟨first, rfl, bounded, run, least, isMarked, outside⟩⟩
        simp only [bitmapScan, length, looked, ok_bind, if_neg notEof, word, ran, sum, pure_eq_ok]

/-- One byte with its first bit in use, and a scan for two bits. -/
theorem bitmapScan_firstFit_byte : ∃ result after,
    bitmapScan ⟨⟨fun _ => 1⟩, []⟩ ⟨0, 1, 7⟩ 2 = .ok (result, after) ∧
      ∀ bytes ∈ after.touched, bytes < 1 := by
  obtain ⟨result, after, scanned, within, _⟩ :=
    bitmapScan_firstFit ⟨0, 1, 7⟩ ⟨fun _ => 1⟩ (show 1 ≤ 2 by decide) (by decide)
  exact ⟨result, after, scanned, within⟩

end Traced
end Bitmap
end LightOS
