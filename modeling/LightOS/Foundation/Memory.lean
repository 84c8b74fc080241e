import Mathlib.Algebra.Group.Nat.Defs

/-!
# Byte-addressed memory

A memory maps addresses to bytes.  All writes are instances of one
operation that replaces the bytes of an interval, and words are read and written
in little-endian order.  The lemmas say what a read sees of a write: the value
written, or what was there when the intervals do not meet.
-/

namespace LightOS

variable {address other start length otherLength : Nat}

/-- Content of a memory, by address. -/
structure Memory where
  byte : Nat → UInt8

namespace Memory

instance : CoeFun Memory fun _ => Nat → UInt8 :=
  ⟨byte⟩

/-- Replace the bytes of an interval. -/
def store (memory : Memory) (start length : Nat) (bytes : Nat → UInt8) : Memory :=
  ⟨fun address =>
    if start ≤ address ∧ address < start + length then
      bytes (address - start)
    else
      memory address⟩

/-- Set every byte of an interval to a value. -/
def fill (memory : Memory) (start length : Nat) (value : UInt8) : Memory :=
  memory.store start length fun _ => value

/-- Copy an interval. -/
def copy (memory : Memory) (target source length : Nat) : Memory :=
  memory.store target length fun offset => memory (source + offset)

/-- The 16-bit word at an address. -/
def half (memory : Memory) (address : Nat) : Nat :=
  (memory address).toNat + 256 * (memory (address + 1)).toNat

/-- Replace the 16-bit word at an address. -/
def setHalf (memory : Memory) (address value : Nat) : Memory :=
  memory.store address 2 fun offset => UInt8.ofNat (value / 256 ^ offset)

/-- Replace the byte at an address. -/
def setByte (memory : Memory) (address value : Nat) : Memory :=
  memory.store address 1 fun _ => UInt8.ofNat value

/-- The 32-bit word at an address. -/
def word (memory : Memory) (address : Nat) : Nat :=
  (memory address).toNat + 256 * (memory (address + 1)).toNat +
    65536 * (memory (address + 2)).toNat +
    16777216 * (memory (address + 3)).toNat

/-- Replace the 32-bit word at an address. -/
def setWord (memory : Memory) (address value : Nat) : Memory :=
  memory.store address 4 fun offset => UInt8.ofNat (value / 256 ^ offset)

/-- Two memories have the same bytes in an interval. -/
def AgreeOn (left right : Memory) (start length : Nat) : Prop :=
  ∀ address, start ≤ address → address < start + length →
    left address = right address

variable {memory left right : Memory}

theorem store_inside (bytes : Nat → UInt8) (above : start ≤ address)
    (below : address < start + length) :
    memory.store start length bytes address = bytes (address - start) := by
  simp [store, above, below]

theorem store_outside (bytes : Nat → UInt8) (outside : address < start ∨ start + length ≤ address) :
    memory.store start length bytes address = memory address := by
  have notInside : ¬(start ≤ address ∧ address < start + length) := by omega
  simp [store, notInside]

@[simp] theorem store_none (start : Nat) (bytes : Nat → UInt8) :
    memory.store start 0 bytes = memory := by
  have empty (address : Nat) : ¬(start ≤ address ∧ address < start + 0) := by omega
  simp only [store, empty, if_false]

theorem store_congr {bytes others : Nat → UInt8}
    (same : ∀ offset < length, bytes offset = others offset) :
    memory.store start length bytes = memory.store start length others := by
  unfold store
  congr 1
  funext address
  split
  · exact same _ (by omega)
  · rfl

/-- Two writes next to each other are one. -/
theorem store_append (start length more : Nat) (bytes others : Nat → UInt8) :
    (memory.store start length bytes).store (start + length) more others =
      memory.store start (length + more) fun offset =>
        if offset < length then bytes offset else others (offset - length) := by
  unfold store
  congr 1
  funext address
  dsimp only
  by_cases second : start + length ≤ address ∧ address < start + length + more
  · rw [if_pos second, if_pos (by omega), if_neg (by omega), Nat.sub_sub]
  rw [if_neg second]
  by_cases first : start ≤ address ∧ address < start + length
  · rw [if_pos first, if_pos (by omega), if_pos (by omega)]
  · rw [if_neg first, if_neg (by omega)]

/-- A write leaves the bytes of a disjoint interval alone. -/
theorem agreeOn_store (bytes : Nat → UInt8)
    (disjoint : other + otherLength ≤ start ∨ start + length ≤ other) :
    AgreeOn (memory.store start length bytes) memory other otherLength := by
  intro address above below
  exact store_outside bytes (by omega)

theorem AgreeOn.refl (memory : Memory) (start length : Nat) :
    AgreeOn memory memory start length :=
  fun _ _ _ => rfl

theorem AgreeOn.trans {first second third : Memory} (leftAgree : AgreeOn first second start length)
    (rightAgree : AgreeOn second third start length) : AgreeOn first third start length :=
  fun address above below =>
    (leftAgree address above below).trans (rightAgree address above below)

/-- Agreement on an interval restricts to the intervals inside it. -/
theorem AgreeOn.mono (agree : AgreeOn left right start length) (above : start ≤ other)
    (below : other + otherLength ≤ start + length) : AgreeOn left right other otherLength :=
  fun address atLeast atMost =>
    agree address (by omega) (by omega)

/-- Memories that agree on the bytes of a word read the same word. -/
theorem AgreeOn.word_eq (agree : AgreeOn left right address 4) :
    left.word address = right.word address := by
  unfold word
  rw [agree address (by omega) (by omega),
    agree (address + 1) (by omega) (by omega),
    agree (address + 2) (by omega) (by omega),
    agree (address + 3) (by omega) (by omega)]

/-- Words with the same bytes are the same, wherever they are. -/
theorem word_congr (same : ∀ k < 4, left (address + k) = right (other + k)) :
    left.word address = right.word other := by
  have first := same 0 (by omega)
  rw [Nat.add_zero, Nat.add_zero] at first
  unfold word
  rw [first, same 1 (by omega), same 2 (by omega), same 3 (by omega)]

/-- 16-bit words with the same bytes are the same, wherever they are. -/
theorem half_congr (same : ∀ k < 2, left (address + k) = right (other + k)) :
    left.half address = right.half other := by
  have first := same 0 (by omega)
  rw [Nat.add_zero, Nat.add_zero] at first
  unfold half
  rw [first, same 1 (by omega)]

theorem word_lt (memory : Memory) (address : Nat) :
    memory.word address < 2 ^ 32 := by
  have first := (memory address).toNat_lt
  have second := (memory (address + 1)).toNat_lt
  have third := (memory (address + 2)).toNat_lt
  have fourth := (memory (address + 3)).toNat_lt
  unfold word
  omega

/-- A word reads back as it was written. -/
@[simp] theorem word_setWord
    (memory : Memory) (address value : Nat) :
    (memory.setWord address value).word address = value % 2 ^ 32 := by
  have byte (offset : Nat) (inWord : offset < 4) :
      memory.setWord address value (address + offset) =
        UInt8.ofNat (value / 256 ^ offset) := by
    unfold setWord
    rw [store_inside _ (by omega) (by omega)]
    congr 3
    omega
  have first := byte 0 (by omega)
  rw [Nat.add_zero] at first
  unfold word
  rw [first, byte 1 (by omega), byte 2 (by omega), byte 3 (by omega)]
  simp only [UInt8.toNat_ofNat']
  omega

/-- Writing a word leaves the bytes of a disjoint interval alone. -/
theorem agreeOn_setWord (value : Nat)
    (disjoint : other + otherLength ≤ address ∨ address + 4 ≤ other) :
    AgreeOn (memory.setWord address value) memory other otherLength :=
  agreeOn_store _ disjoint

/-- Writing a word leaves a disjoint word alone. -/
theorem word_setWord_other (value : Nat) (disjoint : other + 4 ≤ address ∨ address + 4 ≤ other) :
    (memory.setWord address value).word other = memory.word other :=
  (agreeOn_setWord value disjoint).word_eq

/-- Memories that agree on the bytes of a 16-bit word read the same word. -/
theorem AgreeOn.half_eq (agree : AgreeOn left right address 2) :
    left.half address = right.half address := by
  unfold half
  rw [agree address (by omega) (by omega),
    agree (address + 1) (by omega) (by omega)]

theorem half_lt (memory : Memory) (address : Nat) :
    memory.half address < 2 ^ 16 := by
  have first := (memory address).toNat_lt
  have second := (memory (address + 1)).toNat_lt
  unfold half
  omega

/-- A 16-bit word reads back as it was written. -/
@[simp] theorem half_setHalf
    (memory : Memory) (address value : Nat) :
    (memory.setHalf address value).half address = value % 2 ^ 16 := by
  have first : memory.setHalf address value address = UInt8.ofNat value := by
    unfold setHalf
    rw [store_inside _ (by omega) (by omega)]
    simp
  have second : memory.setHalf address value (address + 1) =
      UInt8.ofNat (value / 256) := by
    unfold setHalf
    rw [store_inside _ (by omega) (by omega)]
    simp
  unfold half
  rw [first, second]
  simp only [UInt8.toNat_ofNat']
  omega

/-- Writing a 16-bit word leaves the bytes of a disjoint interval alone. -/
theorem agreeOn_setHalf (value : Nat)
    (disjoint : other + otherLength ≤ address ∨ address + 2 ≤ other) :
    AgreeOn (memory.setHalf address value) memory other otherLength :=
  agreeOn_store _ disjoint

/-- Writing a 16-bit word leaves a disjoint one alone. -/
theorem half_setHalf_other (value : Nat) (disjoint : other + 2 ≤ address ∨ address + 2 ≤ other) :
    (memory.setHalf address value).half other = memory.half other :=
  (agreeOn_setHalf value disjoint).half_eq

/-- A byte reads back as it was written. -/
@[simp] theorem setByte_self
    (memory : Memory) (address value : Nat) :
    memory.setByte address value address = UInt8.ofNat value :=
  store_inside _ (by omega) (by omega)

/-- Writing a byte leaves the bytes of a disjoint interval alone. -/
theorem agreeOn_setByte (value : Nat)
    (disjoint : other + otherLength ≤ address ∨ address + 1 ≤ other) :
    AgreeOn (memory.setByte address value) memory other otherLength :=
  agreeOn_store _ disjoint

theorem half_setByte_other (value : Nat) (disjoint : other + 2 ≤ address ∨ address + 1 ≤ other) :
    (memory.setByte address value).half other = memory.half other :=
  (agreeOn_setByte value disjoint).half_eq

theorem word_setByte_other (value : Nat) (disjoint : other + 4 ≤ address ∨ address + 1 ≤ other) :
    (memory.setByte address value).word other = memory.word other :=
  (agreeOn_setByte value disjoint).word_eq

theorem setByte_other (value : Nat) (different : other ≠ address) :
    memory.setByte address value other = memory other :=
  store_outside _ (by omega)

theorem setHalf_other (value : Nat) (outside : other < address ∨ address + 2 ≤ other) :
    memory.setHalf address value other = memory other :=
  store_outside _ outside

theorem setWord_other (value : Nat) (outside : other < address ∨ address + 4 ≤ other) :
    memory.setWord address value other = memory other :=
  store_outside _ outside

/-- Writing a 32-bit word leaves a disjoint 16-bit word alone. -/
theorem half_setWord_other (value : Nat) (disjoint : other + 2 ≤ address ∨ address + 4 ≤ other) :
    (memory.setWord address value).half other = memory.half other :=
  (agreeOn_setWord value disjoint).half_eq

/-- Writing a 16-bit word leaves a disjoint 32-bit word alone. -/
theorem word_setHalf_other (value : Nat) (disjoint : other + 4 ≤ address ∨ address + 2 ≤ other) :
    (memory.setHalf address value).word other = memory.word other :=
  (agreeOn_setHalf value disjoint).word_eq

/-- A memory differs from another only inside an interval. -/
def ChangesIn (before after : Memory) (start length : Nat) : Prop :=
  ∀ address, address < start ∨ start + length ≤ address →
    after address = before address

namespace ChangesIn

variable {before after : Memory}

theorem refl (memory : Memory) (start length : Nat) :
    ChangesIn memory memory start length :=
  fun _ _ => rfl

theorem trans {middle : Memory}
    (first : ChangesIn before middle start length)
    (second : ChangesIn middle after start length) :
    ChangesIn before after start length :=
  fun address outside =>
    (second address outside).trans (first address outside)

/-- A change inside an interval is a change inside every larger interval. -/
theorem mono {larger largerLength : Nat}
    (changes : ChangesIn before after start length)
    (above : larger ≤ start)
    (below : start + length ≤ larger + largerLength) :
    ChangesIn before after larger largerLength :=
  fun address outside => changes address (by omega)

/-- A change inside an interval leaves disjoint intervals alone. -/
theorem agreeOn (changes : ChangesIn before after start length)
    (disjoint : other + otherLength ≤ start ∨ start + length ≤ other) :
    AgreeOn after before other otherLength :=
  fun address above below => changes address (by omega)

end ChangesIn

theorem changesIn_store
    (memory : Memory) (start length : Nat) (bytes : Nat → UInt8) :
    ChangesIn memory (memory.store start length bytes) start length :=
  fun _ outside => store_outside bytes outside

theorem changesIn_setHalf (memory : Memory) (address value : Nat) :
    ChangesIn memory (memory.setHalf address value) address 2 :=
  changesIn_store memory address 2 _

theorem changesIn_setByte (memory : Memory) (address value : Nat) :
    ChangesIn memory (memory.setByte address value) address 1 :=
  changesIn_store memory address 1 _

theorem changesIn_setWord (memory : Memory) (address value : Nat) :
    ChangesIn memory (memory.setWord address value) address 4 :=
  changesIn_store memory address 4 _

end Memory

end LightOS
