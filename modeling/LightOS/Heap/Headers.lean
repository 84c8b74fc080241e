import LightOS.Heap.Arena

/-!
# Headers in memory

A header in memory holds a cell when its fields say what the cell says.  The
lemmas follow the writes of `arena.c` to single headers and carry whole runs of
headers through changes of the memory elsewhere.
-/

namespace LightOS

open Arena Blocks Memory

/-- The fields of a header say what a cell says. -/
structure Holds (memory : Memory) (arena : Nat) (cell : Cell) : Prop where
  magic : magic memory arena = arenaMagic
  used : isUsed memory arena = cell.used
  back : backPtr memory arena = cell.back
  forward : forwardPtr memory arena = cell.forward
  length : Arena.length memory arena = cell.length
  buf : buf memory arena = arena + arenaSize

/-- The headers of a run of blocks hold the cells of a list. -/
def Placed (memory : Memory) (start : Nat) (cells : List Cell) : Prop :=
  ∀ arena cell, (arena, cell) ∈ place arenaSize start cells →
    Holds memory arena cell

variable {memory memory' : Memory} {arena : Nat} {cell : Cell}

/-- A header keeps its cell when its bytes keep their values. -/
theorem Holds.of_agreeOn
    (holds : Holds memory arena cell)
    (agree : AgreeOn memory' memory arena arenaSize) :
    Holds memory' arena cell := by
  have word (offset : Nat) (inside : offset ≤ 24) :
      memory'.word (arena + offset) = memory.word (arena + offset) :=
    (agree.mono (by omega) (by simp only [arenaSize]; omega)).word_eq
  have first : memory'.word arena = memory.word arena := word 0 (by omega)
  obtain ⟨magic, used, back, forward, length, buf⟩ := holds
  constructor
  case magic => rw [← magic, Arena.magic, first, Arena.magic]
  case used => rw [← used, isUsed, first, isUsed]
  case back => rw [← back, backPtr, word 4 (by omega), backPtr]
  case forward => rw [← forward, forwardPtr, word 8 (by omega), forwardPtr]
  case length => rw [← length, Arena.length, word 20 (by omega), Arena.length]
  case buf => rw [← buf, Arena.buf, word 24 (by omega), Arena.buf]

/-- The values that a header can hold fit into its fields. -/
theorem Holds.bounds (holds : Holds memory arena cell) :
    cell.length < 2 ^ 32 ∧ cell.back < 2 ^ 32 ∧ cell.forward < 2 ^ 32 := by
  rw [← holds.length, ← holds.back, ← holds.forward]
  exact ⟨word_lt _ _, word_lt _ _, word_lt _ _⟩

theorem changesIn_setUsed (memory : Memory) (arena : Nat) (value : Bool) :
    ChangesIn memory (setUsed memory arena value) arena arenaSize :=
  (changesIn_setWord memory arena _).mono (Nat.le_refl _)
    (Nat.add_le_add_left (by decide) _)

/-- Writing `is_used` changes this field only. -/
theorem Holds.setUsed
    (holds : Holds memory arena cell) (value : Bool) :
    Holds (setUsed memory arena value) arena { cell with used := value } := by
  have small := memory.word_lt arena
  obtain ⟨magic, used, back, forward, length, buf⟩ := holds
  simp only [Arena.magic, isUsed, backPtr, forwardPtr, Arena.length,
    Arena.buf] at *
  constructor <;>
    simp (disch := omega) only [Arena.magic, isUsed, backPtr, forwardPtr,
      Arena.length, Arena.buf, Arena.setUsed, word_setWord,
      word_setWord_other, back, forward, length, buf]
  · cases value <;> simp only [Bool.false_eq_true, if_false, if_true] <;> omega
  · cases value <;>
      simp only [Bool.false_eq_true, if_false, if_true, decide_eq_true_eq,
        decide_eq_false_iff_not] <;> omega

/-- The header that `_arena_add_new_pages` writes. -/
theorem holds_newArena
    (memory : Memory) {arena pageCnt : Nat}
    (arenaBound : arena + arenaSize < 2 ^ 32)
    (positive : 0 < pageCnt)
    (small : pageSize * pageCnt < 2 ^ 32) :
    Holds (Heap.newArena memory arena pageCnt) arena
      ⟨pageSize * pageCnt - arenaSize, false, 0, 0⟩ := by
  have word := memory.word_lt arena
  simp only [arenaSize, pageSize] at *
  constructor <;>
    simp (disch := omega) only [Arena.magic, isUsed, backPtr, forwardPtr,
      Arena.length, Arena.buf, Heap.newArena, setMagic, setHead, setBackPtr,
      setForwardPtr, Arena.setUsed, setBuf, setLength, word_setWord,
      word_setWord_other, add32, sub32, arenaMagic, arenaSize, pageSize,
      Bool.false_eq_true, if_false, if_true, decide_eq_false_iff_not,
      Nat.zero_mod]
  · omega
  · omega
  · split <;> omega
  · omega

theorem changesIn_newArena (memory : Memory) (arena pageCnt : Nat) :
    ChangesIn memory (Heap.newArena memory arena pageCnt) arena arenaSize := by
  intro address outside
  simp only [arenaSize] at outside
  simp (disch := omega) only [Heap.newArena, setMagic, setHead, setBackPtr,
    setForwardPtr, Arena.setUsed, setBuf, setLength, setWord, store_outside]

theorem changesIn_setLength (memory : Memory) (arena value : Nat) :
    ChangesIn memory (setLength memory arena value) arena arenaSize :=
  (changesIn_setWord memory _ _).mono (by omega)
    (by simp only [arenaSize]; omega)

/-- Writing `length` changes this field only. -/
theorem Holds.setLength
    (holds : Holds memory arena cell) {value : Nat} (small : value < 2 ^ 32) :
    Holds (setLength memory arena value) arena { cell with length := value } := by
  obtain ⟨magic, used, back, forward, length, buf⟩ := holds
  simp only [Arena.magic, isUsed, backPtr, forwardPtr, Arena.length,
    Arena.buf] at *
  constructor <;>
    simp (disch := omega) only [Arena.magic, isUsed, backPtr, forwardPtr,
      Arena.length, Arena.buf, Arena.setLength, word_setWord,
      word_setWord_other, magic, used, back, forward, buf]
  exact Nat.mod_eq_of_lt small

theorem changesIn_setForwardPtr (memory : Memory) (arena value : Nat) :
    ChangesIn memory (setForwardPtr memory arena value) arena arenaSize :=
  (changesIn_setWord memory _ _).mono (by omega)
    (by simp only [arenaSize]; omega)

/-- Writing `forward_ptr` changes this field only. -/
theorem Holds.setForwardPtr
    (holds : Holds memory arena cell) {value : Nat} (small : value < 2 ^ 32) :
    Holds (setForwardPtr memory arena value) arena
      { cell with forward := value } := by
  obtain ⟨magic, used, back, forward, length, buf⟩ := holds
  simp only [Arena.magic, isUsed, backPtr, forwardPtr, Arena.length,
    Arena.buf] at *
  constructor <;>
    simp (disch := omega) only [Arena.magic, isUsed, backPtr, forwardPtr,
      Arena.length, Arena.buf, Arena.setForwardPtr, word_setWord,
      word_setWord_other, magic, used, back, length, buf]
  exact Nat.mod_eq_of_lt small

/-- The header that `kmalloc` writes for the rest of a divided block. -/
theorem holds_divided
    {size : Nat}
    (holds : Holds memory arena cell)
    (room : size + arenaSize ≤ cell.length)
    (inRange : arena + arenaSize + cell.length < 2 ^ 32) :
    Holds (Heap.divide memory arena (arena + arenaSize + size) size)
      (arena + arenaSize + size)
      ⟨cell.length - size - arenaSize, false, arena, cell.forward⟩ := by
  have bounds := holds.bounds
  have word := memory.word_lt (arena + arenaSize + size)
  have lengthWord : memory.word (arena + 20) = cell.length := holds.length
  have forwardWord : memory.word (arena + 8) = cell.forward := holds.forward
  simp only [arenaSize] at *
  constructor <;>
    simp (disch := omega) only [Arena.magic, isUsed, backPtr, forwardPtr,
      Arena.length, Arena.buf, Heap.divide, setMagic, setHead, setBackPtr,
      Arena.setForwardPtr, Arena.setUsed, setBuf, Arena.setLength,
      word_setWord, word_setWord_other, add32, sub32, arenaMagic, arenaSize,
      Bool.false_eq_true, if_false, decide_eq_false_iff_not, lengthWord,
      forwardWord]
  · omega
  · omega
  · omega
  · omega
  · split <;> split <;> omega
  · omega

/-- The header of a divided block. -/
theorem holds_divide
    {size : Nat}
    (holds : Holds memory arena cell)
    (room : size + arenaSize ≤ cell.length)
    (inRange : arena + arenaSize + cell.length < 2 ^ 32) :
    Holds (Heap.divide memory arena (arena + arenaSize + size) size) arena
      { cell with length := size, forward := arena + arenaSize + size } := by
  have bounds := holds.bounds
  obtain ⟨magic, used, back, forward, length, buf⟩ := holds
  simp only [arenaSize, Arena.magic, isUsed, backPtr, forwardPtr,
    Arena.length, Arena.buf] at *
  constructor <;>
    simp (disch := omega) only [Arena.magic, isUsed, backPtr, forwardPtr,
      Arena.length, Arena.buf, Heap.divide, setMagic, setHead, setBackPtr,
      Arena.setForwardPtr, Arena.setUsed, setBuf, Arena.setLength,
      word_setWord, word_setWord_other, magic, used, back, buf]
  · omega
  · omega

theorem changesIn_divide
    (memory : Memory) {arena size length : Nat}
    (room : size + arenaSize ≤ length) :
    ChangesIn memory (Heap.divide memory arena (arena + arenaSize + size) size)
      arena (arenaSize + length) := by
  intro address outside
  simp only [arenaSize] at room outside
  simp (disch := omega) only [Heap.divide, setMagic, setHead, setBackPtr,
    Arena.setForwardPtr, Arena.setUsed, setBuf, Arena.setLength, setWord,
    store_outside, arenaSize]

section Placed

variable {start : Nat} {cells left right : List Cell}

theorem placed_append :
    Placed memory start (left ++ right) ↔
      Placed memory start left ∧
        Placed memory (start + span arenaSize left) right := by
  simp only [Placed, place_append, List.mem_append]
  constructor
  · intro placed
    exact ⟨fun arena cell present => placed arena cell (.inl present),
      fun arena cell present => placed arena cell (.inr present)⟩
  · rintro ⟨inLeft, inRight⟩ arena cell (present | present)
    · exact inLeft arena cell present
    · exact inRight arena cell present

theorem placed_cons {rest : List Cell} :
    Placed memory start (cell :: rest) ↔
      Holds memory start cell ∧
        Placed memory (start + arenaSize + cell.length) rest := by
  simp only [Placed, place, List.mem_cons, Prod.mk.injEq]
  constructor
  · intro placed
    exact ⟨placed start cell (.inl ⟨rfl, rfl⟩),
      fun arena other present => placed arena other (.inr present)⟩
  · rintro ⟨holds, placed⟩ arena other (⟨rfl, rfl⟩ | present)
    · exact holds
    · exact placed arena other present

theorem placed_singleton :
    Placed memory start [cell] ↔ Holds memory start cell := by
  rw [placed_cons]
  exact and_iff_left fun _ _ absent => nomatch absent

/-- A run of blocks keeps its cells when its bytes keep their values. -/
theorem Placed.of_agreeOn
    (placed : Placed memory start cells)
    (agree : AgreeOn memory' memory start (span arenaSize cells)) :
    Placed memory' start cells := by
  intro arena cell present
  have inside := place_inside present
  exact (placed arena cell present).of_agreeOn
    (agree.mono (by omega) (by omega))

/-- A run of blocks after a change inside some of its blocks. -/
theorem Placed.replace
    {before middle middle' after : List Cell}
    (placed : Placed memory start (before ++ middle ++ after))
    (changes : ChangesIn memory memory' (start + span arenaSize before)
      (span arenaSize middle))
    (sameSpan : span arenaSize middle' = span arenaSize middle)
    (replaced : Placed memory' (start + span arenaSize before) middle') :
    Placed memory' start (before ++ middle' ++ after) := by
  rw [placed_append, placed_append] at placed ⊢
  obtain ⟨⟨placedBefore, _⟩, placedAfter⟩ := placed
  simp only [span_append, sameSpan] at placedAfter ⊢
  refine ⟨⟨?_, replaced⟩, ?_⟩
  · exact placedBefore.of_agreeOn (changes.agreeOn (by omega))
  · exact placedAfter.of_agreeOn (changes.agreeOn (by omega))

end Placed

end LightOS
