import LightOS.Exec.Arguments

/-!
# Where arguments are staged

Which calls of `set_env_and_clean_fork` store into the pages that they have been given only.
An action on the cursors is described by the number of bytes that it takes below `ktop` and
by the pointers that it stores, so that the description of a sequence of actions follows from
those of its parts.
-/

namespace LightOS
namespace Exec

open UserMemory (userStackTop)

variable {address len count source filename argv envp start array : Nat} {string : List UInt8}
  {args : Arguments} {b : Buffers} {memory : Memory} {s : Staging}

namespace Buffers

/-- The first address of the pages from which on all bytes before `pages_end` are in them. -/
def floor (b : Buffers) : Nat :=
  if b.argvk + pageSize = b.pages then b.argvk else b.pages

/-- The first address behind `argvk` that is not in the pages. -/
def ceiling (b : Buffers) : Nat :=
  if b.argvk + pageSize = b.pages then b.pages + 4 * pageSize else b.argvk + pageSize

/-- All stores are to the pages. -/
def Contained (b : Buffers) (stores : List (Nat × Nat)) : Prop :=
  ∀ store ∈ stores, b.Contains store

/-- The memory has changed in the pages only. -/
def Keeps (b : Buffers) (before after : Memory) : Prop :=
  ∀ address, ¬b.Covers address → after address = before address

theorem covers_iff :
    b.Covers address ↔ b.pages ≤ address ∧ address < b.pages + 16384 ∨
      b.argvk ≤ address ∧ address < b.argvk + 4096 :=
  Iff.rfl

/-- The pages are in the kernel's part of the address space. -/
theorem bounds (b : Buffers) :
    0xC0000000 ≤ b.pages ∧ b.pages + 16384 ≤ 0xC1000000 ∧
      0xC0000000 ≤ b.argvk ∧ b.argvk + 4096 ≤ 0xC1000000 :=
  ⟨b.pagesAbove, b.pagesBelow, b.argvkAbove, b.argvkBelow⟩

theorem aligned (b : Buffers) : b.pages % 4096 = 0 ∧ b.argvk % 4096 = 0 :=
  ⟨b.pagesAligned, b.argvkAligned⟩

theorem disjoint (b : Buffers) : b.pages + 16384 ≤ b.argvk ∨ b.argvk + 4096 ≤ b.pages :=
  b.apart

theorem pagesEnd_eq (b : Buffers) : b.pagesEnd = b.pages + 16384 := by
  have bounds := b.bounds
  exact add32_eq (by simp only [pageSize]; omega)

/-- The two runs of pages are one when the page of the pointers is the first. -/
theorem floor_cases (b : Buffers) :
    b.argvk + 4096 = b.pages ∧ b.floor = b.argvk ∧ b.ceiling = b.pages + 16384 ∨
      b.argvk + 4096 ≠ b.pages ∧ b.floor = b.pages ∧ b.ceiling = b.argvk + 4096 := by
  unfold floor ceiling
  by_cases adjacent : b.argvk + pageSize = b.pages
  · exact .inl ⟨adjacent, if_pos adjacent, if_pos adjacent⟩
  · exact .inr ⟨adjacent, if_neg adjacent, if_neg adjacent⟩

theorem not_covers_floor (b : Buffers) : ¬b.Covers (b.floor - 1) := by
  have bounds := b.bounds
  have disjoint := b.disjoint
  rw [covers_iff]
  obtain ⟨_, isFloor, _⟩ | ⟨_, isFloor, _⟩ := b.floor_cases <;> omega

theorem not_covers_ceiling (b : Buffers) : ¬b.Covers b.ceiling := by
  have bounds := b.bounds
  have aligned := b.aligned
  have disjoint := b.disjoint
  rw [covers_iff]
  obtain ⟨_, _, isCeiling⟩ | ⟨_, _, isCeiling⟩ := b.floor_cases <;> omega

theorem covers_of_floor_le (above : b.floor ≤ address) (below : address < b.pages + 16384) :
    b.Covers address := by
  rw [covers_iff]
  obtain ⟨_, isFloor, _⟩ | ⟨_, isFloor, _⟩ := b.floor_cases <;> omega

theorem covers_of_lt_ceiling (above : b.argvk ≤ address) (below : address < b.ceiling) :
    b.Covers address := by
  rw [covers_iff]
  obtain ⟨_, _, isCeiling⟩ | ⟨_, _, isCeiling⟩ := b.floor_cases <;> omega

theorem Covers.lt (covers : b.Covers address) : address < 0xC1000000 := by
  have bounds := b.bounds
  rw [covers_iff] at covers
  omega

/-- The bytes below a cursor are in the pages as far down as the floor. -/
theorem contains_below_iff {top : Nat} (above : b.floor ≤ top) (below : top ≤ b.pages + 16384) :
    b.Contains (sub32 top len, len) ↔ len ≤ top - b.floor := by
  have bounds := b.bounds
  constructor
  · intro contains
    by_contra tooLong
    by_cases wraps : len ≤ top
    · rw [sub32_eq wraps] at contains
      have positive : 0 < b.floor := by
        obtain ⟨_, isFloor, _⟩ | ⟨_, isFloor, _⟩ := b.floor_cases <;> omega
      have covers := contains (b.floor - 1 - (top - len)) (by omega)
      rw [show top - len + (b.floor - 1 - (top - len)) = b.floor - 1 by omega] at covers
      exact b.not_covers_floor covers
    · rw [sub32, if_neg wraps] at contains
      have covers := (contains (len - 1 - top) (by omega)).lt
      omega
  · intro fits index inside
    rw [sub32_eq (by omega)] at inside ⊢
    exact covers_of_floor_le (by omega) (by omega)

/-- All pointers are in the pages exactly when they are below the ceiling. -/
theorem contains_slots_iff :
    (∀ index < count, b.Contains (add32 b.argvk (4 * index), 4)) ↔
      b.argvk + 4 * count ≤ b.ceiling := by
  have bounds := b.bounds
  have aligned := b.aligned
  have cases := b.floor_cases
  constructor
  · intro contains
    by_contra tooMany
    have covers := contains ((b.ceiling - b.argvk) / 4) (by omega) 0 (by omega)
    rw [add32_eq (by omega), Nat.add_zero, show
      b.argvk + 4 * ((b.ceiling - b.argvk) / 4) = b.ceiling by omega] at covers
    exact b.not_covers_ceiling covers
  · intro fits index inside offset inWord
    dsimp only at inWord ⊢
    rw [add32_eq (by omega)]
    exact covers_of_lt_ceiling (by omega) (by omega)

theorem Contains.noWrap (contains : b.Contains (start, len)) (below : start ≤ 2 ^ 32) :
    start + len ≤ 2 ^ 32 := by
  by_cases empty : len = 0
  · omega
  · have covers := (contains (len - 1) (by omega)).lt
    dsimp only at covers
    omega

theorem Keeps.of_changesIn {before middle after : Memory} (keeps : b.Keeps before middle)
    (contains : b.Contains (start, len)) (changes : Memory.ChangesIn middle after start len) :
    b.Keeps before after := by
  intro address notCovered
  rw [← keeps address notCovered]
  apply changes
  by_contra inside
  have covers := contains (address - start) (by omega)
  rw [show start + (address - start) = address by omega] at covers
  exact notCovered covers

theorem Keeps.agreeOn {before after : Memory} (keeps : b.Keeps before after)
    (clear : b.Clear start len) : Memory.AgreeOn after before start len := by
  intro address above below
  have notCovered := clear (address - start) (by omega)
  rw [show start + (address - start) = address by omega] at notCovered
  exact keeps address notCovered

@[simp] theorem contained_cons {store : Nat × Nat} {stores : List (Nat × Nat)} :
    b.Contained (store :: stores) ↔ b.Contains store ∧ b.Contained stores :=
  List.forall_mem_cons

end Buffers

/-! ## Actions on the cursors -/

/-- What the caller has passed is still there, and `ktop` is in the pages. -/
structure Ready (b : Buffers) (memory : Memory) (s : Staging) : Prop where
  keeps : b.Keeps memory s.memory
  above : b.floor ≤ s.ktop
  below : s.ktop ≤ b.pages + 16384

/-- An action takes `size` bytes below `ktop` and makes some stores of pointers.  It stores to
the pages only if there is room for the bytes and the pointers are in the pages, and it comes
to its end then. -/
structure Stages (b : Buffers) (memory : Memory) (action : Staging → Except Halt Staging)
    (size : Nat) (slots : Prop) : Prop where
  grows : ∀ s, s.stores ⊆ storesOf (action s)
  contained : ∀ s, Ready b memory s →
    (b.Contained (storesOf (action s)) ↔
      b.Contained s.stores ∧ size ≤ s.ktop - b.floor ∧ slots)
  done : ∀ s, Ready b memory s → b.Contained (storesOf (action s)) →
    ∃ after, action s = .ok after ∧ Ready b memory after ∧ after.ktop = s.ktop - size

theorem StringsGiven.init {strings : List (List UInt8)}
    (given : StringsGiven b memory source (strings ++ [string])) :
    StringsGiven b memory source strings := by
  have length : (strings ++ [string]).length = strings.length + 1 := by simp
  have inSpace := given.inSpace
  refine ⟨by omega, fun index inside => given.clear index (by omega), fun index inside => ?_⟩
  have isGiven := given.given index (by omega)
  rw [List.getElem_append_left inside] at isGiven
  exact isGiven

theorem StringsGiven.last {strings : List (List UInt8)}
    (given : StringsGiven b memory source (strings ++ [string])) :
    StringGiven b memory (memory.word (source + 4 * strings.length)) string := by
  have isGiven := given.given strings.length (by simp)
  rw [List.getElem_concat_length rfl] at isGiven
  exact isGiven

/-- `pushString` finds a string that has been passed. -/
theorem Ready.pushString_eq {place : Nat} (ready : Ready b memory s)
    (given : StringGiven b memory place string) (same : address = place) :
    s.pushString address =
      .ok { s.push address (string.length + 1) with
        utop := sub32 s.utop (string.length + 1) } := by
  have lies := given.lies.congr (ready.keeps.agreeOn given.clear)
  have inSpace := given.lies.inSpace
  have bounds := b.bounds
  have short : string.length + 1 < 2 ^ 32 := by
    by_contra long
    exact given.clear b.pages (by omega) (Buffers.covers_iff.mpr (.inl (by omega)))
  rw [same, Staging.pushString, strlen_eq lies]
  dsimp only
  rw [add32_eq short]

/-- The elements of an array that has been passed are the same. -/
theorem Ready.element_eq {index : Nat} {strings : List (List UInt8)} (ready : Ready b memory s)
    (given : StringsGiven b memory source strings) (inside : index < strings.length) :
    element s.memory source index = memory.word (source + 4 * index) := by
  have inSpace := given.inSpace
  rw [element, add32_eq (by omega)]
  apply Memory.AgreeOn.word_eq
  apply (ready.keeps.agreeOn given.clear).mono <;> omega

namespace Stages

variable {action next : Staging → Except Halt Staging} {size more : Nat} {slots others : Prop}

/-- An action that ends in a state, when its store is to the pages. -/
theorem of_store {result : Staging → Staging} (store : Staging → Nat × Nat)
    (adds : ∀ s, (result s).stores = store s :: s.stores)
    (fits : ∀ s, Ready b memory s →
      (b.Contains (store s) ↔ size ≤ s.ktop - b.floor ∧ slots))
    (ready : ∀ s, Ready b memory s → b.Contains (store s) →
      b.Keeps memory (result s).memory ∧ (result s).ktop = s.ktop - size) :
    Stages b memory (fun s => .ok (result s)) size slots where
  grows s := by
    show s.stores ⊆ (result s).stores
    rw [adds]
    exact List.subset_cons_self _ _
  contained s isReady := by
    show b.Contained (result s).stores ↔ _
    rw [adds, Buffers.contained_cons, fits s isReady, and_comm]
  done s isReady contained := by
    rw [storesOf, adds, Buffers.contained_cons] at contained
    obtain ⟨keeps, ktop⟩ := ready s isReady contained.1
    have room := ((fits s isReady).mp contained.1).1
    have above := isReady.above
    have below := isReady.below
    exact ⟨result s, rfl, ⟨keeps, by omega, by omega⟩, ktop⟩

/-- An action after another takes the bytes and makes the stores of both. -/
theorem bind (first : Stages b memory action size slots)
    (second : Stages b memory next more others) :
    Stages b memory (fun s => action s >>= next) (size + more) (slots ∧ others) := by
  have grows (s : Staging) : storesOf (action s) ⊆ storesOf (action s >>= next) := by
    cases isResult : action s with
    | error halt => exact List.Subset.refl _
    | ok after => exact second.grows after
  refine ⟨fun s => List.Subset.trans (first.grows s) (grows s),
    fun s ready => ⟨fun contained => ?_, ?_⟩,
    fun s ready contained => ?_⟩
  · have firstContained : b.Contained (storesOf (action s)) :=
      fun store present => contained store (grows s present)
    obtain ⟨after, isAfter, afterReady, ktop⟩ := first.done s ready firstContained
    rw [isAfter] at contained
    have secondFits := ((second.contained after afterReady).mp contained).2
    have firstFits := (first.contained s ready).mp firstContained
    exact ⟨firstFits.1, by omega, firstFits.2.2, secondFits.2⟩
  · rintro ⟨before, room, isSlot, isOther⟩
    have firstContained := (first.contained s ready).mpr ⟨before, by omega, isSlot⟩
    obtain ⟨after, isAfter, afterReady, ktop⟩ := first.done s ready firstContained
    rw [isAfter] at firstContained ⊢
    exact (second.contained after afterReady).mpr ⟨firstContained, by omega, isOther⟩
  · have firstContained : b.Contained (storesOf (action s)) :=
      fun store present => contained store (grows s present)
    obtain ⟨middle, isMiddle, middleReady, ktop⟩ := first.done s ready firstContained
    rw [isMiddle] at contained
    obtain ⟨after, isAfter, afterReady, afterKtop⟩ := second.done middle middleReady contained
    refine ⟨after, ?_, afterReady, by omega⟩
    rw [isMiddle]
    exact isAfter

theorem congr (stages : Stages b memory action size slots) (sizes : size = more)
    (same : slots ↔ others) : Stages b memory action more others := by
  rw [← sizes, ← propext same]
  exact stages

/-- No action. -/
theorem pure : Stages b memory (fun s => .ok s) 0 True where
  grows _ := List.Subset.refl _
  contained _ _ := ⟨fun contained => ⟨contained, Nat.zero_le _, trivial⟩, And.left⟩
  done s ready _ := ⟨s, rfl, ready, rfl⟩

/-- The store of a pointer. -/
theorem putWord (address : Nat) (value : Staging → Nat) :
    Stages b memory (fun s => .ok (s.putWord address (value s))) 0 (b.Contains (address, 4)) := by
  apply of_store (fun _ => (address, 4)) fun _ => rfl
  · exact fun s _ => ⟨fun contains => ⟨Nat.zero_le _, contains⟩, And.right⟩
  · exact fun s ready contains =>
      ⟨ready.keeps.of_changesIn contains (Memory.changesIn_setWord _ _ _), rfl⟩

/-- A copy below `ktop`. -/
theorem push (src : Staging → Nat) (len : Nat) :
    Stages b memory (fun s => .ok (s.push (src s) len)) len True := by
  apply of_store (fun s => (sub32 s.ktop len, len)) fun _ => rfl
  · intro s ready
    rw [and_true]
    exact Buffers.contains_below_iff ready.above ready.below
  · intro s ready contains
    have bounds := b.bounds
    have above := ready.above
    have below := ready.below
    have fits := (Buffers.contains_below_iff above below).mp contains
    have lowered : sub32 s.ktop len = s.ktop - len := sub32_eq (by omega)
    refine ⟨ready.keeps.of_changesIn contains (memcpy_changesIn _ ?_), lowered⟩
    exact contains.noWrap (by omega)

/-- The store of the number of arguments below `ktop`. -/
theorem putArgc (argc : Nat) :
    Stages b memory
      (fun s => .ok ({ s with ktop := sub32 s.ktop 4 }.putWord (sub32 s.ktop 4) argc)) 4 True := by
  apply of_store (fun s => (sub32 s.ktop 4, 4)) fun _ => rfl
  · intro s ready
    rw [and_true]
    exact Buffers.contains_below_iff ready.above ready.below
  · intro s ready contains
    have above := ready.above
    have fits := (Buffers.contains_below_iff above ready.below).mp contains
    exact ⟨ready.keeps.of_changesIn contains (Memory.changesIn_setWord _ _ _),
      sub32_eq (by omega)⟩

/-- The copy of a string that has been passed. -/
theorem pushString {place : Nat} (address : Staging → Nat)
    (given : StringGiven b memory place string) (same : ∀ s, Ready b memory s → address s = place) :
    Stages b memory (fun s => s.pushString (address s)) (string.length + 1) True where
  grows s := by
    unfold Staging.pushString
    cases strlen s.memory (address s) with
    | none => exact List.Subset.refl _
    | some length => exact List.subset_cons_self _ _
  contained s ready := by
    rw [ready.pushString_eq given (same s ready)]
    exact (push (fun s => address s) (string.length + 1)).contained s ready
  done s ready contained := by
    rw [ready.pushString_eq given (same s ready)] at contained ⊢
    obtain ⟨after, isAfter, afterReady, ktop⟩ :=
      (push (fun s => address s) (string.length + 1)).done s ready contained
    cases isAfter
    exact ⟨_, rfl, ⟨afterReady.keeps, afterReady.above, afterReady.below⟩, ktop⟩

/-- A loop over strings that have been passed. -/
theorem copyStrings (pointers : Nat) {strings : List (List UInt8)}
    (given : StringsGiven b memory source strings) :
    Stages b memory (Staging.copyStrings source pointers strings.length)
      (packed strings).length
      (∀ i < strings.length, b.Contains (add32 pointers (4 * i), 4)) := by
  induction strings using List.reverseRecOn with
  | nil => exact pure.congr rfl (by simp)
  | append_singleton strings string inductionHypothesis =>
      rw [List.length_append, List.length_singleton]
      have body := (pushString (fun s => element s.memory source strings.length) given.last
        fun s ready => ready.element_eq given (by simp)).bind
          ((putWord (add32 pointers (4 * strings.length)) Staging.utop).bind
            (inductionHypothesis given.init))
      apply body.congr
      · rw [packed_append, List.length_append, packed_cons_length, packed_nil, List.length_nil]
        omega
      · rw [true_and, Nat.forall_lt_succ_right, and_comm]

end Stages

/-! ## Calls -/

theorem ArrayGiven.strings {strings : List (List UInt8)}
    (given : ArrayGiven b memory array strings) : StringsGiven b memory array strings := by
  obtain ⟨rfl, rfl⟩ | ⟨_, _, strings, _⟩ := given
  · exact ⟨by decide, nofun, nofun⟩
  · exact strings

theorem ArrayGiven.counted {strings : List (List UInt8)}
    (given : ArrayGiven b memory array strings) : counted memory array = .ok strings.length := by
  obtain ⟨rfl, rfl⟩ | ⟨isArray, inSpace, _, elements, ended⟩ := given
  · rfl
  · have count : countArgv memory array = some strings.length := by
      apply countArgv_eq isArray (by omega)
      · intro index inside
        rw [element, add32_eq (by omega)]
        exact elements index inside
      · rw [element, add32_eq (by omega)]
        exact ended
    rw [Exec.counted, count]

theorem add32_add32 (left middle right : Nat) :
    add32 (add32 left middle) right = add32 left (middle + right) := by
  rw [add32, add32, add32, Nat.mod_add_mod, Nat.add_assoc]

/-- The pointers are those that end the arrays, those to the strings and that to the name. -/
theorem forall_pointers_iff {P : Nat → Prop} {entries envc : Nat} :
    P (entries + 1) ∧ P (entries + 1 + 1 + envc) ∧ (∀ i < envc, P (entries + 1 + 1 + i)) ∧
        (∀ i < entries, P (1 + i)) ∧ P 0 ↔
      ∀ index < entries + 1 + 1 + (envc + 1), P index := by
  constructor
  · rintro ⟨argvNull, envpNull, envp, argv, filename⟩ index inside
    by_cases isFilename : index = 0
    · exact isFilename ▸ filename
    by_cases inArgv : index < 1 + entries
    · have isArgv := argv (index - 1) (by omega)
      rwa [show 1 + (index - 1) = index by omega] at isArgv
    by_cases isNull : index = entries + 1
    · exact isNull ▸ argvNull
    by_cases inEnvp : index < entries + 1 + 1 + envc
    · have isEnvp := envp (index - (entries + 1 + 1)) (by omega)
      rwa [show entries + 1 + 1 + (index - (entries + 1 + 1)) = index by omega] at isEnvp
    · rwa [show index = entries + 1 + 1 + envc by omega]
  · intro all
    exact ⟨all _ (by omega), all _ (by omega), fun i inside => all _ (by omega),
      fun i inside => all _ (by omega), all 0 (by omega)⟩

/-- The first part takes the strings below `ktop` and stores all pointers. -/
theorem stages_gather (passed : Passed memory b filename argv envp args) :
    Stages b memory (gather b filename argv envp args.argc args.envc)
      (packed args.strings).length
      (∀ index < args.pointers, b.Contains (add32 b.argvk (4 * index), 4)) := by
  have bounds := b.bounds
  have actions :=
    (Stages.putWord (add32 b.argvk (4 * args.argc)) fun _ => 0).bind
    ((Stages.putWord (add32 (add32 b.argvk (4 * (args.argc + 1))) (4 * args.envc)) fun _ => 0).bind
    ((Stages.copyStrings (add32 b.argvk (4 * (args.argc + 1))) passed.envp.strings).bind
    ((Stages.copyStrings (add32 b.argvk 4) passed.argv.strings).bind
    ((Stages.pushString (fun _ => filename) passed.filename fun _ _ => rfl).bind
    (Stages.putWord b.argvk Staging.utop)))))
  apply actions.congr
  · rw [Arguments.strings, packed_append, List.length_append, packed_cons_length]
    omega
  · have first : add32 b.argvk (4 * 0) = b.argvk := add32_eq (by omega)
    have slots := @forall_pointers_iff (fun index => b.Contains (add32 b.argvk (4 * index), 4))
      args.argv.length args.envp.length
    rw [first] at slots
    simp only [Nat.mul_add, Nat.mul_one] at slots
    simp only [add32_add32, true_and, Arguments.argc, Arguments.envc, Arguments.pointers,
      Nat.mul_add, Nat.mul_one]
    exact slots

/-- The second part takes the arrays and the number of arguments below `ktop`. -/
theorem stages_finish (argc envc : Nat) :
    Stages b memory (fun s => .ok (finish b argc envc s))
      (4 + (argc + 1) * 4 % 2 ^ 32 + (envc + 1) * 4 % 2 ^ 32) True := by
  have number : Stages b memory _ 4 True := Stages.putArgc argc
  have actions :=
    (Stages.push (fun _ => add32 b.argvk (4 * (argc + 1))) ((envc + 1) * 4 % 2 ^ 32)).bind
    ((Stages.push (fun _ => b.argvk) ((argc + 1) * 4 % 2 ^ 32)).bind number)
  apply actions.congr
  · omega
  · rw [true_and, true_and]

theorem stage_eq (passed : Passed memory b filename argv envp args) :
    stage memory b filename argv envp =
      gather b filename argv envp args.argc args.envc ⟨memory, b.pagesEnd, userStackTop, []⟩ >>=
        fun s => .ok (finish b args.argc args.envc s) := by
  rw [stage, passed.argv.counted, passed.envp.counted]
  rfl

/-- What has been stored is in the pages, or the call has been stopped. -/
theorem stage_contained_iff (passed : Passed memory b filename argv envp args) :
    (b.Contained (storesOf (stage memory b filename argv envp)) ↔
      args.blockSize ≤ b.pages + 16384 - b.floor ∧ b.argvk + 4 * args.pointers ≤ b.ceiling) ∧
    (b.Contained (storesOf (stage memory b filename argv envp)) →
      ∃ s, stage memory b filename argv envp = .ok s ∧ b.Keeps memory s.memory ∧
        s.ktop = b.pages + 16384 - args.blockSize) := by
  have stages := (stages_gather passed).bind (stages_finish args.argc args.envc)
  have bounds := b.bounds
  have ready : Ready b memory ⟨memory, b.pagesEnd, userStackTop, []⟩ := by
    have cases := b.floor_cases
    rw [Buffers.pagesEnd_eq]
    refine ⟨fun _ _ => rfl, ?_, Nat.le_refl _⟩
    dsimp only
    omega
  have contained := stages.contained _ ready
  have done := stages.done _ ready
  rw [and_true, Buffers.contains_slots_iff] at contained
  have short (below : b.argvk + 4 * args.pointers ≤ b.ceiling) :
      (packed args.strings).length +
        (4 + (args.argc + 1) * 4 % 2 ^ 32 + (args.envc + 1) * 4 % 2 ^ 32) = args.blockSize := by
    have cases := b.floor_cases
    unfold Arguments.pointers at below
    unfold Arguments.blockSize
    rw [Nat.mod_eq_of_lt (by omega), Nat.mod_eq_of_lt (by omega), Nat.add_comm]
  rw [stage_eq passed]
  refine ⟨?_, fun isContained => ?_⟩
  · rw [contained, Buffers.pagesEnd_eq]
    constructor
    · rintro ⟨_, room, below⟩
      exact ⟨short below ▸ room, below⟩
    · rintro ⟨room, below⟩
      exact ⟨nofun, (short below).symm ▸ room, below⟩
  · obtain ⟨after, isAfter, afterReady, ktop⟩ := done isContained
    rw [short (contained.mp isContained).2.2, Buffers.pagesEnd_eq] at ktop
    exact ⟨after, isAfter, afterReady.keeps, ktop⟩

/-- A call that is rejected: the assertion stops it. -/
def Rejected (result : Except Halt Staging) : Prop :=
  ∃ stores, result = .error ⟨.assertion, stores⟩

/-- A call stores into the pages only, and it is rejected if its arguments do not fit there. -/
def Safe (b : Buffers) (args : Arguments) (result : Except Halt Staging) : Prop :=
  b.Contained (storesOf result) ∧ (¬args.Fit → Rejected result)

theorem storesOf_setEnvAndCleanFork (forkClean : Memory → Memory) (filename argv envp : Nat) :
    storesOf (setEnvAndCleanFork memory b forkClean filename argv envp) =
      storesOf (stage memory b filename argv envp) := by
  unfold setEnvAndCleanFork
  cases stage memory b filename argv envp with
  | error halt => rfl
  | ok s =>
      show storesOf (if b.pages < s.ktop then _ else _) = s.stores
      split <;> rfl

/-- The assertion stops a call whose block fills the pages or does not fit there. -/
theorem rejected_iff {forkClean : Memory → Memory}
    (passed : Passed memory b filename argv envp args)
    (contained : b.Contained (storesOf (stage memory b filename argv envp))) :
    Rejected (setEnvAndCleanFork memory b forkClean filename argv envp) ↔
      16384 ≤ args.blockSize := by
  have bounds := b.bounds
  obtain ⟨s, isStaged, _, ktop⟩ := (stage_contained_iff passed).2 contained
  have room := ((stage_contained_iff passed).1.mp contained).1
  unfold setEnvAndCleanFork
  rw [isStaged]
  show Rejected (if b.pages < s.ktop then _ else _) ↔ _
  by_cases passes : b.pages < s.ktop
  · rw [if_pos passes]
    constructor
    · rintro ⟨stores, isError⟩
      cases isError
    · intro full
      omega
  · rw [if_neg passes]
    refine ⟨fun _ => by omega, fun _ => ⟨s.stores, rfl⟩⟩

/-- A call is safe exactly when its arguments fit into the pages, or else when the page of the
pointers lies in front of the others, and what does not fit there ends in it. -/
theorem safe_iff (forkClean : Memory → Memory) {filename argv envp : Nat} {args : Arguments}
    (passed : Passed memory b filename argv envp args) :
    Safe b args (setEnvAndCleanFork memory b forkClean filename argv envp) ↔
      args.Fit ∨ b.argvk + pageSize = b.pages ∧ 4 * pageSize ≤ args.blockSize ∧
        args.blockSize ≤ 5 * pageSize := by
  have contained := (stage_contained_iff passed).1
  have cases := b.floor_cases
  have bounds := b.bounds
  have fit : args.Fit ↔ args.blockSize ≤ 16384 ∧ args.pointers * 4 ≤ 4096 := Iff.rfl
  have pointers : args.pointers * 4 ≤ args.blockSize := by
    unfold Arguments.pointers Arguments.blockSize
    omega
  simp only [pageSize]
  rw [Safe, storesOf_setEnvAndCleanFork]
  constructor
  · rintro ⟨isContained, rejected⟩
    have room := contained.mp isContained
    by_cases fits : args.Fit
    · exact .inl fits
    · have full := (rejected_iff passed isContained).mp (rejected fits)
      rw [fit] at fits
      exact .inr (by omega)
  · intro condition
    have isContained : b.Contained (storesOf (stage memory b filename argv envp)) := by
      rw [contained]
      rw [fit] at condition
      omega
    refine ⟨isContained, fun unfit => (rejected_iff passed isContained).mpr ?_⟩
    rw [fit] at condition unfit
    omega

/-! ## Calls with one argument and with several -/

/-- The first pages that `alloc_kpage` has. -/
def lowBuffers : Buffers where
  pages := 0xC0100000
  argvk := 0xC0104000
  pagesAligned := by decide
  argvkAligned := by decide
  pagesAbove := by decide
  pagesBelow := by decide
  argvkAbove := by decide
  argvkBelow := by decide
  apart := by decide

theorem lowBuffers_floor : lowBuffers.floor = lowBuffers.pages := by
  have pages : lowBuffers.pages = 0xC0100000 := rfl
  have argvk : lowBuffers.argvk = 0xC0104000 := rfl
  obtain ⟨adjacent, _⟩ | ⟨_, isFloor, _⟩ := lowBuffers.floor_cases
  · rw [pages, argvk] at adjacent
    exact absurd adjacent (by decide)
  · exact isFloor

/-- The memory of a task that calls `execve` with the name `/a`, at `0x1000`, and an argument
of some letters, at `0x3000`, which the array at `0x2000` has the pointer to. -/
def letters (count : Nat) : Memory :=
  ⟨fun address =>
    if address = 0x1000 then 47
    else if address = 0x1001 then 97
    else if address = 0x2001 then 0x30
    else if 0x3000 ≤ address ∧ address < 0x3000 + count then 97
    else 0⟩

/-- The strings of this call. -/
def lettersCall (count : Nat) : Arguments :=
  ⟨[47, 97], [List.replicate count 97], []⟩

theorem Buffers.clear_of_le (below : address + len ≤ 0xC0000000) : b.Clear address len := by
  intro index inside covers
  have bounds := b.bounds
  rw [Buffers.covers_iff] at covers
  omega

theorem letters_argument (few : count ≤ 2 ^ 20) :
    StringGiven b (letters count) 0x3000 (List.replicate count 97) := by
  refine ⟨⟨?_, ?_, ?_⟩, Buffers.clear_of_le ?_⟩
  · rw [List.length_replicate]
    omega
  · rw [Memory.holds_append, List.length_replicate]
    constructor
    · intro index inside
      rw [List.length_replicate] at inside
      rw [List.getElem_replicate, letters]
      dsimp only
      rw [if_neg (by omega), if_neg (by omega), if_neg (by omega), if_pos (by omega)]
    · intro index inside
      rw [List.length_singleton] at inside
      rw [List.getElem_singleton, letters]
      dsimp only
      rw [if_neg (by omega), if_neg (by omega), if_neg (by omega), if_neg (by omega)]
  · rw [List.mem_replicate]
    exact fun isZero => absurd isZero.2 (by decide)
  · rw [List.length_replicate]
    omega

theorem letters_filename (count : Nat) : StringGiven b (letters count) 0x1000 [47, 97] := by
  refine ⟨⟨by decide, fun index inside => ?_, by decide⟩, Buffers.clear_of_le (by decide)⟩
  match index, inside with
  | 0, _ => rfl
  | 1, _ => rfl
  | 2, _ => rfl

theorem letters_argv (few : count ≤ 2 ^ 20) :
    ArrayGiven b (letters count) 0x2000 [List.replicate count 97] := by
  have pointer : (letters count).word 0x2000 = 0x3000 := by
    simp [Memory.word, letters]
  have null : (letters count).word 0x2004 = 0 := by
    simp [Memory.word, letters]
  have length : [List.replicate count (97 : UInt8)].length = 1 := rfl
  refine .inr ⟨by decide, by omega, ⟨by omega, Buffers.clear_of_le (by omega), ?_⟩, ?_, ?_⟩
  · intro index inside
    rw [length] at inside
    rw [List.getElem_singleton, show index = 0 by omega, Nat.mul_zero, Nat.add_zero, pointer]
    exact letters_argument few
  · intro index inside
    rw [show index = 0 by omega, Nat.mul_zero, Nat.add_zero, pointer]
    decide
  · rw [length]
    exact null

theorem letters_passed (few : count ≤ 2 ^ 20) :
    Passed (letters count) b 0x1000 0x2000 0 (lettersCall count) :=
  ⟨letters_filename count, letters_argv few, .inl ⟨rfl, rfl⟩⟩

theorem letters_blockSize (count : Nat) : (lettersCall count).blockSize = count + 24 := by
  simp [lettersCall, Arguments.blockSize, Arguments.argc, Arguments.envc, Arguments.strings]
  omega

/-- A `fork_clean` that leaves nothing of user memory. -/
def clearUser (memory : Memory) : Memory :=
  ⟨fun address => if address < kernelVaddrOffset then 0 else memory address⟩

/-- The memory of a task that calls `execve("/a", {"ab", "c"}, {"d=e", "f="})`: from `0x1000` on,
the name, the two arrays and the strings that they have pointers to. -/
def commandLine : Memory :=
  ⟨fun address =>
    ([47, 97, 0, 0,
      0x1c, 0x10, 0, 0, 0x1f, 0x10, 0, 0, 0, 0, 0, 0,
      0x21, 0x10, 0, 0, 0x25, 0x10, 0, 0, 0, 0, 0, 0,
      97, 98, 0, 99, 0, 100, 61, 101, 0, 102, 61, 0] : List UInt8).getD (address - 0x1000) 0⟩

/-- The strings of this call. -/
def commandCall : Arguments :=
  ⟨[47, 97], [[97, 98], [99]], [[100, 61, 101], [102, 61]]⟩

/-- What there is to see of a string at an address. -/
def Spelled (memory : Memory) (address : Nat) (string : List UInt8) : Prop :=
  address + (string.length + 1) ≤ 0xC0000000 ∧
    (∀ index (inside : index < (string ++ [0]).length),
      memory (address + index) = (string ++ [0])[index]) ∧
    0 ∉ string

instance (memory : Memory) (address : Nat) (string : List UInt8) :
    Decidable (Spelled memory address string) :=
  inferInstanceAs (Decidable (_ ∧ (∀ index (_ : index < _), _) ∧ _))

theorem Spelled.given (spelled : Spelled memory address string) :
    StringGiven b memory address string :=
  ⟨⟨by have := spelled.1; omega, spelled.2.1, spelled.2.2⟩, Buffers.clear_of_le spelled.1⟩

theorem arrayGiven_of_spelled {strings : List (List UInt8)} (present : array ≠ 0)
    (below : array + 4 * (strings.length + 1) ≤ 0xC0000000)
    (spelled : ∀ index (inside : index < strings.length),
      Spelled memory (memory.word (array + 4 * index)) strings[index])
    (pointers : ∀ index < strings.length, memory.word (array + 4 * index) ≠ 0)
    (ended : memory.word (array + 4 * strings.length) = 0) : ArrayGiven b memory array strings :=
  .inr ⟨present, by omega, ⟨by omega, Buffers.clear_of_le (by omega),
    fun index inside => (spelled index inside).given⟩, pointers, ended⟩

theorem commandLine_passed : Passed commandLine b 0x1000 0x1004 0x1010 commandCall where
  filename := Spelled.given (by decide)
  argv := arrayGiven_of_spelled (by decide) (by decide) (by decide) (by decide) (by decide)
  envp := arrayGiven_of_spelled (by decide) (by decide) (by decide) (by decide) (by decide)

theorem safe_iff_command :
    Safe lowBuffers commandCall
      (setEnvAndCleanFork commandLine lowBuffers clearUser 0x1000 0x1004 0x1010) :=
  (safe_iff clearUser commandLine_passed).mpr (.inl (by decide))

/-- An argument of 20000 letters is copied to an address in front of the pages. -/
theorem safe_fails :
    Passed (letters 20000) lowBuffers 0x1000 0x2000 0 (lettersCall 20000) ∧
      ¬Safe lowBuffers (lettersCall 20000)
        (setEnvAndCleanFork (letters 20000) lowBuffers clearUser 0x1000 0x2000 0) := by
  have passed : Passed (letters 20000) lowBuffers 0x1000 0x2000 0 (lettersCall 20000) :=
    letters_passed (by decide)
  refine ⟨passed, fun safe => ?_⟩
  have contained := safe.1
  rw [storesOf_setEnvAndCleanFork] at contained
  have room := ((stage_contained_iff passed).1.mp contained).1
  rw [letters_blockSize, lowBuffers_floor] at room
  omega

end Exec
end LightOS
