import LightOS.Exec.Staging

/-!
# The stack of a new program

What `set_env_and_clean_fork` puts on the new stack.  The block is built from its end: first
the strings, the last one first, while the pointers to them, as they will be on the stack, are
stored in a page of their own, then the two arrays of pointers and their number.
-/

namespace LightOS
namespace Exec

open UserMemory (userStackTop)

variable {b : Buffers} {memory : Memory} {s : Staging}

namespace Arguments

/-- The pointers to the strings of the environment, with the null pointer that ends them. -/
def envpPointers (args : Arguments) : List Nat :=
  addresses userStackTop args.envp ++ [0]

/-- The pointers to the name of the program and to its arguments. -/
def argvPointers (args : Arguments) : List Nat :=
  addresses (userStackTop - (packed args.envp).length) (args.filename :: args.argv) ++ [0]

/-- The bytes of the block of a call. -/
def block (args : Arguments) : List UInt8 :=
  wordBytes args.argc ++
    (wordsBytes args.argvPointers ++ (wordsBytes args.envpPointers ++ packed args.strings))

@[simp] theorem envpPointers_length (args : Arguments) :
    args.envpPointers.length = args.envc + 1 := by
  simp [envpPointers, envc]

@[simp] theorem argvPointers_length (args : Arguments) :
    args.argvPointers.length = args.argc + 1 := by
  simp [argvPointers, argc]

theorem block_length (args : Arguments) : args.block.length = args.blockSize := by
  unfold block blockSize
  simp only [List.length_append, wordBytes_length, wordsBytes_length, argvPointers_length,
    envpPointers_length]
  omega

end Arguments

/-! ## Building the block -/

/-- The end of the block is in the pages, from `ktop` on. -/
structure Staged (b : Buffers) (memory : Memory) (s : Staging) (bytes : List UInt8) : Prop where
  keeps : b.Keeps memory s.memory
  room : b.pages ≤ s.ktop
  cursor : s.ktop + bytes.length = b.pages + 16384
  holds : s.memory.Holds s.ktop bytes

/-- A store of a pointer leaves the block alone. -/
theorem Staged.putWord {bytes : List UInt8} {address : Nat} (staged : Staged b memory s bytes)
    (value : Nat) (above : b.argvk ≤ address) (below : address + 4 ≤ b.argvk + 4096) :
    Staged b memory (s.putWord address value) bytes := by
  have disjoint := b.disjoint
  have room := staged.room
  have cursor := staged.cursor
  refine ⟨staged.keeps.of_changesIn ?_ (Memory.changesIn_setWord _ _ _), room, cursor,
    staged.holds.congr (Memory.agreeOn_setWord _ (by omega))⟩
  intro index inside
  exact Buffers.covers_iff.mpr (.inr (by dsimp only at inside ⊢; omega))

/-- A copy of bytes that do not lie in the pages of the block goes in front of it. -/
theorem Staged.push {bytes more : List UInt8} {src : Nat} (staged : Staged b memory s bytes)
    (held : s.memory.Holds src more) (room : more.length + bytes.length ≤ 16384)
    (noWrap : src + more.length ≤ 2 ^ 32)
    (apart : src + more.length ≤ b.pages ∨ b.pages + 16384 ≤ src) :
    Staged b memory (s.push src more.length) (more ++ bytes) ∧
      Memory.ChangesIn s.memory (s.push src more.length).memory b.pages 16384 ∧
      (s.push src more.length).ktop = s.ktop - more.length := by
  have bounds := b.bounds
  have cursor := staged.cursor
  have lowered : sub32 s.ktop more.length = s.ktop - more.length := sub32_eq (by omega)
  have copied : (s.push src more.length).memory =
      s.memory.copy (s.ktop - more.length) src more.length := by
    unfold Staging.push
    rw [lowered]
    exact memcpy_eq_copy (by omega) noWrap (by omega)
  have changes : Memory.ChangesIn s.memory (s.push src more.length).memory
      (s.ktop - more.length) more.length := by
    rw [copied]
    exact Memory.changesIn_store _ _ _ _
  have isKtop : (s.push src more.length).ktop = s.ktop - more.length := lowered
  refine ⟨⟨staged.keeps.of_changesIn ?_ changes, ?_, ?_, ?_⟩,
    changes.mono (by omega) (by omega), isKtop⟩
  · intro index inside
    exact Buffers.covers_iff.mpr (.inl (by dsimp only at inside ⊢; omega))
  · omega
  · rw [isKtop, List.length_append]
    omega
  · rw [isKtop, Memory.holds_append]
    refine ⟨copied ▸ held.copy rfl, ?_⟩
    rw [Nat.sub_add_cancel (by omega)]
    exact staged.holds.congr (changes.agreeOn (by omega))

theorem Staged.ready {bytes : List UInt8} (staged : Staged b memory s bytes) :
    Ready b memory s where
  keeps := staged.keeps
  above := by
    have room := staged.room
    have cases := b.floor_cases
    omega
  below := by
    have cursor := staged.cursor
    omega

theorem Buffers.Clear.apart {address len : Nat} (clear : b.Clear address len)
    (positive : 0 < len) : address + len ≤ b.pages ∨ b.pages + 16384 ≤ address := by
  by_contra meet
  by_cases before : address ≤ b.pages
  · exact clear (b.pages - address) (by omega) (covers_iff.mpr (.inl (by omega)))
  · exact clear 0 positive (covers_iff.mpr (.inl (by omega)))

/-- A string that has been passed goes in front of the block, and both cursors are lowered. -/
theorem Staged.pushString {bytes string : List UInt8} {place address : Nat}
    (staged : Staged b memory s bytes) (given : StringGiven b memory place string)
    (same : address = place) (room : string.length + 1 + bytes.length ≤ 16384)
    (utop : string.length + 1 ≤ s.utop) :
    ∃ after, s.pushString address = .ok after ∧
      Staged b memory after (string ++ [0] ++ bytes) ∧
      Memory.ChangesIn s.memory after.memory b.pages 16384 ∧
      after.utop = s.utop - (string.length + 1) := by
  have inSpace := given.lies.inSpace
  have length : (string ++ [0]).length = string.length + 1 := by simp
  have held := (given.lies.congr (staged.keeps.agreeOn given.clear)).bytes
  have apart := given.clear.apart (Nat.succ_pos _)
  obtain ⟨pushed, changes, _⟩ := staged.push held (by omega) (by omega) (by omega)
  rw [length] at pushed changes
  rw [staged.ready.pushString_eq given same, same]
  exact ⟨_, rfl, ⟨pushed.keeps, pushed.room, pushed.cursor, pushed.holds⟩, changes,
    sub32_eq utop⟩

/-- Some strings have been put in front of the block, and the pointers to them, as they will
be on the stack, are in the page of the pointers. -/
structure Copied (b : Buffers) (memory : Memory) (pointers : Nat)
    (strings : List (List UInt8)) (bytes : List UInt8) (s after : Staging) : Prop where
  staged : Staged b memory after (packed strings ++ bytes)
  utop : after.utop = s.utop - (packed strings).length
  held : after.memory.Holds pointers (wordsBytes (addresses s.utop strings))
  kept : ∀ start len, b.argvk ≤ start → start + len ≤ b.argvk + 4096 →
    start + len ≤ pointers ∨ pointers + 4 * strings.length ≤ start →
      Memory.AgreeOn after.memory s.memory start len

/-- The loop over the strings of an array. -/
theorem Staged.copyStrings {bytes : List UInt8} {source pointers : Nat}
    {strings : List (List UInt8)} (staged : Staged b memory s bytes)
    (given : StringsGiven b memory source strings)
    (room : (packed strings).length + bytes.length ≤ 16384)
    (utop : (packed strings).length ≤ s.utop) (above : b.argvk ≤ pointers)
    (below : pointers + 4 * strings.length ≤ b.argvk + 4096) :
    ∃ after, s.copyStrings source pointers strings.length = .ok after ∧
      Copied b memory pointers strings bytes s after := by
  have bounds := b.bounds
  have disjoint := b.disjoint
  induction strings using List.reverseRecOn generalizing s bytes with
  | nil =>
      exact ⟨s, rfl, staged, rfl, Memory.holds_nil _ _, fun _ _ _ _ _ => Memory.AgreeOn.refl _ _ _⟩
  | append_singleton strings string inductionHypothesis =>
      have sizes : (packed (strings ++ [string])).length =
          (packed strings).length + (string.length + 1) := by
        rw [packed_append, List.length_append, packed_cons_length, packed_nil, List.length_nil]
      have count : (strings ++ [string]).length = strings.length + 1 := by simp
      rw [sizes] at room utop
      rw [count] at below
      obtain ⟨first, isFirst, firstStaged, firstChanges, firstUtop⟩ :=
        staged.pushString given.last (staged.ready.element_eq given (by omega)) (by omega)
          (by omega)
      have slot : add32 pointers (4 * strings.length) = pointers + 4 * strings.length :=
        add32_eq (by omega)
      have second := firstStaged.putWord first.utop
        (show b.argvk ≤ pointers + 4 * strings.length by omega) (by omega)
      obtain ⟨after, isAfter, copied⟩ := inductionHypothesis second given.init
        (by simp only [List.length_append, List.length_singleton]; omega)
        (show (packed strings).length ≤ first.utop by omega) (by omega)
      have result : s.copyStrings source pointers (strings ++ [string]).length = .ok after := by
        rw [← slot] at isAfter
        rw [count, Staging.copyStrings, isFirst]
        exact isAfter
      have utops : (first.putWord (pointers + 4 * strings.length) first.utop).utop =
          s.utop - (string.length + 1) := firstUtop
      refine ⟨after, result, ?_, ?_, ?_, ?_⟩
      · rw [packed_append, packed_cons, packed_nil, List.append_nil, List.append_assoc]
        exact copied.staged
      · rw [copied.utop, utops, sizes]
        omega
      · have last : addresses s.utop (strings ++ [string]) =
            addresses (s.utop - (string.length + 1)) strings ++ [first.utop] := by
          rw [addresses_append, addresses, packed_cons_length, packed_nil, List.length_nil,
            addresses_nil, Nat.add_zero, firstUtop]
        have held := copied.held
        rw [utops] at held
        rw [last, Memory.holds_wordsBytes_concat, addresses_length]
        refine ⟨held, (Memory.holds_setWord first.memory _ _).congr ?_⟩
        rw [wordBytes_length]
        exact copied.kept _ _ (by omega) (by omega) (.inr (Nat.le_refl _))
      · intro start len inPage pageEnd apart
        rw [count] at apart
        exact (copied.kept start len inPage pageEnd (by omega)).trans
          ((Memory.agreeOn_setWord _ (by omega)).trans (firstChanges.agreeOn (by omega)))

/-- The strings are in the block, and the arrays of pointers in their page. -/
structure Gathered (b : Buffers) (memory : Memory) (args : Arguments) (s : Staging) : Prop where
  staged : Staged b memory s (packed args.strings)
  argv : s.memory.Holds b.argvk (wordsBytes args.argvPointers)
  envp : s.memory.Holds (b.argvk + 4 * (args.argc + 1)) (wordsBytes args.envpPointers)

/-- The first part of `set_env_and_clean_fork`, when there is room for the strings and for the
pointers. -/
theorem gather_spec {filename argv envp : Nat} {args : Arguments}
    (passed : Passed memory b filename argv envp args)
    (room : (packed args.strings).length ≤ 16384) (slots : args.pointers * 4 ≤ 4096) :
    ∃ s, gather b filename argv envp args.argc args.envc
        ⟨memory, b.pagesEnd, userStackTop, []⟩ = .ok s ∧ Gathered b memory args s := by
  have bounds := b.bounds
  have disjoint := b.disjoint
  have isArgc : args.argc = args.argv.length + 1 := rfl
  have isEnvc : args.envc = args.envp.length := rfl
  have isStrings : packed args.strings =
      args.filename ++ [0] ++ (packed args.argv ++ packed args.envp) := by
    rw [Arguments.strings, packed_append, packed_cons, List.append_assoc]
  have stackTop : userStackTop = 3221225471 := rfl
  unfold Arguments.pointers at slots
  simp only [isStrings, List.length_append, List.length_singleton] at room
  have empty : Staged b memory ⟨memory, b.pagesEnd, userStackTop, []⟩ [] := by
    rw [Buffers.pagesEnd_eq]
    exact ⟨fun _ _ => rfl, Nat.le_add_right _ _, rfl, Memory.holds_nil _ _⟩
  -- the null pointers, the environment, the arguments and the name, as they are stored
  have second := (empty.putWord 0 (show b.argvk ≤ b.argvk + 4 * args.argc by omega)
    (by omega)).putWord 0
      (show b.argvk ≤ b.argvk + 4 * (args.argc + 1) + 4 * args.envc by omega) (by omega)
  obtain ⟨third, isThird, environment⟩ := second.copyStrings passed.envp.strings
    (by rw [List.length_nil]; omega)
    (show (packed args.envp).length ≤ userStackTop by omega)
    (show b.argvk ≤ b.argvk + 4 * (args.argc + 1) by omega) (by omega)
  rw [← isEnvc] at isThird
  have thirdUtop : third.utop = userStackTop - (packed args.envp).length := environment.utop
  obtain ⟨fourth, isFourth, arguments⟩ := environment.staged.copyStrings passed.argv.strings
    (by rw [List.append_nil]; omega) (by omega) (show b.argvk ≤ b.argvk + 4 by omega) (by omega)
  have fourthUtop := arguments.utop
  obtain ⟨fifth, isFifth, fifthStaged, fifthChanges, fifthUtop⟩ :=
    arguments.staged.pushString passed.filename rfl
      (by simp only [List.length_append, List.length_nil]; omega) (by omega)
  have last := fifthStaged.putWord fifth.utop (Nat.le_refl _) (by omega)
  have run : gather b filename argv envp args.argc args.envc
      ⟨memory, b.pagesEnd, userStackTop, []⟩ = .ok (fifth.putWord b.argvk fifth.utop) := by
    unfold gather
    dsimp only
    rw [add32_eq (show b.argvk + 4 * (args.argc + 1) < 2 ^ 32 by omega),
      add32_eq (show b.argvk + 4 * args.argc < 2 ^ 32 by omega),
      add32_eq (show b.argvk + 4 * (args.argc + 1) + 4 * args.envc < 2 ^ 32 by omega),
      add32_eq (show b.argvk + 4 < 2 ^ 32 by omega), isThird]
    show (Staging.copyStrings argv (b.argvk + 4) args.argv.length third >>= _) = _
    rw [isFourth]
    show (fourth.pushString filename >>= _) = _
    rw [isFifth]
    rfl
  have sinceFourth (start len : Nat) (above : b.argvk + 4 ≤ start)
      (below : start + len ≤ b.argvk + 4096) :
      Memory.AgreeOn (fifth.putWord b.argvk fifth.utop).memory fourth.memory start len :=
    (Memory.agreeOn_setWord _ (by omega)).trans (fifthChanges.agreeOn (by omega))
  have sinceThird (start len : Nat) (above : b.argvk + 4 * args.argc ≤ start)
      (below : start + len ≤ b.argvk + 4096) :
      Memory.AgreeOn (fifth.putWord b.argvk fifth.utop).memory third.memory start len :=
    (sinceFourth start len (by omega) below).trans
      (arguments.kept start len (by omega) below (by omega))
  refine ⟨_, run, ?_, ?_, ?_⟩
  · rw [isStrings]
    rw [List.append_nil] at last
    exact last
  · have isPointers : args.argvPointers =
        fifth.utop :: (addresses third.utop args.argv ++ [0]) := by
      rw [Arguments.argvPointers, addresses, packed_cons_length, ← thirdUtop, fifthUtop,
        fourthUtop, List.cons_append, Nat.sub_sub, Nat.add_comm (packed args.argv).length]
    have null : third.memory.Holds (b.argvk + 4 * args.argc) (wordBytes 0) := by
      apply (Memory.holds_setWord memory _ 0).congr
      rw [wordBytes_length]
      exact (environment.kept _ _ (by omega) (by omega) (by omega)).trans
        (Memory.agreeOn_setWord _ (by omega))
    rw [isPointers, Memory.holds_wordsBytes_cons, Memory.holds_wordsBytes_concat,
      addresses_length]
    refine ⟨Memory.holds_setWord _ _ _, arguments.held.congr ?_, ?_⟩
    · rw [wordsBytes_length, addresses_length]
      exact sinceFourth _ _ (by omega) (by omega)
    · rw [show b.argvk + 4 + 4 * args.argv.length = b.argvk + 4 * args.argc by omega]
      apply null.congr
      rw [wordBytes_length]
      exact sinceThird _ _ (by omega) (by omega)
  · have null : third.memory.Holds (b.argvk + 4 * (args.argc + 1) + 4 * args.envc)
        (wordBytes 0) := by
      refine (Memory.holds_setWord (memory.setWord (b.argvk + 4 * args.argc) 0) _ 0).congr ?_
      rw [wordBytes_length]
      exact environment.kept _ _ (by omega) (by omega) (.inr (Nat.le_refl _))
    have held : third.memory.Holds (b.argvk + 4 * (args.argc + 1))
        (wordsBytes args.envpPointers) := by
      rw [Arguments.envpPointers, Memory.holds_wordsBytes_concat, addresses_length]
      exact ⟨environment.held, null⟩
    apply held.congr
    rw [wordsBytes_length, Arguments.envpPointers_length]
    exact sinceThird _ _ (by omega) (by omega)

/-- The store of the number of arguments in front of the block. -/
theorem Staged.putArgc {bytes : List UInt8} (staged : Staged b memory s bytes) (argc : Nat)
    (room : 4 + bytes.length ≤ 16384) :
    Staged b memory ({ s with ktop := sub32 s.ktop 4 }.putWord (sub32 s.ktop 4) argc)
      (wordBytes argc ++ bytes) := by
  have bounds := b.bounds
  have cursor := staged.cursor
  have lowered : sub32 s.ktop 4 = s.ktop - 4 := sub32_eq (by omega)
  rw [lowered]
  refine ⟨staged.keeps.of_changesIn ?_ (Memory.changesIn_setWord _ _ _), ?_, ?_, ?_⟩
  · intro index inside
    exact Buffers.covers_iff.mpr (.inl (by dsimp only at inside ⊢; omega))
  · show b.pages ≤ s.ktop - 4
    omega
  · show s.ktop - 4 + (wordBytes argc ++ bytes).length = _
    rw [List.length_append, wordBytes_length]
    omega
  · show Memory.Holds (s.memory.setWord (s.ktop - 4) argc) (s.ktop - 4) _
    rw [Memory.holds_append, wordBytes_length, Nat.sub_add_cancel (by omega)]
    exact ⟨Memory.holds_setWord _ _ _,
      staged.holds.congr (Memory.agreeOn_setWord _ (by omega))⟩

/-- The second part of `set_env_and_clean_fork` completes the block. -/
theorem Gathered.finish {args : Arguments} (gathered : Gathered b memory args s)
    (room : args.blockSize ≤ 16384) (slots : args.pointers * 4 ≤ 4096) :
    Staged b memory (finish b args.argc args.envc s) args.block := by
  have bounds := b.bounds
  have disjoint := b.disjoint
  unfold Arguments.blockSize at room
  unfold Arguments.pointers at slots
  have envpLength : (args.envc + 1) * 4 % 2 ^ 32 = (wordsBytes args.envpPointers).length := by
    rw [wordsBytes_length, Arguments.envpPointers_length]
    omega
  have argvLength : (args.argc + 1) * 4 % 2 ^ 32 = (wordsBytes args.argvPointers).length := by
    rw [wordsBytes_length, Arguments.argvPointers_length]
    omega
  have envpk : add32 b.argvk (4 * (args.argc + 1)) = b.argvk + 4 * (args.argc + 1) :=
    add32_eq (by omega)
  obtain ⟨environment, changes, _⟩ :=
    gathered.staged.push gathered.envp (by omega) (by omega) (by omega)
  have held := gathered.argv.congr (changes.agreeOn (by omega))
  obtain ⟨arguments, _, _⟩ := environment.push held
    (by rw [List.length_append]; omega) (by omega) (by omega)
  unfold Exec.finish
  dsimp only
  rw [envpLength, argvLength, envpk]
  exact arguments.putArgc args.argc (by simp only [List.length_append]; omega)

/-- What is staged is the block of the call, when it fits into the pages. -/
theorem stage_block {filename argv envp : Nat} {args : Arguments}
    (passed : Passed memory b filename argv envp args) (fit : args.Fit) :
    ∃ s, stage memory b filename argv envp = .ok s ∧ Staged b memory s args.block := by
  have strings : (packed args.strings).length ≤ args.blockSize := Nat.le_add_left _ _
  obtain ⟨s, isGathered, gathered⟩ := gather_spec passed (strings.trans fit.1) fit.2
  refine ⟨finish b args.argc args.envc s, ?_, gathered.finish fit.1 fit.2⟩
  rw [stage_eq passed, isGathered]
  rfl

/-! ## Reading the block -/

/-- The intervals of the number of arguments, of the two arrays that `main` is given and of
the strings that their elements point to. -/
def pieces (memory : Memory) (utop : Nat) (args : Arguments) : List (Nat × Nat) :=
  let call := start memory utop
  (utop, 4) :: (call.argv, 4 * (args.argc + 1)) :: (call.envp, 4 * (args.envc + 1)) ::
    extents (memory.words call.argv args.argc ++ memory.words call.envp args.envc) args.strings

/-- The stack from `utop` on is the block of a call, as `__libc_start_main` reads it. -/
structure Laid (memory : Memory) (utop : Nat) (args : Arguments) : Prop where
  argc : (start memory utop).argc = args.argc
  argv : (start memory utop).argv = utop + 4
  arguments : List.Forall₂ memory.StringAt (memory.words (start memory utop).argv args.argc)
    (args.filename :: args.argv)
  argvNull : memory.word ((start memory utop).argv + 4 * args.argc) = 0
  envp : (start memory utop).envp = (start memory utop).argv + 4 * (args.argc + 1)
  environment : List.Forall₂ memory.StringAt (memory.words (start memory utop).envp args.envc)
    args.envp
  envpNull : memory.word ((start memory utop).envp + 4 * args.envc) = 0
  inside : ∀ piece ∈ pieces memory utop args,
    utop ≤ piece.1 ∧ piece.1 + piece.2 ≤ userStackTop
  apart : (pieces memory utop args).Pairwise fun piece other =>
    piece.1 + piece.2 ≤ other.1 ∨ other.1 + other.2 ≤ piece.1

theorem addresses_lt {top address : Nat} {strings : List (List UInt8)}
    (below : top ≤ userStackTop) (present : address ∈ addresses top strings) :
    address < 2 ^ 32 := by
  have atMost := addresses_le present
  have stackTop : userStackTop = 3221225471 := rfl
  omega

/-- A memory that holds the block below the top of the stack is laid out like it. -/
theorem laid_of_holds {utop : Nat} {args : Arguments} (holds : memory.Holds utop args.block)
    (size : utop + args.blockSize = userStackTop)
    (nonzero : ∀ string ∈ args.strings, 0 ∉ string) : Laid memory utop args := by
  have stackTop : userStackTop = 3221225471 := rfl
  have packedStrings : (packed args.strings).length =
      (packed (args.filename :: args.argv)).length + (packed args.envp).length := by
    rw [Arguments.strings, packed_append, List.length_append]
  unfold Arguments.blockSize at size
  rw [Arguments.block, Memory.holds_append, Memory.holds_append, Memory.holds_append,
    wordBytes_length, wordsBytes_length, wordsBytes_length, Arguments.argvPointers_length,
    Arguments.envpPointers_length] at holds
  obtain ⟨number, argv, envp, strings⟩ := holds
  rw [Arguments.argvPointers, Memory.holds_wordsBytes_concat, addresses_length] at argv
  rw [Arguments.envpPointers, Memory.holds_wordsBytes_concat, addresses_length] at envp
  have isArgc : memory.word utop = args.argc := number.word (by omega)
  have isArgv : (start memory utop).argv = utop + 4 := add32_eq (by omega)
  have isEnvp : (start memory utop).envp = utop + 4 + 4 * (args.argc + 1) := by
    show add32 (start memory utop).argv (4 * (memory.word utop + 1)) = _
    rw [isArgv, isArgc, add32_eq (by omega)]
  have argvWords := argv.1.words fun _ => addresses_lt (Nat.sub_le _ _)
  have envpWords := envp.1.words fun _ => addresses_lt (Nat.le_refl _)
  rw [addresses_length] at argvWords envpWords
  have allWords : memory.words (utop + 4) args.argc ++
      memory.words (utop + 4 + 4 * (args.argc + 1)) args.envc =
        addresses userStackTop args.strings := by
    rw [Arguments.strings, addresses_append, ← argvWords, ← envpWords]
    rfl
  have isPieces : pieces memory utop args =
      (utop, 4) :: (utop + 4, 4 * (args.argc + 1)) ::
        (utop + 4 + 4 * (args.argc + 1), 4 * (args.envc + 1)) ::
          extents (addresses userStackTop args.strings) args.strings := by
    unfold pieces
    dsimp only
    rw [isArgv, isEnvp, allWords]
  obtain ⟨apart, within⟩ :=
    extents_packed (show (packed args.strings).length ≤ userStackTop by omega)
  rw [show utop + 4 + 4 * (args.argc + 1) + 4 * (args.envc + 1) =
    userStackTop - (packed args.envp).length - (packed (args.filename :: args.argv)).length by
      omega, Arguments.strings, packed_append, Memory.holds_append,
    Nat.sub_add_cancel (by omega)] at strings
  refine
    { argc := isArgc
      argv := isArgv
      arguments := ?_
      argvNull := ?_
      envp := isArgv ▸ isEnvp
      environment := ?_
      envpNull := ?_
      inside := ?_
      apart := ?_ }
  · rw [isArgv]
    refine argvWords ▸ strings.1.strings (by omega) (by omega) fun string present => ?_
    exact nonzero string (List.mem_append_left _ present)
  · rw [isArgv]
    exact argv.2.word (by omega)
  · rw [isEnvp]
    refine envpWords ▸ strings.2.strings (by omega) (by omega) fun string present => ?_
    exact nonzero string (List.mem_append_right _ present)
  · rw [isEnvp]
    exact envp.2.word (by omega)
  · rw [isPieces]
    simp only [List.forall_mem_cons]
    refine ⟨by omega, by omega, by omega, fun piece present => ?_⟩
    have bounds := within piece present
    omega
  · rw [isPieces]
    simp only [List.pairwise_cons, List.forall_mem_cons]
    refine ⟨⟨by omega, by omega, fun piece present => ?_⟩, ⟨by omega, fun piece present => ?_⟩,
      fun piece present => ?_, apart.imp Or.inl⟩
    all_goals
      have bounds := within piece present
      omega

theorem ArrayGiven.nonzero {array : Nat} {strings : List (List UInt8)}
    (given : ArrayGiven b memory array strings) : ∀ string ∈ strings, 0 ∉ string := by
  intro string present
  obtain ⟨index, inside, isString⟩ := List.getElem_of_mem present
  exact isString ▸ (given.strings.given index inside).lies.nonzero

theorem Passed.nonzero {filename argv envp : Nat} {args : Arguments}
    (passed : Passed memory b filename argv envp args) :
    ∀ string ∈ args.strings, 0 ∉ string := by
  intro string present
  rw [Arguments.strings, List.mem_append, List.mem_cons] at present
  obtain (rfl | isArgument) | inEnvironment := present
  · exact passed.filename.lies.nonzero
  · exact passed.argv.nonzero string isArgument
  · exact passed.envp.nonzero string inEnvironment

/-- A call whose arguments fit into the pages returns the stack as it should be exactly when
they do not fill the four pages of the block. -/
theorem returns_laid_iff {forkClean : Memory → Memory} {filename argv envp : Nat}
    {args : Arguments} (passed : Passed memory b filename argv envp args) (fit : args.Fit)
    (kept : ∀ memory, (forkClean memory).AgreeOn memory b.pages (4 * pageSize)) :
    (∃ s, setEnvAndCleanFork memory b forkClean filename argv envp = .ok s ∧
        Laid s.memory s.utop args) ↔
      args.blockSize < 4 * pageSize := by
  have bounds := b.bounds
  have stackTop : userStackTop = 3221225471 := rfl
  have atMost : args.blockSize ≤ 16384 := fit.1
  obtain ⟨s, isStaged, staged⟩ := stage_block passed fit
  have cursor := staged.cursor
  rw [Arguments.block_length] at cursor
  unfold setEnvAndCleanFork
  rw [isStaged]
  show (∃ after, (if b.pages < s.ktop then _ else _) = Except.ok after ∧ _) ↔
    args.blockSize < 16384
  by_cases passes : b.pages < s.ktop
  · rw [if_pos passes]
    refine iff_of_true ⟨_, rfl, ?_⟩ (by omega)
    have len : sub32 b.pagesEnd s.ktop = args.blockSize := by
      rw [Buffers.pagesEnd_eq, sub32_eq (by omega)]
      omega
    have utop : sub32 userStackTop args.blockSize = userStackTop - args.blockSize :=
      sub32_eq (by omega)
    dsimp only
    rw [len, utop, memcpy_eq_copy (by omega) (by omega) (by omega)]
    have held : (forkClean s.memory).Holds s.ktop args.block :=
      staged.holds.congr ((kept s.memory).mono (by omega)
        (by rw [Arguments.block_length]; simp only [pageSize]; omega))
    exact laid_of_holds (held.copy args.block_length) (by omega) passed.nonzero
  · rw [if_neg passes]
    refine iff_of_false ?_ (by omega)
    rintro ⟨after, isError, _⟩
    cases isError

theorem clearUser_kept (b : Buffers) (memory : Memory) :
    (clearUser memory).AgreeOn memory b.pages (4 * pageSize) := by
  intro address above _
  have inKernel : ¬address < kernelVaddrOffset := Nat.not_lt.mpr (b.pagesAbove.trans above)
  exact if_neg inKernel

theorem returns_laid_iff_command :
    ∃ s, setEnvAndCleanFork commandLine lowBuffers clearUser 0x1000 0x1004 0x1010 = .ok s ∧
      Laid s.memory s.utop commandCall :=
  (returns_laid_iff commandLine_passed (by decide) (clearUser_kept lowBuffers)).mpr (by decide)

/-- With an argument of 16360 letters the block fills the four pages, and the assertion stops
the call. -/
theorem returns_laid_fails :
    Passed (letters 16360) lowBuffers 0x1000 0x2000 0 (lettersCall 16360) ∧
      (lettersCall 16360).Fit ∧
      ¬∃ s, setEnvAndCleanFork (letters 16360) lowBuffers clearUser 0x1000 0x2000 0 = .ok s ∧
        Laid s.memory s.utop (lettersCall 16360) := by
  have passed : Passed (letters 16360) lowBuffers 0x1000 0x2000 0 (lettersCall 16360) :=
    letters_passed (by decide)
  have size := letters_blockSize 16360
  have pointers : (lettersCall 16360).pointers = 4 := rfl
  have fit : (lettersCall 16360).Fit := by
    unfold Arguments.Fit
    rw [size, pointers]
    decide
  have contained : lowBuffers.Contained
      (storesOf (stage (letters 16360) lowBuffers 0x1000 0x2000 0)) := by
    rw [(stage_contained_iff passed).1, size, pointers, lowBuffers_floor]
    exact ⟨by omega, by decide⟩
  have rejected : Rejected
      (setEnvAndCleanFork (letters 16360) lowBuffers clearUser 0x1000 0x2000 0) :=
    (rejected_iff passed contained).mpr (by omega)
  obtain ⟨stores, isRejected⟩ := rejected
  refine ⟨passed, fit, ?_⟩
  rintro ⟨s, isOk, _⟩
  rw [isRejected] at isOk
  cases isOk

end Exec
end LightOS
