import LightOS.Shell.CommandLine

/-!
# Splitting the command line

`cmd_parse` cuts the line at the tokens between its words and stores where each word begins.
Both functions store one element more than their limit allows: the terminator behind a full
line, and the null pointer behind as many words as there is room for.
-/

namespace LightOS
namespace Shell

open Components

variable {next argc count : Nat} {back text line front word : List UInt8} {cmd : Memory}
  {after : Shell}

/-- The words of a line. -/
abbrev words (token : UInt8) (line : List UInt8) : List (List UInt8) :=
  components (isToken token) line

/-- The array `argv` lists words in order, with a null pointer behind the last one. -/
structure Lists (list : List (List UInt8)) (argc : Nat) (s : Shell) : Prop where
  count : argc = list.length
  pointers : ∃ pointers : List Nat, List.Forall₂ s.cmd.StringAt pointers list ∧
    ∀ index (inside : index < pointers.length), s.argv index = some pointers[index]
  ends : s.argv list.length = none

/-- `readline` and `cmd_parse` store inside the arrays, and `argv` lists the words of the
edited line. -/
structure Splits (s : Shell) (token : UInt8) (reads : List (Option UInt8)) : Prop where
  inside : (s.readline maxCmdLen reads).2.Inside
  parsed : (s.readline maxCmdLen reads).1 = true → ∃ argc after,
    (s.readline maxCmdLen reads).2.cmdParse token = .ok (argc, after) ∧ after.Inside ∧
      ∀ line, edited [] reads = some line → Lists (words token line) argc after

/-- The line never fills its array, and what it ends as has fewer words than `argv` has
elements and no zero byte. -/
def Small (token : UInt8) (reads : List (Option UInt8)) : Prop :=
  Fits [] reads ∧ ∀ line, edited [] reads = some line →
    (words token line).length < maxArgNr ∧ 0 ∉ line

variable {s : Shell} {token : UInt8}

/-- A pointer moves over the bytes in front of the first that does not pass. -/
theorem advance_eq {test : UInt8 → Bool} {rounds : Nat} (holds : cmd.Holds next front)
    (passes : ∀ byte ∈ front, test byte = true) (stops : test (cmd (next + front.length)) = false)
    (enough : front.length < rounds) :
    advance test cmd rounds next = .ok (next + front.length) := by
  induction front generalizing rounds next with
  | nil =>
      cases rounds with
      | zero => omega
      | succ rounds =>
          rw [advance, if_neg]
          · rfl
          · simpa using stops
  | cons byte front inductionHypothesis =>
      cases rounds with
      | zero => omega
      | succ rounds =>
          have first : cmd next = byte := holds 0 (Nat.succ_pos _)
          have later : cmd.Holds (next + 1) front := by
            have both : cmd.Holds next ([byte] ++ front) := holds
            exact (Memory.holds_append.mp both).2
          have behind : next + (byte :: front).length = next + 1 + front.length := by
            rw [List.length_cons]
            omega
          rw [behind] at stops ⊢
          rw [advance, first, if_pos (passes byte List.mem_cons_self)]
          exact inductionHypothesis later (fun other inFront => passes other (.tail _ inFront))
            stops (Nat.lt_of_succ_lt_succ enough)

/-- The end of a string is a string. -/
theorem stringAt_suffix {address : Nat} (lies : cmd.StringAt address (front ++ back)) :
    cmd.StringAt (address + front.length) back where
  inSpace := by
    have inSpace := lies.inSpace
    rw [List.length_append] at inSpace
    omega
  bytes := by
    have bytes := lies.bytes
    rw [List.append_assoc, Memory.holds_append] at bytes
    exact bytes.2
  nonzero := fun isZero => lies.nonzero (List.mem_append_right _ isZero)

/-- The byte behind a part of a string. -/
theorem byte_behind {address : Nat} {byte : UInt8}
    (holds : cmd.Holds address (front ++ byte :: back)) : cmd (address + front.length) = byte :=
  (Memory.holds_append.mp holds).2 0 (Nat.succ_pos _)

section Round

/-- The first inner loop of `cmd_parse` moves over the tokens in front of a word. -/
theorem skip_spec (tokenNonzero : token ≠ 0) (lies : cmd.StringAt next text) :
    ∃ gap, advance (isToken token) cmd (2 ^ 32) next = .ok (next + gap) ∧
      gap + (skip (isToken token) text).length = text.length ∧
      cmd.StringAt (next + gap) (skip (isToken token) text) := by
  obtain ⟨seps, split, separators⟩ := skip_prefix (isToken token) text
  have inSpace := lies.inSpace
  have length := congrArg List.length split
  rw [List.length_append] at length
  rw [split] at lies
  have stays := stringAt_suffix lies
  refine ⟨seps.length, advance_eq (Memory.holds_append.mp (Memory.holds_append.mp lies.bytes).1).1
    separators ?_ (by omega), length.symm, stays⟩
  cases behind : skip (isToken token) text with
  | nil =>
      rw [behind] at stays
      have ended := stays.ended
      rw [List.length_nil, Nat.add_zero] at ended
      rw [ended]
      exact decide_eq_false (Ne.symm tokenNonzero)
  | cons byte back =>
      rw [behind] at stays
      rw [show cmd (next + seps.length) = byte from stays.bytes 0 (Nat.succ_pos _)]
      refine decide_eq_false fun isToken => ?_
      exact skip_ne_cons text (decide_eq_true isToken) back behind

/-- The second inner loop of `cmd_parse` moves over a word, to the token or the terminator
behind it. -/
theorem word_spec (lies : cmd.StringAt next (word ++ back)) (plain : Plain (isToken token) word)
    (ends : ∀ byte ∈ back.head?, byte = token) :
    advance (fun byte => byte ≠ 0 ∧ byte ≠ token) cmd (2 ^ 32) next =
      .ok (next + word.length) := by
  have inSpace := lies.inSpace
  rw [List.length_append] at inSpace
  have bytes := lies.bytes
  rw [List.append_assoc] at bytes
  refine advance_eq (Memory.holds_append.mp bytes).1 (fun byte inWord => ?_) ?_ (by omega)
  · have nonzero : byte ≠ 0 := fun isZero =>
      lies.nonzero (List.mem_append_left _ (isZero ▸ inWord))
    exact decide_eq_true ⟨nonzero, of_decide_eq_false (plain byte inWord)⟩
  · refine decide_eq_false fun both => ?_
    cases back with
    | nil => exact both.1 (byte_behind bytes)
    | cons byte back => exact both.2 ((byte_behind bytes).trans (ends byte rfl))

/-- A string that is cut at one of its bytes is two strings. -/
theorem cut_spec {sep : UInt8} (lies : cmd.StringAt next (word ++ sep :: back)) :
    (cmd.store (next + word.length) 1 fun _ => 0).StringAt next word ∧
      (cmd.store (next + word.length) 1 fun _ => 0).StringAt (next + word.length + 1) back := by
  have inSpace := lies.inSpace
  rw [List.length_append, List.length_cons] at inSpace
  have bytes := lies.bytes
  rw [List.append_assoc, Memory.holds_append] at bytes
  constructor
  · refine ⟨by omega, ?_, fun isZero => lies.nonzero (List.mem_append_left _ isZero)⟩
    rw [Memory.holds_append]
    refine ⟨bytes.1.congr (Memory.agreeOn_store _ (by omega)), fun index isIndex => ?_⟩
    rw [List.length_singleton] at isIndex
    rw [Memory.store_inside _ (by omega) (by omega)]
    simp
  · have split : word ++ sep :: back = (word ++ [sep]) ++ back := by simp
    have suffix := stringAt_suffix (split ▸ lies)
    rw [List.length_append, List.length_singleton, ← Nat.add_assoc] at suffix
    exact suffix.congr (Memory.agreeOn_store _ (by omega))

end Round

/-- What the loop of `cmd_parse` leaves, from a place in the line on. -/
structure Cut (token : UInt8) (next argc : Nat) (text : List UInt8) (s : Shell) (count : Nat)
    (after : Shell) : Prop where
  count : count = min maxArgNr (argc + (words token text).length)
  kept : ∀ index, index < next ∨ s.cmd index = 0 → after.cmd index = s.cmd index
  earlier : ∀ index < argc, after.argv index = s.argv index
  pointers : ∃ pointers : List Nat,
    List.Forall₂ after.cmd.StringAt pointers ((words token text).take (maxArgNr - argc)) ∧
      ∀ index (inside : index < pointers.length), after.argv (argc + index) = some pointers[index]
  inside : ∀ index ∈ after.cmdStores, index ∈ s.cmdStores ∨ index < next + text.length
  insideArgs : ∀ index ∈ after.argvStores, index ∈ s.argvStores ∨ index < maxArgNr

/-- The loop of `cmd_parse` ends where there are no words left, or no room for them. -/
theorem Cut.refl (atMost : argc ≤ maxArgNr) (ends : words token text = [] ∨ argc = maxArgNr) :
    Cut token next argc text s argc s where
  count := by
    rcases ends with none | full
    · rw [none, List.length_nil]
      omega
    · omega
  kept _ _ := rfl
  earlier _ _ := rfl
  pointers := by
    refine ⟨[], ?_, nofun⟩
    rcases ends with none | full
    · rw [none, List.take_nil]
      exact .nil
    · rw [full, Nat.sub_self]
      exact .nil
  inside _ := .inl
  insideArgs _ := .inl

/-- A word that a round finds, its terminator, and what the rounds behind it leave. -/
theorem Cut.cons {start later : Nat} {middle : Shell} (room : argc < maxArgNr)
    (isWords : words token text = word :: words token back)
    (kept : ∀ index, index < next ∨ s.cmd index = 0 → middle.cmd index = s.cmd index)
    (pointer : middle.argv = Function.update s.argv argc (some start))
    (lies : middle.cmd.StringAt start word)
    (behind : next ≤ later ∧ start + word.length ≤ later ∧ later + back.length ≤ next + text.length)
    (inside : ∀ index ∈ middle.cmdStores, index ∈ s.cmdStores ∨ index < next + text.length)
    (insideArgs : middle.argvStores = argc :: s.argvStores)
    (rest : Cut token later (argc + 1) back middle count after) :
    Cut token next argc text s count after where
  count := by
    rw [rest.count, isWords, List.length_cons]
    omega
  kept index before := by
    have same := kept index before
    refine (rest.kept index ?_).trans same
    rcases before with isBefore | isZero
    · exact .inl (by omega)
    · exact .inr (same.trans isZero)
  earlier index before := by
    rw [rest.earlier index (by omega), pointer, Function.update_of_ne (by omega)]
  pointers := by
    obtain ⟨pointers, strings, listed⟩ := rest.pointers
    have left : maxArgNr - argc = maxArgNr - (argc + 1) + 1 := by omega
    have agree : Memory.AgreeOn after.cmd middle.cmd start (word.length + 1) := by
      intro index above below
      by_cases last : index = start + word.length
      · exact rest.kept index (.inr (last ▸ lies.ended))
      · exact rest.kept index (.inl (by omega))
    refine ⟨start :: pointers, ?_, fun index isIndex => ?_⟩
    · rw [isWords, left, List.take_succ_cons]
      exact .cons (lies.congr agree) strings
    · cases index with
      | zero =>
          rw [Nat.add_zero, rest.earlier argc (Nat.lt_succ_self _), pointer,
            Function.update_self]
          rfl
      | succ index =>
          have next := listed index (Nat.lt_of_succ_lt_succ isIndex)
          rw [List.getElem_cons_succ, ← next]
          congr 1
          omega
  inside index stored := by
    rcases rest.inside index stored with before | within
    · exact inside index before
    · exact .inr (by omega)
  insideArgs index stored := by
    rcases rest.insideArgs index stored with before | within
    · rw [insideArgs] at before
      rcases List.mem_cons.mp before with rfl | earlier
      · exact .inr room
      · exact .inl earlier
    · exact .inr within

/-- A round of `cmd_parse` that finds a word stores a pointer to it and cuts it off, and the
loop goes on behind it. -/
theorem parseLoop_word (tokenNonzero : token ≠ 0) (rounds : Nat) (lies : s.cmd.StringAt next text)
    (room : argc < maxArgNr) (found : first (isToken token) text ≠ []) :
    ∃ later middle, parseLoop token (rounds + 1) next argc s =
        parseLoop token rounds later (argc + 1) middle ∧
      middle.cmd.StringAt later (rest (isToken token) text) ∧
      ∀ count after, Cut token later (argc + 1) (rest (isToken token) text) middle count after →
        Cut token next argc text s count after := by
  obtain ⟨gap, skipped, total, liesSkipped⟩ := skip_spec tokenNonzero lies
  have isWords := @components_eq _ (isToken token) text
  rw [if_neg found] at isWords
  have plain := @first_plain _ (isToken token) text
  have notEmpty : skip (isToken token) text ≠ [] := fun nothing =>
    found (by rw [first, nothing]; rfl)
  have some : text ≠ [] := fun nothing => notEmpty (by rw [nothing]; rfl)
  have here := lies.ne_zero (List.length_pos_iff.mpr some)
  have start := liesSkipped.ne_zero (List.length_pos_iff.mpr notEmpty)
  rw [Nat.add_zero] at here start
  rw [parseLoop, if_pos ⟨here, room⟩, skipped, ok_bind, if_neg start]
  generalize isMiddle : s.storeArg argc (.some (next + gap)) = middle
  have same : middle.cmd = s.cmd := by
    rw [← isMiddle]
    rfl
  have pointer : middle.argv = Function.update s.argv argc (.some (next + gap)) := by
    rw [← isMiddle]
    rfl
  have stores : middle.cmdStores = s.cmdStores ∧ middle.argvStores = argc :: s.argvStores := by
    rw [← isMiddle]
    exact ⟨rfl, rfl⟩
  rw [← same] at liesSkipped
  dsimp only
  rcases skip_eq (isToken token) text with ⟨whole, ends⟩ | ⟨sep, isSep, split⟩
  · -- The word ends with the line.
    rw [whole] at liesSkipped total
    rw [← List.append_nil (first _ _)] at liesSkipped
    have liesEnd := stringAt_suffix liesSkipped
    have ended := liesEnd.ended
    rw [List.length_nil, Nat.add_zero] at ended
    rw [word_spec liesSkipped plain (by simp), ok_bind, if_neg (not_not.mpr ended)]
    rw [List.append_nil] at liesSkipped
    refine ⟨_, middle, rfl, ends ▸ liesEnd, fun count after cut => ?_⟩
    refine .cons room isWords (fun _ _ => by rw [same]) pointer liesSkipped
      ⟨by omega, Nat.le_refl _, ?_⟩ (fun _ stored => .inl (stores.1 ▸ stored)) stores.2 cut
    rw [ends, List.length_nil]
    omega
  · -- The token behind the word becomes its terminator.
    rw [split] at liesSkipped total
    rw [List.length_append, List.length_cons] at total
    have isByte := byte_behind (Memory.holds_append.mp liesSkipped.bytes).1
    have sepNonzero : sep ≠ 0 := fun isZero => liesSkipped.nonzero (by simp [isZero])
    obtain ⟨liesWord, liesRest⟩ := cut_spec liesSkipped
    rw [word_spec liesSkipped plain (by simpa using isSep), ok_bind,
      if_pos (isByte.trans_ne sepNonzero)]
    rw [same] at isByte
    have kept : ∀ index, index < next ∨ s.cmd index = 0 →
        (middle.store (next + gap + (first (isToken token) text).length) 0).cmd index =
          s.cmd index := by
      intro index before
      rw [← same]
      refine Memory.store_outside (fun _ => 0) ?_
      rcases before with isBefore | isZero
      · exact .inl (by omega)
      · have apart : index ≠ next + gap + (first (isToken token) text).length :=
          fun isPlace => sepNonzero (isByte.symm.trans (isPlace ▸ isZero))
        omega
    refine ⟨_, _, rfl, liesRest, fun count after cut => ?_⟩
    refine .cons room isWords kept pointer liesWord ⟨by omega, Nat.le_succ _, by omega⟩
      (fun index stored => ?_) stores.2 cut
    · rcases List.mem_cons.mp stored with rfl | before
      · exact .inr (by omega)
      · exact .inl (stores.1 ▸ before)

/-- The loop of `cmd_parse` from a place in the line on. -/
theorem parseLoop_spec (tokenNonzero : token ≠ 0) (rounds : Nat)
    (left : argc + rounds = maxArgNr + 1) (positive : 0 < rounds)
    (lies : s.cmd.StringAt next text) :
    ∃ count after, parseLoop token rounds next argc s = .ok (count, after) ∧
      Cut token next argc text s count after := by
  induction rounds generalizing next argc text s with
  | zero => omega
  | succ rounds inductionHypothesis =>
      have isWords := @components_eq _ (isToken token) text
      by_cases room : argc < maxArgNr
      · by_cases none : first (isToken token) text = []
        · rw [if_pos none] at isWords
          refine ⟨argc, s, ?_, .refl (by omega) (.inl isWords)⟩
          obtain ⟨gap, skipped, _, liesSkipped⟩ := skip_spec tokenNonzero lies
          rw [skip_eq_nil none] at liesSkipped
          have ended := liesSkipped.ended
          rw [List.length_nil, Nat.add_zero] at ended
          rw [parseLoop, skipped, ok_bind, if_pos ended]
          split <;> rfl
        · obtain ⟨later, middle, goesOn, liesRest, extended⟩ :=
            parseLoop_word tokenNonzero rounds lies room none
          obtain ⟨count, after, ran, cut⟩ :=
            inductionHypothesis (show argc + 1 + rounds = maxArgNr + 1 by omega) (by omega) liesRest
          exact ⟨count, after, goesOn.trans ran, extended count after cut⟩
      · rw [parseLoop, if_neg fun both => room both.2]
        exact ⟨argc, s, rfl, .refl (by omega) (.inr (by omega))⟩

/-- What `cmd_parse` leaves of a line that it is given. -/
theorem cmdParse_spec (tokenNonzero : token ≠ 0) (lies : s.cmd.StringAt 0 line) :
    ∃ count after, s.cmdParse token = .ok (count, after.storeArg count none) ∧
      Cut token 0 0 line s count after := by
  obtain ⟨count, after, ran, cut⟩ :=
    parseLoop_spec tokenNonzero (maxArgNr + 1) (Nat.zero_add _) (Nat.succ_pos _) lies
  refine ⟨count, after, ?_, cut⟩
  rw [cmdParse, ran]
  rfl

/-- With fewer words than `argv` has elements, `cmd_parse` stores inside the arrays and `argv`
lists the words. -/
theorem Cut.lists (cut : Cut token 0 0 line s count after)
    (few : (words token line).length < maxArgNr) (short : line.length < maxCmdLen)
    (inside : s.Inside) :
    (after.storeArg count none).Inside ∧
      Lists (words token line) count (after.storeArg count none) := by
  have isCount : count = (words token line).length := by
    rw [cut.count]
    omega
  obtain ⟨pointers, strings, listed⟩ := cut.pointers
  rw [Nat.sub_zero, List.take_of_length_le (by omega)] at strings
  have length := strings.length_eq
  constructor
  · refine Inside.storeArg ⟨fun index stored => ?_, fun index stored => ?_⟩ (by omega) none
    · rcases cut.inside index stored with before | within
      · exact inside.cmd index before
      · omega
    · rcases cut.insideArgs index stored with before | within
      · exact inside.argv index before
      · exact within
  · refine ⟨isCount, ⟨pointers, strings, fun index isIndex => ?_⟩, ?_⟩
    · have other : index ≠ count := by omega
      rw [← listed index isIndex, Nat.zero_add]
      exact Function.update_of_ne other _ _
    · rw [← isCount]
      exact Function.update_self _ _ _

/-- With as many words as `argv` has elements or more, `cmd_parse` stores behind it. -/
theorem Cut.not_inside (cut : Cut token 0 0 line s count after)
    (many : maxArgNr ≤ (words token line).length) : ¬(after.storeArg count none).Inside := by
  intro inside
  have isCount := cut.count
  have stored := inside.argv count List.mem_cons_self
  omega

/-- The words that `argv` lists have no zero byte, and neither has the line. -/
theorem Lists.nonzero (tokenNonzero : token ≠ 0) (lists : Lists (words token line) count s) :
    0 ∉ line := by
  intro inLine
  obtain ⟨word, isWord, inWord⟩ : ∃ word ∈ words token line, 0 ∈ word :=
    mem_components inLine (decide_eq_false (Ne.symm tokenNonzero))
  obtain ⟨pointers, strings, _⟩ := lists.pointers
  obtain ⟨index, isIndex, rfl⟩ := List.getElem_of_mem isWord
  exact (strings.get (strings.length_eq ▸ isIndex) isIndex).nonzero inWord

/-- `readline` and `cmd_parse` store inside their arrays and list the words of the line exactly
when the line stays shorter than its array, has fewer words than `argv` has elements and no
zero byte. -/
theorem splits_iff_small (cmd : Memory) (argv : Nat → Option Nat)
    (reads : List (Option UInt8)) :
    Splits (start cmd argv) 0x20 reads ↔ Small 0x20 reads := by
  by_cases fits : Fits [] reads
  · obtain ⟨inside, returns, holds⟩ := readline_spec cmd argv fits
    constructor
    · rintro ⟨_, parsed⟩
      refine ⟨fits, fun line isLine => ?_⟩
      obtain ⟨count, after, ran, insideAfter, lists⟩ :=
        parsed (returns.trans (by rw [isLine]; rfl))
      have nonzero := (lists line isLine).nonzero (by decide)
      obtain ⟨other, final, isParsed, cut⟩ := cmdParse_spec (show (0x20 : UInt8) ≠ 0 by decide)
        ((holds line isLine).2 nonzero)
      cases isParsed.symm.trans ran
      refine ⟨?_, nonzero⟩
      by_contra many
      exact cut.not_inside (Nat.le_of_not_lt many) insideAfter
    · rintro ⟨_, small⟩
      refine ⟨inside, fun returned => ?_⟩
      obtain ⟨line, isLine⟩ := Option.isSome_iff_exists.mp (returns.symm.trans returned)
      obtain ⟨few, nonzero⟩ := small line isLine
      obtain ⟨short, lies⟩ := holds line isLine
      obtain ⟨count, after, isParsed, cut⟩ := cmdParse_spec (show (0x20 : UInt8) ≠ 0 by decide)
        (lies nonzero)
      obtain ⟨insideAfter, lists⟩ := cut.lists few short inside
      refine ⟨count, _, isParsed, insideAfter, fun other isOther => ?_⟩
      cases isLine.symm.trans isOther
      exact lists
  · exact iff_of_false (fun splits => readline_overflows cmd argv fits splits.inside)
      fun small => fits small.1

/-- Sixteen words of one letter. -/
def sixteenWords : List UInt8 :=
  (List.replicate 16 [0x61, 0x20]).flatten

/-- As many words as `argv` has elements make `cmd_parse` store behind it. -/
theorem splits_fails :
    ¬∀ (cmd : Memory) (argv : Nat → Option Nat) (reads : List (Option UInt8)),
      Splits (start cmd argv) 0x20 reads := by
  intro always
  have isLine : edited [] (sixteenWords.map some ++ [some 0x0A]) = some sixteenWords := by decide
  obtain ⟨_, returns, holds⟩ := readline_spec ⟨fun _ => 0⟩ (fun _ => none)
    (show Fits [] (sixteenWords.map some ++ [some 0x0A]) by decide)
  obtain ⟨count, after, isParsed, cut⟩ := cmdParse_spec (show (0x20 : UInt8) ≠ 0 by decide)
    ((holds sixteenWords isLine).2 (by decide))
  obtain ⟨other, final, ran, inside, _⟩ :=
    (always ⟨fun _ => 0⟩ (fun _ => none) _).parsed (returns.trans (by rw [isLine]; rfl))
  cases isParsed.symm.trans ran
  exact cut.not_inside (by decide) inside

end Shell
end LightOS
