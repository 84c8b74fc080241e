import LightOS.Fs.Directory

/-!
# What `match_name` reads

`match_name` compares a path with the name of an entry as if both were strings.  A name of
14 bytes fills its field and has no terminator, and the comparison of a path that begins
with it goes on behind the field.  Nor does the comparison stop at a separator in a name.
It is exact for all other entries and paths.
-/

namespace LightOS

open Components

/-- The numbers of the bytes of the entry's name that the comparison of `match_name`
reads. -/
def readsFrom : Cursor → (Nat → UInt8) → Nat → List Nat
  | [], _, index => [index]
  | byte :: rest, name, index =>
      if byte = name index then index :: readsFrom rest name (index + 1) else [index]

/-- The bytes of the entry's name that `match_name` reads. -/
def nameReads (name : Cursor) (entryName : Nat → UInt8) : List Nat :=
  readsFrom (skipSeparators name) entryName 0

/-- `match_name` reads no byte behind the name of an entry and compares the name with the
first component of a path. -/
structure MatchesExactly (path : Cursor) (entry : Dentry) : Prop where
  reads : ∀ index ∈ nameReads path entry.name, index < nameLen
  result : matchName path entry.name =
    if first isSeparator path = entry.text then some (rest isSeparator path) else none

/-- What follows a name in a path ends its component. -/
def Ends (back : Cursor) : Prop :=
  ∀ byte ∈ back.head?, isSeparator byte = true

instance (back : Cursor) : Decidable (Ends back) :=
  inferInstanceAs (Decidable (∀ byte ∈ back.head?, isSeparator byte = true))

/-- The name of an entry is not a full one that a path begins with, and not one with a
separator that a path begins with and ends a component after. -/
structure Comparable (path : Cursor) (entry : Dentry) : Prop where
  notFull : ¬(entry.text.length = nameLen ∧ entry.text <+: skip isSeparator path)
  notDivided : ¬(¬Plain isSeparator entry.text ∧
    ∃ back, skip isSeparator path = entry.text ++ back ∧ Ends back)

/-- The bytes from an index on begin with those of a string. -/
def Begins (name : Nat → UInt8) : Nat → Cursor → Prop
  | _, [] => True
  | index, byte :: rest => name index = byte ∧ byte ≠ 0 ∧ Begins name (index + 1) rest

theorem begins_nameFrom (name : Nat → UInt8) (left index : Nat) :
    Begins name index (nameFrom name left index) := by
  induction left generalizing index with
  | zero => trivial
  | succ left inductionHypothesis =>
      rw [nameFrom]
      by_cases ends : name index = 0
      · rw [if_pos ends]
        trivial
      · rw [if_neg ends]
        exact ⟨rfl, ends, inductionHypothesis (index + 1)⟩

theorem nameFrom_length_le (name : Nat → UInt8) (left index : Nat) :
    (nameFrom name left index).length ≤ left := by
  induction left generalizing index with
  | zero => exact Nat.le_refl 0
  | succ left inductionHypothesis =>
      rw [nameFrom]
      split
      · exact Nat.zero_le _
      · exact Nat.succ_le_succ (inductionHypothesis (index + 1))

/-- A name that a string spells ends behind it. -/
theorem Spells.ends {name : Nat → UInt8} {index : Nat} {spelled : Cursor}
    (spells : Spells name index spelled) : name (index + spelled.length) = 0 := by
  induction spelled generalizing index with
  | nil => exact spells
  | cons byte spelled inductionHypothesis =>
      rw [List.length_cons, Nat.add_comm spelled.length, ← Nat.add_assoc]
      exact inductionHypothesis spells.2.2

section Comparison

variable {name : Nat → UInt8} {index : Nat} {spelled cursor back : Cursor}

/-- The comparison stops inside a name that a path does not begin with. -/
theorem compare_of_not_prefix (begins : Begins name index spelled)
    (differs : ¬spelled <+: cursor) :
    compareName cursor name index = none ∧
      ∀ other ∈ readsFrom cursor name index, other < index + spelled.length := by
  induction spelled generalizing cursor index with
  | nil => exact absurd List.nil_prefix differs
  | cons letter spelled inductionHypothesis =>
      obtain ⟨same, notZero, begins⟩ := begins
      have here : index < index + (letter :: spelled).length := by simp
      cases cursor with
      | nil => simp [compareName, readsFrom, same, notZero]
      | cons byte cursor =>
          rw [compareName, readsFrom, same]
          by_cases equal : byte = letter
          · rw [equal, List.cons_prefix_cons] at differs
            obtain ⟨none, inside⟩ := inductionHypothesis begins
              (fun isPrefix => differs ⟨rfl, isPrefix⟩)
            rw [if_pos equal, if_pos equal]
            refine ⟨none, fun other isRead => ?_⟩
            rcases List.mem_cons.mp isRead with rfl | later
            · exact here
            · have before := inside other later
              rw [List.length_cons]
              omega
          · rw [if_neg equal, if_neg equal, if_pos notZero]
            exact ⟨rfl, fun other isRead => List.mem_singleton.mp isRead ▸ here⟩

/-- The comparison with a path that begins with a name gets behind the name. -/
theorem compare_append (back : Cursor) (begins : Begins name index spelled) :
    compareName (spelled ++ back) name index = compareName back name (index + spelled.length) ∧
      ∀ other, other ∈ readsFrom (spelled ++ back) name index ↔
        (index ≤ other ∧ other < index + spelled.length) ∨
          other ∈ readsFrom back name (index + spelled.length) := by
  induction spelled generalizing index with
  | nil =>
      have none (other : Nat) : ¬(index ≤ other ∧ other < index) := by omega
      simp [none]
  | cons letter spelled inductionHypothesis =>
      obtain ⟨same, _, begins⟩ := begins
      obtain ⟨result, reads⟩ := inductionHypothesis begins
      have behind : index + 1 + spelled.length = index + (letter :: spelled).length := by
        rw [List.length_cons]
        omega
      rw [behind] at result reads
      rw [List.cons_append, compareName, readsFrom, if_pos same.symm, if_pos same.symm]
      refine ⟨result, fun other => ?_⟩
      rw [List.mem_cons, reads, ← or_assoc, List.length_cons]
      exact or_congr_left (by omega)

/-- Behind the terminator of a name the comparison stops. -/
theorem compare_terminated (terminated : name index = 0) (text : Unterminated back) :
    (compareName back name index = if Ends back then some back.tail else none) ∧
      readsFrom back name index = [index] := by
  cases back with
  | nil => simp [compareName, readsFrom, terminated, Ends]
  | cons byte back =>
      have notZero := text byte List.mem_cons_self
      simp [compareName, readsFrom, terminated, notZero, Ends]

end Comparison

/-- The comparison reads where it begins. -/
theorem mem_readsFrom (cursor : Cursor) (name : Nat → UInt8) (index : Nat) :
    index ∈ readsFrom cursor name index := by
  cases cursor with
  | nil => simp [readsFrom]
  | cons byte rest =>
      rw [readsFrom]
      split <;> simp

/-- The first component of a path that begins with a name is the name exactly when no
separator is in the name and one or the end is behind it. -/
theorem first_eq_iff {path spelled back : Cursor}
    (split : skip isSeparator path = spelled ++ back) :
    first isSeparator path = spelled ↔ Plain isSeparator spelled ∧ Ends back := by
  unfold first
  rw [split]
  constructor
  · intro same
    have plain : Plain isSeparator spelled := by
      rw [← same]
      intro byte inFirst
      simpa using List.mem_takeWhile_imp inFirst
    refine ⟨plain, ?_⟩
    rw [List.takeWhile_append_of_pos fun byte inName => by simp [plain byte inName],
      List.append_right_eq_self] at same
    cases back with
    | nil => simp [Ends]
    | cons byte back =>
        cases separates : isSeparator byte with
        | true => simp [Ends, separates]
        | false => simp [separates] at same
  · rintro ⟨plain, ends⟩
    rw [List.takeWhile_append_of_pos fun byte inName => by simp [plain byte inName],
      List.append_right_eq_self]
    cases back with
    | nil => rfl
    | cons byte back => exact List.takeWhile_cons_of_neg (by simpa [Ends] using ends)

/-- What is behind a name that is the first component. -/
theorem rest_eq {path spelled back : Cursor} (split : skip isSeparator path = spelled ++ back)
    (plain : Plain isSeparator spelled) (ends : Ends back) : rest isSeparator path = back.tail := by
  unfold rest
  rw [split, List.dropWhile_append_of_pos fun byte inName => by simp [plain byte inName]]
  cases back with
  | nil => rfl
  | cons byte back => rw [List.dropWhile_cons_of_neg (by simpa [Ends] using ends)]

variable {path : Cursor} {entry : Dentry}

/-- A name that a path does not begin with is compared exactly. -/
theorem matchesExactly_of_not_prefix (differs : ¬entry.text <+: skip isSeparator path) :
    MatchesExactly path entry := by
  obtain ⟨none, inside⟩ :=
    compare_of_not_prefix (begins_nameFrom entry.name nameLen 0) differs
  have short := nameFrom_length_le entry.name nameLen 0
  refine ⟨fun index isRead => ?_, ?_⟩
  · have before := inside index isRead
    omega
  · have notFirst : first isSeparator path ≠ entry.text := by
      intro same
      rw [← same] at differs
      exact differs (List.takeWhile_prefix _)
    rw [if_neg notFirst]
    exact none

/-- The comparison leaves a full name that a path begins with. -/
theorem not_matchesExactly_of_full (full : entry.text.length = nameLen)
    (isPrefix : entry.text <+: skip isSeparator path) : ¬MatchesExactly path entry := by
  intro exactly
  obtain ⟨back, split⟩ := isPrefix
  have reads := (compare_append back (begins_nameFrom entry.name nameLen 0)).2
  have outside : nameLen ∈ nameReads path entry.name := by
    unfold nameReads
    rw [skipSeparators_eq, ← split, Dentry.text, reads]
    refine .inr ?_
    have behind : 0 + (nameFrom entry.name nameLen 0).length = nameLen :=
      (Nat.zero_add _).trans full
    rw [behind]
    exact mem_readsFrom _ _ _
  exact absurd (exactly.reads nameLen outside) (Nat.lt_irrefl _)

/-- A path that begins with a name that does not fill its field is compared up to the
terminator of the name. -/
theorem matchesExactly_iff_of_short {back : Cursor} (short : entry.text.length < nameLen)
    (split : skip isSeparator path = entry.text ++ back) (text : Unterminated path) :
    MatchesExactly path entry ↔ (Ends back → Plain isSeparator entry.text) := by
  have begins := begins_nameFrom entry.name nameLen 0
  have textBack : Unterminated back := by
    intro byte inBack
    refine text byte ((List.dropWhile_sublist isSeparator).mem ?_)
    change byte ∈ skip isSeparator path
    rw [split]
    exact List.mem_append_right _ inBack
  obtain ⟨result, reads⟩ := compare_append back begins
  obtain ⟨ends, last⟩ := compare_terminated (spells_nameFrom short).ends textBack
  have compared : matchName path entry.name = if Ends back then some back.tail else none := by
    unfold matchName
    rw [skipSeparators_eq, split]
    exact result.trans ends
  have inside : ∀ index ∈ nameReads path entry.name, index < nameLen := by
    intro index isRead
    unfold nameReads at isRead
    rw [skipSeparators_eq, split, Dentry.text, reads, last, List.mem_singleton] at isRead
    unfold Dentry.text at short
    omega
  have matched := first_eq_iff split
  constructor
  · intro exactly isEnd
    have same := compared.symm.trans exactly.result
    by_contra divided
    rw [if_pos isEnd, if_neg fun isFirst => divided (matched.mp isFirst).1] at same
    cases same
  · intro plain
    refine ⟨inside, compared.trans ?_⟩
    by_cases isEnd : Ends back
    · have isFirst := matched.mpr ⟨plain isEnd, isEnd⟩
      rw [if_pos isEnd, if_pos isFirst, rest_eq split (plain isEnd) isEnd]
    · rw [if_neg isEnd, if_neg fun isFirst => isEnd (matched.mp isFirst).2]

/-- `match_name` compares the name of an entry with the first component of a path, and reads
no byte behind it, unless the name fills its field and the path begins with it, or it has a
separator and the path begins with it and ends a component there. -/
theorem matchesExactly_iff_comparable (text : Unterminated path) :
    MatchesExactly path entry ↔ Comparable path entry := by
  by_cases isPrefix : entry.text <+: skip isSeparator path
  · by_cases full : entry.text.length = nameLen
    · exact iff_of_false (not_matchesExactly_of_full full isPrefix)
        fun comparable => comparable.notFull ⟨full, isPrefix⟩
    · obtain ⟨back, split⟩ := isPrefix
      have atMost : entry.text.length ≤ nameLen := nameFrom_length_le entry.name nameLen 0
      rw [matchesExactly_iff_of_short (by omega) split.symm text]
      constructor
      · intro plain
        refine ⟨fun isFull => full isFull.1, ?_⟩
        rintro ⟨divided, other, isOther, isEnd⟩
        rw [← split, List.append_cancel_left_eq] at isOther
        rw [← isOther] at isEnd
        exact divided (plain isEnd)
      · intro comparable isEnd
        by_contra divided
        exact comparable.notDivided ⟨divided, back, split.symm, isEnd⟩
  · have exactly := matchesExactly_of_not_prefix isPrefix
    refine iff_of_true exactly ⟨fun isFull => isPrefix isFull.2, ?_⟩
    rintro ⟨_, back, split, _⟩
    exact isPrefix ⟨back, split.symm⟩

/-- An entry with a name of one letter, in front of another entry. -/
theorem matchesExactly_iff_comparable_letter :
    MatchesExactly [47, 97, 47, 98] ⟨1, fun index => if index = 0 then 97 else 0⟩ :=
  (matchesExactly_iff_comparable (by decide)).mpr
    ⟨fun isFull => absurd isFull.1 (by decide), fun divided => absurd divided.1 (by decide)⟩

/-- A directory block whose first entry has a name of 14 letters. -/
def fullNames : Memory :=
  ⟨fun address => if 2 ≤ address ∧ address < 16 then 97 else 2⟩

/-- `match_name` does not find a name of 14 letters by its own letters. -/
theorem matchesExactly_fails :
    ¬∀ (block : Memory) (address : Nat) (path : Cursor),
      (Dentry.read block address).nr ≠ 0 → (Dentry.read block address).text ≠ [] →
        Unterminated path → MatchesExactly path (Dentry.read block address) := by
  intro always
  have matched := always fullNames 0 (List.replicate 14 97) (by decide) (by decide) (by decide)
  have lost : matchName (List.replicate 14 97) (Dentry.read fullNames 0).name = none := by decide
  rw [matched.result] at lost
  exact absurd lost (by decide)

end LightOS
