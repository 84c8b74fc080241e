import Mathlib.Data.List.TakeWhile

/-!
# Components of a text

A text is divided by separators into its non-empty components.  Reading it from
the left takes one component at a time and drops one separator after it; a
reader that waits for the place behind the last separator meets that place exactly
when the separator follows a component.
-/

namespace LightOS

namespace Components

variable {α : Type*} (isSep : α → Bool)

/-- The non-empty components of a text. -/
def components (text : List α) : List (List α) :=
  (text.splitOnP isSep).filter fun component => !component.isEmpty

/-- The text behind its leading separators. -/
def skip (text : List α) : List α :=
  text.dropWhile isSep

/-- The first component of a text, empty when there is none. -/
def first (text : List α) : List α :=
  (skip isSep text).takeWhile fun item => !isSep item

/-- The text behind the first component and one separator. -/
def rest (text : List α) : List α :=
  ((skip isSep text).dropWhile fun item => !isSep item).tail

/-- No item of a text is a separator. -/
def Plain (text : List α) : Prop :=
  ∀ item ∈ text, isSep item = false

instance (text : List α) : Decidable (Plain isSep text) :=
  List.decidableBAll (fun item => isSep item = false) text

/-- The last item of a text belongs to a component. -/
def closes (text : List α) : Bool :=
  text.getLast?.any fun item => !isSep item

variable {isSep}

/-! ## Components -/

theorem components_append (front back : List α) {sep : α} (separates : isSep sep) :
    components isSep (front ++ sep :: back) =
      components isSep front ++ components isSep back := by
  unfold components
  rw [List.splitOnP_append_cons front back separates, List.filter_append]

@[simp] theorem components_nil : components isSep [] = [] := rfl

/-- A leading separator belongs to no component. -/
theorem components_cons (back : List α) {sep : α} (separates : isSep sep) :
    components isSep (sep :: back) = components isSep back :=
  components_append [] back separates

/-- A separator next to another one makes no component. -/
theorem components_insert (front back : List α) {sep extra : α}
    (separates : isSep sep) (alsoSeparates : isSep extra) :
    components isSep (front ++ sep :: extra :: back) =
      components isSep (front ++ sep :: back) := by
  rw [components_append _ _ separates, components_append _ _ separates,
    components_cons _ alsoSeparates]

theorem components_plain {text : List α} (plain : Plain isSep text)
    (some : text ≠ []) : components isSep text = [text] := by
  unfold components
  rw [List.splitOnP_eq_singleton plain]
  simp [some]

/-- Leading separators belong to no component. -/
theorem components_skip (text : List α) :
    components isSep (skip isSep text) = components isSep text := by
  induction text with
  | nil => rfl
  | cons item text inductionHypothesis =>
      cases separates : isSep item with
      | true =>
          rw [components_cons text separates, ← inductionHypothesis]
          unfold skip
          rw [List.dropWhile_cons_of_pos separates]
      | false =>
          unfold skip
          rw [List.dropWhile_cons_of_neg (by simp [separates])]

/-- A text behind its leading separators is the first component, and then nothing
or a separator and the rest. -/
theorem skip_eq (isSep : α → Bool) (text : List α) :
    skip isSep text = first isSep text ∧ rest isSep text = [] ∨
      ∃ sep, isSep sep ∧
        skip isSep text = first isSep text ++ sep :: rest isSep text := by
  have split := List.takeWhile_append_dropWhile
    (p := fun item => !isSep item) (l := skip isSep text)
  unfold first rest
  cases behind : (skip isSep text).dropWhile fun item => !isSep item with
  | nil =>
      rw [behind, List.append_nil] at split
      exact .inl ⟨split.symm, rfl⟩
  | cons sep back =>
      have separates : isSep sep := by
        have head := List.head_dropWhile_not (fun item => !isSep item)
          (l := skip isSep text) (by simp [behind])
        simpa [behind] using head
      rw [behind] at split
      exact .inr ⟨sep, separates, split.symm⟩

theorem first_plain (text : List α) : Plain isSep (first isSep text) := by
  have all := List.all_takeWhile (p := fun item => !isSep item)
    (l := skip isSep text)
  intro item inFirst
  simpa using List.all_eq_true.mp all item inFirst

/-- No separator is left in front of a text behind its leading separators. -/
theorem skip_ne_cons (text : List α) {sep : α} (separates : isSep sep)
    (back : List α) : skip isSep text ≠ sep :: back := by
  intro same
  have head := List.head_dropWhile_not isSep (l := text) (by
    unfold skip at same
    simp [same])
  unfold skip at same
  simp [same, separates] at head

/-- The components are the first one and those of the rest. -/
theorem components_eq (text : List α) :
    components isSep text =
      if first isSep text = [] then []
      else first isSep text :: components isSep (rest isSep text) := by
  rw [← components_skip]
  rcases skip_eq isSep text with ⟨whole, ends⟩ | ⟨sep, separates, split⟩
  · rw [whole, ends]
    by_cases none : first isSep text = []
    · rw [none, if_pos rfl, components_nil]
    · rw [if_neg none, components_plain (first_plain text) none, components_nil]
  · have some : first isSep text ≠ [] := by
      intro none
      rw [none] at split
      exact skip_ne_cons text separates _ split
    rw [if_neg some, split, components_append _ _ separates,
      components_plain (first_plain text) some]
    rfl

/-! ## Texts with a separator behind them -/

theorem plain_skip {text : List α} (plain : Plain isSep text) :
    skip isSep text = text := by
  cases text with
  | nil => rfl
  | cons item text =>
      unfold skip
      rw [List.dropWhile_cons_of_neg (by simp [plain item List.mem_cons_self])]

theorem plain_first {text : List α} (plain : Plain isSep text) :
    first isSep text = text := by
  unfold first
  rw [plain_skip plain, List.takeWhile_eq_self_iff]
  intro item inText
  simp [plain item inText]

theorem plain_rest {text : List α} (plain : Plain isSep text) :
    rest isSep text = [] := by
  unfold rest
  rw [plain_skip plain, List.dropWhile_eq_nil_iff.mpr]
  · rfl
  · intro item inText
    simp [plain item inText]

/-- The items that are skipped are separators. -/
theorem skip_prefix (isSep : α → Bool) (text : List α) :
    ∃ front, text = front ++ skip isSep text ∧ ∀ item ∈ front, isSep item = true :=
  ⟨text.takeWhile isSep, List.takeWhile_append_dropWhile.symm,
    fun _ inFront => List.mem_takeWhile_imp inFront⟩

theorem skip_append {front : List α} (back : List α)
    (separators : ∀ item ∈ front, isSep item = true) :
    skip isSep (front ++ back) = skip isSep back :=
  List.dropWhile_append_of_pos separators

theorem skip_of_ne_nil {front : List α} (back : List α)
    (some : skip isSep front ≠ []) :
    skip isSep (front ++ back) = skip isSep front ++ back := by
  unfold skip at some ⊢
  rw [List.dropWhile_append, if_neg (by simpa using some)]

/-- A text without a first component consists of separators. -/
theorem skip_eq_nil {text : List α} (none : first isSep text = []) :
    skip isSep text = [] := by
  rcases skip_eq isSep text with ⟨whole, _⟩ | ⟨sep, separates, split⟩
  · rw [whole, none]
  · rw [none] at split
    exact absurd split (skip_ne_cons text separates _)

/-- Reading a component and the separator behind it. -/
theorem first_rest {text component back : List α} {sep : α}
    (plain : Plain isSep component) (separates : isSep sep)
    (split : skip isSep text = component ++ sep :: back) :
    first isSep text = component ∧ rest isSep text = back := by
  have notSep (item : α) (inComponent : item ∈ component) : (!isSep item) = true := by
    simp [plain item inComponent]
  constructor
  · unfold first
    rw [split, List.takeWhile_append_of_pos notSep,
      List.takeWhile_cons_of_neg (by simp [separates]), List.append_nil]
  · unfold rest
    rw [split, List.dropWhile_append_of_pos notSep,
      List.dropWhile_cons_of_neg (by simp [separates])]
    rfl

/-- In front of a separator, the first component is read as it is without it: the
rest begins behind the separator or else still holds it. -/
theorem first_rest_append {front : List α} (back : List α) {sep : α}
    (separates : isSep sep) (some : first isSep front ≠ []) :
    first isSep (front ++ sep :: back) = first isSep front ∧
      ((skip isSep front = first isSep front ∧ rest isSep front = []) ∧
          rest isSep (front ++ sep :: back) = back ∨
        (∃ other, isSep other ∧
            skip isSep front = first isSep front ++ other :: rest isSep front) ∧
          rest isSep (front ++ sep :: back) = rest isSep front ++ sep :: back) := by
  have left : skip isSep front ≠ [] := by
    intro none
    exact some (by simp [first, none])
  have skipped := skip_of_ne_nil (sep :: back) left
  rcases skip_eq isSep front with ⟨whole, ends⟩ | ⟨other, isOther, split⟩
  · rw [whole] at skipped
    obtain ⟨same, behind⟩ := first_rest (first_plain front) separates skipped
    exact ⟨same, .inl ⟨⟨whole, ends⟩, behind⟩⟩
  · rw [split, List.append_assoc, List.cons_append] at skipped
    obtain ⟨same, behind⟩ := first_rest (first_plain front) isOther skipped
    exact ⟨same, .inr ⟨⟨other, isOther, split⟩, behind⟩⟩

/-- Separators alone are followed by what the text behind them begins with. -/
theorem first_rest_separators {front back : List α} {sep : α}
    (separates : isSep sep) (none : first isSep front = [])
    (plain : Plain isSep back) :
    first isSep (front ++ sep :: back) = back ∧
      rest isSep (front ++ sep :: back) = [] := by
  have skipped : skip isSep (front ++ sep :: back) = skip isSep back := by
    obtain ⟨seps, split, separators⟩ := skip_prefix isSep front
    rw [skip_eq_nil none, List.append_nil] at split
    rw [split, skip_append _ separators]
    unfold skip
    rw [List.dropWhile_cons_of_pos separates]
  constructor
  · calc first isSep (front ++ sep :: back) = first isSep back := by
          unfold first
          rw [skipped]
      _ = back := plain_first plain
  · calc rest isSep (front ++ sep :: back) = rest isSep back := by
          unfold rest
          rw [skipped]
      _ = [] := plain_rest plain

theorem closes_append (front : List α) {back : List α} (some : back ≠ []) :
    closes isSep (front ++ back) = closes isSep back := by
  unfold closes
  rw [List.getLast?_append, List.getLast?_eq_some_getLast some, Option.some_or]

/-- A text closes as what follows its first component and a separator does. -/
theorem closes_rest {text : List α} {sep : α} (separates : isSep sep)
    (split : skip isSep text = first isSep text ++ sep :: rest isSep text) :
    closes isSep text = closes isSep (rest isSep text) := by
  obtain ⟨seps, whole, _⟩ := skip_prefix isSep text
  calc closes isSep text
      = closes isSep ((seps ++ first isSep text) ++ sep :: rest isSep text) := by
        rw [List.append_assoc, ← split, ← whole]
    _ = closes isSep (sep :: rest isSep text) := closes_append _ (by simp)
    _ = closes isSep (rest isSep text) := by
        cases behind : rest isSep text with
        | nil => simp [closes, separates]
        | cons item back =>
            exact closes_append [sep] (List.cons_ne_nil _ _)

/-- A text that begins with a component and has no separator behind it closes. -/
theorem closes_of_whole {text : List α} (some : first isSep text ≠ [])
    (whole : skip isSep text = first isSep text) : closes isSep text = true := by
  obtain ⟨seps, split, _⟩ := skip_prefix isSep text
  rw [split, whole, closes_append _ some]
  unfold closes
  rw [List.getLast?_eq_some_getLast some]
  have plain := first_plain text _ (List.getLast_mem some)
  simp [plain]

theorem closes_of_separators {text : List α} (none : first isSep text = []) :
    closes isSep text = false := by
  obtain ⟨seps, split, separators⟩ := skip_prefix isSep text
  rw [skip_eq_nil none, List.append_nil] at split
  rw [split]
  unfold closes
  cases last : seps.getLast? with
  | none => rfl
  | some item =>
      simp [separators item (List.mem_of_getLast? last)]

/-- What is behind a component and a separator is part of the text. -/
theorem mem_of_mem_rest {text : List α} {item : α} (inRest : item ∈ rest isSep text) :
    item ∈ text :=
  (List.dropWhile_sublist isSep).mem
    ((List.dropWhile_sublist _).mem (List.mem_of_mem_tail inRest))

theorem rest_length_lt {text : List α} (some : first isSep text ≠ []) :
    (rest isSep text).length < text.length := by
  obtain ⟨seps, whole, _⟩ := skip_prefix isSep text
  have positive := List.length_pos_iff.mpr some
  have total := congrArg List.length whole
  rw [List.length_append] at total
  rcases skip_eq isSep text with ⟨split, ends⟩ | ⟨sep, _, split⟩
  · rw [ends, List.length_nil]
    rw [split] at total
    omega
  · rw [split, List.length_append, List.length_cons] at total
    omega

/-- An item that does not separate belongs to a component. -/
theorem mem_components {text : List α} {item : α} (inText : item ∈ text)
    (plain : isSep item = false) : ∃ component ∈ components isSep text, item ∈ component := by
  induction size : text.length using Nat.strong_induction_on generalizing text with
  | _ size inductionHypothesis =>
      obtain ⟨seps, whole, separators⟩ := skip_prefix isSep text
      have inSkip : item ∈ skip isSep text := by
        rw [whole] at inText
        refine (List.mem_append.mp inText).resolve_left fun isSeparator => ?_
        rw [separators item isSeparator] at plain
        cases plain
      have some : first isSep text ≠ [] := by
        intro none
        rw [skip_eq_nil none] at inSkip
        cases inSkip
      rw [components_eq, if_neg some]
      rcases skip_eq isSep text with ⟨split, _⟩ | ⟨sep, separates, split⟩
      · exact ⟨_, List.mem_cons_self, split ▸ inSkip⟩
      · rw [split, List.mem_append, List.mem_cons] at inSkip
        rcases inSkip with inFirst | rfl | inRest
        · exact ⟨_, List.mem_cons_self, inFirst⟩
        · rw [separates] at plain
          cases plain
        · obtain ⟨component, isComponent, inComponent⟩ :=
            inductionHypothesis _ (size ▸ rest_length_lt some) inRest rfl
          exact ⟨component, List.mem_cons_of_mem _ isComponent, inComponent⟩

end Components

end LightOS
