import LightOS.Fs.Directory
import LightOS.Fs.Paths
import Mathlib.Data.List.GetD
import Mathlib.Data.List.Induction

/-!
# Absolute paths

`abspath` rewrites a copy of a path in place: `t` follows the text that has been kept and
`c` reads ahead of it.  Here the copy is a buffer of the size asked for, every access is
checked against it, and every write of the loop is recorded with the place of the next
character that has not been read.
-/

namespace LightOS

open Components

variable {lead : UInt8} {path : Cursor}

/-! ## The buffer of `abspath` -/

/-- A block that `kmalloc` has given. -/
structure Buffer where
  size : Nat
  text : Text

namespace Buffer

def read (b : Buffer) (index : Nat) : Except Fault UInt8 := do
  bounded (index < b.size)
  return b.text index

def write (b : Buffer) (index : Nat) (value : UInt8) : Except Fault Buffer := do
  bounded (index < b.size)
  return { b with text := Function.update b.text index value }

/-- `strcpy` to a place in a buffer. -/
def strcpy (b : Buffer) (dest : Nat) : Cursor → Except Fault Buffer
  | [] => b.write dest 0
  | byte :: rest => do
      let b ← b.write dest byte
      b.strcpy (dest + 1) rest

/-- A write of the loop, and the place of the next character that has not been read. -/
structure Store where
  place : Nat
  unread : Nat

/-- What the conditions of the loop find behind `c`. -/
inductive Ahead
  | ends
  | sep
  | dot
  | dotDot
  | name

/-- The conditions of the loop of `abspath`, with their reads in order. -/
def look (b : Buffer) (c : Nat) : Except Fault Ahead := do
  let next ← b.read (c + 1)
  if next = 0 then
    return .ends
  if isSeparator next then
    return .sep
  if next ≠ 46 then
    return .name
  let second ← b.read (c + 2)
  if isSeparator second then
    return .dot
  if second ≠ 46 then
    return .name
  let third ← b.read (c + 3)
  if isSeparator third then
    return .dotDot
  return .name

/-- The loop that takes `t` back behind the component before. -/
def stepBack (b : Buffer) : Nat → Except Fault Nat
  | 0 => .ok 0
  | t + 1 => do
      if isSeparator (← b.read t) then
        return t
      b.stepBack t

/-- The loop that copies a component to `t`. -/
def copyComponent : Nat → Buffer → Nat → Nat → Except Fault (Buffer × Nat × Nat × List Store)
  | 0, _, _, _ => .error .blocked
  | rounds + 1, b, t, c => do
      let next ← b.read (c + 1)
      if isSeparator next then
        return (b, t, c, [])
      let b ← b.write (t + 1) next
      let (b, last, read, stores) ← copyComponent rounds b (t + 1) (c + 1)
      return (b, last, read, ⟨t + 1, c + 2⟩ :: stores)

/-- The main loop. -/
def cleanPath : Nat → Buffer → Nat → Nat → Except Fault (Buffer × List Store)
  | 0, _, _, _ => .error .blocked
  | rounds + 1, b, t, c => do
      match ← b.look c with
      | .ends =>
          let last := if 0 < t then t else t + 1
          return (← b.write last 0, [⟨last, c + 1⟩])
      | .sep => cleanPath rounds b t (c + 1)
      | .dot => cleanPath rounds b t (c + 2)
      | .dotDot => cleanPath rounds b (← b.stepBack t) (c + 3)
      | .name =>
          let (b, t, c, copied) ← copyComponent b.size b t c
          let b ← b.write (t + 1) separator
          let (b, stores) ← cleanPath rounds b (t + 1) c
          return (b, copied ++ ⟨t + 1, c + 1⟩ :: stores)

/-- The copy that `abspath` works on.  The block that `kmalloc` gives holds some bytes. -/
def ofPath (heap : Text) (pwd : Cursor) (pwdLen : Nat) (pathname : Cursor)
    (pathnameLen : Nat) : Except Fault Buffer := do
  if pathname.head?.any isSeparator then
    let size := pathnameLen + 2
    let b ← (Buffer.mk size heap).strcpy 0 pathname
    let b ← b.write (size - 2) separator
    b.write (size - 1) 0
  else
    let size := pwdLen + pathnameLen + 3
    let b ← (Buffer.mk size heap).strcpy 0 pwd
    let b ← b.write pwdLen separator
    let b ← b.strcpy (pwdLen + 1) pathname
    let b ← b.write (size - 2) separator
    b.write (size - 1) 0

/-- `abspath`, with the writes of its loop. -/
def abspath (heap : Text) (pwd : Cursor) (pwdLen : Nat) (pathname : Cursor)
    (pathnameLen : Nat) : Except Fault (Buffer × List Store) := do
  let b ← ofPath heap pwd pwdLen pathname pathnameLen
  check (isSeparator (← b.read 0))
  cleanPath b.size b 0 0

end Buffer

/-! ## Canonical paths -/

/-- One component after others: `.` is dropped, and `..` removes the one before. -/
def resolve (stack : List Cursor) (component : Cursor) : List Cursor :=
  if component = [46] then stack
  else if component = [46, 46] then stack.dropLast
  else stack ++ [component]

/-- A leading separator followed by components that are joined with `/`. -/
def join (lead : UInt8) (stack : List Cursor) : Cursor :=
  lead :: [separator].intercalate stack

/-- The canonical form of an absolute path. -/
def canonical (path : Cursor) : Cursor :=
  join (path.headD 0) ((components isSeparator path).foldl resolve [])

/-- The path that a name stands for in a directory. -/
def fullPath (pwd pathname : Cursor) : Cursor :=
  if pathname.head?.any isSeparator then pathname else pwd ++ separator :: pathname

/-- A component of a canonical path. -/
structure Proper (component : Cursor) : Prop where
  notEmpty : component ≠ []
  plain : Plain isSeparator component
  text : Unterminated component
  notDot : component ≠ [46]
  notDotDot : component ≠ [46, 46]

/-- A path in canonical form. -/
def IsCanonical (path : Cursor) : Prop :=
  ∃ lead stack, isSeparator lead = true ∧ (∀ component ∈ stack, Proper component) ∧
    path = join lead stack

/-! ## Texts in a buffer -/

/-- A text holds a string from a place on. -/
def Spelled (text : Text) : Nat → Cursor → Prop
  | _, [] => True
  | place, byte :: rest => text place = byte ∧ Spelled text (place + 1) rest

/-- What is left to be read, up to the kind of the separators. -/
def Awaits (text : Text) : Nat → Cursor → Prop
  | place, [] => text place = 0
  | place, byte :: rest =>
      (text place = byte ∨ isSeparator (text place) = true ∧ isSeparator byte = true) ∧
        Awaits text (place + 1) rest

section Texts

variable {text : Text} {place index : Nat} {value byte : UInt8} {front back rest : Cursor}

theorem spelled_append : Spelled text place (front ++ back) ↔
    Spelled text place front ∧ Spelled text (place + front.length) back := by
  induction front generalizing place with
  | nil => simp [Spelled]
  | cons byte front inductionHypothesis =>
      rw [List.cons_append, Spelled, Spelled, inductionHypothesis, List.length_cons, and_assoc,
        Nat.add_assoc, Nat.add_comm 1]

theorem Spelled.update (spelled : Spelled text place front)
    (outside : index < place ∨ place + front.length ≤ index) :
    Spelled (Function.update text index value) place front := by
  induction front generalizing place with
  | nil => trivial
  | cons byte front inductionHypothesis =>
      rw [List.length_cons] at outside
      refine ⟨?_, inductionHypothesis spelled.2 (by omega)⟩
      rw [Function.update_of_ne (by omega)]
      exact spelled.1

/-- A character written behind a string. -/
theorem Spelled.push (spelled : Spelled text 0 front) (isEnd : index = front.length) :
    Spelled (Function.update text index value) 0 (front ++ [value]) := by
  refine spelled_append.mpr ⟨spelled.update (.inr (by omega)), ?_, trivial⟩
  rw [isEnd, Nat.zero_add]
  exact Function.update_self _ _ _

/-- The last character of a string written again. -/
theorem Spelled.replace (spelled : Spelled text 0 (front ++ [byte]))
    (isEnd : index = front.length) :
    Spelled (Function.update text index value) 0 (front ++ [value]) :=
  (spelled_append.mp spelled).1.push isEnd

theorem Spelled.get (spelled : Spelled text place front) (inside : index < front.length) :
    text (place + index) = front[index] := by
  induction front generalizing place index with
  | nil => exact absurd inside (Nat.not_lt_zero _)
  | cons byte front inductionHypothesis =>
      cases index with
      | zero => exact spelled.1
      | succ index =>
          have next := inductionHypothesis spelled.2 (Nat.lt_of_succ_lt_succ inside)
          rw [List.getElem_cons_succ, ← next, Nat.add_assoc, Nat.add_comm 1]

theorem Awaits.update (awaits : Awaits text place rest) (before : index < place) :
    Awaits (Function.update text index value) place rest := by
  induction rest generalizing place with
  | nil =>
      unfold Awaits at awaits ⊢
      rw [Function.update_of_ne (by omega)]
      exact awaits
  | cons byte rest inductionHypothesis =>
      obtain ⟨head, tail⟩ := awaits
      refine ⟨?_, inductionHypothesis tail (Nat.lt_succ_of_lt before)⟩
      rw [Function.update_of_ne (by omega)]
      exact head

/-- A separator that has not been read may be written over with another one. -/
theorem Awaits.replace (awaits : Awaits text place (byte :: rest)) (isSep : isSeparator byte)
    (otherSep : isSeparator value) :
    Awaits (Function.update text place value) place (byte :: rest) := by
  refine ⟨.inr ⟨?_, isSep⟩, awaits.2.update (Nat.lt_succ_self _)⟩
  rw [Function.update_self]
  exact otherSep

theorem Awaits.of_spelled (spelled : Spelled text place (rest ++ [0])) :
    Awaits text place rest := by
  induction rest generalizing place with
  | nil => exact spelled.1
  | cons byte rest inductionHypothesis =>
      exact ⟨.inl spelled.1, inductionHypothesis spelled.2⟩

theorem Awaits.sep (awaits : Awaits text place (byte :: rest)) (isSep : isSeparator byte) :
    isSeparator (text place) = true := by
  rcases awaits.1 with same | both
  · rw [same]
    exact isSep
  · exact both.1

theorem Awaits.plain (awaits : Awaits text place (byte :: rest))
    (notSep : isSeparator byte = false) : text place = byte := by
  rcases awaits.1 with same | both
  · exact same
  · rw [both.2] at notSep
    cases notSep

theorem ne_zero_of_sep (isSep : isSeparator byte = true) : byte ≠ 0 := by
  rintro rfl
  cases isSep

end Texts

namespace Buffer

variable {b : Buffer} {index : Nat}

theorem read_eq (inside : index < b.size) : b.read index = .ok (b.text index) := by
  unfold read
  rw [bounded_true inside, ok_bind, pure_eq_ok]

theorem write_eq (inside : index < b.size) (value : UInt8) :
    b.write index value = .ok { b with text := Function.update b.text index value } := by
  unfold write
  rw [bounded_true inside, ok_bind, pure_eq_ok]

/-! ## One component -/

/-- `t` goes back to the separator in front of a component. -/
theorem stepBack_eq {t : Nat} {component : Cursor} (plain : Plain isSeparator component)
    (spelled : Spelled b.text (t + 1) component) (isSep : isSeparator (b.text t))
    (fits : t + component.length < b.size) :
    b.stepBack (t + component.length + 1) = .ok t := by
  induction component using List.reverseRecOn with
  | nil =>
      rw [List.length_nil, Nat.add_zero] at fits ⊢
      rw [stepBack, read_eq fits, ok_bind, if_pos isSep, pure_eq_ok]
  | append_singleton front byte inductionHypothesis =>
      have notSep := plain byte (List.mem_append_right _ List.mem_cons_self)
      have isByte := (spelled_append.mp spelled).2.1
      rw [List.length_append, List.length_singleton] at fits ⊢
      have isPlace : t + 1 + front.length = t + (front.length + 1) := by omega
      rw [isPlace] at isByte
      rw [stepBack, read_eq fits, ok_bind, isByte, notSep]
      exact inductionHypothesis
        (fun other inFront => plain other (List.mem_append_left _ inFront))
        (spelled_append.mp spelled).1 (by omega)

/-- A component has been copied. -/
theorem copyComponent_eq (rounds : Nat) {t c : Nat} {out component rest : Cursor} {sep : UInt8}
    (plain : Plain isSeparator component) (isSep : isSeparator sep) (behind : t ≤ c)
    (isLength : out.length = t + 1) (spelled : Spelled b.text 0 out)
    (awaits : Awaits b.text (c + 1) (component ++ sep :: rest))
    (fits : c + 1 + component.length < b.size) (enough : component.length < rounds) :
    ∃ text stores, copyComponent rounds b t c =
        .ok ({ b with text := text }, t + component.length, c + component.length, stores) ∧
      Spelled text 0 (out ++ component) ∧
      Awaits text (c + component.length + 1) (sep :: rest) ∧
      ∀ store ∈ stores, store.place ≤ store.unread := by
  obtain ⟨rounds, rfl⟩ := Nat.exists_eq_succ_of_ne_zero
    (Nat.ne_of_gt (Nat.lt_of_le_of_lt (Nat.zero_le _) enough))
  induction component generalizing b t c out rounds with
  | nil =>
      refine ⟨b.text, [], ?_, ?_, awaits, fun _ impossible => by cases impossible⟩
      · have inside : c + 1 < b.size := fits
        rw [copyComponent, read_eq inside, ok_bind, if_pos (awaits.sep isSep)]
        rfl
      · rw [List.append_nil]
        exact spelled
  | cons byte component inductionHypothesis =>
      rw [List.length_cons] at fits enough ⊢
      have notSep := plain byte List.mem_cons_self
      have isByte := awaits.plain notSep
      obtain ⟨rounds, rfl⟩ := Nat.exists_eq_succ_of_ne_zero (by omega : rounds ≠ 0)
      have longer : (out ++ [byte]).length = t + 1 + 1 := by
        rw [List.length_append, isLength, List.length_singleton]
      obtain ⟨text, stores, call, spelledAfter, awaitsAfter, behindAfter⟩ :=
        inductionHypothesis (b := { b with text := Function.update b.text (t + 1) byte })
          (t := t + 1) (c := c + 1)
          (fun other inRest => plain other (List.mem_cons_of_mem _ inRest)) (by omega) longer
          (spelled.push isLength.symm) (awaits.2.update (by omega)) (by dsimp only; omega)
          rounds (by omega)
      refine ⟨text, ⟨t + 1, c + 2⟩ :: stores, ?_, ?_, ?_, ?_⟩
      · rw [copyComponent, read_eq (by omega), ok_bind, isByte, if_neg (by simp [notSep]),
          write_eq (by omega), ok_bind, call, ok_bind]
        dsimp only
        rw [pure_eq_ok, Nat.add_right_comm t, Nat.add_right_comm c, Nat.add_assoc t,
          Nat.add_assoc c]
      · rw [List.append_cons]
        exact spelledAfter
      · have isPlace : c + (component.length + 1) + 1 = c + 1 + component.length + 1 := by omega
        rw [isPlace]
        exact awaitsAfter
      · refine List.forall_mem_cons.mpr ⟨?_, behindAfter⟩
        dsimp only
        omega

/-! ## The loop -/

/-- What the loop has kept: every component with a separator behind it. -/
def kept (lead : UInt8) (stack : List Cursor) : Cursor :=
  lead :: stack.flatMap (· ++ [separator])

theorem kept_append (lead : UInt8) (stack : List Cursor) (component : Cursor) :
    kept lead (stack ++ [component]) = kept lead stack ++ (component ++ [separator]) := by
  unfold kept
  rw [List.flatMap_append, List.cons_append]
  simp

theorem kept_eq_join (lead : UInt8) {stack : List Cursor} (some : stack ≠ []) :
    kept lead stack = join lead stack ++ [separator] := by
  unfold kept join
  rw [List.cons_append, List.cons.injEq]
  refine ⟨rfl, ?_⟩
  induction stack with
  | nil => exact absurd rfl some
  | cons component stack inductionHypothesis =>
      by_cases last : stack = []
      · rw [last, List.intercalate_singleton]
        simp
      · rw [List.flatMap_cons, inductionHypothesis last, List.intercalate_cons_of_ne_nil last]
        simp

theorem kept_last (isLead : isSeparator lead) (stack : List Cursor) :
    ∃ front sep, kept lead stack = front ++ [sep] ∧ isSeparator sep = true := by
  by_cases none : stack = []
  · exact ⟨[], lead, by rw [none]; rfl, isLead⟩
  · exact ⟨join lead stack, separator, kept_eq_join lead none, rfl⟩

/-- A text that ends with a separator, if it does not end at once: separators and components
with a separator behind them. -/
inductive Closed : Cursor → Prop
  | nil : Closed []
  | sep {sep : UInt8} {rest : Cursor} : isSeparator sep → Closed rest → Closed (sep :: rest)
  | component {component rest : Cursor} {sep : UInt8} : component ≠ [] →
      Plain isSeparator component → Unterminated component → isSeparator sep → Closed rest →
      Closed (component ++ sep :: rest)

theorem closed_append (text : Unterminated path) : Closed (path ++ [separator]) := by
  induction path with
  | nil => exact .sep rfl .nil
  | cons byte path inductionHypothesis =>
      have later := inductionHypothesis fun other inRest =>
        text other (List.mem_cons_of_mem _ inRest)
      have notZero := text byte List.mem_cons_self
      rw [List.cons_append]
      cases isSep : isSeparator byte with
      | true => exact .sep isSep later
      | false =>
          generalize isBack : path ++ [separator] = back at later ⊢
          cases later with
          | nil => simp at isBack
          | sep separates closed =>
              exact .component (List.cons_ne_nil byte [])
                (List.forall_mem_cons.mpr ⟨isSep, fun _ impossible => by cases impossible⟩)
                (List.forall_mem_cons.mpr ⟨notZero, fun _ impossible => by cases impossible⟩)
                separates closed
          | component some plain unterminated separates closed =>
              exact .component (List.cons_ne_nil byte _)
                (List.forall_mem_cons.mpr ⟨isSep, plain⟩)
                (List.forall_mem_cons.mpr ⟨notZero, unterminated⟩) separates closed

/-- Between two rounds of the loop, `t` is at the last separator that has been kept, and it
is not behind the next character to be read, which is a separator if `t` has come to it. -/
structure Between (b : Buffer) (t c : Nat) (lead : UInt8) (stack : List Cursor)
    (rest : Cursor) : Prop where
  spelled : Spelled b.text 0 (kept lead stack)
  isLength : (kept lead stack).length = t + 1
  behind : t ≤ c ∨ t = c + 1 ∧ ∃ sep back, rest = sep :: back ∧ isSeparator sep = true
  awaits : Awaits b.text (c + 1) rest
  fits : c + 1 + rest.length < b.size
  proper : ∀ component ∈ stack, Proper component

/-- The loop has come to the end. -/
structure Cleaned (b : Buffer) (rounds t c : Nat) (path : Cursor) : Prop where
  call : ∃ text stores, cleanPath rounds b t c = .ok ({ b with text := text }, stores) ∧
    Spelled text 0 (path ++ [0]) ∧ ∀ store ∈ stores, store.place ≤ store.unread
  fits : path.length < b.size

section Rounds

variable (rounds : Nat) {t c : Nat} {sep : UInt8} {stack : List Cursor} {rest component : Cursor}

theorem cleanPath_nil (between : Between b t c lead stack []) :
    Cleaned b (rounds + 1) t c (join lead stack) := by
  have behind : t ≤ c := by
    rcases between.behind with le | ⟨_, _, _, impossible, _⟩
    · exact le
    · cases impossible
  have fits := between.fits
  rw [List.length_nil, Nat.add_zero] at fits
  have ends : b.text (c + 1) = 0 := between.awaits
  have looked : b.look c = .ok .ends := by
    unfold look
    rw [read_eq fits, ok_bind, if_pos ends, pure_eq_ok]
  by_cases none : stack = []
  · have isZero : t = 0 := by
      have isLength := between.isLength
      rw [none] at isLength
      exact (Nat.succ.inj isLength).symm
    have isKept : kept lead stack = join lead stack := by
      rw [none]
      rfl
    have isLength := between.isLength
    rw [isKept] at isLength
    refine ⟨⟨Function.update b.text (t + 1) 0, [⟨t + 1, c + 1⟩], ?_, ?_, ?_⟩, by omega⟩
    · rw [cleanPath, looked, ok_bind]
      dsimp only
      rw [if_neg (by omega), write_eq (by omega), ok_bind, pure_eq_ok]
    · rw [← isKept]
      exact between.spelled.push between.isLength.symm
    · refine List.forall_mem_singleton.mpr ?_
      dsimp only
      omega
  · have spelled := between.spelled
    have isLength := between.isLength
    have positive : 0 < t := by
      obtain ⟨component, others, rfl⟩ := List.exists_cons_of_ne_nil none
      unfold kept at isLength
      rw [List.flatMap_cons, List.length_cons, List.length_append, List.length_append,
        List.length_singleton] at isLength
      omega
    rw [kept_eq_join lead none] at spelled isLength
    rw [List.length_append, List.length_singleton] at isLength
    refine ⟨⟨Function.update b.text t 0, [⟨t, c + 1⟩], ?_, ?_, ?_⟩, by omega⟩
    · rw [cleanPath, looked, ok_bind]
      dsimp only
      rw [if_pos positive, write_eq (by omega), ok_bind, pure_eq_ok]
    · exact spelled.replace (Nat.succ.inj isLength).symm
    · refine List.forall_mem_singleton.mpr ?_
      dsimp only
      omega

/-- A separator is skipped. -/
theorem cleanPath_sep (isSep : isSeparator sep) (between : Between b t c lead stack (sep :: rest)) :
    Between b t (c + 1) lead stack rest ∧
      cleanPath (rounds + 1) b t c = cleanPath rounds b t (c + 1) := by
  have fits := between.fits
  rw [List.length_cons] at fits
  have separates := between.awaits.sep isSep
  have looked : b.look c = .ok .sep := by
    unfold look
    rw [read_eq (by omega), ok_bind, if_neg (ne_zero_of_sep separates), if_pos separates,
      pure_eq_ok]
  refine ⟨⟨between.spelled, between.isLength, .inl ?_, between.awaits.2, by omega,
    between.proper⟩, ?_⟩
  · rcases between.behind with le | ⟨same, _⟩
    · omega
    · omega
  · rw [cleanPath, looked, ok_bind]

/-- In front of a component, `t` is not ahead of `c`. -/
theorem Between.behind_component (some : component ≠ []) (plain : Plain isSeparator component)
    (between : Between b t c lead stack (component ++ rest)) : t ≤ c := by
  obtain ⟨byte, others, rfl⟩ := List.exists_cons_of_ne_nil some
  rcases between.behind with le | ⟨_, other, back, same, isSep⟩
  · exact le
  · have notSep := plain byte List.mem_cons_self
    rw [List.cons_append, List.cons.injEq] at same
    rw [same.1, isSep] at notSep
    cases notSep

/-- What the conditions of the loop find in front of a component. -/
theorem look_component (some : component ≠ []) (plain : Plain isSeparator component)
    (text : Unterminated component) (isSep : isSeparator sep)
    (awaits : Awaits b.text (c + 1) (component ++ sep :: rest))
    (fits : c + 1 + (component.length + 1) ≤ b.size) :
    b.look c = .ok (if component = [46] then .dot
      else if component = [46, 46] then .dotDot else .name) := by
  obtain ⟨first, component, rfl⟩ := List.exists_cons_of_ne_nil some
  rw [List.length_cons] at fits
  have firstPlain := plain first List.mem_cons_self
  have firstByte := awaits.plain firstPlain
  have firstText := text first List.mem_cons_self
  unfold look
  rw [read_eq (by omega), ok_bind, firstByte, if_neg firstText, if_neg (by simp [firstPlain])]
  by_cases firstDot : first = 46
  · rw [if_neg (not_not.mpr firstDot), read_eq (by omega), ok_bind, firstDot]
    have next := awaits.2
    cases component with
    | nil => rw [if_pos (next.sep isSep), if_pos rfl, pure_eq_ok]
    | cons second component =>
        rw [List.length_cons] at fits
        have secondPlain := plain second (List.mem_cons_of_mem _ List.mem_cons_self)
        have secondByte : b.text (c + 2) = second := next.plain secondPlain
        rw [secondByte, if_neg (by simp [secondPlain])]
        by_cases secondDot : second = 46
        · rw [if_neg (not_not.mpr secondDot), read_eq (by omega), ok_bind, secondDot]
          have last := next.2
          cases component with
          | nil =>
              have thirdSep : isSeparator (b.text (c + 3)) = true := last.sep isSep
              rw [if_pos thirdSep, if_neg (by decide), if_pos rfl, pure_eq_ok]
          | cons third component =>
              have thirdPlain := plain third
                (List.mem_cons_of_mem _ (List.mem_cons_of_mem _ List.mem_cons_self))
              have thirdByte : b.text (c + 3) = third := last.plain thirdPlain
              rw [thirdByte, if_neg (by simp [thirdPlain]), if_neg (by simp), if_neg (by simp),
                pure_eq_ok]
        · rw [if_pos secondDot, if_neg (by simp), if_neg (by simp [secondDot]), pure_eq_ok]
  · rw [if_pos firstDot, if_neg (by simp [firstDot]), if_neg (by simp [firstDot]), pure_eq_ok]

/-- `.` is dropped. -/
theorem cleanPath_dot (isSep : isSeparator sep)
    (between : Between b t c lead stack ([46] ++ sep :: rest)) :
    Between b t (c + 2) lead stack rest ∧
      cleanPath (rounds + 1) b t c = cleanPath rounds b t (c + 2) := by
  have plain : Plain isSeparator ([46] : Cursor) := by decide
  have behind := between.behind_component (by decide) plain
  have fits := between.fits
  rw [List.length_append, List.length_cons, List.length_cons, List.length_nil] at fits
  have looked := look_component (by decide) plain (by decide) isSep
    between.awaits (by rw [List.length_singleton]; omega)
  rw [if_pos rfl] at looked
  refine ⟨⟨between.spelled, between.isLength, .inl (by omega), between.awaits.2.2, by omega,
    between.proper⟩, ?_⟩
  rw [cleanPath, looked, ok_bind]

/-- `..` takes the last component away. -/
theorem cleanPath_dotDot (isLead : isSeparator lead) (isSep : isSeparator sep)
    (between : Between b t c lead stack ([46, 46] ++ sep :: rest)) :
    ∃ back, Between b back (c + 3) lead stack.dropLast rest ∧
      cleanPath (rounds + 1) b t c = cleanPath rounds b back (c + 3) := by
  have plain : Plain isSeparator ([46, 46] : Cursor) := by decide
  have behind := between.behind_component (by decide) plain
  have fits := between.fits
  rw [List.length_append, List.length_cons, List.length_cons, List.length_cons,
    List.length_nil] at fits
  have looked := look_component (by decide) plain (by decide) isSep
    between.awaits (by rw [List.length_cons, List.length_singleton]; omega)
  rw [if_neg (by decide), if_pos rfl] at looked
  have awaits : Awaits b.text (c + 3 + 1) rest := between.awaits.2.2.2
  have step {back : Nat} (stepped : b.stepBack t = .ok back) :
      cleanPath (rounds + 1) b t c = cleanPath rounds b back (c + 3) := by
    rw [cleanPath, looked, ok_bind]
    dsimp only
    rw [stepped, ok_bind]
  rcases stack.eq_nil_or_concat with rfl | ⟨front, last, rfl⟩
  · have isZero : t = 0 := (Nat.succ.inj between.isLength).symm
    refine ⟨0, ⟨between.spelled, rfl, .inl (Nat.zero_le _), awaits, by omega,
      between.proper⟩, step ?_⟩
    rw [isZero]
    rfl
  · rw [List.concat_eq_append] at between ⊢
    have spelled := between.spelled
    have isLength := between.isLength
    rw [kept_append] at spelled isLength
    obtain ⟨before, separates, isKept, isLast⟩ := kept_last isLead front
    have keptLength : (kept lead front).length = before.length + 1 := by
      rw [isKept, List.length_append, List.length_singleton]
    rw [List.length_append, List.length_append, List.length_singleton, keptLength] at isLength
    obtain ⟨spelledFront, spelledLast⟩ := spelled_append.mp spelled
    rw [Nat.zero_add, keptLength] at spelledLast
    have atBack : b.text before.length = separates := by
      rw [isKept] at spelledFront
      have found := (spelled_append.mp spelledFront).2.1
      rwa [Nat.zero_add] at found
    have stepped := stepBack_eq (b := b) (t := before.length)
      (between.proper last (List.mem_append_right _ List.mem_cons_self)).plain
      (spelled_append.mp spelledLast).1 (by rw [atBack]; exact isLast) (by omega)
    have isPlace : before.length + last.length + 1 = t := by omega
    rw [isPlace] at stepped
    refine ⟨before.length, ?_, step stepped⟩
    rw [List.dropLast_concat]
    exact ⟨spelledFront, keptLength, .inl (by omega), awaits, by omega, fun component inFront =>
      between.proper component (List.mem_append_left _ inFront)⟩

/-- Any other component is kept. -/
theorem cleanPath_name (some : component ≠ []) (plain : Plain isSeparator component)
    (text : Unterminated component) (notDot : component ≠ [46])
    (notDotDot : component ≠ [46, 46]) (isSep : isSeparator sep)
    (between : Between b t c lead stack (component ++ sep :: rest)) :
    ∃ after copied, Between { b with text := after } (t + component.length + 1)
        (c + component.length) lead (stack ++ [component]) (sep :: rest) ∧
      (∀ store ∈ copied, store.place ≤ store.unread) ∧
      cleanPath (rounds + 1) b t c =
        (cleanPath rounds { b with text := after } (t + component.length + 1)
          (c + component.length)).map fun result => (result.1, copied ++ result.2) := by
  have behind := between.behind_component some plain
  have fits := between.fits
  rw [List.length_append, List.length_cons] at fits
  have looked := look_component some plain text isSep between.awaits (by omega)
  rw [if_neg notDot, if_neg notDotDot] at looked
  obtain ⟨copy, stores, call, spelled, awaits, inOrder⟩ := copyComponent_eq b.size
    plain isSep behind between.isLength between.spelled between.awaits (by omega) (by omega)
  have isLength : (kept lead stack ++ component).length = t + component.length + 1 := by
    rw [List.length_append, between.isLength, Nat.add_right_comm]
  refine ⟨Function.update copy (t + component.length + 1) separator,
    stores ++ [⟨t + component.length + 1, c + component.length + 1⟩], ⟨?_, ?_, ?_, ?_, ?_, ?_⟩,
    ?_, ?_⟩
  · rw [kept_append, ← List.append_assoc]
    exact spelled.push isLength.symm
  · rw [kept_append, ← List.append_assoc, List.length_append, isLength, List.length_singleton]
  · rcases Nat.lt_or_eq_of_le behind with less | same
    · exact .inl (by omega)
    · exact .inr ⟨by omega, sep, rest, rfl, isSep⟩
  · rcases Nat.lt_or_eq_of_le behind with less | same
    · exact awaits.update (by omega)
    · rw [same]
      exact awaits.replace isSep rfl
  · rw [List.length_cons]
    dsimp only
    omega
  · intro other inStack
    rcases List.mem_append.mp inStack with inFront | isLast
    · exact between.proper other inFront
    · rw [List.mem_singleton.mp isLast]
      exact ⟨some, plain, text, notDot, notDotDot⟩
  · intro store inStores
    rcases List.mem_append.mp inStores with inFront | isLast
    · exact inOrder store inFront
    · rw [List.mem_singleton.mp isLast]
      dsimp only
      omega
  · rw [cleanPath, looked, ok_bind]
    dsimp only
    rw [call, ok_bind]
    dsimp only
    rw [write_eq (by dsimp only; omega), ok_bind]
    cases cleanPath rounds _ (t + component.length + 1) (c + component.length) with
    | error fault => rfl
    | ok result =>
        rw [ok_bind, pure_eq_ok]
        simp [Except.map]

/-- The loop leaves the leading separator and the components that remain. -/
theorem cleanPath_eq (isLead : isSeparator lead) (closed : Closed rest)
    (between : Between b t c lead stack rest) (enough : rest.length < rounds) :
    Cleaned b rounds t c (join lead ((components isSeparator rest).foldl resolve stack)) := by
  obtain ⟨rounds, rfl⟩ := Nat.exists_eq_succ_of_ne_zero
    (Nat.ne_of_gt (Nat.lt_of_le_of_lt (Nat.zero_le _) enough))
  induction closed generalizing b t c stack rounds with
  | nil => exact cleanPath_nil rounds between
  | sep isSep closed inductionHypothesis =>
      rw [List.length_cons] at enough
      obtain ⟨rounds, rfl⟩ := Nat.exists_eq_succ_of_ne_zero (by omega : rounds ≠ 0)
      obtain ⟨next, same⟩ := cleanPath_sep (rounds + 1) isSep between
      obtain ⟨⟨text, stores, call, spelled, inOrder⟩, fits⟩ :=
        inductionHypothesis next rounds (by omega)
      rw [components_cons _ isSep]
      exact ⟨⟨text, stores, same.trans call, spelled, inOrder⟩, fits⟩
  | @component component rest sep some plain text isSep closed inductionHypothesis =>
      have split : components isSeparator (component ++ sep :: rest) =
          component :: components isSeparator rest := by
        rw [components_append _ _ isSep, components_plain plain some]
        rfl
      rw [List.length_append, List.length_cons] at enough
      obtain ⟨rounds, rfl⟩ := Nat.exists_eq_succ_of_ne_zero (by omega : rounds ≠ 0)
      rw [split, List.foldl_cons]
      by_cases isDot : component = [46]
      · subst isDot
        obtain ⟨next, same⟩ := cleanPath_dot (rounds + 1) isSep between
        obtain ⟨⟨text, stores, call, spelled, inOrder⟩, fits⟩ :=
          inductionHypothesis next rounds (by omega)
        exact ⟨⟨text, stores, same.trans call, spelled, inOrder⟩, fits⟩
      by_cases isDotDot : component = [46, 46]
      · subst isDotDot
        obtain ⟨back, next, same⟩ := cleanPath_dotDot (rounds + 1) isLead isSep between
        obtain ⟨⟨text, stores, call, spelled, inOrder⟩, fits⟩ :=
          inductionHypothesis next rounds (by omega)
        exact ⟨⟨text, stores, same.trans call, spelled, inOrder⟩, fits⟩
      obtain ⟨rounds, rfl⟩ := Nat.exists_eq_succ_of_ne_zero (by
        have positive := List.length_pos_iff.mpr some
        omega : rounds ≠ 0)
      obtain ⟨after, copied, next, copiedInOrder, same⟩ := cleanPath_name (rounds + 1 + 1)
        some plain text isDot isDotDot isSep between
      obtain ⟨skipped, alsoSame⟩ := cleanPath_sep (rounds + 1) isSep next
      obtain ⟨⟨text, stores, call, spelled, inOrder⟩, fits⟩ :=
        inductionHypothesis skipped rounds (by
          have positive := List.length_pos_iff.mpr some
          omega)
      have resolved : resolve stack component = stack ++ [component] := by
        unfold resolve
        rw [if_neg isDot, if_neg isDotDot]
      rw [resolved]
      refine ⟨⟨text, copied ++ stores, ?_, spelled, fun store inStores => ?_⟩, fits⟩
      · rw [same, alsoSame, call]
        rfl
      · exact (List.mem_append.mp inStores).elim (copiedInOrder store) (inOrder store)

end Rounds

/-! ## The whole function -/

/-- A string has been copied behind another one. -/
theorem strcpy_eq (out src : Cursor) (dest : Nat) (spelled : Spelled b.text 0 out)
    (isEnd : dest = out.length) (fits : dest + src.length < b.size) :
    ∃ text, b.strcpy dest src = .ok { b with text := text } ∧
      Spelled text 0 (out ++ src ++ [0]) := by
  induction src generalizing b out dest with
  | nil =>
      have inside : dest < b.size := fits
      refine ⟨Function.update b.text dest 0, ?_, ?_⟩
      · rw [strcpy, write_eq inside]
      · rw [List.append_nil]
        exact spelled.push isEnd
  | cons byte src inductionHypothesis =>
      rw [List.length_cons] at fits
      obtain ⟨text, call, copied⟩ := inductionHypothesis
        (b := { b with text := Function.update b.text dest byte }) (out ++ [byte]) (dest + 1)
        (spelled.push isEnd)
        (by rw [List.length_append, List.length_singleton, isEnd]) (by dsimp only; omega)
      refine ⟨text, ?_, ?_⟩
      · rw [strcpy, write_eq (by omega), ok_bind, call]
      · rw [List.append_cons out byte src]
        exact copied

/-- The last character of a string in the buffer written again, and a terminator. -/
theorem write_end {out : Cursor} {byte : UInt8} (dest : Nat)
    (spelled : Spelled b.text 0 (out ++ [byte])) (isEnd : dest = out.length)
    (fits : dest + 1 < b.size) :
    ∃ text, (b.write dest separator >>= fun b => b.write (dest + 1) 0) =
        .ok { b with text := text } ∧ Spelled text 0 (out ++ [separator] ++ [0]) := by
  refine ⟨Function.update (Function.update b.text dest separator) (dest + 1) 0, ?_, ?_⟩
  · rw [write_eq (by omega), ok_bind, write_eq (by dsimp only; omega)]
  · refine (spelled.replace isEnd).push ?_
    rw [List.length_append, List.length_singleton, isEnd]

/-- The copy that `abspath` works on is the full path with a separator behind it. -/
theorem ofPath_eq (heap : Text) (pwd pathname : Cursor) :
    ∃ text, ofPath heap pwd pwd.length pathname pathname.length =
        .ok ⟨(fullPath pwd pathname).length + 2, text⟩ ∧
      Spelled text 0 (fullPath pwd pathname ++ [separator] ++ [0]) := by
  unfold ofPath fullPath
  by_cases absolute : pathname.head?.any isSeparator = true
  · rw [if_pos absolute, if_pos absolute]
    obtain ⟨copy, copied, spelled⟩ := strcpy_eq (b := ⟨pathname.length + 2, heap⟩) [] pathname
      0 trivial rfl (by dsimp only; omega)
    rw [List.nil_append] at spelled
    obtain ⟨text, written, spelled⟩ := write_end (b := ⟨pathname.length + 2, copy⟩) _ spelled rfl
      (by dsimp only; omega)
    refine ⟨text, ?_, spelled⟩
    dsimp only
    rw [copied, ok_bind]
    exact written
  · rw [if_neg absolute, if_neg absolute]
    have size : (pwd ++ separator :: pathname).length + 2 = pwd.length + pathname.length + 3 := by
      rw [List.length_append, List.length_cons]
      omega
    obtain ⟨first, copied, spelled⟩ := strcpy_eq
      (b := ⟨pwd.length + pathname.length + 3, heap⟩) [] pwd 0 trivial rfl
      (by dsimp only; omega)
    rw [List.nil_append] at spelled
    obtain ⟨second, alsoCopied, spelled⟩ := strcpy_eq
      (b := ⟨pwd.length + pathname.length + 3, Function.update first pwd.length separator⟩)
      (pwd ++ [separator]) pathname (pwd.length + 1) (spelled.replace rfl)
      (by rw [List.length_append, List.length_singleton])
      (by dsimp only; omega)
    obtain ⟨text, written, spelled⟩ := write_end
      (b := ⟨pwd.length + pathname.length + 3, second⟩) (pwd.length + pathname.length + 1)
      spelled (by
        rw [List.length_append, List.length_append, List.length_singleton]
        omega) (by dsimp only; omega)
    refine ⟨text, ?_, ?_⟩
    · rw [size]
      dsimp only
      rw [copied, ok_bind, write_eq (by dsimp only; omega), ok_bind, alsoCopied, ok_bind]
      exact written
    · rw [List.append_cons pwd separator pathname]
      exact spelled

/-- Before its first round the loop has kept the leading separator. -/
theorem between_start {text : Text}
    (spelled : Spelled text 0 (lead :: path ++ [separator] ++ [0])) :
    Between ⟨(lead :: path).length + 2, text⟩ 0 0 lead [] (path ++ [separator]) where
  spelled := ⟨spelled.1, trivial⟩
  isLength := rfl
  behind := .inl (Nat.le_refl 0)
  awaits := .of_spelled spelled.2
  fits := by
    rw [List.length_append, List.length_singleton, List.length_cons]
    dsimp only
    omega
  proper := fun _ impossible => by cases impossible

end Buffer

/-- Components that are resolved are proper. -/
theorem proper_resolved {rest : Cursor} {stack : List Cursor} (closed : Buffer.Closed rest)
    (proper : ∀ component ∈ stack, Proper component) :
    ∀ component ∈ (components isSeparator rest).foldl resolve stack, Proper component := by
  induction closed generalizing stack with
  | nil => exact proper
  | sep isSep closed inductionHypothesis =>
      rw [components_cons _ isSep]
      exact inductionHypothesis proper
  | @component component rest sep some plain text isSep closed inductionHypothesis =>
      have split : components isSeparator (component ++ sep :: rest) =
          component :: components isSeparator rest := by
        rw [components_append _ _ isSep, components_plain plain some]
        rfl
      rw [split, List.foldl_cons]
      apply inductionHypothesis
      unfold resolve
      by_cases isDot : component = [46]
      · rw [if_pos isDot]
        exact proper
      by_cases isDotDot : component = [46, 46]
      · rw [if_neg isDot, if_pos isDotDot]
        exact fun other inFront => proper other ((List.dropLast_sublist stack).mem inFront)
      · rw [if_neg isDot, if_neg isDotDot]
        intro other inStack
        rcases List.mem_append.mp inStack with inFront | isLast
        · exact proper other inFront
        · rw [List.mem_singleton.mp isLast]
          exact ⟨some, plain, text, isDot, isDotDot⟩

/-! ## Canonical results -/

section Canonical

/-- A separator behind a path makes no difference. -/
theorem canonical_cons (isLead : isSeparator lead) (path : Cursor) :
    canonical (lead :: path) =
      join lead ((components isSeparator (path ++ [separator])).foldl resolve []) := by
  unfold canonical
  rw [components_cons _ isLead, components_append path [] (rfl : isSeparator separator = true),
    components_nil, List.append_nil]
  rfl

theorem isCanonical_canonical (isLead : isSeparator lead) (text : Unterminated path) :
    IsCanonical (canonical (lead :: path)) := by
  rw [canonical_cons isLead]
  exact ⟨lead, _, isLead, proper_resolved (Buffer.closed_append text)
    (fun _ impossible => by cases impossible), rfl⟩

/-- A canonical path has no terminator among its bytes. -/
theorem IsCanonical.text (isCanonical : IsCanonical path) : Unterminated path := by
  obtain ⟨lead, stack, isLead, proper, rfl⟩ := isCanonical
  refine List.forall_mem_cons.mpr ⟨ne_zero_of_sep isLead, ?_⟩
  induction stack with
  | nil => exact fun _ impossible => by cases impossible
  | cons component stack inductionHypothesis =>
      have first := (proper component List.mem_cons_self).text
      have later := inductionHypothesis fun other inRest =>
        proper other (List.mem_cons_of_mem _ inRest)
      by_cases last : stack = []
      · rw [last, List.intercalate_singleton]
        exact first
      · rw [List.intercalate_cons_of_ne_nil last]
        intro byte inText
        rcases List.mem_append.mp inText with inFront | inBack
        · rcases List.mem_append.mp inFront with inFirst | isSep
          · exact first byte inFirst
          · rw [List.mem_singleton.mp isSep]
            decide
        · exact later byte inBack

/-- The string in a buffer. -/
theorem toString_eq {text : Text} {size : Nat} (spelled : Spelled text 0 (path ++ [0]))
    (unterminated : Unterminated path) (fits : path.length < size) :
    text.toString size = path := by
  obtain ⟨more, rfl⟩ := Nat.exists_eq_add_of_le (Nat.succ_le_of_lt fits)
  have front : (List.range path.length).map text = path := by
    apply List.ext_getElem
    · rw [List.length_map, List.length_range]
    · intro index _ inside
      rw [List.getElem_map, List.getElem_range]
      have found := (spelled_append.mp spelled).1.get inside
      rwa [Nat.zero_add] at found
  have ends : text path.length = 0 := by
    have found := (spelled_append.mp spelled).2.1
    rwa [Nat.zero_add] at found
  unfold Text.toString
  rw [List.range_add, List.map_append, List.range_succ, List.map_append, front,
    List.append_assoc, List.takeWhile_append_of_pos]
  · rw [List.map_singleton, List.singleton_append, List.takeWhile_cons_of_neg (by simp [ends]),
      List.append_nil]
  · intro byte inPath
    simpa using unterminated byte inPath

end Canonical

/-! ## The functions without a buffer -/

namespace Buffer

variable {b after : Buffer} {t back c : Nat}

theorem read_cases {index : Nat} {value : UInt8} (call : b.read index = .ok value) :
    value = b.text index := by
  unfold read at call
  simp only [bind_eq_ok, bounded_eq_ok] at call
  obtain ⟨_, _, same⟩ := call
  exact (Except.ok.inj same).symm

theorem write_cases {index : Nat} {value : UInt8} (call : b.write index value = .ok after) :
    after = { b with text := Function.update b.text index value } := by
  unfold write at call
  simp only [bind_eq_ok, bounded_eq_ok] at call
  obtain ⟨_, _, same⟩ := call
  exact (Except.ok.inj same).symm

theorem stepBack_cases (call : b.stepBack t = .ok back) : LightOS.stepBack b.text t = back := by
  induction t with
  | zero => exact Except.ok.inj call
  | succ t inductionHypothesis =>
      rw [stepBack, bind_eq_ok] at call
      obtain ⟨byte, read, rest⟩ := call
      rw [read_cases read] at rest
      rw [LightOS.stepBack]
      by_cases isSep : isSeparator (b.text t) = true
      · rw [if_pos isSep] at rest ⊢
        exact Except.ok.inj rest
      · rw [if_neg isSep] at rest ⊢
        exact inductionHypothesis rest

theorem copyComponent_cases {rounds last read : Nat} {stores : List Store}
    (call : copyComponent rounds b t c = .ok (after, last, read, stores)) :
    LightOS.copyComponent rounds b.text t c = .ok (after.text, last, read) ∧
      after.size = b.size := by
  induction rounds generalizing b t c last read stores with
  | zero => cases call
  | succ rounds inductionHypothesis =>
      rw [copyComponent, bind_eq_ok] at call
      obtain ⟨next, isNext, rest⟩ := call
      rw [read_cases isNext] at rest
      rw [LightOS.copyComponent]
      by_cases isSep : isSeparator (b.text (c + 1)) = true
      · rw [if_pos isSep] at rest ⊢
        cases rest
        exact ⟨rfl, rfl⟩
      · rw [if_neg isSep, bind_eq_ok] at rest
        obtain ⟨written, isWritten, rest⟩ := rest
        rw [bind_eq_ok] at rest
        obtain ⟨⟨copied, place, seen, more⟩, copies, same⟩ := rest
        cases same
        obtain ⟨erased, size⟩ := inductionHypothesis copies
        rw [write_cases isWritten] at erased size
        rw [if_neg isSep]
        exact ⟨erased, size⟩

/-- The loop with checks and the loop without them find the same. -/
theorem look_cases {ahead : Ahead} (call : b.look c = .ok ahead) :
    ahead =
      if b.text (c + 1) = 0 then .ends
      else if isSeparator (b.text (c + 1)) then .sep
      else if b.text (c + 1) = 46 ∧ isSeparator (b.text (c + 2)) then .dot
      else if b.text (c + 1) = 46 ∧ b.text (c + 2) = 46 ∧ isSeparator (b.text (c + 3)) then
        .dotDot
      else .name := by
  unfold look at call
  rw [bind_eq_ok] at call
  obtain ⟨next, isNext, rest⟩ := call
  rw [read_cases isNext] at rest
  by_cases ends : b.text (c + 1) = 0
  · rw [if_pos ends] at rest ⊢
    exact (Except.ok.inj rest).symm
  rw [if_neg ends] at rest ⊢
  by_cases isSep : isSeparator (b.text (c + 1)) = true
  · rw [if_pos isSep] at rest ⊢
    exact (Except.ok.inj rest).symm
  rw [if_neg isSep] at rest ⊢
  by_cases firstDot : b.text (c + 1) = 46
  · rw [if_neg (not_not.mpr firstDot), bind_eq_ok] at rest
    obtain ⟨second, isSecond, rest⟩ := rest
    rw [read_cases isSecond] at rest
    by_cases secondSep : isSeparator (b.text (c + 2)) = true
    · rw [if_pos secondSep] at rest
      rw [if_pos ⟨firstDot, secondSep⟩]
      exact (Except.ok.inj rest).symm
    rw [if_neg secondSep] at rest
    rw [if_neg fun both => secondSep both.2]
    by_cases secondDot : b.text (c + 2) = 46
    · rw [if_neg (not_not.mpr secondDot), bind_eq_ok] at rest
      obtain ⟨third, isThird, rest⟩ := rest
      rw [read_cases isThird] at rest
      by_cases thirdSep : isSeparator (b.text (c + 3)) = true
      · rw [if_pos thirdSep] at rest
        rw [if_pos ⟨firstDot, secondDot, thirdSep⟩]
        exact (Except.ok.inj rest).symm
      · rw [if_neg thirdSep] at rest
        rw [if_neg fun all => thirdSep all.2.2]
        exact (Except.ok.inj rest).symm
    · rw [if_pos secondDot] at rest
      rw [if_neg fun all => secondDot all.2.1]
      exact (Except.ok.inj rest).symm
  · rw [if_pos firstDot] at rest
    rw [if_neg fun both => firstDot both.1, if_neg fun all => firstDot all.1]
    exact (Except.ok.inj rest).symm

theorem cleanPath_cases {rounds : Nat} {stores : List Store}
    (call : cleanPath rounds b t c = .ok (after, stores)) :
    LightOS.cleanPath b.size rounds b.text t c = .ok after.text := by
  induction rounds generalizing b t c stores with
  | zero => cases call
  | succ rounds inductionHypothesis =>
      rw [cleanPath, bind_eq_ok] at call
      obtain ⟨ahead, looked, rest⟩ := call
      rw [look_cases looked] at rest
      rw [LightOS.cleanPath]
      by_cases ends : b.text (c + 1) = 0
      · rw [if_pos ends] at rest ⊢
        dsimp only at rest
        rw [bind_eq_ok] at rest
        obtain ⟨written, isWritten, same⟩ := rest
        cases same
        rw [write_cases isWritten]
        by_cases positive : 0 < t
        · rw [if_pos positive, if_pos positive]
        · rw [if_neg positive, if_neg positive]
      rw [if_neg ends] at rest ⊢
      by_cases isSep : isSeparator (b.text (c + 1)) = true
      · rw [if_pos isSep] at rest ⊢
        exact inductionHypothesis rest
      rw [if_neg isSep] at rest ⊢
      by_cases isDot : b.text (c + 1) = 46 ∧ isSeparator (b.text (c + 2)) = true
      · rw [if_pos isDot] at rest ⊢
        exact inductionHypothesis rest
      rw [if_neg isDot] at rest ⊢
      by_cases isDotDot : b.text (c + 1) = 46 ∧ b.text (c + 2) = 46 ∧
          isSeparator (b.text (c + 3)) = true
      · rw [if_pos isDotDot] at rest ⊢
        dsimp only at rest
        rw [bind_eq_ok] at rest
        obtain ⟨back, stepped, rest⟩ := rest
        rw [stepBack_cases stepped]
        exact inductionHypothesis rest
      rw [if_neg isDotDot] at rest ⊢
      dsimp only at rest
      rw [bind_eq_ok] at rest
      obtain ⟨⟨copied, last, read, copies⟩, isCopied, rest⟩ := rest
      obtain ⟨erased, size⟩ := copyComponent_cases isCopied
      dsimp only at rest
      rw [bind_eq_ok] at rest
      obtain ⟨written, isWritten, rest⟩ := rest
      rw [bind_eq_ok] at rest
      obtain ⟨⟨cleaned, more⟩, cleans, same⟩ := rest
      cases same
      have erasedRest := inductionHypothesis cleans
      rw [write_cases isWritten] at erasedRest
      dsimp only at erasedRest
      rw [size] at erasedRest
      rw [erased, ok_bind]
      exact erasedRest

end Buffer

section Results

variable {pwd pathname : Cursor}

/-- The full path begins with a separator. -/
theorem fullPath_cons (absolute : pwd.head?.any isSeparator = true) (pwdText : Unterminated pwd)
    (text : Unterminated pathname) :
    ∃ lead path, fullPath pwd pathname = lead :: path ∧ isSeparator lead = true ∧
      Unterminated path := by
  unfold fullPath
  by_cases alsoAbsolute : pathname.head?.any isSeparator = true
  · rw [if_pos alsoAbsolute]
    cases pathname with
    | nil => cases alsoAbsolute
    | cons lead path => exact ⟨lead, path, rfl, by simpa using alsoAbsolute, fun byte inPath =>
        text byte (List.mem_cons_of_mem _ inPath)⟩
  · rw [if_neg alsoAbsolute]
    cases pwd with
    | nil => cases absolute
    | cons lead path =>
        refine ⟨lead, path ++ separator :: pathname, rfl, by simpa using absolute, ?_⟩
        intro byte inPath
        rcases List.mem_append.mp inPath with inPwd | inName
        · exact pwdText byte (List.mem_cons_of_mem _ inPwd)
        · rcases List.mem_cons.mp inName with rfl | inName
          · decide
          · exact text byte inName

/-- The loop run on a full path with a separator behind it. -/
theorem cleaned_of_spelled (isLead : isSeparator lead) (unterminated : Unterminated path)
    {text : Text} (spelled : Spelled text 0 (lead :: path ++ [separator] ++ [0])) :
    ∃ final stores, Buffer.cleanPath ((lead :: path).length + 2)
        ⟨(lead :: path).length + 2, text⟩ 0 0 =
        .ok (⟨(lead :: path).length + 2, final⟩, stores) ∧
      final.toString ((lead :: path).length + 2) = canonical (lead :: path) ∧
      ∀ store ∈ stores, store.place ≤ store.unread := by
  have enough : (path ++ [separator]).length < (lead :: path).length + 2 := by
    rw [List.length_append, List.length_singleton, List.length_cons]
    omega
  obtain ⟨⟨final, stores, call, isFinal, inOrder⟩, fits⟩ := Buffer.cleanPath_eq _ isLead
    (Buffer.closed_append unterminated) (Buffer.between_start spelled) enough
  rw [← canonical_cons isLead] at isFinal fits
  exact ⟨final, stores, call, toString_eq isFinal
    (isCanonical_canonical isLead unterminated).text fits, inOrder⟩

/-- The text of a string holds it with a terminator behind it. -/
theorem spelled_ofString (content : Cursor) :
    Spelled (Text.ofString content) 0 (content ++ [0]) := by
  suffices from_place : ∀ place rest, content.drop place = rest →
      Spelled (Text.ofString content) place (rest ++ [0]) from from_place 0 content rfl
  intro place rest isRest
  induction rest generalizing place with
  | nil =>
      refine ⟨?_, trivial⟩
      exact List.getD_eq_default _ _ (List.drop_eq_nil_iff.mp isRest)
  | cons byte rest inductionHypothesis =>
      have inside : place < content.length := by
        apply Nat.lt_of_not_le
        intro beyond
        rw [List.drop_eq_nil_iff.mpr beyond] at isRest
        cases isRest
      rw [List.drop_eq_getElem_cons inside, List.cons.injEq] at isRest
      refine ⟨?_, inductionHypothesis (place + 1) isRest.2⟩
      rw [← isRest.1]
      exact List.getD_eq_getElem _ _ inside

theorem IsCanonical.absolute (isCanonical : IsCanonical pwd) :
    pwd.head?.any isSeparator = true := by
  obtain ⟨lead, stack, isLead, _, rfl⟩ := isCanonical
  exact isLead

/-- The function with a buffer, on any block that `kmalloc` has given. -/
theorem Buffer.abspath_eq (heap : Text) (isCanonical : IsCanonical pwd)
    (text : Unterminated pathname) :
    ∃ b stores, Buffer.abspath heap pwd pwd.length pathname pathname.length = .ok (b, stores) ∧
      b.text.toString b.size = canonical (fullPath pwd pathname) ∧
      ∀ store ∈ stores, store.place ≤ store.unread := by
  obtain ⟨copy, copied, spelled⟩ := ofPath_eq heap pwd pathname
  obtain ⟨lead, path, isPath, isLead, pathText⟩ :=
    fullPath_cons isCanonical.absolute isCanonical.text text
  rw [isPath] at copied spelled ⊢
  obtain ⟨final, stores, call, isFinal, inOrder⟩ := cleaned_of_spelled isLead pathText spelled
  refine ⟨⟨(lead :: path).length + 2, final⟩, stores, ?_, isFinal, inOrder⟩
  have begins : isSeparator (copy 0) = true := by
    rw [spelled.1]
    exact isLead
  unfold Buffer.abspath
  rw [copied, ok_bind, read_eq (Nat.succ_pos _), ok_bind, check_true begins, ok_bind]
  exact call

/-- The function on strings. -/
theorem abspath_eq (isCanonical : IsCanonical pwd) (text : Unterminated pathname) :
    abspath pwd pathname = .ok (canonical (fullPath pwd pathname)) := by
  obtain ⟨lead, path, isPath, isLead, pathText⟩ :=
    fullPath_cons isCanonical.absolute isCanonical.text text
  have isContent : (if ¬pathname.head?.any isSeparator = true then pwd ++ [separator] else []) ++
      pathname ++ [separator] = fullPath pwd pathname ++ [separator] := by
    unfold fullPath
    by_cases absolute : pathname.head?.any isSeparator = true
    · rw [if_neg (not_not.mpr absolute), if_pos absolute, List.nil_append]
    · rw [if_pos absolute, if_neg absolute, List.append_cons pwd separator pathname]
  have spelled := spelled_ofString (lead :: path ++ [separator])
  obtain ⟨final, stores, call, isFinal, _⟩ := cleaned_of_spelled isLead pathText spelled
  have erased := Buffer.cleanPath_cases call
  have begins : isSeparator (Text.ofString (lead :: path ++ [separator]) 0) = true := isLead
  unfold abspath
  dsimp only
  rw [isContent, isPath, check_true begins, ok_bind, List.length_append, List.length_singleton]
  rw [erased, ok_bind, isFinal, pure_eq_ok]

theorem isCanonical_fullPath (isCanonical : IsCanonical pwd) (text : Unterminated pathname) :
    IsCanonical (canonical (fullPath pwd pathname)) := by
  obtain ⟨lead, path, isPath, isLead, pathText⟩ :=
    fullPath_cons isCanonical.absolute isCanonical.text text
  rw [isPath]
  exact isCanonical_canonical isLead pathText

/-- A canonical path of a name is found in place, in the block that was asked for. -/
theorem canonicalised (heap : Text) (isCanonical : IsCanonical pwd)
    (text : Unterminated pathname) :
    (∃ b stores, Buffer.abspath heap pwd pwd.length pathname pathname.length = .ok (b, stores) ∧
      b.text.toString b.size = canonical (fullPath pwd pathname) ∧
      ∀ store ∈ stores, store.place ≤ store.unread) ∧
    abspath pwd pathname = .ok (canonical (fullPath pwd pathname)) ∧
    IsCanonical (canonical (fullPath pwd pathname)) :=
  ⟨Buffer.abspath_eq heap isCanonical text, abspath_eq isCanonical text,
    isCanonical_fullPath isCanonical text⟩

/-- The path `../b\./c` in the directory `/a`. -/
theorem canonicalised_up :
    ∃ b stores, Buffer.abspath (fun _ => 255) [47, 97] 2 [46, 46, 47, 98, 92, 46, 47, 99] 8 =
        .ok (b, stores) ∧
      b.text.toString b.size = [47, 98, 47, 99] ∧
      ∀ store ∈ stores, store.place ≤ store.unread := by
  have isProper : Proper [97] := ⟨by decide, by decide, by decide, by decide, by decide⟩
  have isCanonical : IsCanonical [47, 97] :=
    ⟨47, [[97]], rfl, List.forall_mem_singleton.mpr isProper, rfl⟩
  exact (canonicalised (fun _ => 255) isCanonical (by decide)).1

end Results

end LightOS
