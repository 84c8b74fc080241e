import LightOS.Fs.Loaded
import Mathlib.Tactic.NormNum

/-!
# Path resolution

A path names the inode that is reached by walking its components one by one.
`named` compares the place behind each separator that `find_entry` has passed with
the place behind the last one, so it stops at the right component exactly when
the last separator follows a component.
-/

namespace LightOS

open Components

namespace Volumes

variable (disk : Volumes) (dev : Nat)

/-- Walk components one by one.  Every inode that is walked through must be a
directory. -/
def walk : Nat → List Cursor → Option Nat
  | nr, [] => some nr
  | nr, name :: names =>
      if disk.isDirectory dev nr then
        (disk.lookup dev nr name).bind fun next => walk next names
      else
        none

/-- The inode that a path names, from the inode that the path begins at. -/
def resolve (start : Nat) (path : Cursor) : Option Nat :=
  let reached := disk.walk dev start (components isSeparator path)
  if path.getLast?.any isSeparator then
    reached.filter (disk.isDirectory dev)
  else
    reached

/-- A directory tree in which a task may search every directory: the numbers in
`members` are those of its files and directories. -/
structure Tree (task : Creds) (members : Nat → Prop) : Prop where
  number : ∀ nr, members nr → nr ≤ (disk.super dev).inodes
  readable : ∀ nr, members nr → disk.isDirectory dev nr = true →
    disk.Readable dev nr
  closed : ∀ nr, members nr → disk.isDirectory dev nr = true →
    ∀ index, index < disk.entryCount dev nr → (disk.entry dev nr index).nr ≠ 0 →
      members (disk.entry dev nr index).nr
  searchable : ∀ nr, members nr → disk.isDirectory dev nr = true →
    Fs.grants (disk.desc dev nr) task pExec = true

variable {disk dev}

theorem Tree.lookup {task : Creds} {members : Nat → Prop}
    (tree : disk.Tree dev task members) {nr found : Nat} {name : Cursor}
    (member : members nr) (directory : disk.isDirectory dev nr = true)
    (hit : disk.lookup dev nr name = some found) : members found := by
  obtain ⟨index, inside, live, same⟩ := lookup_eq_some hit
  rw [← same]
  exact tree.closed nr member directory index inside live

theorem walk_append (start : Nat) (front back : List Cursor) :
    disk.walk dev start (front ++ back) =
      (disk.walk dev start front).bind fun reached => disk.walk dev reached back := by
  induction front generalizing start with
  | nil => rfl
  | cons name names inductionHypothesis =>
      rw [List.cons_append, walk, walk]
      split
      · cases disk.lookup dev start name with
        | none => rfl
        | some next => exact inductionHypothesis next
      · rfl

/-- No directory is reached through a file. -/
theorem walk_file {start : Nat} {names : List Cursor}
    (file : disk.isDirectory dev start = false) :
    (disk.walk dev start names).filter (disk.isDirectory dev) = none := by
  cases names with
  | nil => simp [walk, file]
  | cons name names => simp [walk, file]

/-- Which inode a path names depends on its components and on its end alone. -/
theorem resolve_congr (start : Nat) {path other : Cursor}
    (same : components isSeparator path = components isSeparator other)
    (ends : path.getLast?.any isSeparator = other.getLast?.any isSeparator) :
    disk.resolve dev start path = disk.resolve dev start other := by
  unfold resolve
  rw [same, ends]

/-- A path with a separator more, next to one that it has. -/
def Widens (path wider : Cursor) : Prop :=
  ∃ front sep extra back, isSeparator sep = true ∧ isSeparator extra = true ∧
    path = front ++ sep :: back ∧
    (wider = front ++ sep :: extra :: back ∨ wider = front ++ extra :: sep :: back)

/-- The inode that a path names does not depend on separators next to others. -/
theorem resolve_widens (start : Nat) {path wider : Cursor}
    (widens : Widens path wider) :
    disk.resolve dev start wider = disk.resolve dev start path := by
  obtain ⟨front, sep, extra, back, separates, alsoSeparates, rfl, rfl | rfl⟩ := widens
  · refine resolve_congr start (components_insert _ _ separates alsoSeparates) ?_
    cases back with
    | nil => simp [separates, alsoSeparates]
    | cons byte rest => simp
  · refine resolve_congr start ?_ ?_
    · rw [components_append _ _ alsoSeparates, components_cons _ separates,
        components_append _ _ separates]
    · cases back with
      | nil => simp
      | cons byte rest => simp

/-- A path with a separator in it names what is left of the path in the
directory in front of the last separator. -/
theorem resolve_append (start : Nat) (front : Cursor) {sep : UInt8} {back : Cursor}
    (separates : isSeparator sep) (plain : Plain isSeparator back) :
    disk.resolve dev start (front ++ sep :: back) =
      ((disk.walk dev start (components isSeparator front)).filter
        (disk.isDirectory dev)).bind fun last =>
          if back = [] then some last else disk.lookup dev last back := by
  unfold resolve
  rw [components_append _ _ separates, walk_append]
  cases back with
  | nil =>
      rw [components_nil, List.getLast?_concat]
      simp only [Option.any_some, separates, if_true, walk]
      cases disk.walk dev start (components isSeparator front) with
      | none => rfl
      | some last => cases h : disk.isDirectory dev last <;> simp [Option.filter, h]
  | cons byte rest =>
      have notEnd : (front ++ sep :: byte :: rest).getLast?.any isSeparator = false := by
        rw [List.getLast?_append, List.getLast?_eq_some_getLast (by simp),
          Option.some_or, Option.any_some]
        rw [List.getLast_cons (by simp)]
        exact plain _ (List.getLast_mem _)
      rw [notEnd, components_plain plain (by simp)]
      simp only [Bool.false_eq_true, if_false]
      cases disk.walk dev start (components isSeparator front) with
      | none => rfl
      | some last =>
          cases directory : disk.isDirectory dev last with
          | false => simp [walk, Option.filter, directory]
          | true =>
              simp only [walk, Option.filter, directory, if_true, Option.bind_some]
              cases disk.lookup dev last (byte :: rest) with
              | none => rfl
              | some found => rfl

end Volumes

namespace Fs

/-- A walk stands at an inode with one more reference to it than `refs`. -/
structure Walks (fs : Fs) (dev sb : Nat) (refs : Nat → Nat) (ino nr : Nat) :
    Prop where
  loaded : fs.Loaded dev sb (Function.update refs nr (refs nr + 1))
    (Loaded.taken refs nr 2)
  handle : fs.Handle sb ino nr

/-- `find_entry` looks the first component of a path up in a directory. -/
theorem Loaded.findEntry {fs : Fs} {dev sb free ino nr : Nat} {refs : Nat → Nat}
    {name : Cursor} (loaded : fs.Loaded dev sb refs free)
    (handle : fs.Handle sb ino nr) (directory : fs.disk.isDirectory dev nr = true)
    (readable : fs.disk.Readable dev nr) (text : Unterminated name) :
    ∃ found, fs.findEntry ino name = .ok (found, ino, fs) ∧
      found.map (fun hit => (fs.entry hit.entry).nr) =
        fs.disk.lookup dev nr (first isSeparator name) ∧
      ∀ hit ∈ found, hit.next = rest isSeparator name := by
  have holds := (loaded.inUse ino nr handle).holds
  obtain ⟨found, searched, same, next⟩ := searchEntries_lookup holds readable text
  refine ⟨found, ?_, same, next⟩
  have stays : fs.leaveMount ino name = .ok (ino, fs) := by
    unfold leaveMount
    dsimp only
    rw [if_neg]
    · rfl
    · rintro ⟨_, isOne, notRoot⟩
      rw [holds.nr] at isOne
      exact notRoot (loaded.unique ino rootInode 1 (isOne ▸ handle) loaded.root)
  unfold Volumes.isDirectory at directory
  unfold Fs.findEntry
  rw [holds.desc, check_true directory, ok_bind, stays, ok_bind]
  dsimp only
  rw [holds.desc]
  change (fs.searchEntries ino name (fs.disk.entryCount dev nr) 0 0 >>= _) = _
  rw [searched]
  rfl

section Walk

variable {disk : Volumes} {dev sb : Nat} {task : Creds} {members : Nat → Prop}
  {refs : Nat → Nat}

/-- Taking a reference to an inode of the tree. -/
theorem Loaded.enter {fs : Fs} {nr : Nat} (loaded : fs.Loaded dev sb refs 2)
    (tree : fs.disk.Tree dev task members) (bounded : ∀ nr, refs nr + 2 < 2 ^ 32)
    (member : members nr) :
    ∃ ino after, fs.iget dev nr = .ok (ino, after) ∧ after.disk = fs.disk ∧
      after.Walks dev sb refs ino nr := by
  have small := bounded nr
  obtain ⟨ino, after, returned, same, handle, loaded, _⟩ :=
    loaded.iget (tree.number nr member) (by omega) (fun _ => Nat.two_pos)
  exact ⟨ino, after, returned, same, loaded, handle⟩

/-- Giving the reference of a walk back. -/
theorem Walks.iput {fs : Fs} {ino nr : Nat} (walks : fs.Walks dev sb refs ino nr)
    (rooted : 0 < refs 1) :
    ∃ after, fs.iput ino = .ok after ∧ after.disk = fs.disk ∧
      after.Loaded dev sb refs 2 := by
  obtain ⟨after, returned, same, loaded, _⟩ := walks.loaded.iput walks.handle (by
    intro isOne
    rw [isOne, Function.update_self]
    omega)
  refine ⟨after, returned, same, ?_⟩
  have restored : Function.update (Function.update refs nr (refs nr + 1)) nr
      (Function.update refs nr (refs nr + 1) nr - 1) = refs := by
    rw [Function.update_idem, Function.update_self, Nat.add_sub_cancel,
      Function.update_eq_self]
  have free : Loaded.freed (Function.update refs nr (refs nr + 1)) nr
      (Loaded.taken refs nr 2) = 2 := by
    unfold Loaded.freed Loaded.taken
    rw [Function.update_self]
    split <;> split <;> omega
  rw [restored, free] at loaded
  exact loaded

/-- What is behind the walk of a round of `named`: the next inode when there is
one, and then whether the walk goes on. -/
theorem descend_round (tree : disk.Tree dev task members)
    (bounded : ∀ nr, refs nr + 2 < 2 ^ 32) (rooted : 0 < refs 1)
    {fs : Fs} {ino nr : Nat} (rounds : Nat) (right cursor : Cursor)
    (same : fs.disk = disk)
    (walks : fs.Walks dev sb refs ino nr) (member : members nr)
    (directory : disk.isDirectory dev nr = true) (text : Unterminated cursor) :
    match disk.lookup dev nr (first isSeparator cursor) with
    | none => ∃ after, fs.descend task right (rounds + 1) ino cursor =
        .ok (none, after) ∧ after.disk = disk
    | some next => ∃ child after, after.disk = disk ∧
        after.Walks dev sb refs child next ∧
        fs.descend task right (rounds + 1) ino cursor =
          if disk.isDirectory dev next = false then .ok (none, after)
          else if right = rest isSeparator cursor then
            .ok (some (child, rest isSeparator cursor), after)
          else after.descend task right rounds child (rest isSeparator cursor) := by
  have readable := tree.readable nr member directory
  have holds := (walks.loaded.inUse ino nr walks.handle).holds
  subst same
  obtain ⟨found, searched, hit, next⟩ :=
    walks.loaded.findEntry walks.handle directory readable text
  obtain ⟨left, put, samePut, base⟩ := walks.iput rooted
  rw [← hit]
  cases found with
  | none =>
      refine ⟨left, ?_, samePut⟩
      rw [descend, searched, ok_bind]
      dsimp only
      rw [put]
      rfl
  | some found =>
      have number : left.entry found.entry = fs.entry found.entry := by
        unfold entry block
        rw [samePut]
      have child : members (fs.entry found.entry).nr :=
        tree.lookup member directory (hit.symm)
      obtain ⟨ino', after, got, sameGot, walksOn⟩ :=
        base.enter (samePut ▸ tree) bounded child
      have landed := (walksOn.loaded.inUse ino' _ walksOn.handle).holds
      refine ⟨ino', after, sameGot.trans samePut, walksOn, ?_⟩
      rw [descend, searched, ok_bind]
      dsimp only
      rw [holds.dev, put, ok_bind, number, got, ok_bind]
      dsimp only
      rw [landed.desc, next found rfl, sameGot, samePut]
      unfold permission
      rw [landed.desc, sameGot, samePut]
      cases isDirectory : fs.disk.isDirectory dev (fs.entry found.entry).nr with
      | false =>
          unfold Volumes.isDirectory at isDirectory
          simp [isDirectory]
      | true =>
          have granted := tree.searchable _ child isDirectory
          unfold Volumes.isDirectory at isDirectory
          simp [isDirectory, granted]

/-- Where a walk arrives: nowhere, or at a directory with a cursor left. -/
def Arrives (disk : Volumes) (dev sb : Nat) (members : Nat → Prop)
    (refs : Nat → Nat) (left : Cursor) (target : Option Nat)
    (result : Option (Nat × Cursor)) (after : Fs) : Prop :=
  match target with
  | none => result = none
  | some last => ∃ dir, result = some (dir, left) ∧
      after.Walks dev sb refs dir last ∧ members last ∧
      disk.isDirectory dev last = true

/-- With nothing left of the path, no entry matches any more. -/
theorem descend_nil (tree : disk.Tree dev task members)
    (bounded : ∀ nr, refs nr + 2 < 2 ^ 32) (rooted : 0 < refs 1)
    {fs : Fs} {ino nr rounds : Nat} (right : Cursor) (same : fs.disk = disk)
    (walks : fs.Walks dev sb refs ino nr) (member : members nr)
    (directory : disk.isDirectory dev nr = true) (some : 0 < rounds) :
    ∃ after, fs.descend task right rounds ino [] = .ok (none, after) ∧
      after.disk = disk := by
  obtain ⟨rounds, rfl⟩ := Nat.exists_eq_succ_of_ne_zero some.ne'
  have round := descend_round tree bounded rooted rounds right [] same walks member directory
    (by simp [Unterminated])
  have nothing : disk.lookup dev nr (first isSeparator []) = none :=
    Volumes.lookup_nil (tree.readable nr member directory)
  rw [nothing] at round
  exact round

/-- `named` walks through the components in front of the last separator when the
separator follows one of them, and finds nothing otherwise. -/
theorem descend_eq (tree : disk.Tree dev task members)
    (bounded : ∀ nr, refs nr + 2 < 2 ^ 32) (rooted : 0 < refs 1)
    {sep : UInt8} {back : Cursor} (separates : isSeparator sep)
    (plain : Plain isSeparator back) :
    ∀ (rounds : Nat) (front : Cursor) (fs : Fs) (ino nr : Nat), fs.disk = disk →
      fs.Walks dev sb refs ino nr → members nr → disk.isDirectory dev nr = true →
      Unterminated (front ++ sep :: back) → front.length + 2 ≤ rounds →
      ∃ result after,
        fs.descend task back rounds ino (front ++ sep :: back) =
          .ok (result, after) ∧ after.disk = disk ∧
        Arrives disk dev sb members refs back
          (if closes isSeparator front then
            (disk.walk dev nr (components isSeparator front)).filter
              (disk.isDirectory dev)
          else none) result after := by
  intro rounds
  induction rounds with
  | zero =>
      intro front fs ino nr same walks member directory text enough
      omega
  | succ rounds inductionHypothesis =>
      intro front fs ino nr same walks member directory text enough
      have round := descend_round tree bounded rooted rounds back
        (front ++ sep :: back) same walks member directory text
      by_cases noComponent : first isSeparator front = []
      · -- Only separators are in front, and the walk passes the last one.
        obtain ⟨firstIs, restIs⟩ := first_rest_separators separates noComponent plain
        rw [closes_of_separators noComponent]
        rw [firstIs, restIs] at round
        cases hit : disk.lookup dev nr back with
        | none =>
            rw [hit] at round
            obtain ⟨after, returned, samAfter⟩ := round
            exact ⟨none, after, returned, samAfter, rfl⟩
        | some next =>
            rw [hit] at round
            obtain ⟨child, after, sameAfter, walksOn, returned⟩ := round
            have notEnd : back ≠ [] := by
              intro ends
              rw [ends, Volumes.lookup_nil (tree.readable nr member directory)] at hit
              cases hit
            cases isDirectory : disk.isDirectory dev next with
            | false => exact ⟨none, after, by rw [returned, if_pos isDirectory],
                sameAfter, rfl⟩
            | true =>
                rw [isDirectory, if_neg (by simp), if_neg notEnd] at returned
                have left : 0 < rounds := by omega
                obtain ⟨last, ends, sameLast⟩ := descend_nil tree bounded rooted back
                  sameAfter walksOn (tree.lookup member directory hit) isDirectory left
                exact ⟨none, last, returned.trans ends, sameLast, rfl⟩
      · obtain ⟨firstIs, behind⟩ := first_rest_append back separates noComponent
        rw [components_eq, if_neg noComponent, Volumes.walk, if_pos directory]
        rw [firstIs] at round
        cases hit : disk.lookup dev nr (first isSeparator front) with
        | none =>
            rw [hit] at round
            obtain ⟨after, returned, sameAfter⟩ := round
            refine ⟨none, after, returned, sameAfter, ?_⟩
            simp [Arrives]
        | some next =>
            rw [hit] at round
            obtain ⟨child, after, sameAfter, walksOn, returned⟩ := round
            cases isDirectory : disk.isDirectory dev next with
            | false =>
                refine ⟨none, after, by rw [returned, if_pos isDirectory], sameAfter, ?_⟩
                rw [Option.bind_some, Volumes.walk_file isDirectory, ite_self]
                rfl
            | true =>
                have nextMember := tree.lookup member directory hit
                rw [isDirectory, if_neg (by simp)] at returned
                rw [Option.bind_some]
                rcases behind with ⟨⟨whole, ends⟩, restIs⟩ | ⟨⟨other, isOther, split⟩, restIs⟩
                · rw [restIs, if_pos rfl] at returned
                  refine ⟨_, after, returned, sameAfter, ?_⟩
                  rw [closes_of_whole noComponent whole, if_pos rfl, ends,
                    components_nil, Volumes.walk, Option.filter_some_pos isDirectory]
                  exact ⟨child, rfl, walksOn, nextMember, isDirectory⟩
                · have notLast : back ≠ rest isSeparator front ++ sep :: back := by
                    intro same
                    have := congrArg List.length same
                    rw [List.length_append, List.length_cons] at this
                    omega
                  have shorter := rest_length_lt noComponent
                  rw [restIs, if_neg notLast] at returned
                  rw [closes_rest isOther split, returned]
                  refine inductionHypothesis (rest isSeparator front) after child next
                    sameAfter walksOn nextMember isDirectory ?_ (by omega)
                  intro byte inRest
                  rw [← restIs] at inRest
                  exact text byte (mem_of_mem_rest inRest)

/-- An inode that `namei` hands out, or none. -/
def Denotes (after : Fs) (dev sb : Nat) (target result : Option Nat) : Prop :=
  match target with
  | none => result = none
  | some nr => ∃ ino, result = some ino ∧ after.Handle sb ino nr ∧
      after.Holds ino dev nr

/-- `namei` returns the directory that `named` returns, or looks up what is left of
the path in it. -/
theorem namei_of_named (tree : disk.Tree dev task members)
    (bounded : ∀ nr, refs nr + 2 < 2 ^ 32) (rooted : 0 < refs 1)
    {start fs : Fs} {path : Option Cursor} {dir nr : Nat} {name : Cursor}
    (walked : start.named task path = .ok (some (dir, name), fs))
    (same : fs.disk = disk)
    (walks : fs.Walks dev sb refs dir nr) (member : members nr)
    (directory : disk.isDirectory dev nr = true) (text : Unterminated name)
    (plain : Plain isSeparator name) :
    ∃ result after, start.namei task path = .ok (result, after) ∧
      after.disk = disk ∧
      after.Denotes dev sb
        (if name = [] then some nr else disk.lookup dev nr name) result := by
  subst same
  have holds := (walks.loaded.inUse dir nr walks.handle).holds
  unfold namei
  rw [walked, ok_bind]
  cases ends : name with
  | nil => exact ⟨some dir, fs, rfl, rfl, dir, rfl, walks.handle, holds⟩
  | cons byte behind =>
    obtain ⟨found, searched, hit, _⟩ := walks.loaded.findEntry walks.handle directory
      (tree.readable nr member directory) text
    rw [plain_first plain, ends] at hit
    rw [ends] at searched
    rw [if_neg (List.cons_ne_nil _ _), ← hit]
    dsimp only
    rw [searched, ok_bind]
    cases found with
    | none =>
        obtain ⟨left, put, samePut, _⟩ := walks.iput rooted
        exact ⟨none, left, by dsimp only; rw [put]; rfl, samePut, rfl⟩
    | some found =>
        have child : members (fs.entry found.entry).nr :=
          tree.lookup member directory hit.symm
        rw [Option.map_some]
        dsimp only
        rw [holds.dev]
        generalize (fs.entry found.entry).nr = next at child ⊢
        have counts := bounded next
        have most : Function.update refs nr (refs nr + 1) next ≤ refs next + 1 := by
          by_cases equal : next = nr
          · rw [equal, Function.update_self]
          · rw [Function.update_of_ne equal]
            omega
        obtain ⟨ino, loadedFs, got, sameGot, handle, loaded, stay⟩ :=
          walks.loaded.iget (tree.number next child) (by omega) (by
            intro _
            unfold Loaded.taken
            split <;> omega)
        obtain ⟨after, put, samePut, released, stays⟩ :=
          loaded.iput (stay dir nr walks.handle) (by
            intro isOne
            subst isOne
            by_cases equal : 1 = next
            · rw [← equal, Function.update_self, Function.update_self]
              omega
            · rw [Function.update_of_ne equal, Function.update_self]
              omega)
        have still : after.Handle sb ino next := by
          refine stays ino next handle ?_
          by_cases equal : next = nr
          · rw [equal, Function.update_self, Function.update_self,
              Function.update_self]
            omega
          · rw [Function.update_of_ne equal, Function.update_self]
            omega
        refine ⟨some ino, after, ?_, samePut.trans sameGot, ino, rfl, still,
          (released.inUse ino next still).holds⟩
        rw [got, ok_bind]
        dsimp only
        rw [put]
        rfl

/-- A path whose last separator, the leading ones aside, follows a component. -/
def Tidy (path : Cursor) : Prop :=
  ∀ front sep back, skipSeparators path = front ++ sep :: back →
    isSeparator sep = true → Plain isSeparator back → closes isSeparator front = true

/-- A task with its root and working directory in a tree without mounts whose
inodes are loaded as they are referenced, with room for two more. -/
structure Session (fs : Fs) (dev sb : Nat) (task : Creds) (members : Nat → Prop)
    (refs : Nat → Nat) : Prop where
  tree : fs.disk.Tree dev task members
  loaded : fs.Loaded dev sb refs 2
  bounded : ∀ nr, refs nr + 2 < 2 ^ 32
  iroot : ∃ nr, fs.Handle sb task.iroot nr ∧ members nr ∧
    fs.disk.isDirectory dev nr = true
  ipwd : ∃ nr, fs.Handle sb task.ipwd nr ∧ members nr ∧
    fs.disk.isDirectory dev nr = true

variable {fs : Fs} {path : Cursor} {start : Nat}

/-- A task holds the inode that a path begins at. -/
theorem Session.begins (session : fs.Session dev sb task members refs)
    (path : Cursor) :
    ∃ nr, fs.Handle sb (startOf task path) nr ∧ members nr ∧
      fs.disk.isDirectory dev nr = true := by
  unfold startOf
  split
  · exact session.iroot
  · exact session.ipwd

/-- The reference that `named` begins with. -/
theorem Session.walks (session : fs.Session dev sb task members refs) {ino nr : Nat}
    (handle : fs.Handle sb ino nr) :
    (fs.setCount ino (add32 (fs.inodeTable ino).count 1)).Walks dev sb refs ino nr := by
  have used := session.loaded.inUse ino nr handle
  have positive := used.positive
  have small := session.bounded nr
  rw [session.loaded.held handle (by omega)]
  refine ⟨?_, ?_⟩
  · have taken : Loaded.taken refs nr 2 = 2 := if_neg (by omega)
    rw [taken]
    exact session.loaded.recount handle (by omega) (by omega)
  · unfold Handle at handle ⊢
    rw [setCount_inodeTable]
    exact handle

/-- A path names what it names without its leading separators, from the same
directory. -/
theorem resolve_skip {disk : Volumes}
    (directory : disk.isDirectory dev start = true) :
    disk.resolve dev start path =
      disk.resolve dev start (skipSeparators path) := by
  obtain ⟨seps, split, separators⟩ := skip_prefix isSeparator path
  rw [skipSeparators_eq]
  by_cases nothing : skip isSeparator path = []
  · rw [nothing, List.append_nil] at split
    have noComponents : components isSeparator path = [] := by
      rw [← components_skip, nothing, components_nil]
    unfold Volumes.resolve
    rw [noComponents, nothing]
    simp [Volumes.walk, directory]
  · refine Volumes.resolve_congr start (components_skip path).symm ?_
    conv => lhs; rw [split]
    rw [List.getLast?_append, List.getLast?_eq_some_getLast nothing, Option.some_or]

/-- A path without separators is a name in the directory that it begins at. -/
theorem resolve_plain {disk : Volumes}
    (directory : disk.isDirectory dev start = true)
    (plain : Plain isSeparator path) :
    disk.resolve dev start path =
      if path = [] then some start else disk.lookup dev start path := by
  unfold Volumes.resolve
  cases path with
  | nil => rfl
  | cons byte behind =>
      have notEnd : (byte :: behind).getLast?.any isSeparator = false := by
        rw [List.getLast?_eq_some_getLast (List.cons_ne_nil _ _), Option.any_some]
        exact plain _ (List.getLast_mem _)
      rw [notEnd, components_plain plain (List.cons_ne_nil _ _), Volumes.walk,
        if_pos directory]
      cases disk.lookup dev start (byte :: behind) <;> rfl

/-- `namei` resolves a tidy path and returns no inode for any other one. -/
theorem Session.namei (session : fs.Session dev sb task members refs)
    (begins : fs.Handle sb (startOf task path) start) (notEmpty : path ≠ [])
    (text : Unterminated path) (fits : path.length < 2 ^ 32) :
    ∃ result after, fs.namei task (some path) = .ok (result, after) ∧
      (Tidy path → after.Denotes dev sb (fs.disk.resolve dev start path) result) ∧
      (¬Tidy path → result = none) := by
  obtain ⟨number, handle, member, directory⟩ := session.begins path
  have isStart : number = start := handle.2.symm.trans begins.2
  subst isStart
  have rooted := (session.loaded.inUse _ _ session.loaded.root).positive
  have walks := session.walks handle
  have walked := named_eq task fs notEmpty
  have textLeft : Unterminated (skipSeparators path) := fun byte inLeft =>
    text byte ((List.dropWhile_sublist _).mem inLeft)
  have shorter : (skipSeparators path).length ≤ path.length :=
    (List.dropWhile_sublist _).length_le
  rw [resolve_skip directory]
  rcases plain_or_last (skipSeparators path) with
    plain | ⟨front, sep, back, split, separates, plain⟩
  · rw [strrsep_plain plain] at walked
    obtain ⟨result, after, returned, _, denotes⟩ := namei_of_named session.tree
      session.bounded rooted walked rfl walks member directory textLeft plain
    rw [resolve_plain directory plain]
    refine ⟨result, after, returned, fun _ => denotes, fun untidy => absurd ?_ untidy⟩
    intro front sep back split separates _
    rw [split] at plain
    rw [plain sep (by simp)] at separates
    cases separates
  · have tidy : Tidy path ↔ closes isSeparator front = true := by
      constructor
      · exact fun tidy => tidy front sep back split separates plain
      · intro closed other otherSep otherBack otherSplit otherSeparates otherPlain
        rw [← last_unique (split.symm.trans otherSplit) separates plain
          otherSeparates otherPlain]
        exact closed
    rw [split] at textLeft shorter
    rw [split, strrsep_append front separates plain] at walked
    rw [split, tidy]
    rw [List.length_append, List.length_cons] at shorter
    obtain ⟨arrived, middle, descended, same, arrives⟩ := descend_eq session.tree
      session.bounded rooted separates plain (2 ^ 32) front
      (fs.setCount (startOf task path) (add32 (fs.inodeTable (startOf task path)).count 1))
      _ _ rfl walks member directory textLeft (by omega)
    dsimp only [List.tail_cons] at walked
    rw [descended] at walked
    rw [Volumes.resolve_append number front separates plain]
    cases closed : closes isSeparator front with
    | false =>
        rw [closed, if_neg (by simp)] at arrives
        rw [arrives] at walked
        refine ⟨none, middle, ?_, fun impossible => (by cases impossible), fun _ => rfl⟩
        unfold Fs.namei
        rw [walked]
        rfl
    | true =>
        rw [closed, if_pos rfl] at arrives
        cases reached : (fs.disk.walk dev number (components isSeparator front)).filter
            (fs.disk.isDirectory dev) with
        | none =>
            rw [reached] at arrives
            rw [arrives] at walked
            refine ⟨none, middle, ?_, fun _ => rfl, fun impossible => absurd rfl impossible⟩
            unfold Fs.namei
            rw [walked]
            rfl
        | some last =>
            rw [reached] at arrives
            obtain ⟨dir, isArrived, walksOn, lastMember, isDirectory⟩ := arrives
            rw [isArrived] at walked
            have textBack : Unterminated back := fun byte inBack =>
              textLeft byte (List.mem_append_right _ (List.mem_cons_of_mem _ inBack))
            obtain ⟨result, after, returned, _, denotes⟩ := namei_of_named session.tree
              session.bounded rooted walked same walksOn lastMember isDirectory textBack
              plain
            exact ⟨result, after, returned, fun _ => denotes,
              fun impossible => absurd rfl impossible⟩

/-- The number of the inode that a path begins at. -/
def startNr (fs : Fs) (task : Creds) (path : Cursor) : Nat :=
  (fs.inodeTable (startOf task path)).nr

/-- `namei` returns the inode that a path names. -/
def Resolves (fs : Fs) (dev sb : Nat) (task : Creds) (path : Cursor) : Prop :=
  ∃ result after, fs.namei task (some path) = .ok (result, after) ∧
    after.Denotes dev sb (fs.disk.resolve dev (fs.startNr task path) path) result

/-- `namei` returns the same inode for two paths. -/
def SameInode (fs : Fs) (dev sb : Nat) (task : Creds) (path other : Cursor) : Prop :=
  ∃ target result otherResult after otherAfter,
    fs.namei task (some path) = .ok (result, after) ∧
    fs.namei task (some other) = .ok (otherResult, otherAfter) ∧
    after.Denotes dev sb target result ∧
    otherAfter.Denotes dev sb target otherResult

theorem Denotes.unique {after : Fs} {target other result : Option Nat}
    (denotes : after.Denotes dev sb target result)
    (otherDenotes : after.Denotes dev sb other result) : target = other := by
  cases target with
  | none =>
      rw [show result = none from denotes] at otherDenotes
      cases other with
      | none => rfl
      | some nr =>
          obtain ⟨ino, impossible, _⟩ := otherDenotes
          cases impossible
  | some nr =>
      obtain ⟨ino, rfl, handle, _⟩ := denotes
      cases other with
      | none => cases otherDenotes
      | some otherNr =>
          obtain ⟨otherIno, same, otherHandle, _⟩ := otherDenotes
          cases same
          rw [handle.2.symm.trans otherHandle.2]

/-- What `namei` returns, as a number: the inode that a tidy path names. -/
theorem Session.result (session : fs.Session dev sb task members refs)
    (notEmpty : path ≠ []) (text : Unterminated path) (fits : path.length < 2 ^ 32) :
    ∃ target result after, fs.namei task (some path) = .ok (result, after) ∧
      after.Denotes dev sb target result ∧
      (Tidy path → target = fs.disk.resolve dev (fs.startNr task path) path) ∧
      (¬Tidy path → target = none) := by
  obtain ⟨number, handle, _, _⟩ := session.begins path
  obtain ⟨result, after, returned, tidy, untidy⟩ :=
    session.namei handle notEmpty text fits
  have isStart : fs.startNr task path = number := handle.2
  rw [isStart]
  by_cases isTidy : Tidy path
  · exact ⟨_, result, after, returned, tidy isTidy, fun _ => rfl,
      fun impossible => absurd isTidy impossible⟩
  · exact ⟨none, result, after, returned, untidy isTidy,
      fun impossible => absurd impossible isTidy, fun _ => rfl⟩

theorem startNr_widens {wider : Cursor} (widens : Volumes.Widens path wider) :
    fs.startNr task wider = fs.startNr task path := by
  have begins : wider.head?.any isSeparator = path.head?.any isSeparator := by
    obtain ⟨front, sep, extra, back, separates, alsoSeparates, rfl, rfl | rfl⟩ := widens
    · cases front <;> rfl
    · cases front with
      | nil => simp [separates, alsoSeparates]
      | cons byte rest => rfl
  unfold startNr startOf
  rw [begins]

/-- `namei` returns the inode that a path names exactly when the path is not empty
and is tidy or names no inode.  A separator more makes a difference exactly
when it makes a path that names an inode untidy. -/
theorem resolves_iff_tidy (session : fs.Session dev sb task members refs)
    (text : Unterminated path) (fits : path.length < 2 ^ 32) :
    (fs.Resolves dev sb task path ↔ path ≠ [] ∧
      (Tidy path ∨ fs.disk.resolve dev (fs.startNr task path) path = none)) ∧
    ∀ wider, Volumes.Widens path wider → Unterminated wider →
      wider.length < 2 ^ 32 →
      (fs.SameInode dev sb task path wider ↔ (Tidy path ↔ Tidy wider) ∨
        fs.disk.resolve dev (fs.startNr task path) path = none) := by
  constructor
  · by_cases empty : path = []
    · refine iff_of_false ?_ fun condition => condition.1 empty
      rintro ⟨result, after, returned, denotes⟩
      rw [empty] at returned denotes
      cases returned
      obtain ⟨ino, impossible, _⟩ := denotes
      cases impossible
    · obtain ⟨target, result, after, returned, denotes, tidy, untidy⟩ :=
        session.result empty text fits
      constructor
      · rintro ⟨other, otherAfter, otherReturned, resolved⟩
        rw [returned] at otherReturned
        cases otherReturned
        refine ⟨empty, ?_⟩
        by_cases isTidy : Tidy path
        · exact .inl isTidy
        · exact .inr ((resolved.unique denotes).trans (untidy isTidy))
      · rintro ⟨_, isTidy | nothing⟩
        · exact ⟨result, after, returned, tidy isTidy ▸ denotes⟩
        · refine ⟨result, after, returned, ?_⟩
          rw [nothing]
          by_cases isTidy : Tidy path
          · rw [tidy isTidy, nothing] at denotes
            exact denotes
          · rw [untidy isTidy] at denotes
            exact denotes
  · intro wider widens textWider fitsWider
    have empty : path ≠ [] := by
      obtain ⟨front, sep, extra, back, _, _, rfl, _⟩ := widens
      simp
    have emptyWider : wider ≠ [] := by
      obtain ⟨front, sep, extra, back, _, _, _, rfl | rfl⟩ := widens <;> simp
    obtain ⟨target, result, after, returned, denotes, tidy, untidy⟩ :=
      session.result empty text fits
    obtain ⟨other, otherResult, otherAfter, otherReturned, otherDenotes, otherTidy,
      otherUntidy⟩ := session.result emptyWider textWider fitsWider
    rw [startNr_widens widens, Volumes.resolve_widens _ widens] at otherTidy
    have same : fs.SameInode dev sb task path wider ↔ target = other := by
      constructor
      · rintro ⟨common, left, right, leftAfter, rightAfter, leftReturned,
          rightReturned, leftDenotes, rightDenotes⟩
        rw [returned] at leftReturned
        rw [otherReturned] at rightReturned
        cases leftReturned
        cases rightReturned
        exact (denotes.unique leftDenotes).trans (rightDenotes.unique otherDenotes)
      · intro equal
        exact ⟨target, result, otherResult, after, otherAfter, returned, otherReturned,
          denotes, equal ▸ otherDenotes⟩
    rw [same]
    by_cases isTidy : Tidy path
    · by_cases alsoTidy : Tidy wider
      · simp [tidy isTidy, otherTidy alsoTidy, isTidy, alsoTidy]
      · simp [tidy isTidy, otherUntidy alsoTidy, isTidy, alsoTidy]
    · by_cases alsoTidy : Tidy wider
      · simp [untidy isTidy, otherTidy alsoTidy, isTidy, alsoTidy, eq_comm]
      · simp [untidy isTidy, otherUntidy alsoTidy, isTidy, alsoTidy]

end Walk

/-! ## The small file system -/

/-- A task of the super user in the root directory. -/
def keeper : Creds :=
  ⟨0, 0, 0o22, 0, 0⟩

/-- The inodes of the small file system. -/
def smallMembers (nr : Nat) : Prop :=
  nr = 1 ∨ nr = 2

/-- The references to the inodes of the small file system. -/
def smallRefs (nr : Nat) : Nat :=
  if nr = 1 then 6 else 0

theorem small_entries : small.disk.entryCount 1 1 = 3 := by decide +kernel

theorem small_texts : ∀ index < 3,
    (small.disk.entry 1 1 index).text = [[46], [46, 46], [102]].getD index [] := by
  decide +kernel

theorem small_tree : small.disk.Tree 1 keeper smallMembers := by
  have file : small.disk.isDirectory 1 2 = false := by decide +kernel
  refine ⟨?number, ?readable, ?closed, ?searchable⟩
  case number =>
    rintro nr (rfl | rfl)
    · decide +kernel
    · decide +kernel
  case readable =>
    rintro nr (rfl | rfl) directory
    · refine ⟨?_, ?_⟩
      · rw [small_entries]
        decide +kernel
      · intro index inside live
        clear live
        rw [small_entries] at inside
        have text := small_texts index inside
        refine ⟨?_, ?_, ?_⟩
        · rw [text]
          clear text
          revert index
          decide +kernel
        · rw [text]
          clear text
          revert index
          decide +kernel
        · rw [text]
          clear text
          unfold Plain
          revert index
          decide +kernel
    · rw [file] at directory
      cases directory
  case closed =>
    rintro nr (rfl | rfl) directory
    · rw [small_entries]
      unfold smallMembers
      decide +kernel
    · rw [file] at directory
      cases directory
  case searchable =>
    rintro nr (rfl | rfl) directory
    · decide +kernel
    · rw [file] at directory
      cases directory

theorem small_loaded : small.Loaded 1 0 smallRefs 2 := by
  have only (ino nr : Nat) (handle : small.Handle 0 ino nr) : ino = 0 ∧ nr = 1 := by
    obtain ⟨onList, same⟩ := handle
    have isFirst : ino = 0 := List.mem_singleton.mp onList
    subst isFirst
    exact ⟨rfl, same.symm⟩
  have root : small.Handle 0 0 1 := ⟨List.mem_singleton.mpr rfl, rfl⟩
  refine
    { super := by decide +kernel
      device := by decide
      inUse := ?inUse
      present := ?present
      unique := fun ino other nr first second =>
        (only ino nr first).1.trans (only other nr second).1.symm
      nodup := List.nodup_singleton _
      root := root
      iroot := rfl
      blank := ?blank
      room := by decide +kernel }
  case inUse =>
    intro ino nr handle
    obtain ⟨rfl, rfl⟩ := only ino nr handle
    exact ⟨⟨rfl, rfl, by decide +kernel, by decide +kernel⟩, rfl, rfl, by decide,
      by norm_num [smallRefs], .inr ⟨rfl, rfl⟩, by decide⟩
  case present =>
    intro nr referenced
    unfold smallRefs at referenced
    by_cases isOne : nr = 1
    · exact ⟨0, isOne ▸ root⟩
    · rw [if_neg isOne] at referenced
      exact absurd referenced (Nat.lt_irrefl 0)
  case blank =>
    intro ino isFree
    have notFirst : ino ≠ 0 := by
      rintro rfl
      exact absurd (mem_freeSlots.mp isFree).2 (by decide)
    simp [small, notFirst]

theorem small_session : small.Session 1 0 keeper smallMembers smallRefs := by
  have root : ∃ nr, small.Handle 0 0 nr ∧ smallMembers nr ∧
      small.disk.isDirectory 1 nr = true :=
    ⟨1, ⟨List.mem_singleton.mpr rfl, rfl⟩, .inl rfl, by decide +kernel⟩
  refine ⟨small_tree, small_loaded, ?_, root, root⟩
  intro nr
  unfold smallRefs
  split <;> omega

/-- The root directory has an entry for the file, but `named` walks past the
separator that it looks for. -/
theorem resolves_fails :
    ¬∀ (fs : Fs) (dev sb : Nat) (task : Creds) (members : Nat → Prop)
        (refs : Nat → Nat) (path : Cursor),
      fs.Session dev sb task members refs → Unterminated path →
        path.length < 2 ^ 32 → fs.Resolves dev sb task path := by
  intro always
  have resolved := always small 1 0 keeper smallMembers smallRefs
    [47, 46, 47, 47, 102] small_session (by simp [Unterminated])
    (by norm_num)
  obtain ⟨result, after, returned, denotes⟩ := resolved
  have nothing : ∃ after, small.namei keeper (some [47, 46, 47, 47, 102]) =
      .ok (none, after) := ⟨_, rfl⟩
  obtain ⟨otherAfter, nowhere⟩ := nothing
  have names : small.disk.resolve 1 (small.startNr keeper [47, 46, 47, 47, 102])
      [47, 46, 47, 47, 102] = some 2 := by decide +kernel
  rw [nowhere] at returned
  cases returned
  rw [names] at denotes
  obtain ⟨ino, impossible, _⟩ := denotes
  cases impossible

/-- A path with one separator between two components, and with one more. -/
theorem resolves_iff_tidy_file :
    (small.Resolves 1 0 keeper [47, 46, 47, 102] ↔ ([47, 46, 47, 102] : Cursor) ≠ [] ∧
      (Tidy [47, 46, 47, 102] ∨ small.disk.resolve 1
        (small.startNr keeper [47, 46, 47, 102]) [47, 46, 47, 102] = none)) ∧
    (small.SameInode 1 0 keeper [47, 46, 47, 102] [47, 46, 47, 47, 102] ↔
      (Tidy [47, 46, 47, 102] ↔ Tidy [47, 46, 47, 47, 102]) ∨
        small.disk.resolve 1 (small.startNr keeper [47, 46, 47, 102])
          [47, 46, 47, 102] = none) := by
  obtain ⟨resolves, same⟩ := @resolves_iff_tidy 1 0 keeper smallMembers
    smallRefs small [47, 46, 47, 102] small_session (by simp [Unterminated])
    (by norm_num)
  exact ⟨resolves, same _
    ⟨[47, 46], 47, 47, [102], by decide, by decide, rfl, .inl rfl⟩
    (by simp [Unterminated]) (by norm_num)⟩

end Fs

end LightOS
