import LightOS.Fs.References

/-!
# References along a walk

`named` holds one inode at a time and exchanges it for the next one.  When it comes
to an inode that it may not search it returns nothing, and keeps the reference.
-/

namespace LightOS
namespace Fs

/-- A round of the loop of `named` enters the inode of a component. -/
def Enters (fs : Fs) (inode : Nat) (left : Cursor) (next : Nat) (behind : Cursor)
    (after : Fs) : Prop :=
  ∃ found dir searched released,
    fs.findEntry inode left = .ok (some found, dir, searched) ∧
      searched.iput dir = .ok released ∧
      released.iget (searched.inodeTable dir).dev (released.entry found.entry).nr =
        .ok (next, after) ∧
      behind = found.next

/-- The inode is not a directory, or not one that the task may search. -/
def Refuses (fs : Fs) (task : Creds) (inode : Nat) : Prop :=
  ¬isDir (fs.desc inode).mode ∨ fs.permission task inode pExec = false

/-- The loop of `named` comes to an inode that it may not search. -/
inductive Stops (task : Creds) (right : Cursor) : Fs → Nat → Cursor → Prop
  | here {fs after : Fs} {inode next : Nat} {left behind : Cursor} :
      Enters fs inode left next behind after → after.Refuses task next →
        Stops task right fs inode left
  | later {fs after : Fs} {inode next : Nat} {left behind : Cursor} :
      Enters fs inode left next behind after → ¬after.Refuses task next →
        right ≠ behind → Stops task right after next behind →
          Stops task right fs inode left

/-- The walk of `named` comes to an inode that it may not search. -/
def Refused (fs : Fs) (task : Creds) (pathname : Option Cursor) : Prop :=
  ∃ path right, pathname = some path ∧ path ≠ [] ∧
    strrsep (skipSeparators path) = some right ∧
    Stops task right.tail
      (fs.setCount (startOf task path)
        (add32 (fs.inodeTable (startOf task path)).count 1))
      (startOf task path) (skipSeparators path)

theorem Enters.unique {fs after otherAfter : Fs} {inode next otherNext : Nat}
    {left behind otherBehind : Cursor} (enters : Enters fs inode left next behind after)
    (other : Enters fs inode left otherNext otherBehind otherAfter) :
    next = otherNext ∧ behind = otherBehind ∧ after = otherAfter := by
  obtain ⟨found, dir, searched, released, search, release, take, rfl⟩ := enters
  obtain ⟨_, _, _, _, otherSearch, otherRelease, otherTake, rfl⟩ := other
  cases search.symm.trans otherSearch
  cases release.symm.trans otherRelease
  cases take.symm.trans otherTake
  exact ⟨rfl, rfl, rfl⟩

/-- What a function that returns an inode does to the counts: it hands a reference
to the inode out, or it has lost one. -/
inductive Handed (start : Fs) (base : Nat → Nat) (held : Multiset Nat) (lost : Prop) :
    Option Nat → Fs → Prop
  | handed {ino : Nat} {after : Fs} :
      Referenced start after base (ino ::ₘ held) → ¬lost →
        Handed start base held lost (some ino) after
  | nothing {after : Fs} :
      Referenced start after base held → ¬lost → Handed start base held lost none after
  | lost {leaked : Nat} {after : Fs} :
      Referenced start after base (leaked ::ₘ held) → lost →
        Handed start base held lost none after

theorem Handed.congr {start after : Fs} {base : Nat → Nat} {held : Multiset Nat}
    {lost other : Prop} {result : Option Nat}
    (handed : Handed start base held lost result after) (same : lost ↔ other) :
    Handed start base held other result after :=
  propext same ▸ handed

namespace Referenced

variable {start fs after : Fs} {base : Nat → Nat} {held : Multiset Nat}
  {inode dir found : Nat} {task : Creds} {name left right : Cursor}

/-- `find_entry` holds the directory that it returns, and does not leave it for
another one when it is called again. -/
theorem findEntry (referenced : Referenced start fs base (dir ::ₘ held))
    (few : held.card ≤ 2) {entry : Option Found}
    (searched : fs.findEntry dir name = .ok (entry, found, after)) :
    Referenced start after base (found ::ₘ held) ∧
      after.leaveMount found name = .ok (found, after) := by
  unfold Fs.findEntry at searched
  simp only [bind_eq_ok] at searched
  obtain ⟨_, _, ⟨other, middle⟩, left, _, _, same⟩ := searched
  cases same
  exact ⟨referenced.leaveMount few left, referenced.leaveMount_settled few left⟩

/-- The loop of `named`. -/
theorem descend (referenced : Referenced start fs base (inode ::ₘ held))
    (few : held.card ≤ 2) {rounds : Nat} {result : Option (Nat × Cursor)}
    (walked : Fs.descend task right rounds fs inode left = .ok (result, after)) :
    Handed start base held (Stops task right fs inode left) (result.map Prod.fst)
      after := by
  induction rounds generalizing fs inode left with
  | zero => cases walked
  | succ rounds inductionHypothesis =>
      rw [Fs.descend, bind_eq_ok] at walked
      obtain ⟨⟨entry, dir, searched⟩, search, walked⟩ := walked
      have holds := (referenced.findEntry few search).1
      cases entry with
      | none =>
          dsimp only at walked
          rw [bind_eq_ok] at walked
          obtain ⟨released, release, same⟩ := walked
          cases same
          refine .nothing (holds.iput release) fun stops => ?_
          cases stops with
          | here enters _ =>
              obtain ⟨_, _, _, _, other, _⟩ := enters
              cases search.symm.trans other
          | later enters _ _ _ =>
              obtain ⟨_, _, _, _, other, _⟩ := enters
              cases search.symm.trans other
      | some entry =>
          dsimp only at walked
          simp only [bind_eq_ok] at walked
          obtain ⟨released, release, ⟨next, entered⟩, take, walked⟩ := walked
          have home := holds.home (Multiset.mem_cons_self dir held)
          have arrives := (holds.iput release).iget few home take
          have enters : Enters fs inode left next entry.next entered :=
            ⟨entry, dir, searched, released, search, release, take, rfl⟩
          split at walked
          · rename_i refuses
            cases walked
            exact .lost arrives (.here enters refuses)
          · rename_i accepts
            split at walked
            · rename_i last
              cases walked
              refine .handed arrives fun stops => ?_
              cases stops with
              | here other refuses =>
                  obtain ⟨rfl, _, rfl⟩ := enters.unique other
                  exact accepts refuses
              | later other _ notLast _ =>
                  obtain ⟨_, rfl, _⟩ := enters.unique other
                  exact notLast last
            · rename_i notLast
              apply (inductionHypothesis arrives walked).congr
              constructor
              · exact .later enters accepts notLast
              · intro stops
                cases stops with
                | here other refuses =>
                    obtain ⟨rfl, _, rfl⟩ := enters.unique other
                    exact absurd refuses accepts
                | later other _ _ stops =>
                    obtain ⟨rfl, rfl, rfl⟩ := enters.unique other
                    exact stops

/-- `named` hands out the directory that it returns, unless its walk is refused. -/
theorem named (referenced : Referenced start fs base held) (few : held.card ≤ 2)
    (iroot : Lasting start base task.iroot) (ipwd : Lasting start base task.ipwd)
    {pathname : Option Cursor} {result : Option (Nat × Cursor)}
    (walked : fs.named task pathname = .ok (result, after)) :
    Handed start base held (fs.Refused task pathname) (result.map Prod.fst) after := by
  cases pathname with
  | none =>
      cases walked
      apply Handed.nothing referenced
      rintro ⟨_, _, impossible, _⟩
      cases impossible
  | some path =>
      by_cases empty : path = []
      · rw [empty] at walked
        cases walked
        apply Handed.nothing referenced
        rintro ⟨_, _, same, notEmpty, _⟩
        cases same
        exact notEmpty empty
      · have lasts : Lasting start base (startOf task path) := by
          unfold startOf
          split
          · exact iroot
          · exact ipwd
        have begins := referenced.take (by omega) (referenced.lasting lasts)
        rw [named_eq task fs empty] at walked
        dsimp only at walked
        cases last : strrsep (skipSeparators path) with
        | none =>
            rw [last] at walked
            cases walked
            apply Handed.handed begins
            rintro ⟨_, _, same, _, otherLast, _⟩
            cases same
            rw [last] at otherLast
            cases otherLast
        | some right =>
            rw [last] at walked
            apply (begins.descend few walked).congr
            constructor
            · exact fun stops => ⟨path, right, rfl, empty, last, stops⟩
            · rintro ⟨_, _, same, _, otherLast, stops⟩
              cases same
              cases last.symm.trans otherLast
              exact stops

/-- `namei` hands out the inode that it returns, unless its walk is refused. -/
theorem namei (referenced : Referenced start fs base held) (few : held.card ≤ 1)
    (iroot : Lasting start base task.iroot) (ipwd : Lasting start base task.ipwd)
    {pathname : Option Cursor} {result : Option Nat}
    (resolved : fs.namei task pathname = .ok (result, after)) :
    Handed start base held (fs.Refused task pathname) result after := by
  unfold Fs.namei at resolved
  rw [bind_eq_ok] at resolved
  obtain ⟨⟨parent, walkedFs⟩, walked, resolved⟩ := resolved
  have walks := referenced.named (by omega) iroot ipwd walked
  match parent, resolved, walks with
  | none, resolved, walks =>
      cases resolved
      exact walks
  | some (dir, []), resolved, walks =>
      cases resolved
      exact walks
  | some (dir, next :: rest), resolved, walks =>
      cases walks with
      | handed holds notRefused =>
          dsimp only at resolved
          rw [bind_eq_ok] at resolved
          obtain ⟨⟨entry, foundDir, searched⟩, search, resolved⟩ := resolved
          have directory := (holds.findEntry (by omega) search).1
          cases entry with
          | none =>
              dsimp only at resolved
              rw [bind_eq_ok] at resolved
              obtain ⟨released, release, same⟩ := resolved
              cases same
              exact .nothing (directory.iput release) notRefused
          | some entry =>
              dsimp only at resolved
              simp only [bind_eq_ok] at resolved
              obtain ⟨⟨ino, taken⟩, take, released, release, same⟩ := resolved
              cases same
              have home := directory.home (Multiset.mem_cons_self foundDir held)
              have both := directory.iget (by rw [Multiset.card_cons]; omega) home take
              rw [Multiset.cons_swap] at both
              exact .handed (both.iput release) notRefused

end Referenced

end Fs
end LightOS
