import LightOS.Fs.Names
import LightOS.Fs.Tables
import Mathlib.Logic.Relation

/-!
# Moves of the inode table

A walk along a path takes, releases and loads inodes.  Each of these moves changes the
tables only, so whatever every move preserves holds after the walk as well.
-/

namespace LightOS
namespace Fs

/-- A reference is taken or given back, or an inode is loaded. -/
inductive Move : Fs → Fs → Prop
  | take (fs : Fs) (ino : Nat) :
      Move fs (fs.setCount ino (add32 (fs.inodeTable ino).count 1))
  | put {fs after : Fs} {ino : Nat} : fs.iput ino = .ok after → Move fs after
  | load {fs after : Fs} {sb dev nr ino : Nat} : fs.getSuper dev = some sb →
      fs.loadInode sb dev nr = .ok (ino, after) → Move fs after

/-- Any number of moves. -/
abbrev Moves : Fs → Fs → Prop :=
  Relation.ReflTransGen Move

namespace Moves

variable {fs before after : Fs} {ino found dev nr dir : Nat}

theorem take (fs : Fs) (ino : Nat) :
    Moves fs (fs.setCount ino (add32 (fs.inodeTable ino).count 1)) :=
  .single (.take fs ino)

theorem put (released : fs.iput ino = .ok after) : Moves fs after :=
  .single (.put released)

theorem putOption {pointer : Option Nat}
    (released : fs.iputOption pointer = .ok after) : Moves fs after := by
  cases pointer with
  | none =>
      cases released
      exact .refl
  | some ino => exact put released

/-! ## Walks -/

theorem fitInode (fitted : fs.fitInode ino = .ok (found, after)) : Moves fs after := by
  unfold Fs.fitInode at fitted
  split at fitted
  · cases fitted
    exact .refl
  · split at fitted
    · cases fitted
    · rw [bind_eq_ok] at fitted
      obtain ⟨dropped, released, fitted⟩ := fitted
      split at fitted
      · cases fitted
      · cases fitted
        exact (put released).trans (take _ _)

theorem iget (taken : fs.iget dev nr = .ok (found, after)) : Moves fs after := by
  unfold Fs.iget at taken
  rw [bind_eq_ok] at taken
  obtain ⟨loaded, _, taken⟩ := taken
  cases loaded with
  | some ino => exact (take fs ino).trans (fitInode taken)
  | none =>
      dsimp only at taken
      split at taken
      · cases taken
      · rename_i sb isSuper
        exact .single (.load isSuper taken)

theorem leaveMount {name : Cursor} (left : fs.leaveMount dir name = .ok (found, after)) :
    Moves fs after := by
  unfold Fs.leaveMount at left
  dsimp only at left
  split at left
  · split at left
    · cases left
    · split at left
      · cases left
      · simp only [bind_eq_ok] at left
        obtain ⟨dropped, released, same⟩ := left
        cases same
        exact (take _ _).trans (put released)
  · cases left
    exact .refl

theorem findEntry {name : Cursor} {entry : Option Found}
    (searched : fs.findEntry dir name = .ok (entry, found, after)) : Moves fs after := by
  unfold Fs.findEntry at searched
  simp only [bind_eq_ok] at searched
  obtain ⟨_, _, ⟨left, moved⟩, leaving, _, _, same⟩ := searched
  cases same
  exact leaveMount leaving

theorem descend {task : Creds} {right left : Cursor} {rounds : Nat}
    {result : Option (Nat × Cursor)}
    (walked : Fs.descend task right rounds fs ino left = .ok (result, after)) :
    Moves fs after := by
  induction rounds generalizing fs ino left with
  | zero => cases walked
  | succ rounds inductionHypothesis =>
      rw [Fs.descend, bind_eq_ok] at walked
      obtain ⟨⟨entry, dir, searched⟩, search, walked⟩ := walked
      apply (findEntry search).trans
      cases entry with
      | none =>
          simp only [bind_eq_ok] at walked
          obtain ⟨dropped, released, same⟩ := walked
          cases same
          exact put released
      | some entry =>
          simp only [bind_eq_ok] at walked
          obtain ⟨dropped, released, ⟨next, taken⟩, take, walked⟩ := walked
          apply (put released).trans
          apply (iget take).trans
          split at walked
          · cases walked
            exact .refl
          · split at walked
            · cases walked
              exact .refl
            · exact inductionHypothesis walked

theorem named {task : Creds} {pathname : Option Cursor} {result : Option (Nat × Cursor)}
    (walked : fs.named task pathname = .ok (result, after)) : Moves fs after := by
  match pathname with
  | none =>
      cases walked
      exact .refl
  | some [] =>
      cases walked
      exact .refl
  | some (first :: rest) =>
      rw [named_eq task fs (List.cons_ne_nil _ _)] at walked
      apply (take fs (startOf task (first :: rest))).trans
      dsimp only at walked
      split at walked
      · cases walked
        exact .refl
      · exact descend walked

theorem namei {task : Creds} {pathname : Option Cursor} {result : Option Nat}
    (walked : fs.namei task pathname = .ok (result, after)) : Moves fs after := by
  unfold Fs.namei at walked
  rw [bind_eq_ok] at walked
  obtain ⟨⟨parent, named⟩, walk, walked⟩ := walked
  apply (Moves.named walk).trans
  match parent with
  | none =>
      cases walked
      exact .refl
  | some (dir, []) =>
      cases walked
      exact .refl
  | some (dir, next :: rest) =>
      simp only [bind_eq_ok] at walked
      obtain ⟨⟨entry, parent, searched⟩, search, walked⟩ := walked
      apply (findEntry search).trans
      cases entry with
      | none =>
          simp only [bind_eq_ok] at walked
          obtain ⟨dropped, released, same⟩ := walked
          cases same
          exact put released
      | some entry =>
          simp only [bind_eq_ok] at walked
          obtain ⟨⟨target, taken⟩, take, dropped, released, same⟩ := walked
          cases same
          exact (iget take).trans (put released)

/-! ## What moves preserve -/

theorem tablesOnly (moves : Moves before after) : TablesOnly before after := by
  induction moves with
  | refl => exact .refl _
  | tail _ move inductionHypothesis =>
      apply inductionHypothesis.trans
      cases move with
      | take => exact .setInode _ _ _
      | put released => exact (iput_tablesOnly released).1
      | load isSuper loaded =>
          obtain ⟨_, _, _, _, rfl⟩ := loadInode_cases loaded
          exact withLoaded_tablesOnly _ _ _ _ _

end Moves

end Fs
end LightOS
