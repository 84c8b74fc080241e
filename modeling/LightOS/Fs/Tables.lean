import LightOS.Fs.Inodes
import LightOS.Fs.Descriptors

/-!
# Taking and releasing inodes

`iget` and `iput` change the tables only.  Taking an inode adds a reference to
one that lies on the list of its super block, or loads the inode into a free
entry of the table; releasing it undoes exactly that.
-/

namespace LightOS
namespace Fs

/-- Only the tables have changed, and every super block has kept its fields but
for its list of inodes. -/
structure TablesOnly (before after : Fs) : Prop where
  disk : after.disk = before.disk
  time : after.time = before.time
  superTable : ∀ sb, ∃ inodeList, after.superTable sb =
    { before.superTable sb with inodeList := inodeList }

namespace TablesOnly

variable {before middle after : Fs}

theorem refl (fs : Fs) : TablesOnly fs fs :=
  ⟨rfl, rfl, fun _ => ⟨_, rfl⟩⟩

theorem trans (first : TablesOnly before middle)
    (second : TablesOnly middle after) : TablesOnly before after where
  disk := second.disk.trans first.disk
  time := second.time.trans first.time
  superTable := by
    intro sb
    obtain ⟨firstList, isFirst⟩ := first.superTable sb
    obtain ⟨secondList, isSecond⟩ := second.superTable sb
    exact ⟨secondList, by rw [isSecond, isFirst]⟩

theorem setInode (fs : Fs) (ino : Nat) (inode : Inode) :
    TablesOnly fs (fs.setInode ino inode) :=
  ⟨rfl, rfl, fun _ => ⟨_, rfl⟩⟩

theorem dev (only : TablesOnly before after) (sb : Nat) :
    (after.superTable sb).dev = (before.superTable sb).dev := by
  obtain ⟨inodeList, same⟩ := only.superTable sb
  rw [same]

theorem block (only : TablesOnly before after) :
    after.block = before.block := by
  funext dev number
  unfold Fs.block
  rw [only.disk]

theorem superDesc (only : TablesOnly before after) (dev : Nat) :
    after.superDesc dev = before.superDesc dev := by
  unfold Fs.superDesc
  rw [only.block]

end TablesOnly

section Release

variable {fs after : Fs} {ino : Nat}

theorem putFreeInode_cases (freed : fs.putFreeInode ino = .ok after) :
    ino ≠ rootInode ∧ (fs.inodeTable ino).count = 0 ∧
      after = fs.setInode ino { fs.inodeTable ino with dev := eof } := by
  unfold putFreeInode at freed
  simp only [bind_eq_ok, check_eq_ok] at freed
  obtain ⟨_, notRoot, _, unused, same⟩ := freed
  cases same
  exact ⟨notRoot, unused, rfl⟩

theorem unlistInode_tablesOnly (removed : fs.unlistInode ino = .ok after) :
    TablesOnly fs after ∧ after.inodeTable = fs.inodeTable ∧
      ∀ sb, (after.superTable sb).inodeList =
        (fs.superTable sb).inodeList.erase ino := by
  unfold unlistInode at removed
  simp only [bind_eq_ok, check_eq_ok] at removed
  obtain ⟨_, _, same⟩ := removed
  cases same
  exact ⟨⟨rfl, rfl, fun _ => ⟨_, rfl⟩⟩, rfl, fun _ => rfl⟩

/-- `iput` changes the tables only, and there the entry of the inode and the list
that it lies on. -/
theorem iput_tablesOnly (released : fs.iput ino = .ok after) :
    TablesOnly fs after ∧
      (∀ other, other ≠ ino → after.inodeTable other = fs.inodeTable other) ∧
      ∀ sb, (after.superTable sb).inodeList.Sublist
        (fs.superTable sb).inodeList := by
  unfold iput at released
  split at released
  · unfold putPipeInode at released
    dsimp only at released
    split at released
    · cases released
      refine ⟨.setInode _ _ _, fun other different => ?_, fun _ => .refl _⟩
      exact Function.update_of_ne different _ _
    · obtain ⟨_, _, rfl⟩ := putFreeInode_cases released
      refine ⟨((TablesOnly.setInode _ _ _).trans (.setInode _ _ _)).trans
        (.setInode _ _ _), fun other different => ?_, fun _ => .refl _⟩
      simp [setCount, different]
  · dsimp only at released
    split at released
    · cases released
      refine ⟨.setInode _ _ _, fun other different => ?_, fun _ => .refl _⟩
      exact Function.update_of_ne different _ _
    · rw [bind_eq_ok] at released
      obtain ⟨unlisted, removed, freed⟩ := released
      obtain ⟨only, sameInodes, lists⟩ := unlistInode_tablesOnly removed
      obtain ⟨_, _, rfl⟩ := putFreeInode_cases freed
      refine ⟨(TablesOnly.setInode _ _ _).trans
        (only.trans (.setInode _ _ _)), fun other different => ?_, fun sb => ?_⟩
      · simp [sameInodes, setCount, different]
      · rw [setInode_superTable, lists]
        exact List.erase_sublist

theorem iputOption_tablesOnly {pointer : Option Nat}
    (released : fs.iputOption pointer = .ok after) :
    TablesOnly fs after ∧ ∀ sb, (after.superTable sb).inodeList.Sublist
      (fs.superTable sb).inodeList := by
  cases pointer with
  | none =>
      cases released
      exact ⟨.refl _, fun _ => .refl _⟩
  | some ino =>
      obtain ⟨only, _, lists⟩ := iput_tablesOnly released
      exact ⟨only, lists⟩

end Release

section Take

variable {fs after : Fs} {ino sb dev nr : Nat}

theorem getFreeInode_cases (found : fs.getFreeInode = .ok ino) :
    (fs.inodeTable ino).dev = eof ∧ ino < inodeNr := by
  unfold getFreeInode at found
  split at found
  · rename_i other isFree
    cases found
    have free := List.find?_some isFree
    have inTable := List.mem_of_find?_eq_some isFree
    exact ⟨by simpa using free, List.mem_range.mp inTable⟩
  · cases found

/-- The entry of the table for an inode that is loaded. -/
def loadedInode (fs : Fs) (dev nr ino : Nat) : Inode :=
  { fs.inodeTable ino with
    dev := dev
    nr := nr
    count := if ino = rootInode then 4 else 1
    block := inodeBlock (fs.superDesc dev) nr
    slot := sub32 nr 1 % blockInodes }

/-- The file systems with an inode loaded. -/
def withLoaded (fs : Fs) (sb dev nr ino : Nat) : Fs :=
  (fs.setInode ino (fs.loadedInode dev nr ino)).setSuper sb
    { fs.superTable sb with inodeList := ino :: (fs.superTable sb).inodeList }

/-- What the part of `iget` for an inode that is not in memory does. -/
theorem loadInode_cases (loaded : fs.loadInode sb dev nr = .ok (ino, after)) :
    nr ≤ (fs.superDesc dev).inodes ∧ (fs.inodeTable ino).dev = eof ∧
      ino < inodeNr ∧ ino ∉ (fs.superTable sb).inodeList ∧
      after = fs.withLoaded sb dev nr ino := by
  unfold loadInode at loaded
  simp only [bind_eq_ok, check_eq_ok] at loaded
  obtain ⟨_, inRange, other, found, loaded⟩ := loaded
  obtain ⟨isFree, inTable⟩ := getFreeInode_cases found
  unfold withLoaded loadedInode
  split at loaded
  · rename_i isRoot
    simp only [bind_eq_ok, check_eq_ok] at loaded
    obtain ⟨_, _, _, notListed, same⟩ := loaded
    cases same
    exact ⟨inRange, isFree, inTable, notListed, by rw [if_pos isRoot]⟩
  · rename_i notRoot
    simp only [bind_eq_ok, check_eq_ok] at loaded
    obtain ⟨_, notListed, same⟩ := loaded
    cases same
    exact ⟨inRange, isFree, inTable, notListed, by rw [if_neg notRoot]⟩

theorem withLoaded_tablesOnly (fs : Fs) (sb dev nr ino : Nat) :
    TablesOnly fs (fs.withLoaded sb dev nr ino) where
  disk := rfl
  time := rfl
  superTable := by
    intro other
    by_cases same : other = sb
    · subst same
      exact ⟨ino :: (fs.superTable other).inodeList, by simp [withLoaded]⟩
    · exact ⟨(fs.superTable other).inodeList, by simp [withLoaded, same]⟩

end Take

end Fs
end LightOS
