import LightOS.Fs.Directory
import Mathlib.Data.Finset.Card

/-!
# Inodes in use

The inodes of a device that are in use lie on the list of its super block, one for
each inode number, with the number of references to it as their count.  `iget`
takes a reference and `iput` gives one back; an entry of `inode_table` is taken up
by the first reference to an inode and given back with the last one.
-/

namespace LightOS
namespace Fs

/-- Entries of `inode_table` that no inode takes up. -/
def freeSlots (fs : Fs) : Finset Nat :=
  (Finset.range inodeNr).filter fun ino => (fs.inodeTable ino).dev = eof

theorem mem_freeSlots {fs : Fs} {ino : Nat} :
    ino ∈ fs.freeSlots ↔ ino < inodeNr ∧ (fs.inodeTable ino).dev = eof := by
  unfold freeSlots
  rw [Finset.mem_filter, Finset.mem_range]

/-- A pointer to an inode of a super block that is in use. -/
def Handle (fs : Fs) (sb ino nr : Nat) : Prop :=
  ino ∈ (fs.superTable sb).inodeList ∧ (fs.inodeTable ino).nr = nr

/-- An entry of `inode_table` in use for an inode with a number of references.
Only the root inode stands for a mounted device, its own. -/
structure InUse (fs : Fs) (dev ino nr refs : Nat) : Prop where
  holds : fs.Holds ino dev nr
  pipe : (fs.inodeTable ino).pipe = false
  count : (fs.inodeTable ino).count = refs
  positive : 0 < refs
  bounded : refs < 2 ^ 32
  mount : (fs.inodeTable ino).mount = 0 ∨
    ino = rootInode ∧ (fs.inodeTable ino).mount = dev
  inTable : ino < inodeNr

/-- The inodes of a device without mounts: `refs` counts the references to each
number, and at least `free` entries of the table are free. -/
structure Loaded (fs : Fs) (dev sb : Nat) (refs : Nat → Nat) (free : Nat) :
    Prop where
  super : fs.getSuper dev = some sb
  device : dev ≠ eof
  inUse : ∀ ino nr, fs.Handle sb ino nr → fs.InUse dev ino nr (refs nr)
  present : ∀ nr, 0 < refs nr → ∃ ino, fs.Handle sb ino nr
  unique : ∀ ino other nr, fs.Handle sb ino nr → fs.Handle sb other nr → ino = other
  nodup : (fs.superTable sb).inodeList.Nodup
  root : fs.Handle sb rootInode 1
  iroot : (fs.superTable sb).iroot = some rootInode
  blank : ∀ ino ∈ fs.freeSlots,
    (fs.inodeTable ino).pipe = false ∧ (fs.inodeTable ino).mount = 0
  room : free ≤ fs.freeSlots.card

/-- An entry of the table that loses its last reference. -/
def vacate (fs : Fs) (ino : Nat) : Fs :=
  { fs.setInode ino { fs.inodeTable ino with count := 0, dev := eof } with
    superTable := fun sb => { fs.superTable sb with
      inodeList := (fs.superTable sb).inodeList.erase ino } }

/-! ## Equations for the tables -/

theorem setCount_setCount (fs : Fs) (ino first second : Nat) :
    (fs.setCount ino first).setCount ino second = fs.setCount ino second := by
  simp [setCount, setInode]

@[simp] theorem setCount_superTable (fs : Fs) (ino count : Nat) :
    (fs.setCount ino count).superTable = fs.superTable := rfl

theorem setCount_inodeTable (fs : Fs) (ino count other : Nat) :
    (fs.setCount ino count).inodeTable other =
      { fs.inodeTable other with
        count := if other = ino then count else (fs.inodeTable other).count } := by
  by_cases same : other = ino
  · subst same
    simp [setCount]
  · simp [setCount, same]

theorem setCount_count (fs : Fs) (ino count : Nat) :
    ((fs.setCount ino count).inodeTable ino).count = count := by
  rw [setCount_inodeTable, if_pos rfl]

namespace Loaded

variable {fs : Fs} {dev sb ino nr free : Nat} {refs : Nat → Nat}

theorem count_eq (loaded : fs.Loaded dev sb refs free) (handle : fs.Handle sb ino nr) :
    (fs.inodeTable ino).count = refs nr :=
  (loaded.inUse ino nr handle).count

/-- A pointer with another number of references to its inode. -/
theorem recount (loaded : fs.Loaded dev sb refs free) (handle : fs.Handle sb ino nr)
    {count : Nat} (positive : 0 < count) (bounded : count < 2 ^ 32) :
    (fs.setCount ino count).Loaded dev sb (Function.update refs nr count) free := by
  have sameHandle (other number : Nat) :
      (fs.setCount ino count).Handle sb other number ↔
        fs.Handle sb other number := by
    unfold Handle
    rw [setCount_inodeTable, setCount_superTable]
  have sameSlots : (fs.setCount ino count).freeSlots = fs.freeSlots := by
    ext other
    simp only [mem_freeSlots, setCount_inodeTable]
  refine
    { super := loaded.super
      device := loaded.device
      nodup := loaded.nodup
      iroot := loaded.iroot
      root := (sameHandle _ _).mpr loaded.root
      unique := fun one other number first second => loaded.unique one other number
        ((sameHandle _ _).mp first) ((sameHandle _ _).mp second)
      present := ?present
      inUse := ?inUse
      blank := ?blank
      room := by rw [sameSlots]; exact loaded.room }
  case present =>
    intro number referenced
    by_cases same : number = nr
    · exact ⟨ino, (sameHandle _ _).mpr (same ▸ handle)⟩
    · rw [Function.update_of_ne same] at referenced
      obtain ⟨other, otherHandle⟩ := loaded.present number referenced
      exact ⟨other, (sameHandle _ _).mpr otherHandle⟩
  case inUse =>
    intro other number otherHandle
    have used := loaded.inUse other number ((sameHandle _ _).mp otherHandle)
    have fields := setCount_inodeTable fs ino count other
    have holds : (fs.setCount ino count).Holds other dev number :=
      { dev := by rw [fields]; exact used.holds.dev
        nr := by rw [fields]; exact used.holds.nr
        block := by rw [fields]; exact used.holds.block
        slot := by rw [fields]; exact used.holds.slot }
    by_cases same : number = nr
    · have equal := loaded.unique other ino number
        ((sameHandle _ _).mp otherHandle) (same ▸ handle)
      rw [same, Function.update_self]
      exact
        { holds := same ▸ holds
          pipe := by rw [fields]; exact used.pipe
          count := by rw [equal]; exact setCount_count fs ino count
          positive := positive
          bounded := bounded
          mount := by rw [fields]; exact used.mount
          inTable := used.inTable }
    · have apart : other ≠ ino := by
        intro equal
        have := ((sameHandle _ _).mp otherHandle).2
        rw [equal, handle.2] at this
        exact same this.symm
      rw [Function.update_of_ne same]
      exact
        { holds := holds
          pipe := by rw [fields]; exact used.pipe
          count := by rw [fields, if_neg apart]; exact used.count
          positive := used.positive
          bounded := used.bounded
          mount := by rw [fields]; exact used.mount
          inTable := used.inTable }
  case blank =>
    intro other isFree
    rw [sameSlots] at isFree
    rw [setCount_inodeTable]
    exact loaded.blank other isFree

/-! ## Giving a reference back -/

/-- `iput` of a reference that is not the last one counts it down. -/
theorem iput_eq (loaded : fs.Loaded dev sb refs free) (handle : fs.Handle sb ino nr)
    (more : 1 < refs nr) : fs.iput ino = .ok (fs.setCount ino (refs nr - 1)) := by
  have used := loaded.inUse ino nr handle
  have left : refs nr - 1 ≠ 0 := by omega
  unfold iput
  rw [used.pipe, used.count, sub32_eq (by omega)]
  simp [setCount_count, left]

/-- `iput` of the last reference vacates the entry. -/
theorem iput_last (loaded : fs.Loaded dev sb refs free) (handle : fs.Handle sb ino nr)
    (last : refs nr = 1) (notRoot : ino ≠ rootInode) :
    fs.iput ino = .ok (fs.vacate ino) := by
  have used := loaded.inUse ino nr handle
  have onList : ∃ sb ∈ List.range superNr,
      ino ∈ ((fs.setCount ino 0).superTable sb).inodeList :=
    ⟨sb, List.mem_range.mpr (dev_of_getSuper loaded.super).2, handle.1⟩
  unfold iput
  rw [used.pipe, used.count, last, sub32_eq (by omega)]
  simp only [Bool.false_eq_true, if_false, Nat.sub_self, setCount_count, ne_eq,
    not_true_eq_false, unlistInode, check_true onList, ok_bind, pure_eq_ok,
    putFreeInode]
  rw [check_true notRoot, ok_bind, check_true trivial, ok_bind]
  simp [vacate, setCount, setInode]

theorem vacate_handle (loaded : fs.Loaded dev sb refs free) (ino other number : Nat) :
    (fs.vacate ino).Handle sb other number ↔
      other ≠ ino ∧ fs.Handle sb other number := by
  unfold Handle vacate
  dsimp only [setInode_inodeTable]
  rw [loaded.nodup.mem_erase_iff]
  constructor
  · rintro ⟨⟨apart, onList⟩, same⟩
    rw [Function.update_of_ne apart] at same
    exact ⟨apart, onList, same⟩
  · rintro ⟨apart, onList, same⟩
    exact ⟨⟨apart, onList⟩, by rw [Function.update_of_ne apart]; exact same⟩

theorem vacate_freeSlots (used : ino < inodeNr) :
    (fs.vacate ino).freeSlots = insert ino fs.freeSlots := by
  ext other
  rw [mem_freeSlots, Finset.mem_insert, mem_freeSlots]
  by_cases same : other = ino
  · subst same
    simp [vacate, used]
  · simp [vacate, same]

theorem vacated (loaded : fs.Loaded dev sb refs free) (handle : fs.Handle sb ino nr)
    (notRoot : ino ≠ rootInode) :
    (fs.vacate ino).Loaded dev sb (Function.update refs nr 0) (free + 1) := by
  have used := loaded.inUse ino nr handle
  have sameHandle := loaded.vacate_handle ino
  have notFree : ino ∉ fs.freeSlots := by
    simp [mem_freeSlots, used.holds.dev, loaded.device]
  have fields (other : Nat) (apart : other ≠ ino) :
      (fs.vacate ino).inodeTable other = fs.inodeTable other := by
    simp [vacate, apart]
  refine
    { super := (congrFun (getSuper_congr fun _ => rfl) dev).trans loaded.super
      device := loaded.device
      nodup := loaded.nodup.erase ino
      iroot := loaded.iroot
      root := (sameHandle _ _).mpr ⟨notRoot.symm, loaded.root⟩
      unique := fun one other number first second => loaded.unique one other number
        ((sameHandle _ _).mp first).2 ((sameHandle _ _).mp second).2
      present := ?present
      inUse := ?inUse
      blank := ?blank
      room := ?room }
  case present =>
    intro number referenced
    by_cases same : number = nr
    · rw [same, Function.update_self] at referenced
      exact absurd referenced (Nat.lt_irrefl 0)
    · rw [Function.update_of_ne same] at referenced
      obtain ⟨other, otherHandle⟩ := loaded.present number referenced
      refine ⟨other, (sameHandle _ _).mpr ⟨fun equal => ?_, otherHandle⟩⟩
      rw [equal] at otherHandle
      exact same (otherHandle.2.symm.trans handle.2)
  case inUse =>
    intro other number otherHandle
    obtain ⟨apart, before⟩ := (sameHandle _ _).mp otherHandle
    have kept := loaded.inUse other number before
    have differs : number ≠ nr := fun same =>
      apart (loaded.unique other ino nr (same ▸ before) handle)
    rw [Function.update_of_ne differs]
    exact
      { holds :=
          { dev := by rw [fields other apart]; exact kept.holds.dev
            nr := by rw [fields other apart]; exact kept.holds.nr
            block := by rw [fields other apart]; exact kept.holds.block
            slot := by rw [fields other apart]; exact kept.holds.slot }
        pipe := by rw [fields other apart]; exact kept.pipe
        count := by rw [fields other apart]; exact kept.count
        positive := kept.positive
        bounded := kept.bounded
        mount := by rw [fields other apart]; exact kept.mount
        inTable := kept.inTable }
  case blank =>
    intro other isFree
    rw [vacate_freeSlots used.inTable, Finset.mem_insert] at isFree
    rcases isFree with same | before
    · subst same
      simp only [vacate, setInode_inodeTable, Function.update_self]
      refine ⟨used.pipe, ?_⟩
      rcases used.mount with none | ⟨isRoot, _⟩
      · exact none
      · exact absurd isRoot notRoot
    · have apart : other ≠ ino := fun same => notFree (same ▸ before)
      rw [fields other apart]
      exact loaded.blank other before
  case room =>
    rw [vacate_freeSlots used.inTable, Finset.card_insert_of_notMem notFree]
    exact Nat.succ_le_succ loaded.room

/-- The free entries that are left after a reference to a number is given back. -/
def freed (refs : Nat → Nat) (nr free : Nat) : Nat :=
  if refs nr = 1 then free + 1 else free

/-- `iput` gives one reference back; the pointers to inodes that are still
referenced stay. -/
theorem iput (loaded : fs.Loaded dev sb refs free) (handle : fs.Handle sb ino nr)
    (rootStays : nr = 1 → 1 < refs 1) :
    ∃ after, fs.iput ino = .ok after ∧ after.disk = fs.disk ∧
      after.Loaded dev sb (Function.update refs nr (refs nr - 1))
        (freed refs nr free) ∧
      ∀ other number, fs.Handle sb other number →
        0 < Function.update refs nr (refs nr - 1) number →
        after.Handle sb other number := by
  have used := loaded.inUse ino nr handle
  unfold freed
  by_cases last : refs nr = 1
  · have notRoot : ino ≠ rootInode := by
      intro isRoot
      have isOne : nr = 1 := by
        rw [isRoot] at handle
        exact handle.2.symm.trans loaded.root.2
      rw [isOne] at last
      have := rootStays isOne
      omega
    refine ⟨_, loaded.iput_last handle last notRoot, rfl, ?_, ?_⟩
    · rw [if_pos last, last]
      exact loaded.vacated handle notRoot
    · intro other number before referenced
      refine (loaded.vacate_handle ino other number).mpr ⟨fun same => ?_, before⟩
      have equal : number = nr := by
        rw [same] at before
        exact before.2.symm.trans handle.2
      rw [equal, Function.update_self, last] at referenced
      exact absurd referenced (Nat.lt_irrefl 0)
  · have positive := used.positive
    have bounded := used.bounded
    refine ⟨_, loaded.iput_eq handle (by omega), rfl, ?_, ?_⟩
    · rw [if_neg last]
      exact loaded.recount handle (by omega) (by omega)
    · intro other number before _
      unfold Handle at before ⊢
      rw [setCount_inodeTable]
      exact before

/-! ## Taking a reference -/

/-- One more reference to an inode in use. -/
theorem held (loaded : fs.Loaded dev sb refs free) (handle : fs.Handle sb ino nr)
    (bounded : refs nr + 1 < 2 ^ 32) :
    fs.setCount ino (add32 (fs.inodeTable ino).count 1) =
      fs.setCount ino (refs nr + 1) := by
  rw [loaded.count_eq handle, add32, Nat.mod_eq_of_lt bounded]

/-- `fit_inode` leaves a pointer with more than one reference as it is. -/
theorem fitInode_eq (loaded : fs.Loaded dev sb refs free)
    (handle : fs.Handle sb ino nr) (more : 1 < refs nr) :
    fs.fitInode ino = .ok (ino, fs) := by
  have used := loaded.inUse ino nr handle
  unfold fitInode
  rcases used.mount with none | ⟨isRoot, mounted⟩
  · rw [if_pos none]
    rfl
  · by_cases none : (fs.inodeTable ino).mount = 0
    · rw [if_pos none]
      rfl
    · have count : add32 (refs nr - 1) 1 = refs nr := by
        have := used.bounded
        rw [add32, Nat.sub_add_cancel (by omega), Nat.mod_eq_of_lt this]
      have unchanged : fs.setCount ino (refs nr) = fs := by
        rw [← used.count]
        simp [setCount, setInode]
      rw [if_neg none, mounted, loaded.super]
      simp only [loaded.iput_eq handle more, ok_bind, setCount_superTable,
        loaded.iroot]
      rw [← isRoot, setCount_count, setCount_setCount, count, unchanged]
      rfl

/-- `find_inode` finds the pointer to an inode. -/
theorem findInode_eq (loaded : fs.Loaded dev sb refs free)
    (handle : fs.Handle sb ino nr) : fs.findInode dev nr = .ok (some ino) := by
  unfold findInode
  rw [loaded.super]
  have hit : ∃ other, (fs.superTable sb).inodeList.find?
      (fun other => (fs.inodeTable other).nr = nr) = some other := by
    rw [← Option.isSome_iff_exists, List.find?_isSome]
    exact ⟨ino, handle.1, by simpa using handle.2⟩
  obtain ⟨other, found⟩ := hit
  have same := List.find?_some found
  have equal := loaded.unique other ino nr
    ⟨List.mem_of_find?_eq_some found, by simpa using same⟩ handle
  dsimp only
  rw [found, equal]

theorem findInode_none (loaded : fs.Loaded dev sb refs free)
    (unused : refs nr = 0) : fs.findInode dev nr = .ok none := by
  unfold findInode
  rw [loaded.super]
  dsimp only
  rw [List.find?_eq_none.mpr]
  intro other onList
  have used := loaded.inUse other _ ⟨onList, rfl⟩
  have positive := used.positive
  intro same
  have equal : (fs.inodeTable other).nr = nr := by simpa using same
  rw [equal, unused] at positive
  exact absurd positive (Nat.lt_irrefl 0)

/-- `get_free_inode` finds a free entry if there is one. -/
theorem getFreeInode_eq (loaded : fs.Loaded dev sb refs free) (some : 0 < free) :
    ∃ ino ∈ fs.freeSlots, fs.getFreeInode = .ok ino := by
  obtain ⟨slot, isFree⟩ := Finset.card_pos.mp (lt_of_lt_of_le some loaded.room)
  have hit : ∃ ino, (List.range inodeNr).find?
      (fun ino => (fs.inodeTable ino).dev = eof) = Option.some ino := by
    rw [← Option.isSome_iff_exists, List.find?_isSome]
    exact ⟨slot, List.mem_range.mpr (mem_freeSlots.mp isFree).1,
      by simpa using (mem_freeSlots.mp isFree).2⟩
  obtain ⟨ino, found⟩ := hit
  refine ⟨ino, mem_freeSlots.mpr ⟨?_, by simpa using List.find?_some found⟩, ?_⟩
  · exact List.mem_range.mp (List.mem_of_find?_eq_some found)
  · unfold getFreeInode
    rw [found]

end Loaded

/-- The entry that `iget` fills in for an inode that is not in memory. -/
def occupy (fs : Fs) (sb ino dev nr : Nat) : Fs :=
  (fs.setInode ino { fs.inodeTable ino with
    dev := dev
    nr := nr
    count := 1
    block := inodeBlock (fs.superDesc dev) nr
    slot := sub32 nr 1 % blockInodes }).setSuper sb { fs.superTable sb with
      inodeList := ino :: (fs.superTable sb).inodeList }

namespace Loaded

variable {fs : Fs} {dev sb ino nr free : Nat} {refs : Nat → Nat}

theorem loadInode_eq (loaded : fs.Loaded dev sb refs free)
    (inRange : nr ≤ (fs.superDesc dev).inodes) (isFree : ino ∈ fs.freeSlots)
    (found : fs.getFreeInode = .ok ino) :
    fs.loadInode sb dev nr = .ok (ino, fs.occupy sb ino dev nr) := by
  have notListed : ino ∉ (fs.superTable sb).inodeList := by
    intro onList
    have used := loaded.inUse ino _ ⟨onList, rfl⟩
    exact loaded.device (used.holds.dev.symm.trans (mem_freeSlots.mp isFree).2)
  have notRoot : ino ≠ rootInode := by
    intro isRoot
    exact notListed (isRoot ▸ loaded.root.1)
  unfold loadInode
  dsimp only
  rw [check_true inRange, ok_bind, found, ok_bind, if_neg notRoot]
  rw [check_true notListed]
  simp only [if_neg notRoot, pure_eq_ok, ok_bind]
  rfl

theorem occupy_handle (notFree : ∀ other number, fs.Handle sb other number →
      other ∉ fs.freeSlots) (isFree : ino ∈ fs.freeSlots) (dev nr other number : Nat) :
    (fs.occupy sb ino dev nr).Handle sb other number ↔
      other = ino ∧ nr = number ∨ fs.Handle sb other number := by
  unfold Handle occupy
  simp only [setSuper_superTable, setInode_superTable, Function.update_self,
    setSuper_inodeTable, setInode_inodeTable, List.mem_cons]
  by_cases same : other = ino
  · subst same
    have unlisted : other ∉ (fs.superTable sb).inodeList := fun onList =>
      notFree other _ ⟨onList, rfl⟩ isFree
    simp [unlisted]
  · simp [same]

theorem occupy_freeSlots (device : dev ≠ eof) :
    (fs.occupy sb ino dev nr).freeSlots = fs.freeSlots.erase ino := by
  ext other
  rw [mem_freeSlots, Finset.mem_erase, mem_freeSlots]
  by_cases same : other = ino
  · subst same
    simp [occupy, device]
  · simp [occupy, same]

theorem occupied (loaded : fs.Loaded dev sb refs free) (unused : refs nr = 0)
    (isFree : ino ∈ fs.freeSlots) :
    (fs.occupy sb ino dev nr).Loaded dev sb (Function.update refs nr 1)
      (free - 1) := by
  have notFree (other number : Nat) (handle : fs.Handle sb other number) :
      other ∉ fs.freeSlots := by
    intro isFree
    have used := loaded.inUse other number handle
    exact loaded.device (used.holds.dev.symm.trans (mem_freeSlots.mp isFree).2)
  have newHandle := occupy_handle notFree isFree dev nr
  have fields (other : Nat) (apart : other ≠ ino) :
      (fs.occupy sb ino dev nr).inodeTable other = fs.inodeTable other := by
    simp [occupy, apart]
  have differs (other number : Nat) (handle : fs.Handle sb other number) :
      number ≠ nr := by
    intro same
    have positive := (loaded.inUse other number handle).positive
    rw [same, unused] at positive
    exact Nat.lt_irrefl 0 positive
  have supers (other : Nat) :
      ((fs.occupy sb ino dev nr).superTable other).dev =
        (fs.superTable other).dev := by
    by_cases same : other = sb
    · subst same
      simp [occupy]
    · simp [occupy, same]
  refine
    { super := (congrFun (getSuper_congr supers) dev).trans loaded.super
      device := loaded.device
      nodup := ?nodup
      iroot := by simpa [occupy] using loaded.iroot
      root := (newHandle _ _).mpr (.inr loaded.root)
      unique := ?unique
      present := ?present
      inUse := ?inUse
      blank := ?blank
      room := ?room }
  case nodup =>
    have notListed : ino ∉ (fs.superTable sb).inodeList := fun onList =>
      notFree ino _ ⟨onList, rfl⟩ isFree
    simpa [occupy] using ⟨notListed, loaded.nodup⟩
  case unique =>
    intro one other number first second
    rcases (newHandle _ _).mp first with ⟨isNew, same⟩ | before
    · rcases (newHandle _ _).mp second with ⟨alsoNew, _⟩ | before
      · exact isNew.trans alsoNew.symm
      · exact absurd same.symm (differs other number before)
    · rcases (newHandle _ _).mp second with ⟨_, same⟩ | otherBefore
      · exact absurd same.symm (differs one number before)
      · exact loaded.unique one other number before otherBefore
  case present =>
    intro number referenced
    by_cases same : number = nr
    · exact ⟨ino, (newHandle _ _).mpr (.inl ⟨rfl, same.symm⟩)⟩
    · rw [Function.update_of_ne same] at referenced
      obtain ⟨other, handle⟩ := loaded.present number referenced
      exact ⟨other, (newHandle _ _).mpr (.inr handle)⟩
  case inUse =>
    intro other number handle
    rcases (newHandle _ _).mp handle with ⟨isNew, same⟩ | before
    · subst isNew same
      obtain ⟨noPipe, noMount⟩ := loaded.blank other isFree
      rw [Function.update_self]
      exact
        { holds := ⟨by simp [occupy], by simp [occupy], by simp [occupy]; rfl,
            by simp [occupy]⟩
          pipe := by simpa [occupy] using noPipe
          count := by simp [occupy]
          positive := Nat.one_pos
          bounded := by decide
          mount := .inl (by simpa [occupy] using noMount)
          inTable := (mem_freeSlots.mp isFree).1 }
    · have kept := loaded.inUse other number before
      have apart : other ≠ ino := fun same => notFree other number before (same ▸ isFree)
      rw [Function.update_of_ne (differs other number before)]
      exact
        { holds := ⟨by rw [fields other apart]; exact kept.holds.dev,
            by rw [fields other apart]; exact kept.holds.nr,
            by rw [fields other apart]; exact kept.holds.block,
            by rw [fields other apart]; exact kept.holds.slot⟩
          pipe := by rw [fields other apart]; exact kept.pipe
          count := by rw [fields other apart]; exact kept.count
          positive := kept.positive
          bounded := kept.bounded
          mount := by rw [fields other apart]; exact kept.mount
          inTable := kept.inTable }
  case blank =>
    intro other stillFree
    rw [occupy_freeSlots loaded.device, Finset.mem_erase] at stillFree
    rw [fields other stillFree.1]
    exact loaded.blank other stillFree.2
  case room =>
    rw [occupy_freeSlots loaded.device, Finset.card_erase_of_mem isFree]
    exact Nat.sub_le_sub_right loaded.room 1

/-- The free entries that are left after a reference to a number is taken. -/
def taken (refs : Nat → Nat) (nr free : Nat) : Nat :=
  if refs nr = 0 then free - 1 else free

/-- `iget` takes a reference to an inode; the pointers to inodes stay. -/
theorem iget (loaded : fs.Loaded dev sb refs free)
    (inRange : nr ≤ (fs.superDesc dev).inodes) (bounded : refs nr + 1 < 2 ^ 32)
    (room : refs nr = 0 → 0 < free) :
    ∃ ino after, fs.iget dev nr = .ok (ino, after) ∧ after.disk = fs.disk ∧
      after.Handle sb ino nr ∧
      after.Loaded dev sb (Function.update refs nr (refs nr + 1))
        (taken refs nr free) ∧
      ∀ other number, fs.Handle sb other number → after.Handle sb other number := by
  unfold taken Fs.iget
  by_cases unused : refs nr = 0
  · obtain ⟨ino, isFree, found⟩ := loaded.getFreeInode_eq (room unused)
    have notFree (other number : Nat) (handle : fs.Handle sb other number) :
        other ∉ fs.freeSlots := by
      intro isFree
      have used := loaded.inUse other number handle
      exact loaded.device (used.holds.dev.symm.trans (mem_freeSlots.mp isFree).2)
    have newHandle := occupy_handle notFree isFree dev nr
    refine ⟨ino, fs.occupy sb ino dev nr, ?_, rfl,
      (newHandle _ _).mpr (.inl ⟨rfl, rfl⟩), ?_, fun other number handle =>
        (newHandle _ _).mpr (.inr handle)⟩
    · rw [loaded.findInode_none unused, ok_bind, loaded.super]
      exact loaded.loadInode_eq inRange isFree found
    · rw [if_pos unused, unused]
      exact loaded.occupied unused isFree
  · obtain ⟨ino, handle⟩ := loaded.present nr (Nat.pos_of_ne_zero unused)
    have more : 1 < Function.update refs nr (refs nr + 1) nr := by
      rw [Function.update_self]
      omega
    have counted := loaded.recount handle (Nat.succ_pos (refs nr)) bounded
    have sameHandle (other number : Nat) (before : fs.Handle sb other number) :
        (fs.setCount ino (refs nr + 1)).Handle sb other number := by
      unfold Handle at before ⊢
      rw [setCount_inodeTable]
      exact before
    refine ⟨ino, fs.setCount ino (refs nr + 1), ?_, rfl, sameHandle _ _ handle, ?_,
      sameHandle⟩
    · rw [loaded.findInode_eq handle, ok_bind]
      dsimp only
      rw [loaded.held handle bounded]
      exact counted.fitInode_eq (sameHandle _ _ handle) more
    · rw [if_neg unused]
      exact counted

end Loaded

end Fs
end LightOS
