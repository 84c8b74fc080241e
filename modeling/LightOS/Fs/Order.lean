import LightOS.Fs.Tables
import Mathlib.Data.List.Nodup

/-!
# Order of the inodes and the super blocks

What holds of `inode_table` and `super_table` between the steps of the calls: an entry
that is not in use has no count, the lists of the super blocks hold the inodes of their
devices, and the root directory of a mounted device is in memory.  Taking, releasing and
loading an inode keep the order.
-/

namespace LightOS
namespace Fs

/-- The tables are in order: an entry that is not in use has no count, the lists of the
super blocks hold entries in use, and a directory that a device is mounted on belongs to
the super block of that device. -/
structure InOrder (fs : Fs) : Prop where
  blank : ∀ ino, (fs.inodeTable ino).dev = eof →
    (fs.inodeTable ino).count = 0 ∧ (fs.inodeTable ino).pipe = false
  listed : ∀ sb < superNr, ∀ ino ∈ (fs.superTable sb).inodeList,
    (fs.inodeTable ino).dev ≠ eof ∧ (fs.inodeTable ino).pipe = false
  nodup : ∀ sb < superNr, (fs.superTable sb).inodeList.Nodup
  root : (fs.inodeTable rootInode).dev ≠ eof
  rootMounted : (fs.superTable rootSuper).iroot = some rootInode ∧
    (fs.superTable rootSuper).imount = some rootInode
  plainMounts : ∀ sb < superNr, (fs.superTable sb).imount.isSome → ∀ ino,
    (fs.superTable sb).iroot = some ino ∨ (fs.superTable sb).imount = some ino →
      (fs.inodeTable ino).pipe = false
  covered : ∀ ino sb, (fs.inodeTable ino).mount ≠ 0 →
    fs.getSuper (fs.inodeTable ino).mount = some sb → (fs.superTable sb).imount.isSome
  /-- No device is mounted on the root directory of another one. -/
  mountPoint : ∀ sb < superNr, ∀ ino, (fs.superTable sb).imount = some ino →
    ino = rootInode ∨ (fs.inodeTable ino).nr ≠ 1

/-- Every inode in use, but for pipes, is on the list of the super block of its device,
and no list has two root directories. -/
structure Filed (fs : Fs) : Prop where
  carries : ∀ sb < superNr, ∀ ino ∈ (fs.superTable sb).inodeList,
    (fs.inodeTable ino).dev = (fs.superTable sb).dev
  found : ∀ ino, (fs.inodeTable ino).dev ≠ eof → (fs.inodeTable ino).pipe = false →
    ∃ sb, fs.getSuper (fs.inodeTable ino).dev = some sb ∧
      ino ∈ (fs.superTable sb).inodeList
  only : ∀ sb < superNr, ∀ ino ∈ (fs.superTable sb).inodeList,
    ∀ other ∈ (fs.superTable sb).inodeList, (fs.inodeTable ino).nr = 1 →
      (fs.inodeTable other).nr = 1 → ino = other

/-- The list of a mounted device has its root directory, and the list of one that is not
mounted has no inode. -/
structure Rooted (fs : Fs) (sb : Nat) : Prop where
  unmounted : (fs.superTable sb).imount = none → (fs.superTable sb).inodeList = []
  iroot : (fs.superTable sb).imount.isSome →
    ∃ ino ∈ (fs.superTable sb).inodeList, (fs.superTable sb).iroot = some ino ∧
      (fs.inodeTable ino).nr = 1

/-- The lists of all devices are in order. -/
structure Tracked (fs : Fs) : Prop extends Filed fs where
  rooted : ∀ sb < superNr, fs.Rooted sb

/-- What the release of a reference to an inode leaves behind. -/
structure Dropped (before after : Fs) (ino : Nat) : Prop where
  others : ∀ other, other ≠ ino → after.inodeTable other = before.inodeTable other
  nr : (after.inodeTable ino).nr = (before.inodeTable ino).nr
  mount : (after.inodeTable ino).mount = (before.inodeTable ino).mount
  count : (after.inodeTable ino).count = sub32 (before.inodeTable ino).count 1
  kept : (after.inodeTable ino).count ≠ 0 →
    (after.inodeTable ino).dev = (before.inodeTable ino).dev ∧
      (after.inodeTable ino).pipe = (before.inodeTable ino).pipe ∧
      after.superTable = before.superTable
  freed : (after.inodeTable ino).count = 0 → ino ≠ rootInode ∧
    (after.inodeTable ino).dev = eof ∧ (after.inodeTable ino).pipe = false ∧
      ((before.inodeTable ino).pipe = true ∧ after.superTable = before.superTable ∨
        ∀ sb, after.superTable sb = { before.superTable sb with
          inodeList := (before.superTable sb).inodeList.erase ino })

theorem iput_dropped {fs after : Fs} {ino : Nat} (released : fs.iput ino = .ok after) :
    Dropped fs after ino := by
  unfold iput at released
  split at released
  · rename_i isPipe
    unfold putPipeInode at released
    dsimp only at released
    split at released
    · rename_i more
      cases released
      refine
        { others := fun other different => ?_
          nr := by simp [setCount]
          mount := by simp [setCount]
          count := by simp [setCount]
          kept := fun _ => by simp [setCount]
          freed := fun none => absurd none more }
      simp [setCount, different]
    · rename_i last
      obtain ⟨notRoot, unused, rfl⟩ := putFreeInode_cases released
      have isZero : sub32 (fs.inodeTable ino).count 1 = 0 := by
        simpa [setCount] using last
      refine
        { others := fun other different => ?_
          nr := by simp [setCount]
          mount := by simp [setCount]
          count := by simp [setCount]
          kept := fun more => absurd (by simp [setCount, isZero]) more
          freed := fun _ => ⟨notRoot, by simp, by simp,
            .inl ⟨isPipe, by simp [setCount]⟩⟩ }
      simp [setCount, different]
  · rename_i notPipe
    dsimp only at released
    split at released
    · rename_i more
      cases released
      refine
        { others := fun other different => ?_
          nr := by simp [setCount]
          mount := by simp [setCount]
          count := by simp [setCount]
          kept := fun _ => by simp [setCount]
          freed := fun none => absurd none more }
      simp [setCount, different]
    · rename_i last
      have isZero : sub32 (fs.inodeTable ino).count 1 = 0 := by
        simpa [setCount] using last
      rw [bind_eq_ok] at released
      obtain ⟨unlisted, removed, freed⟩ := released
      unfold unlistInode at removed
      simp only [bind_eq_ok, check_eq_ok] at removed
      obtain ⟨_, _, same⟩ := removed
      cases same
      obtain ⟨notRoot, unused, rfl⟩ := putFreeInode_cases freed
      refine
        { others := fun other different => ?_
          nr := by simp [setCount]
          mount := by simp [setCount]
          count := by simp [setCount]
          kept := fun more => absurd (by simp [setCount, isZero]) more
          freed := fun _ => ⟨notRoot, by simp, ?_, .inr fun sb => by simp [setCount]⟩ }
      · simp [setCount, different]
      · simpa [setCount] using notPipe

/-- The super blocks after a release: the inode may have left its list. -/
theorem Dropped.supers {fs after : Fs} {ino : Nat} (dropped : Dropped fs after ino)
    (sb : Nat) : ∃ inodeList,
      after.superTable sb = { fs.superTable sb with inodeList := inodeList } ∧
        inodeList.Sublist (fs.superTable sb).inodeList := by
  by_cases more : (after.inodeTable ino).count = 0
  · rcases (dropped.freed more).2.2.2 with ⟨_, same⟩ | erased
    · exact ⟨_, by rw [same], .refl _⟩
    · exact ⟨_, erased sb, List.erase_sublist⟩
  · exact ⟨_, by rw [(dropped.kept more).2.2], .refl _⟩


/-- The tables are the same, but for the counts of inodes. -/
structure Recounted (before after : Fs) : Prop where
  inodeTable : ∀ ino, ∃ count, after.inodeTable ino =
    { before.inodeTable ino with count := count }
  superTable : after.superTable = before.superTable

theorem Recounted.setCount (fs : Fs) (ino count : Nat) :
    Recounted fs (fs.setCount ino count) := by
  refine ⟨fun other => ?_, rfl⟩
  by_cases same : other = ino
  · exact ⟨count, by simp [Fs.setCount, same]⟩
  · exact ⟨(fs.inodeTable other).count, by simp [Fs.setCount, same]⟩

/-! ## Changes of the counts -/

section Order

variable {fs after : Fs} {ino sb : Nat}

theorem InOrder.recounted (order : fs.InOrder) (same : Recounted fs after)
    (unused : ∀ ino, (fs.inodeTable ino).dev = eof → (after.inodeTable ino).count = 0) :
    after.InOrder := by
  obtain ⟨inodes, supers⟩ := same
  have getSuper : after.getSuper = fs.getSuper :=
    getSuper_congr fun sb => by rw [supers]
  constructor
  case blank =>
    intro other
    have none := unused other
    obtain ⟨_, isAfter⟩ := inodes other
    rw [isAfter] at none ⊢
    exact fun free => ⟨none free, (order.blank other free).2⟩
  case listed =>
    rw [supers]
    intro sb inTable other present
    obtain ⟨_, isAfter⟩ := inodes other
    rw [isAfter]
    exact order.listed sb inTable other present
  case nodup =>
    rw [supers]
    exact order.nodup
  case root =>
    obtain ⟨_, isAfter⟩ := inodes rootInode
    rw [isAfter]
    exact order.root
  case rootMounted =>
    rw [supers]
    exact order.rootMounted
  case plainMounts =>
    rw [supers]
    intro sb inTable mounted other pointed
    obtain ⟨_, isAfter⟩ := inodes other
    rw [isAfter]
    exact order.plainMounts sb inTable mounted other pointed
  case covered =>
    intro other
    obtain ⟨_, isAfter⟩ := inodes other
    rw [getSuper, supers, isAfter]
    exact order.covered other
  case mountPoint =>
    rw [supers]
    intro sb inTable other mounted
    obtain ⟨_, isAfter⟩ := inodes other
    rw [isAfter]
    exact order.mountPoint sb inTable other mounted

/-- The lists depend on the devices, the numbers and the kinds of the inodes. -/
theorem Filed.congr (filed : fs.Filed)
    (inodes : ∀ ino, (after.inodeTable ino).dev = (fs.inodeTable ino).dev ∧
      (after.inodeTable ino).nr = (fs.inodeTable ino).nr ∧
      (after.inodeTable ino).pipe = (fs.inodeTable ino).pipe)
    (supers : ∀ sb, (after.superTable sb).dev = (fs.superTable sb).dev ∧
      (after.superTable sb).inodeList = (fs.superTable sb).inodeList) : after.Filed := by
  have getSuper : after.getSuper = fs.getSuper := getSuper_congr fun sb => (supers sb).1
  constructor
  · simpa only [supers, inodes] using filed.carries
  · simpa only [supers, inodes, getSuper] using filed.found
  · simpa only [supers, inodes] using filed.only

theorem Rooted.congr (rooted : fs.Rooted sb)
    (nr : ∀ ino, (after.inodeTable ino).nr = (fs.inodeTable ino).nr)
    (list : (after.superTable sb).inodeList = (fs.superTable sb).inodeList)
    (pointers : (after.superTable sb).iroot = (fs.superTable sb).iroot ∧
      (after.superTable sb).imount = (fs.superTable sb).imount) : after.Rooted sb := by
  constructor
  · simpa only [list, pointers] using rooted.unmounted
  · simpa only [list, pointers, nr] using rooted.iroot

theorem Recounted.inodes (same : Recounted fs after) (ino : Nat) :
    (after.inodeTable ino).dev = (fs.inodeTable ino).dev ∧
      (after.inodeTable ino).nr = (fs.inodeTable ino).nr ∧
      (after.inodeTable ino).pipe = (fs.inodeTable ino).pipe := by
  obtain ⟨_, isAfter⟩ := same.inodeTable ino
  rw [isAfter]
  exact ⟨rfl, rfl, rfl⟩

theorem Filed.recounted (filed : fs.Filed) (same : Recounted fs after) : after.Filed :=
  filed.congr same.inodes fun sb => by simp [same.superTable]

theorem Rooted.recounted (rooted : fs.Rooted sb) (same : Recounted fs after) :
    after.Rooted sb :=
  rooted.congr (fun ino => (same.inodes ino).2.1) (by rw [same.superTable])
    (by simp [same.superTable])

/-! ## Releasing inodes -/

namespace Dropped

theorem sameNr (dropped : Dropped fs after ino) (other : Nat) :
    (after.inodeTable other).nr = (fs.inodeTable other).nr := by
  by_cases same : other = ino
  · rw [same]
    exact dropped.nr
  · rw [dropped.others other same]

theorem sameMount (dropped : Dropped fs after ino) (other : Nat) :
    (after.inodeTable other).mount = (fs.inodeTable other).mount := by
  by_cases same : other = ino
  · rw [same]
    exact dropped.mount
  · rw [dropped.others other same]

theorem plain (dropped : Dropped fs after ino) (other : Nat)
    (before : (fs.inodeTable other).pipe = false) :
    (after.inodeTable other).pipe = false := by
  by_cases same : other = ino
  · rw [same] at before ⊢
    by_cases more : (after.inodeTable ino).count = 0
    · exact (dropped.freed more).2.2.1
    · rw [(dropped.kept more).2.1]
      exact before
  · rw [dropped.others other same]
    exact before

theorem pointers (dropped : Dropped fs after ino) (sb : Nat) :
    (after.superTable sb).dev = (fs.superTable sb).dev ∧
    (after.superTable sb).iroot = (fs.superTable sb).iroot ∧
    (after.superTable sb).imount = (fs.superTable sb).imount := by
  obtain ⟨_, isAfter, _⟩ := dropped.supers sb
  rw [isAfter]
  exact ⟨rfl, rfl, rfl⟩

theorem getSuper (dropped : Dropped fs after ino) : after.getSuper = fs.getSuper :=
  getSuper_congr fun sb => (dropped.pointers sb).1

theorem member (dropped : Dropped fs after ino) {sb other : Nat}
    (present : other ∈ (after.superTable sb).inodeList) :
    other ∈ (fs.superTable sb).inodeList := by
  obtain ⟨_, isAfter, sublist⟩ := dropped.supers sb
  rw [isAfter] at present
  exact sublist.mem present

/-- An inode that is still in use has kept its device and its place. -/
theorem stays (dropped : Dropped fs after ino) (other : Nat)
    (used : (after.inodeTable other).dev ≠ eof) :
    (after.inodeTable other).dev = (fs.inodeTable other).dev ∧
      (after.inodeTable other).pipe = (fs.inodeTable other).pipe ∧
      ∀ sb, other ∈ (fs.superTable sb).inodeList →
        other ∈ (after.superTable sb).inodeList := by
  by_cases more : (after.inodeTable ino).count = 0
  · have different : other ≠ ino := by
      rintro rfl
      exact used (dropped.freed more).2.1
    rw [dropped.others other different]
    refine ⟨rfl, rfl, fun sb present => ?_⟩
    rcases (dropped.freed more).2.2.2 with ⟨_, same⟩ | erased
    · rw [same]
      exact present
    · rw [erased sb]
      exact (List.mem_erase_of_ne different).mpr present
  · obtain ⟨keptDev, keptPipe, keptSupers⟩ := dropped.kept more
    rw [keptSupers]
    by_cases same : other = ino
    · rw [same]
      exact ⟨keptDev, keptPipe, fun _ present => present⟩
    · rw [dropped.others other same]
      exact ⟨rfl, rfl, fun _ present => present⟩

end Dropped

theorem InOrder.dropped (order : fs.InOrder) (used : (fs.inodeTable ino).dev ≠ eof)
    (dropped : Dropped fs after ino) : after.InOrder := by
  refine
    { blank := fun other => ?blank
      listed := fun sb inTable other present => ?listed
      nodup := fun sb inTable => ?nodup
      root := ?root
      rootMounted := ?rootMounted
      plainMounts := fun sb inTable mounted other pointed => ?plainMounts
      covered := fun other sb covering found => ?covered
      mountPoint := fun sb inTable other mounted => ?mountPoint }
  case blank =>
    by_cases same : other = ino
    · rw [same]
      intro free
      by_cases more : (after.inodeTable ino).count = 0
      · exact ⟨more, (dropped.freed more).2.2.1⟩
      · rw [(dropped.kept more).1] at free
        exact absurd free used
    · rw [dropped.others other same]
      exact order.blank other
  case listed =>
    have before := order.listed sb inTable other (dropped.member present)
    by_cases same : other = ino
    · rw [same] at before present ⊢
      by_cases more : (after.inodeTable ino).count = 0
      · rcases (dropped.freed more).2.2.2 with ⟨isPipe, _⟩ | erased
        · rw [isPipe] at before
          cases before.2
        · rw [erased sb] at present
          exact absurd present (order.nodup sb inTable).not_mem_erase
      · rw [(dropped.kept more).1, (dropped.kept more).2.1]
        exact before
    · rw [dropped.others other same]
      exact before
  case nodup =>
    obtain ⟨inodeList, isAfter, sublist⟩ := dropped.supers sb
    rw [isAfter]
    exact (order.nodup sb inTable).sublist sublist
  case root =>
    by_cases same : rootInode = ino
    · by_cases more : (after.inodeTable ino).count = 0
      · exact absurd same.symm (dropped.freed more).1
      · rw [same, (dropped.kept more).1, ← same]
        exact order.root
    · rw [dropped.others _ same]
      exact order.root
  case rootMounted =>
    rw [(dropped.pointers rootSuper).2.1, (dropped.pointers rootSuper).2.2]
    exact order.rootMounted
  case plainMounts =>
    rw [(dropped.pointers sb).2.2] at mounted
    rw [(dropped.pointers sb).2.1, (dropped.pointers sb).2.2] at pointed
    exact dropped.plain other (order.plainMounts sb inTable mounted other pointed)
  case covered =>
    rw [dropped.sameMount other] at covering found
    rw [dropped.getSuper] at found
    rw [(dropped.pointers sb).2.2]
    exact order.covered other sb covering found
  case mountPoint =>
    rw [(dropped.pointers sb).2.2] at mounted
    rw [dropped.sameNr other]
    exact order.mountPoint sb inTable other mounted

theorem Filed.dropped (filed : fs.Filed) (order : fs.InOrder)
    (used : (fs.inodeTable ino).dev ≠ eof) (dropped : Dropped fs after ino) :
    after.Filed := by
  refine
    { carries := fun sb inTable other present => ?carries
      found := fun other stillUsed plain => ?found
      only := fun sb inTable left leftIn right rightIn => ?only }
  case carries =>
    have stillUsed := ((order.dropped used dropped).listed sb inTable other present).1
    rw [(dropped.stays other stillUsed).1, (dropped.pointers sb).1]
    exact filed.carries sb inTable other (dropped.member present)
  case found =>
    obtain ⟨sameDev, samePipe, listed⟩ := dropped.stays other stillUsed
    rw [sameDev] at stillUsed ⊢
    rw [samePipe] at plain
    obtain ⟨sb, isSuper, present⟩ := filed.found other stillUsed plain
    exact ⟨sb, by rw [dropped.getSuper]; exact isSuper, listed sb present⟩
  case only =>
    rw [dropped.sameNr left, dropped.sameNr right]
    exact filed.only sb inTable left (dropped.member leftIn) right (dropped.member rightIn)

/-- A release keeps a list in order, unless it is that of the root directory of a mounted
device. -/
theorem Rooted.dropped (rooted : fs.Rooted sb) (order : fs.InOrder) (inTable : sb < superNr)
    (used : (fs.inodeTable ino).dev ≠ eof) (dropped : Dropped fs after ino)
    (spared : (fs.superTable sb).imount.isSome → (fs.superTable sb).iroot = some ino →
      (after.inodeTable ino).count ≠ 0) : after.Rooted sb := by
  obtain ⟨_, sameRoot, sameMount⟩ := dropped.pointers sb
  refine { unmounted := fun none => ?unmounted, iroot := fun mounted => ?iroot }
  case unmounted =>
    rw [sameMount] at none
    rw [List.eq_nil_iff_forall_not_mem]
    intro other present
    have before := dropped.member present
    rw [rooted.unmounted none] at before
    cases before
  case iroot =>
    rw [sameMount] at mounted
    obtain ⟨iroot, present, isRoot, isOne⟩ := rooted.iroot mounted
    have stillUsed : (after.inodeTable iroot).dev ≠ eof := by
      by_cases same : iroot = ino
      · rw [same] at isRoot ⊢
        rw [(dropped.kept (spared mounted isRoot)).1]
        exact used
      · rw [dropped.others iroot same]
        exact (order.listed sb inTable iroot present).1
    refine ⟨iroot, (dropped.stays iroot stillUsed).2.2 sb present, ?_, ?_⟩
    · rw [sameRoot]
      exact isRoot
    · rw [dropped.sameNr]
      exact isOne

/-! ## Loading inodes -/

/-- The tables with an inode loaded into an entry that was free. -/
structure Loads (fs : Fs) (sb dev nr ino : Nat) : Prop where
  isSuper : fs.getSuper dev = some sb
  real : dev ≠ eof
  isFree : (fs.inodeTable ino).dev = eof
  notListed : ino ∉ (fs.superTable sb).inodeList

section Loads

variable {dev nr : Nat}

theorem withLoaded_other {other : Nat} (different : other ≠ ino) :
    (fs.withLoaded sb dev nr ino).inodeTable other = fs.inodeTable other := by
  simp [withLoaded, different]

theorem withLoaded_self :
    (fs.withLoaded sb dev nr ino).inodeTable ino = fs.loadedInode dev nr ino := by
  simp [withLoaded]

theorem withLoaded_list (other : Nat) :
    ((fs.withLoaded sb dev nr ino).superTable other).inodeList =
      if other = sb then ino :: (fs.superTable sb).inodeList
      else (fs.superTable other).inodeList := by
  by_cases same : other = sb
  · rw [same]
    simp [withLoaded]
  · simp [withLoaded, same]

theorem withLoaded_pipe (other : Nat) :
    ((fs.withLoaded sb dev nr ino).inodeTable other).pipe = (fs.inodeTable other).pipe := by
  by_cases same : other = ino
  · rw [same, withLoaded_self]
    rfl
  · rw [withLoaded_other same]

theorem withLoaded_mount (other : Nat) :
    ((fs.withLoaded sb dev nr ino).inodeTable other).mount =
      (fs.inodeTable other).mount := by
  by_cases same : other = ino
  · rw [same, withLoaded_self]
    rfl
  · rw [withLoaded_other same]

theorem withLoaded_pointers (other : Nat) :
    ((fs.withLoaded sb dev nr ino).superTable other).dev = (fs.superTable other).dev ∧
    ((fs.withLoaded sb dev nr ino).superTable other).iroot = (fs.superTable other).iroot ∧
    ((fs.withLoaded sb dev nr ino).superTable other).imount =
      (fs.superTable other).imount := by
  obtain ⟨_, same⟩ := (withLoaded_tablesOnly fs sb dev nr ino).superTable other
  rw [same]
  exact ⟨rfl, rfl, rfl⟩

/-- The members of a list after the inode has been loaded. -/
theorem mem_withLoaded {other member : Nat}
    (present : member ∈ ((fs.withLoaded sb dev nr ino).superTable other).inodeList) :
    other = sb ∧ member = ino ∨ member ∈ (fs.superTable other).inodeList := by
  rw [withLoaded_list] at present
  by_cases same : other = sb
  · rw [if_pos same] at present
    rcases List.mem_cons.mp present with isInode | before
    · exact .inl ⟨same, isInode⟩
    · rw [same]
      exact .inr before
  · rw [if_neg same] at present
    exact .inr present

theorem InOrder.loaded (order : fs.InOrder) (loads : Loads fs sb dev nr ino)
    (notMount : ∀ sb < superNr, (fs.superTable sb).imount ≠ some ino) :
    (fs.withLoaded sb dev nr ino).InOrder := by
  have notRoot : rootInode ≠ ino := fun same => order.root (same ▸ loads.isFree)
  have getSuper : (fs.withLoaded sb dev nr ino).getSuper = fs.getSuper :=
    getSuper_congr fun other => (withLoaded_pointers other).1
  refine
    { blank := fun other => ?blank
      listed := fun other inTable member present => ?listed
      nodup := fun other inTable => ?nodup
      root := ?root
      rootMounted := ?rootMounted
      plainMounts := fun other inTable mounted member pointed => ?plainMounts
      covered := fun other found covering isSuper => ?covered
      mountPoint := fun other inTable member mounted => ?mountPoint }
  case blank =>
    by_cases same : other = ino
    · rw [same, withLoaded_self]
      exact fun free => absurd free loads.real
    · rw [withLoaded_other same]
      exact order.blank other
  case listed =>
    rcases mem_withLoaded present with ⟨_, isInode⟩ | before
    · rw [isInode, withLoaded_self]
      exact ⟨loads.real, (order.blank ino loads.isFree).2⟩
    · have kept := order.listed other inTable member before
      have different : member ≠ ino := by
        rintro rfl
        exact kept.1 loads.isFree
      rw [withLoaded_other different]
      exact kept
  case nodup =>
    rw [withLoaded_list]
    by_cases same : other = sb
    · rw [if_pos same]
      exact (order.nodup sb (same ▸ inTable)).cons loads.notListed
    · rw [if_neg same]
      exact order.nodup other inTable
  case root =>
    rw [withLoaded_other notRoot]
    exact order.root
  case rootMounted =>
    rw [(withLoaded_pointers rootSuper).2.1, (withLoaded_pointers rootSuper).2.2]
    exact order.rootMounted
  case plainMounts =>
    rw [(withLoaded_pointers other).2.2] at mounted
    rw [(withLoaded_pointers other).2.1, (withLoaded_pointers other).2.2] at pointed
    rw [withLoaded_pipe]
    exact order.plainMounts other inTable mounted member pointed
  case covered =>
    rw [withLoaded_mount] at covering isSuper
    rw [getSuper] at isSuper
    rw [(withLoaded_pointers found).2.2]
    exact order.covered other found covering isSuper
  case mountPoint =>
    rw [(withLoaded_pointers other).2.2] at mounted
    have different : member ≠ ino := by
      rintro rfl
      exact notMount other inTable mounted
    rw [withLoaded_other different]
    exact order.mountPoint other inTable member mounted
theorem Loads.different (loads : Loads fs sb dev nr ino) (order : fs.InOrder)
    {other member : Nat} (inTable : other < superNr)
    (present : member ∈ (fs.superTable other).inodeList) : member ≠ ino := by
  rintro rfl
  exact (order.listed other inTable member present).1 loads.isFree

theorem mem_withLoaded_of_mem {other member : Nat}
    (present : member ∈ (fs.superTable other).inodeList) :
    member ∈ ((fs.withLoaded sb dev nr ino).superTable other).inodeList := by
  rw [withLoaded_list]
  by_cases same : other = sb
  · rw [if_pos same]
    exact List.mem_cons_of_mem _ (same ▸ present)
  · rw [if_neg same]
    exact present

theorem Filed.loaded (filed : fs.Filed) (order : fs.InOrder)
    (loads : Loads fs sb dev nr ino)
    (fresh : ∀ other ∈ (fs.superTable sb).inodeList, (fs.inodeTable other).nr ≠ nr) :
    (fs.withLoaded sb dev nr ino).Filed := by
  have getSuper : (fs.withLoaded sb dev nr ino).getSuper = fs.getSuper :=
    getSuper_congr fun other => (withLoaded_pointers other).1
  refine
    { carries := fun other inTable member present => ?carries
      found := fun member used plain => ?found
      only := fun other inTable left leftIn right rightIn leftOne rightOne => ?only }
  case carries =>
    rw [(withLoaded_pointers other).1]
    rcases mem_withLoaded present with ⟨isSuper, isInode⟩ | before
    · rw [isInode, withLoaded_self, isSuper]
      exact (dev_of_getSuper loads.isSuper).1.symm
    · rw [withLoaded_other (loads.different order inTable before)]
      exact filed.carries other inTable member before
  case found =>
    rw [getSuper]
    by_cases same : member = ino
    · rw [same, withLoaded_self]
      refine ⟨sb, loads.isSuper, ?_⟩
      rw [withLoaded_list, if_pos rfl]
      exact List.mem_cons_self
    · rw [withLoaded_other same] at used plain ⊢
      obtain ⟨other, isSuper, present⟩ := filed.found member used plain
      exact ⟨other, isSuper, mem_withLoaded_of_mem present⟩
  case only =>
    rcases mem_withLoaded leftIn with ⟨leftSuper, isLeft⟩ | leftIn
    · rcases mem_withLoaded rightIn with ⟨_, isRight⟩ | rightIn
      · rw [isLeft, isRight]
      · rw [isLeft, withLoaded_self] at leftOne
        rw [withLoaded_other (loads.different order inTable rightIn)] at rightOne
        exact absurd (rightOne.trans leftOne.symm) (fresh right (leftSuper ▸ rightIn))
    · rw [withLoaded_other (loads.different order inTable leftIn)] at leftOne
      rcases mem_withLoaded rightIn with ⟨rightSuper, isRight⟩ | rightIn
      · rw [isRight, withLoaded_self] at rightOne
        exact absurd (leftOne.trans rightOne.symm) (fresh left (rightSuper ▸ leftIn))
      · rw [withLoaded_other (loads.different order inTable rightIn)] at rightOne
        exact filed.only other inTable left leftIn right rightIn leftOne rightOne

theorem Rooted.loaded {other : Nat} (rooted : fs.Rooted other) (order : fs.InOrder)
    (inTable : other < superNr) (loads : Loads fs sb dev nr ino)
    (mounted : other = sb → (fs.superTable sb).imount.isSome) :
    (fs.withLoaded sb dev nr ino).Rooted other := by
  have sameRoot : ((fs.withLoaded sb dev nr ino).superTable other).iroot =
      (fs.superTable other).iroot := (withLoaded_pointers other).2.1
  have sameMount : ((fs.withLoaded sb dev nr ino).superTable other).imount =
      (fs.superTable other).imount := (withLoaded_pointers other).2.2
  refine { unmounted := fun none => ?unmounted, iroot := fun isMounted => ?iroot }
  case unmounted =>
    rw [sameMount] at none
    rw [withLoaded_list]
    have notSuper : other ≠ sb := by
      intro same
      have isMounted := mounted same
      rw [← same, none] at isMounted
      cases isMounted
    rw [if_neg notSuper]
    exact rooted.unmounted none
  case iroot =>
    rw [sameMount] at isMounted
    obtain ⟨iroot, present, isRoot, isOne⟩ := rooted.iroot isMounted
    refine ⟨iroot, mem_withLoaded_of_mem present, ?_, ?_⟩
    · rw [sameRoot]
      exact isRoot
    · rw [withLoaded_other (loads.different order inTable present)]
      exact isOne

end Loads

end Order

end Fs
end LightOS
