import LightOS.Fs.Calls
import LightOS.Fs.Maps
import LightOS.Fs.Order
import Mathlib.Data.Multiset.Count

/-!
# References to inodes

The count of an inode in memory is the number of references that last beyond a
call and of those that the call holds meanwhile.  Taking an inode adds a
reference to what is held and releasing one takes it away, so a function that
returns with nothing held has left every count as it found it.
-/

namespace LightOS
namespace Fs

variable {dev zone idx cache block level ino : Nat} {create : Bool} {name : Cursor}

/-- A device whose inodes are loaded: where its list is in order, it is mounted. -/
structure Home (start : Fs) (dev : Nat) : Prop where
  real : dev ≠ eof
  mounted : start.Filed → ∀ sb, start.getSuper dev = some sb → start.Rooted sb →
    (start.superTable sb).imount.isSome

/-- The counts of the inodes: `base` of the references to an inode last, and the
pointers in `held` are held for the time being.  The super blocks have kept their fields
since `start`, but for their lists. -/
structure Referenced (start fs : Fs) (base : Nat → Nat) (held : Multiset Nat) : Prop
    extends InOrder fs where
  count : ∀ ino, (fs.inodeTable ino).count = base ino + held.count ino
  room : ∀ ino, base ino + 4 < 2 ^ 32
  mounts : ∀ sb < superNr, (fs.superTable sb).imount.isSome → ∀ ino,
    (fs.superTable sb).iroot = some ino ∨ (fs.superTable sb).imount = some ino →
      0 < base ino
  pointers : ∀ sb, ∃ inodeList, fs.superTable sb =
    { start.superTable sb with inodeList := inodeList }
  plain : ∀ ino ∈ held, (fs.inodeTable ino).pipe = false
  kept : ∀ ino, 0 < base ino → (fs.inodeTable ino).dev = (start.inodeTable ino).dev ∧
    (fs.inodeTable ino).nr = (start.inodeTable ino).nr ∧
    (fs.inodeTable ino).pipe = (start.inodeTable ino).pipe
  mount : ∀ ino, (fs.inodeTable ino).mount = (start.inodeTable ino).mount
  filed : start.Filed → fs.Filed
  rooted : start.Filed → ∀ sb < superNr, start.Rooted sb → fs.Rooted sb

/-- An inode with lasting references, which is not a pipe. -/
structure Lasting (start : Fs) (base : Nat → Nat) (ino : Nat) : Prop where
  positive : 0 < base ino
  plain : (start.inodeTable ino).pipe = false

/-- The tables are the same. -/
structure SameTables (before after : Fs) : Prop where
  inodeTable : after.inodeTable = before.inodeTable
  superTable : after.superTable = before.superTable

theorem SameTables.recounted {before after : Fs} (same : SameTables before after) :
    Recounted before after :=
  ⟨fun ino => ⟨_, by rw [same.inodeTable]⟩, same.superTable⟩

namespace Referenced

variable {start fs after : Fs} {base : Nat → Nat} {held : Multiset Nat}

/-- A referenced entry of the table is in use. -/
theorem inUse (referenced : Referenced start fs base held)
    (positive : 0 < base ino + held.count ino) : (fs.inodeTable ino).dev ≠ eof := by
  intro free
  have none := (referenced.blank ino free).1
  rw [referenced.count ino] at none
  omega

/-- An inode with lasting references. -/
theorem lasting (referenced : Referenced start fs base held)
    (lasts : Lasting start base ino) :
    (fs.inodeTable ino).dev ≠ eof ∧ (fs.inodeTable ino).pipe = false :=
  ⟨referenced.inUse (Nat.add_pos_left lasts.positive _),
    (referenced.kept ino lasts.positive).2.2.trans lasts.plain⟩

/-- A change of the counts. -/
theorem recount {rest : Multiset Nat} (referenced : Referenced start fs base held)
    (same : Recounted fs after)
    (count : ∀ ino, (after.inodeTable ino).count = base ino + rest.count ino)
    (plain : ∀ ino ∈ rest, (fs.inodeTable ino).dev ≠ eof ∧
      (fs.inodeTable ino).pipe = false) : Referenced start after base rest := by
  have order : after.InOrder := by
    refine referenced.toInOrder.recounted same fun other free => ?_
    have none := (referenced.blank other free).1
    have absent : other ∉ rest := fun present => (plain other present).1 free
    rw [referenced.count other] at none
    rw [count other, Multiset.count_eq_zero_of_notMem absent]
    omega
  refine
    { toInOrder := order
      count := count
      room := referenced.room
      mounts := by rw [same.superTable]; exact referenced.mounts
      pointers := by rw [same.superTable]; exact referenced.pointers
      plain := fun other present => ?plain
      kept := fun other positive => ?kept
      mount := fun other => ?mount
      filed := fun filed => (referenced.filed filed).recounted same
      rooted := fun filed sb inTable rooted =>
        (referenced.rooted filed sb inTable rooted).recounted same }
  case plain =>
    rw [(same.inodes other).2.2]
    exact (plain other present).2
  case kept =>
    rw [(same.inodes other).1, (same.inodes other).2.1, (same.inodes other).2.2]
    exact referenced.kept other positive
  case mount =>
    obtain ⟨_, isAfter⟩ := same.inodeTable other
    rw [isAfter]
    exact referenced.mount other

/-- An inode that is held. -/
theorem holds (referenced : Referenced start fs base held) (present : ino ∈ held) :
    (fs.inodeTable ino).dev ≠ eof ∧ (fs.inodeTable ino).pipe = false :=
  ⟨referenced.inUse (Nat.add_pos_right _ (Multiset.count_pos.mpr present)),
    referenced.plain ino present⟩

theorem congr (referenced : Referenced start fs base held) (same : SameTables fs after) :
    Referenced start after base held :=
  referenced.recount same.recounted
    (fun ino => by rw [same.inodeTable]; exact referenced.count ino)
    fun _ present => referenced.holds present

/-- One more reference to an inode in use. -/
theorem take (referenced : Referenced start fs base held) (few : held.card ≤ 3)
    (used : (fs.inodeTable ino).dev ≠ eof ∧ (fs.inodeTable ino).pipe = false) :
    Referenced start (fs.setCount ino (add32 (fs.inodeTable ino).count 1)) base
      (ino ::ₘ held) := by
  have small : held.count ino ≤ held.card := Multiset.count_le_card _ _
  have bound := referenced.room ino
  have next : add32 (fs.inodeTable ino).count 1 = base ino + (held.count ino + 1) := by
    rw [referenced.count ino]
    unfold add32
    omega
  refine referenced.recount (.setCount fs ino _) (fun other => ?count)
    fun other present => ?plain
  case count =>
    by_cases same : other = ino
    · rw [same, Multiset.count_cons_self]
      simpa [setCount] using next
    · rw [Multiset.count_cons_of_ne same]
      simpa [setCount, same] using referenced.count other
  case plain =>
    rcases Multiset.mem_cons.mp present with same | present
    · rw [same]
      exact used
    · exact referenced.holds present

/-- The release of a reference that is held. -/
theorem drop (referenced : Referenced start fs base (ino ::ₘ held))
    (dropped : Dropped fs after ino) : Referenced start after base held := by
  have counted := referenced.count ino
  rw [Multiset.count_cons_self] at counted
  have left : (after.inodeTable ino).count = base ino + held.count ino := by
    rw [dropped.count, counted, sub32_eq (by omega)]
    omega
  have used := (referenced.holds (Multiset.mem_cons_self ino held)).1
  have order := referenced.toInOrder.dropped used dropped
  have fields (other : Nat) (positive : 0 < base other + held.count other) :
      (after.inodeTable other).dev = (fs.inodeTable other).dev ∧
        (after.inodeTable other).pipe = (fs.inodeTable other).pipe := by
    by_cases same : other = ino
    · rw [same] at positive ⊢
      obtain ⟨keptDev, keptPipe, _⟩ := dropped.kept (by omega)
      exact ⟨keptDev, keptPipe⟩
    · rw [dropped.others other same]
      exact ⟨rfl, rfl⟩
  refine
    { toInOrder := order
      count := fun other => ?count
      room := referenced.room
      mounts := fun sb inTable mounted other pointed => ?mounts
      pointers := fun sb => ?pointers
      plain := fun other present => ?plain
      kept := fun other positive => ?kept
      mount := fun other => (dropped.sameMount other).trans (referenced.mount other)
      filed := fun filed => (referenced.filed filed).dropped referenced.toInOrder used dropped
      rooted := fun filed sb inTable rooted => ?rooted }
  case count =>
    by_cases same : other = ino
    · rw [same]
      exact left
    · rw [dropped.others other same, referenced.count other,
        Multiset.count_cons_of_ne same]
  case mounts =>
    obtain ⟨inodeList, isAfter, _⟩ := dropped.supers sb
    rw [isAfter] at mounted pointed
    exact referenced.mounts sb inTable mounted other pointed
  case pointers =>
    obtain ⟨inodeList, isAfter, _⟩ := dropped.supers sb
    obtain ⟨_, isBefore⟩ := referenced.pointers sb
    exact ⟨inodeList, by rw [isAfter, isBefore]⟩
  case plain =>
    rw [(fields other (Nat.add_pos_right _ (Multiset.count_pos.mpr present))).2]
    exact referenced.plain other (Multiset.mem_cons_of_mem present)
  case kept =>
    obtain ⟨keptDev, keptPipe⟩ := fields other (Nat.add_pos_left positive _)
    rw [keptDev, keptPipe, dropped.sameNr]
    exact referenced.kept other positive
  case rooted =>
    refine (referenced.rooted filed sb inTable rooted).dropped referenced.toInOrder inTable used
      dropped fun mounted isRoot => ?_
    have lasts := referenced.mounts sb inTable mounted ino (.inl isRoot)
    omega

/-- A lasting reference is taken over, as one that is held for the time being. -/
theorem lend (referenced : Referenced start fs base held) (ino : Nat)
    (lasts : Lasting start base ino)
    (spared : ∀ sb < superNr, (fs.superTable sb).imount.isSome →
      (fs.superTable sb).iroot = some ino ∨ (fs.superTable sb).imount = some ino →
        1 < base ino) :
    Referenced start fs (Function.update base ino (base ino - 1)) (ino ::ₘ held) := by
  have positive := lasts.positive
  have fewer (other : Nat) :
      Function.update base ino (base ino - 1) other ≤ base other := by
    by_cases same : other = ino
    · rw [same, Function.update_self]
      omega
    · rw [Function.update_of_ne same]
  refine
    { toInOrder := referenced.toInOrder
      count := fun other => ?count
      room := fun other => ?room
      mounts := fun sb inTable mounted other pointed => ?mounts
      pointers := referenced.pointers
      plain := fun other present => ?plain
      kept := fun other lasting => ?kept
      mount := referenced.mount
      filed := referenced.filed
      rooted := referenced.rooted }
  case count =>
    by_cases same : other = ino
    · rw [same, Function.update_self, Multiset.count_cons_self, referenced.count ino]
      omega
    · rw [Function.update_of_ne same, Multiset.count_cons_of_ne same]
      exact referenced.count other
  case room =>
    have bound := referenced.room other
    have less := fewer other
    omega
  case mounts =>
    by_cases same : other = ino
    · rw [same] at pointed ⊢
      have more := spared sb inTable mounted pointed
      rw [Function.update_self]
      omega
    · rw [Function.update_of_ne same]
      exact referenced.mounts sb inTable mounted other pointed
  case plain =>
    rcases Multiset.mem_cons.mp present with same | present
    · rw [same]
      exact (referenced.lasting lasts).2
    · exact referenced.plain other present
  case kept =>
    have less := fewer other
    exact referenced.kept other (by omega)

/-- `iput` gives back a reference that is held. -/
theorem iput (referenced : Referenced start fs base (ino ::ₘ held))
    (released : fs.iput ino = .ok after) : Referenced start after base held :=
  referenced.drop (iput_dropped released)

end Referenced

/-! ## Functions that leave the tables alone -/

namespace SameTables

variable {fs before middle after : Fs}

theorem refl (fs : Fs) : SameTables fs fs :=
  ⟨rfl, rfl⟩

theorem trans (first : SameTables before middle) (second : SameTables middle after) :
    SameTables before after :=
  ⟨second.inodeTable.trans first.inodeTable, second.superTable.trans first.superTable⟩

theorem writeBlock (fs : Fs) (dev number : Nat) (memory : Memory) :
    SameTables fs (fs.writeBlock dev number memory) :=
  ⟨rfl, rfl⟩

theorem modifyDesc (fs : Fs) (ino : Nat) (change : Memory → Nat → Memory) :
    SameTables fs (fs.modifyDesc ino change) :=
  ⟨rfl, rfl⟩

theorem modifyEntry (fs : Fs) (ref : EntryRef) (change : Memory → Nat → Memory) :
    SameTables fs (fs.modifyEntry ref change) :=
  ⟨rfl, rfl⟩

theorem ofWritten {first j : Nat} {value : Bool}
    (written : BitWritten before after dev first j value) : SameTables before after :=
  ⟨written.inodeTable, written.superTable⟩

theorem balloc (allocated : before.balloc dev = .ok (zone, after)) : SameTables before after := by
  obtain ⟨inodes, supers⟩ := balloc_tables allocated
  exact ⟨inodes, supers⟩

theorem ialloc {nr : Nat} (allocated : before.ialloc dev = .ok (nr, after)) :
    SameTables before after := by
  rcases ialloc_cases allocated with ⟨_, rfl, _⟩ | ⟨_, _, _, written⟩
  · exact .refl _
  · exact .ofWritten written

theorem clearBit {offset : Nat} {buffer : Option Nat}
    (cleared : before.clearBit dev buffer offset idx = .ok after) : SameTables before after := by
  unfold Fs.clearBit at cleared
  split at cleared
  · cases cleared
  · simp only [bind_eq_ok] at cleared
    obtain ⟨_, _, _, _, memory, _, same⟩ := cleared
    cases same
    exact .writeBlock _ _ _ _

theorem bfree (freed : before.bfree dev idx = .ok after) : SameTables before after := by
  unfold Fs.bfree at freed
  split at freed
  · cases freed
  · simp only [bind_eq_ok] at freed
    obtain ⟨_, _, _, _, cleared⟩ := freed
    exact .clearBit cleared

theorem ifree (freed : before.ifree dev idx = .ok after) : SameTables before after := by
  unfold Fs.ifree at freed
  split at freed
  · cases freed
  · simp only [bind_eq_ok] at freed
    obtain ⟨_, _, _, _, cleared⟩ := freed
    exact .clearBit cleared

theorem fillIndex {address : Nat} (filled : before.fillIndex dev cache address create = .ok after) :
    SameTables before after := by
  unfold Fs.fillIndex at filled
  split at filled
  · simp only [bind_eq_ok] at filled
    obtain ⟨⟨zone, allotted⟩, allocated, same⟩ := filled
    cases same
    exact (SameTables.balloc allocated).trans (.writeBlock _ _ _ _)
  · cases filled
    exact .refl _

theorem reckon {array index divider : Nat}
    (mapped : Fs.reckon dev create level before cache array index block divider =
      .ok (zone, after)) :
    SameTables before after := by
  induction level generalizing before cache array index block divider with
  | zero =>
      rw [Fs.reckon, bind_eq_ok] at mapped
      obtain ⟨filled, filling, same⟩ := mapped
      cases same
      exact .fillIndex filling
  | succ level inductionHypothesis =>
      rw [Fs.reckon, bind_eq_ok] at mapped
      obtain ⟨filled, filling, rest⟩ := mapped
      apply (SameTables.fillIndex filling).trans
      dsimp only at rest
      split at rest
      · cases rest
        exact .refl _
      · exact inductionHypothesis rest

theorem bmap (mapped : before.bmap ino block create = .ok (zone, after)) :
    SameTables before after := by
  unfold Fs.bmap at mapped
  rw [bind_eq_ok] at mapped
  obtain ⟨_, _, mapped⟩ := mapped
  dsimp only at mapped
  split at mapped
  · exact .reckon mapped
  · split at mapped
    · exact .reckon mapped
    · exact .reckon mapped

theorem entryBlock {dir i pcache : Nat}
    (found : before.entryBlock dir i pcache create = .ok (block, after)) :
    SameTables before after := by
  unfold Fs.entryBlock at found
  split at found
  · simp only [bind_eq_ok] at found
    obtain ⟨⟨zone, mapped⟩, taken, _, _, same⟩ := found
    cases same
    exact .bmap taken
  · cases found
    exact .refl _

theorem claimEntry {dir left i pcache : Nat} {entry : EntryRef}
    (claimed : Fs.claimEntry dir name left before i pcache = .ok (entry, after)) :
    SameTables before after := by
  induction left generalizing before i pcache with
  | zero => cases claimed
  | succ left inductionHypothesis =>
      rw [Fs.claimEntry, bind_eq_ok] at claimed
      obtain ⟨⟨block, mapped⟩, found, claimed⟩ := claimed
      apply (SameTables.entryBlock found).trans
      obtain ⟨ref, isRef⟩ : ∃ ref : EntryRef, ref =
          ⟨(mapped.inodeTable dir).dev, block, 16 * (i % blockDentries)⟩ := ⟨_, rfl⟩
      obtain ⟨grown, isGrown⟩ : ∃ grown, grown =
          if (mapped.desc dir).size ≤ i * 16 then
            (mapped.modifyEntry ref (Dentry.setNr 0)).modifyDesc dir
              (InodeDesc.setSize ((i + 1) * 16))
          else
            mapped := ⟨_, rfl⟩
      dsimp only at claimed
      rw [← isRef, ← isGrown] at claimed
      have same : SameTables mapped grown := by
        rw [isGrown]
        split
        · exact ⟨rfl, rfl⟩
        · exact .refl _
      apply same.trans
      split at claimed
      · exact inductionHypothesis claimed
      · cases claimed
        exact (SameTables.modifyEntry _ _ _).trans (.modifyDesc _ _ _)

theorem inodeBfree {address : Nat}
    (freed : Fs.inodeBfree dev level before cache address = .ok after) :
    SameTables before after := by
  induction level generalizing before after cache address with
  | zero =>
      rw [Fs.inodeBfree] at freed
      split at freed
      · cases freed
        exact .refl _
      · exact .bfree freed
  | succ level inductionHypothesis =>
      rw [Fs.inodeBfree] at freed
      split at freed
      · cases freed
        exact .refl _
      · simp only [bind_eq_ok] at freed
        obtain ⟨emptied, folded, freed⟩ := freed
        have below : SameTables before emptied :=
          foldlM_invariant (SameTables before)
            (fun _ _ _ _ kept round => kept.trans (inductionHypothesis round))
            (.refl before) folded
        exact below.trans (.bfree freed)

theorem releaseZone {index : Fin 9} (released : before.releaseZone ino level index = .ok after) :
    SameTables before after := by
  unfold Fs.releaseZone at released
  simp only [bind_eq_ok] at released
  obtain ⟨emptied, freed, same⟩ := released
  cases same
  exact (SameTables.inodeBfree freed).trans (.modifyDesc _ _ _)

theorem inodeTruncate (truncated : before.inodeTruncate ino = .ok after) :
    SameTables before after := by
  unfold Fs.inodeTruncate at truncated
  split at truncated
  · cases truncated
    exact .refl _
  · simp only [pure_eq_ok, bind_eq_ok] at truncated
    obtain ⟨emptied, folded, same⟩ := truncated
    cases same
    have below : SameTables before emptied :=
      foldlM_invariant (SameTables before)
        (fun _ _ _ _ kept round => kept.trans (.releaseZone round))
        (.refl before) folded
    exact below.trans ⟨rfl, rfl⟩

end SameTables

/-! ## Taking inodes -/

namespace Referenced

variable {start fs after : Fs} {base : Nat → Nat} {held : Multiset Nat} {found nr dir : Nat}

theorem fitInode (referenced : Referenced start fs base (ino ::ₘ held)) (few : held.card ≤ 3)
    (fitted : fs.fitInode ino = .ok (found, after)) :
    Referenced start after base (found ::ₘ held) := by
  unfold Fs.fitInode at fitted
  split at fitted
  · cases fitted
    exact referenced
  · rename_i covering
    split at fitted
    · cases fitted
    · rename_i sb isSuper
      rw [bind_eq_ok] at fitted
      obtain ⟨dropped, released, fitted⟩ := fitted
      have given := referenced.iput released
      split at fitted
      · cases fitted
      · rename_i iroot isRoot
        cases fitted
        have inTable := (dev_of_getSuper isSuper).2
        have mounted : (dropped.superTable sb).imount.isSome := by
          obtain ⟨_, same⟩ := (iput_tablesOnly released).1.superTable sb
          rw [same]
          exact referenced.covered ino sb covering isSuper
        have positive := given.mounts sb inTable mounted found (.inl isRoot)
        exact given.take few ⟨given.inUse (by omega),
          given.plainMounts sb inTable mounted found (.inl isRoot)⟩

theorem loadInode {sb : Nat} (referenced : Referenced start fs base held)
    (home : Home start dev) (isSuper : fs.getSuper dev = some sb)
    (fresh : ∀ other ∈ (fs.superTable sb).inodeList, (fs.inodeTable other).nr ≠ nr)
    (loaded : fs.loadInode sb dev nr = .ok (found, after)) :
    Referenced start after base (found ::ₘ held) := by
  obtain ⟨_, isFree, _, notListed, rfl⟩ := loadInode_cases loaded
  have loads : Loads fs sb dev nr found := ⟨isSuper, home.real, isFree, notListed⟩
  have notRoot : found ≠ rootInode := fun same =>
    referenced.root (same ▸ isFree)
  obtain ⟨unused, notPipe⟩ := referenced.blank found isFree
  have counted := referenced.count found
  have notMount (other : Nat) (inTable : other < superNr) :
      (fs.superTable other).imount ≠ some found := by
    intro mounted
    have positive := referenced.mounts other inTable (by rw [mounted]; rfl) found
      (.inr mounted)
    omega
  have sameStart : fs.getSuper = start.getSuper := getSuper_congr fun other => by
    obtain ⟨_, same⟩ := referenced.pointers other
    rw [same]
  refine
    { toInOrder := referenced.toInOrder.loaded loads notMount
      count := fun other => ?count
      room := referenced.room
      mounts := fun other inTable mounted ino pointed => ?mounts
      pointers := fun other => ?pointers
      plain := fun other present => ?plain
      kept := fun other positive => ?kept
      mount := fun other => (withLoaded_mount other).trans (referenced.mount other)
      filed := fun filed => (referenced.filed filed).loaded referenced.toInOrder loads fresh
      rooted := fun filed other inTable rooted => ?rooted }
  case count =>
    by_cases same : other = found
    · rw [same, withLoaded_self, Multiset.count_cons_self]
      simp only [loadedInode, notRoot, if_false]
      omega
    · rw [withLoaded_other same, Multiset.count_cons_of_ne same]
      exact referenced.count other
  case mounts =>
    rw [(withLoaded_pointers other).2.2] at mounted
    rw [(withLoaded_pointers other).2.1, (withLoaded_pointers other).2.2] at pointed
    exact referenced.mounts other inTable mounted ino pointed
  case pointers =>
    obtain ⟨inodeList, isAfter⟩ := withLoaded_tablesOnly fs sb dev nr found |>.superTable other
    obtain ⟨_, isBefore⟩ := referenced.pointers other
    exact ⟨inodeList, by rw [isAfter, isBefore]⟩
  case plain =>
    rw [withLoaded_pipe]
    rcases Multiset.mem_cons.mp present with same | present
    · rw [same]
      exact notPipe
    · exact referenced.plain other present
  case kept =>
    have different : other ≠ found := by
      rintro rfl
      omega
    rw [withLoaded_other different]
    exact referenced.kept other positive
  case rooted =>
    refine (referenced.rooted filed other inTable rooted).loaded referenced.toInOrder inTable
      loads fun same => ?_
    rw [same] at rooted
    obtain ⟨_, isSame⟩ := referenced.pointers sb
    rw [isSame]
    exact home.mounted filed sb (sameStart ▸ isSuper) rooted

/-- The device of an inode that is held. -/
theorem home (referenced : Referenced start fs base held) (present : ino ∈ held) :
    Home start (fs.inodeTable ino).dev := by
  obtain ⟨used, plain⟩ := referenced.holds present
  refine ⟨used, fun filed sb isSuper rooted => ?_⟩
  have sameStart : fs.getSuper = start.getSuper := getSuper_congr fun other => by
    obtain ⟨_, same⟩ := referenced.pointers other
    rw [same]
  obtain ⟨other, found, listed⟩ := (referenced.filed filed).found ino used plain
  rw [sameStart, isSuper] at found
  cases found
  have inTable := (dev_of_getSuper isSuper).2
  have now := referenced.rooted filed sb inTable rooted
  obtain ⟨_, same⟩ := referenced.pointers sb
  cases isMounted : (start.superTable sb).imount with
  | some _ => rfl
  | none =>
      rw [now.unmounted (by rw [same]; exact isMounted)] at listed
      cases listed

/-- `iget` takes a reference to the inode that it returns. -/
theorem iget (referenced : Referenced start fs base held) (few : held.card ≤ 2)
    (home : Home start dev) (taken : fs.iget dev nr = .ok (found, after)) :
    Referenced start after base (found ::ₘ held) := by
  unfold Fs.iget at taken
  rw [bind_eq_ok] at taken
  obtain ⟨loaded, searched, taken⟩ := taken
  cases isSuper : fs.getSuper dev with
  | none =>
      unfold findInode at searched
      rw [isSuper] at searched
      cases searched
  | some sb =>
      have inTable := (dev_of_getSuper isSuper).2
      unfold findInode at searched
      rw [isSuper] at searched
      cases searched
      cases isLoaded : (fs.superTable sb).inodeList.find? fun ino =>
          (fs.inodeTable ino).nr = nr with
      | none =>
          rw [isLoaded] at taken
          dsimp only at taken
          rw [isSuper] at taken
          have fresh : ∀ other ∈ (fs.superTable sb).inodeList,
              (fs.inodeTable other).nr ≠ nr := by
            simpa using List.find?_eq_none.mp isLoaded
          exact referenced.loadInode home isSuper fresh taken
      | some ino =>
          rw [isLoaded] at taken
          have present := List.mem_of_find?_eq_some isLoaded
          have used := referenced.listed sb inTable ino present
          exact (referenced.take (by omega) used).fitInode (by omega) taken

/-- Leaving a mounted device exchanges the directory that is held. -/
theorem leaveMount (referenced : Referenced start fs base (dir ::ₘ held)) (few : held.card ≤ 2)
    (left : fs.leaveMount dir name = .ok (found, after)) :
    Referenced start after base (found ::ₘ held) := by
  unfold Fs.leaveMount at left
  dsimp only at left
  split at left
  · split at left
    · cases left
    · rename_i sb isSuper
      split at left
      · cases left
      · rename_i mounted isMounted
        simp only [pure_eq_ok, bind_eq_ok] at left
        obtain ⟨dropped, released, same⟩ := left
        cases same
        have inTable := (dev_of_getSuper isSuper).2
        have isSome : (fs.superTable sb).imount.isSome := by rw [isMounted]; rfl
        have positive := referenced.mounts sb inTable isSome _ (.inr isMounted)
        have used : (fs.inodeTable found).dev ≠ eof := referenced.inUse (by omega)
        have both := referenced.take (by rw [Multiset.card_cons]; omega) ⟨used,
          referenced.plainMounts sb inTable isSome _ (.inr isMounted)⟩
        rw [Multiset.cons_swap] at both
        exact both.iput released
  · cases left
    exact referenced

/-- A directory that has been left for the one that a device is mounted on is not
left again. -/
theorem leaveMount_settled (referenced : Referenced start fs base (dir ::ₘ held))
    (few : held.card ≤ 2) (left : fs.leaveMount dir name = .ok (found, after)) :
    after.leaveMount found name = .ok (found, after) := by
  have kept := referenced.leaveMount few left
  unfold Fs.leaveMount at left
  dsimp only at left
  split at left
  · split at left
    · cases left
    · rename_i sb isSuper
      split at left
      · cases left
      · rename_i mounted isMounted
        simp only [pure_eq_ok, bind_eq_ok] at left
        obtain ⟨dropped, released, same⟩ := left
        cases same
        have inTable := (dev_of_getSuper isSuper).2
        have stillMounted : (after.superTable sb).imount = some found := by
          obtain ⟨_, same⟩ := (iput_tablesOnly released).1.superTable sb
          rw [same]
          exact isMounted
        have stays : ¬((matchName name dotDot).isSome = true ∧
            (after.inodeTable found).nr = 1 ∧ found ≠ rootInode) := by
          rintro ⟨_, isOne, notRoot⟩
          rcases kept.mountPoint sb inTable found stillMounted with isRoot | notOne
          · exact notRoot isRoot
          · exact notOne isOne
        unfold Fs.leaveMount
        rw [if_neg stays]
        rfl
  · rename_i stays
    cases left
    unfold Fs.leaveMount
    rw [if_neg stays]
    rfl

end Referenced

end Fs
end LightOS
