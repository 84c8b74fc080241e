import LightOS.Fs.Walking
import LightOS.Fs.Opening
import LightOS.Fs.Paths
import LightOS.Foundation.Ledger

/-!
# Balance of references

Every system call on names should change the count of an inode by as much as the
number of lasting references to it has changed.
-/

namespace LightOS
namespace Fs

variable {value : Int} {mode dev flag : Nat} {entry : EntryRef} {result first second : Option Nat}

/-- What is held with a pointer that may be null. -/
def holding : Option Nat → Multiset Nat → Multiset Nat
  | none, held => held
  | some ino, held => ino ::ₘ held

/-- What a system call does to the counts: it has given back all that it held, or it
has failed and lost a reference. -/
inductive Settled (start : Fs) (base : Nat → Nat) (held : Multiset Nat) (lost : Prop) :
    Int → Fs → Prop
  | settled {value : Int} {after : Fs} :
      Referenced start after base held → ¬lost →
        Settled start base held lost value after
  | lost {leaked : Nat} {after : Fs} :
      Referenced start after base (leaked ::ₘ held) → lost →
        Settled start base held lost (-1) after

/-- `add_entry` in a directory that is not left again changes no table. -/
theorem SameTables.addEntry {fs after : Fs} {dir : Nat} {name : Cursor}
    (settled : fs.leaveMount dir name = .ok (dir, fs))
    (added : fs.addEntry dir name = .ok (entry, after)) : SameTables fs after := by
  unfold Fs.addEntry Fs.findEntry at added
  rw [settled] at added
  simp only [ok_bind, bind_eq_ok] at added
  obtain ⟨⟨found, dir, searched⟩, ⟨_, _, found, _, same⟩, added⟩ := added
  cases same
  cases found with
  | some found =>
      cases added
      exact .refl _
  | none =>
      simp only [bind_eq_ok] at added
      obtain ⟨_, _, claimed⟩ := added
      exact .claimEntry claimed

/-- One of the two walks of `sys_link` comes to an inode that it may not search. -/
def LinkRefused (fs : Fs) (task : Creds) (oldname newname : Option Cursor) : Prop :=
  fs.Refused task oldname ∨
    ∃ inode found, fs.namei task oldname = .ok (some inode, found) ∧
      isDir (found.desc inode).mode = false ∧ found.Refused task newname

namespace Referenced

variable {start fs after : Fs} {base : Nat → Nat} {held : Multiset Nat} {inode dir : Nat}
  {task : Creds} {name : Cursor}

theorem iputOption {pointer : Option Nat}
    (released : fs.iputOption pointer = .ok after)
    (referenced : Referenced start fs base (holding pointer held)) :
    Referenced start after base held := by
  cases pointer with
  | none =>
      cases released
      exact referenced
  | some ino => exact referenced.iput released

/-- The label `clean` gives back the inodes that are held. -/
theorem leave {result : Int} (left : fs.leave result first second = .ok (value, after))
    (referenced : Referenced start fs base (holding first (holding second held))) :
    Referenced start after base held := by
  unfold Fs.leave at left
  simp only [bind_eq_ok] at left
  obtain ⟨released, release, last, lastRelease, same⟩ := left
  cases same
  exact iputOption lastRelease (iputOption release referenced)

/-- The device of the inode that has been taken last. -/
theorem own (referenced : Referenced start fs base (inode ::ₘ held)) :
    Home start (fs.inodeTable inode).dev :=
  referenced.home (Multiset.mem_cons_self inode held)

/-- An inode without lasting references may change its number, but not to that of a
root directory. -/
theorem renumber (inode : Nat) (referenced : Referenced start fs base held)
    (unreferenced : base inode = 0) :
    Referenced start (fs.setInode inode { fs.inodeTable inode with nr := 0 }) base
      held := by
  have fields (other : Nat) : ∃ nr,
      (fs.setInode inode { fs.inodeTable inode with nr := 0 }).inodeTable other =
        { fs.inodeTable other with nr := nr } ∧
      (other ≠ inode ∧ nr = (fs.inodeTable other).nr ∨ other = inode ∧ nr = 0) := by
    by_cases same : other = inode
    · exact ⟨0, by simp [same], .inr ⟨same, rfl⟩⟩
    · exact ⟨_, by simp [same], .inl ⟨same, rfl⟩⟩
  have order : (fs.setInode inode { fs.inodeTable inode with nr := 0 }).InOrder := by
    refine
      { blank := fun other => ?blank
        listed := fun sb inTable other present => ?listed
        nodup := referenced.nodup
        root := ?root
        rootMounted := referenced.rootMounted
        plainMounts := fun sb inTable mounted other pointed => ?plainMounts
        covered := fun other sb covering isSuper => ?covered
        mountPoint := fun sb inTable other mounted => ?mountPoint }
    case blank =>
      obtain ⟨_, same, _⟩ := fields other
      rw [same]
      exact referenced.blank other
    case listed =>
      obtain ⟨_, same, _⟩ := fields other
      rw [same]
      exact referenced.listed sb inTable other present
    case root =>
      obtain ⟨_, same, _⟩ := fields rootInode
      rw [same]
      exact referenced.root
    case plainMounts =>
      obtain ⟨_, same, _⟩ := fields other
      rw [same]
      exact referenced.plainMounts sb inTable mounted other pointed
    case covered =>
      obtain ⟨_, same, _⟩ := fields other
      rw [same] at covering isSuper
      exact referenced.covered other sb covering isSuper
    case mountPoint =>
      obtain ⟨nr, same, ⟨_, kept⟩ | ⟨_, zero⟩⟩ := fields other
      · rw [same, kept]
        exact referenced.mountPoint sb inTable other mounted
      · rw [same, zero]
        exact .inr (by simp)
  refine
    { toInOrder := order
      count := fun other => ?count
      room := referenced.room
      mounts := referenced.mounts
      pointers := referenced.pointers
      plain := fun other present => ?plain
      kept := fun other positive => ?kept
      mount := fun other => ?mount
      filed := fun filed => ?filed
      rooted := fun filed sb inTable rooted => ?rooted }
  case count =>
    obtain ⟨_, same, _⟩ := fields other
    rw [same]
    exact referenced.count other
  case plain =>
    obtain ⟨_, same, _⟩ := fields other
    rw [same]
    exact referenced.plain other present
  case kept =>
    obtain ⟨nr, same, ⟨_, isNr⟩ | ⟨isInode, _⟩⟩ := fields other
    · rw [same, isNr]
      exact referenced.kept other positive
    · rw [isInode, unreferenced] at positive
      exact absurd positive (Nat.lt_irrefl 0)
  case mount =>
    obtain ⟨_, same, _⟩ := fields other
    rw [same]
    exact referenced.mount other
  case filed =>
    have before := referenced.filed filed
    have isOne (other : Nat) (one : ((fs.setInode inode
        { fs.inodeTable inode with nr := 0 }).inodeTable other).nr = 1) :
        (fs.inodeTable other).nr = 1 := by
      obtain ⟨nr, same, ⟨_, kept⟩ | ⟨_, zero⟩⟩ := fields other
      · rw [same, kept] at one
        exact one
      · rw [same, zero] at one
        cases one
    refine
      { carries := fun sb inTable other present => ?carries
        found := fun other used plain => ?found
        only := fun sb inTable left leftIn right rightIn leftOne rightOne =>
          before.only sb inTable left leftIn right rightIn (isOne left leftOne)
            (isOne right rightOne) }
    case carries =>
      obtain ⟨_, same, _⟩ := fields other
      rw [same]
      exact before.carries sb inTable other present
    case found =>
      obtain ⟨_, same, _⟩ := fields other
      rw [same] at used plain ⊢
      exact before.found other used plain
  case rooted =>
    have before := referenced.rooted filed sb inTable rooted
    refine { unmounted := before.unmounted, iroot := fun mounted => ?_ }
    obtain ⟨iroot, present, isRoot, one⟩ := before.iroot mounted
    have positive := referenced.mounts sb inTable mounted iroot (.inl isRoot)
    refine ⟨iroot, present, isRoot, ?_⟩
    obtain ⟨nr, same, ⟨_, kept⟩ | ⟨isInode, _⟩⟩ := fields iroot
    · rw [same, kept]
      exact one
    · rw [isInode, unreferenced] at positive
      exact absurd positive (Nat.lt_irrefl 0)

/-! ## Creating entries -/

theorem newInode {nr : Nat} (referenced : Referenced start fs base held) (few : held.card ≤ 2)
    (home : Home start dev) (made : fs.newInode task dev nr = .ok (inode, after)) :
    Referenced start after base (inode ::ₘ held) := by
  unfold Fs.newInode at made
  rw [bind_eq_ok] at made
  obtain ⟨⟨ino, taken⟩, take, same⟩ := made
  cases same
  exact (referenced.iget few home take).congr (.modifyDesc _ _ _)

/-- The entry and the inode that a system call creates. -/
theorem created {nr : Nat} {named numbered : Fs}
    (referenced : Referenced start fs base (dir ::ₘ held)) (few : held.card ≤ 1)
    (settled : fs.leaveMount dir name = .ok (dir, fs))
    (added : fs.addEntry dir name = .ok (entry, named))
    (allotted : named.ialloc (named.inodeTable dir).dev = .ok (nr, numbered))
    (made : (numbered.modifyEntry entry (Dentry.setNr nr)).newInode task
      ((numbered.modifyEntry entry (Dentry.setNr nr)).inodeTable dir).dev
      ((numbered.modifyEntry entry (Dentry.setNr nr)).entry entry).nr =
        .ok (inode, after)) : Referenced start after base (inode ::ₘ dir ::ₘ held) := by
  have same := ((SameTables.addEntry settled added).trans (.ialloc allotted)).trans
    (.modifyEntry numbered entry (Dentry.setNr nr))
  have holds := referenced.congr same
  apply holds.newInode _ holds.own made
  rw [Multiset.card_cons]
  omega

theorem makeup (referenced : Referenced start fs base (inode ::ₘ dir ::ₘ held))
    (returned : fs.makeup dir inode flag = .ok (result, after)) :
    result = some inode ∧ Referenced start after base (inode ::ₘ held) := by
  unfold Fs.makeup at returned
  simp only [bind_eq_ok] at returned
  obtain ⟨truncated, truncate, released, release, same⟩ := returned
  cases same
  have emptied : SameTables fs truncated := by
    split at truncate
    · exact .inodeTruncate truncate
    · cases truncate
      exact .refl _
  have swapped := referenced.congr emptied
  rw [Multiset.cons_swap] at swapped
  exact ⟨rfl, swapped.iput release⟩

/-- The label `clean` of `inode_open`. -/
theorem clean (cleaned : fs.clean second first = .ok (result, after))
    (referenced : Referenced start fs base (holding first (holding second held))) :
    result = none ∧ Referenced start after base held := by
  unfold Fs.clean at cleaned
  simp only [bind_eq_ok] at cleaned
  obtain ⟨released, release, last, lastRelease, same⟩ := cleaned
  cases same
  exact ⟨rfl, iputOption lastRelease (iputOption release referenced)⟩

theorem createFile (referenced : Referenced start fs base (dir ::ₘ held)) (few : held.card ≤ 1)
    (settled : fs.leaveMount dir name = .ok (dir, fs))
    (made : fs.createFile task dir name flag mode = .ok (result, after)) :
    ∃ ino, result = some ino ∧ Referenced start after base (ino ::ₘ held) := by
  unfold Fs.createFile at made
  simp only [bind_eq_ok] at made
  obtain ⟨⟨entry, named⟩, added, ⟨nr, numbered⟩, allotted, ⟨ino, loaded⟩, created,
    returned⟩ := made
  have both := referenced.created few settled added allotted created
  obtain ⟨isInode, holds⟩ := (both.congr (.modifyDesc _ _ _)).makeup returned
  exact ⟨ino, isInode, holds⟩

theorem makeDirectory (referenced : Referenced start fs base (dir ::ₘ held)) (few : held.card ≤ 1)
    (settled : fs.leaveMount dir name = .ok (dir, fs))
    (made : fs.makeDirectory task dir name mode = .ok (value, after)) :
    Referenced start after base held := by
  unfold Fs.makeDirectory at made
  simp only [bind_eq_ok] at made
  obtain ⟨⟨entry, named⟩, added, ⟨nr, numbered⟩, allotted, ⟨ino, loaded⟩, created,
    ⟨zone, mapped⟩, map, left⟩ := made
  have both := referenced.created few settled added allotted created
  have same : SameTables loaded mapped :=
    ((SameTables.modifyDesc _ _ _).trans (.modifyDesc _ _ _)).trans (.bmap map)
  exact leave left ((both.congr same).congr (.writeBlock _ _ _ _))

theorem makeNode (referenced : Referenced start fs base (dir ::ₘ held)) (few : held.card ≤ 1)
    (settled : fs.leaveMount dir name = .ok (dir, fs))
    (made : fs.makeNode task dir name mode dev = .ok (value, after)) :
    Referenced start after base held := by
  unfold Fs.makeNode at made
  simp only [bind_eq_ok] at made
  obtain ⟨⟨entry, named⟩, added, ⟨nr, numbered⟩, allotted, ⟨ino, loaded⟩, created,
    left⟩ := made
  have both := (referenced.created few settled added allotted created).congr
    (.modifyDesc loaded ino (InodeDesc.setMode mode))
  split at left
  · exact leave left (both.congr (.modifyDesc _ _ _))
  · exact leave left both

theorem addLink (referenced : Referenced start fs base (dir ::ₘ inode ::ₘ held))
    (settled : fs.leaveMount dir name = .ok (dir, fs))
    (linked : fs.addLink inode dir name = .ok (value, after)) :
    Referenced start after base held := by
  unfold Fs.addLink at linked
  simp only [bind_eq_ok] at linked
  obtain ⟨⟨entry, named⟩, added, left⟩ := linked
  have same := (SameTables.addEntry settled added).trans
    (.modifyEntry named entry (Dentry.setNr (named.inodeTable inode).nr))
  exact leave left ((referenced.congr same).congr (.modifyDesc _ _ _))

/-! ## Removing entries -/

theorem removeDirectory (referenced : Referenced start fs base (inode ::ₘ dir ::ₘ held))
    (unshared : ¬1 < (fs.inodeTable inode).count)
    (removed : fs.removeDirectory dir inode entry = .ok (value, after)) :
    Referenced start after base held := by
  have counted := referenced.count inode
  rw [Multiset.count_cons_self] at counted
  unfold Fs.removeDirectory at removed
  simp only [bind_eq_ok] at removed
  obtain ⟨_, _, emptied, truncate, freed, free, _, _, left⟩ := removed
  have same := (SameTables.inodeTruncate truncate).trans (.ifree free)
  have renumbered := ((referenced.congr same).congr
    (.modifyDesc freed inode (InodeDesc.setNlinks 0))).renumber inode (by omega)
  exact leave left (((renumbered.congr (.modifyDesc _ _ _)).congr
    (.modifyDesc _ _ _)).congr (.modifyEntry _ _ _))

theorem removeLink (referenced : Referenced start fs base (inode ::ₘ dir ::ₘ held))
    (removed : fs.removeLink dir inode entry = .ok (value, after)) :
    Referenced start after base held := by
  unfold Fs.removeLink at removed
  simp only [bind_eq_ok] at removed
  obtain ⟨_, _, freed, free, left⟩ := removed
  have same : SameTables fs freed := by
    apply (SameTables.modifyEntry fs entry (Dentry.setNr 0)).trans
    apply (SameTables.modifyDesc _ inode (InodeDesc.setNlinks
      (((fs.modifyEntry entry (Dentry.setNr 0)).desc inode).nlinks + (2 ^ 8 - 1)))).trans
    split at free
    · simp only [bind_eq_ok] at free
      obtain ⟨emptied, truncate, free⟩ := free
      exact (SameTables.inodeTruncate truncate).trans (.ifree free)
    · cases free
      exact .refl _
  exact leave left (referenced.congr same)

/-! ## System calls -/

theorem inodeOpen {pathname : Option Cursor} (referenced : Referenced start fs base held)
    (few : held.card ≤ 1) (iroot : Lasting start base task.iroot)
    (ipwd : Lasting start base task.ipwd)
    (opened : fs.inodeOpen task pathname flag mode = .ok (result, after)) :
    Handed start base held (¬RefusedFlag flag ∧ fs.Refused task pathname) result
      after := by
  by_cases refused : RefusedFlag flag
  · rw [inodeOpen_of_refusedFlag refused] at opened
    cases opened
    exact .nothing referenced fun lost => lost.1 refused
  · unfold Fs.inodeOpen at opened
    unfold RefusedFlag at refused
    rw [if_neg refused, bind_eq_ok] at opened
    obtain ⟨⟨parent, walkedFs⟩, walked, opened⟩ := opened
    have walks := referenced.named (by omega) iroot ipwd walked
    match parent, opened, walks with
    | none, opened, .nothing holds accepted =>
        cases opened
        exact .nothing holds fun lost => accepted lost.2
    | none, opened, .lost holds stopped =>
        cases opened
        exact .lost holds ⟨refused, stopped⟩
    | some (dir, []), opened, .handed holds accepted =>
        cases opened
        exact .handed holds fun lost => accepted lost.2
    | some (dir, next :: rest), opened, .handed holds accepted =>
        have notLost (lost : ¬RefusedFlag flag ∧ fs.Refused task pathname) : False :=
          accepted lost.2
        dsimp only at opened
        rw [bind_eq_ok] at opened
        obtain ⟨⟨found, foundDir, searched⟩, search, opened⟩ := opened
        obtain ⟨directory, settled⟩ := holds.findEntry (by omega) search
        cases found with
        | none =>
            dsimp only at opened
            split at opened
            · obtain ⟨rfl, released⟩ := clean opened directory
              exact .nothing released notLost
            · split at opened
              · obtain ⟨rfl, released⟩ := clean opened directory
                exact .nothing released notLost
              · obtain ⟨ino, rfl, made⟩ := directory.createFile few settled opened
                exact .handed made notLost
        | some found =>
            dsimp only at opened
            rw [bind_eq_ok] at opened
            obtain ⟨⟨ino, taken⟩, take, opened⟩ := opened
            have both := directory.iget (by rw [Multiset.card_cons]; omega)
              directory.own take
            dsimp only at opened
            split at opened
            · obtain ⟨rfl, returned⟩ := both.makeup opened
              exact .handed returned notLost
            · split at opened
              · obtain ⟨rfl, released⟩ := clean opened both
                exact .nothing released notLost
              · obtain ⟨rfl, returned⟩ := both.makeup opened
                exact .handed returned notLost

/-- A system call that walks to a directory first. -/
theorem walk {pathname : Option Cursor}
    {body : Option (Nat × Cursor) × Fs → Except Fault (Int × Fs)}
    (referenced : Referenced start fs base held) (few : held.card ≤ 2)
    (iroot : Lasting start base task.iroot) (ipwd : Lasting start base task.ipwd)
    (called : (fs.named task pathname >>= body) = .ok (value, after))
    (nowhere : ∀ walked, body (none, walked) = .ok (-1, walked))
    (arrived : ∀ dir name walked, Referenced start walked base (dir ::ₘ held) →
      body (some (dir, name), walked) = .ok (value, after) →
        Referenced start after base held) :
    Settled start base held (fs.Refused task pathname) value after := by
  rw [bind_eq_ok] at called
  obtain ⟨⟨parent, walkedFs⟩, walked, called⟩ := called
  have walks := referenced.named few iroot ipwd walked
  match parent, called, walks with
  | none, called, .nothing holds accepted =>
      rw [nowhere] at called
      cases called
      exact .settled holds accepted
  | none, called, .lost holds stopped =>
      rw [nowhere] at called
      cases called
      exact .lost holds stopped
  | some (dir, name), called, .handed holds accepted =>
      exact .settled (arrived dir name walkedFs holds called) accepted

section Calls

variable {pathname : Option Cursor}
  (referenced : Referenced start fs base held) (few : held.card ≤ 1)
  (iroot : Lasting start base task.iroot) (ipwd : Lasting start base task.ipwd)

include referenced few iroot ipwd

theorem sysMkdir (made : fs.sysMkdir task pathname mode = .ok (value, after)) :
    Settled start base held (fs.Refused task pathname) value after := by
  apply referenced.walk (by omega) iroot ipwd made fun _ => rfl
  intro dir name walked holds made
  cases name with
  | nil => exact leave made holds
  | cons next rest =>
      dsimp only at made
      split at made
      · exact leave made holds
      · rw [bind_eq_ok] at made
        obtain ⟨⟨found, foundDir, searched⟩, search, made⟩ := made
        obtain ⟨directory, settled⟩ := holds.findEntry (by omega) search
        cases found with
        | some _ => exact leave made directory
        | none => exact directory.makeDirectory few settled made

theorem sysMknod (made : fs.sysMknod task pathname mode dev = .ok (value, after)) :
    Settled start base held (fs.Refused task pathname) value after := by
  apply referenced.walk (by omega) iroot ipwd made fun _ => rfl
  intro dir name walked holds made
  cases name with
  | nil => exact leave made holds
  | cons next rest =>
      dsimp only at made
      split at made
      · exact leave made holds
      · rw [bind_eq_ok] at made
        obtain ⟨⟨found, foundDir, searched⟩, search, made⟩ := made
        obtain ⟨directory, settled⟩ := holds.findEntry (by omega) search
        cases found with
        | some _ => exact leave made directory
        | none => exact directory.makeNode few settled made

theorem sysRmdir (removed : fs.sysRmdir task pathname = .ok (value, after)) :
    Settled start base held (fs.Refused task pathname) value after := by
  apply referenced.walk (by omega) iroot ipwd removed fun _ => rfl
  intro dir name walked holds removed
  cases name with
  | nil => exact leave removed holds
  | cons next rest =>
      dsimp only at removed
      split at removed
      · exact leave removed holds
      · split at removed
        · exact leave removed holds
        · rw [bind_eq_ok] at removed
          obtain ⟨⟨found, foundDir, searched⟩, search, removed⟩ := removed
          have directory := (holds.findEntry (by omega) search).1
          cases found with
          | none => exact leave removed directory
          | some found =>
              dsimp only at removed
              rw [bind_eq_ok] at removed
              obtain ⟨⟨ino, taken⟩, take, removed⟩ := removed
              have both := directory.iget (by rw [Multiset.card_cons]; omega)
                directory.own take
              rw [bind_eq_ok] at removed
              obtain ⟨_, _, removed⟩ := removed
              dsimp only at removed
              split at removed
              · exact leave removed both
              · split at removed
                · exact leave removed both
                · split at removed
                  · exact leave removed both
                  · rename_i unshared
                    rw [bind_eq_ok] at removed
                    obtain ⟨empty, _, removed⟩ := removed
                    split at removed
                    · exact leave removed both
                    · exact both.removeDirectory (fun more => unshared (.inr more)) removed

theorem sysUnlink (removed : fs.sysUnlink task pathname = .ok (value, after)) :
    Settled start base held (fs.Refused task pathname) value after := by
  apply referenced.walk (by omega) iroot ipwd removed fun _ => rfl
  intro dir name walked holds removed
  cases name with
  | nil => exact leave removed holds
  | cons next rest =>
      dsimp only at removed
      split at removed
      · exact leave removed holds
      · rw [bind_eq_ok] at removed
        obtain ⟨⟨found, foundDir, searched⟩, search, removed⟩ := removed
        have directory := (holds.findEntry (by omega) search).1
        cases found with
        | none => exact leave removed directory
        | some found =>
            dsimp only at removed
            rw [bind_eq_ok] at removed
            obtain ⟨⟨ino, taken⟩, take, removed⟩ := removed
            have both := directory.iget (by rw [Multiset.card_cons]; omega)
              directory.own take
            dsimp only at removed
            split at removed
            · exact leave removed both
            · split at removed
              · exact leave removed both
              · exact both.removeLink removed

theorem sysStat {status : Option Stat}
    (read : fs.sysStat task pathname = .ok (value, status, after)) :
    Settled start base held (fs.Refused task pathname) value after := by
  unfold Fs.sysStat at read
  rw [bind_eq_ok] at read
  obtain ⟨⟨ino, found⟩, resolved, read⟩ := read
  match ino, read, referenced.namei few iroot ipwd resolved with
  | none, read, .nothing holds accepted =>
      cases read
      exact .settled holds accepted
  | none, read, .lost holds stopped =>
      cases read
      exact .lost holds stopped
  | some ino, read, .handed holds accepted =>
      simp only [bind_eq_ok] at read
      obtain ⟨released, release, same⟩ := read
      cases same
      exact .settled (holds.iput release) accepted

end Calls

theorem leave_value {result : Int} (left : fs.leave result first second = .ok (value, after)) :
    value = result := by
  unfold Fs.leave at left
  simp only [bind_eq_ok] at left
  obtain ⟨_, _, _, _, same⟩ := left
  cases same
  rfl

theorem sysLink {oldname newname : Option Cursor} (referenced : Referenced start fs base held)
    (few : held.card = 0) (iroot : Lasting start base task.iroot)
    (ipwd : Lasting start base task.ipwd)
    (linked : fs.sysLink task oldname newname = .ok (value, after)) :
    Settled start base held (fs.LinkRefused task oldname newname) value after := by
  unfold Fs.sysLink at linked
  rw [bind_eq_ok] at linked
  obtain ⟨⟨ino, found⟩, resolved, linked⟩ := linked
  match ino, linked, referenced.namei (by omega) iroot ipwd resolved with
  | none, linked, .nothing holds accepted =>
      cases linked
      apply Settled.settled holds
      rintro (stopped | ⟨_, _, other, _⟩)
      · exact accepted stopped
      · cases resolved.symm.trans other
  | none, linked, .lost holds stopped =>
      cases linked
      exact .lost holds (.inl stopped)
  | some ino, linked, .handed holds accepted =>
      have refused : fs.LinkRefused task oldname newname ↔
          isDir (found.desc ino).mode = false ∧ found.Refused task newname := by
        constructor
        · rintro (stopped | ⟨_, _, other, isFile, stopped⟩)
          · exact absurd stopped accepted
          · cases resolved.symm.trans other
            exact ⟨isFile, stopped⟩
        · rintro ⟨isFile, stopped⟩
          exact .inr ⟨ino, found, resolved, isFile, stopped⟩
      rw [refused]
      dsimp only at linked
      split at linked
      · rename_i isDirectory
        apply Settled.settled (leave linked holds)
        rintro ⟨isFile, _⟩
        rw [isFile] at isDirectory
        cases isDirectory
      · rename_i notDirectory
        have isFile : isDir (found.desc ino).mode = false := by simpa using notDirectory
        rw [bind_eq_ok] at linked
        obtain ⟨⟨parent, walkedFs⟩, walked, linked⟩ := linked
        have walks := holds.named (by rw [Multiset.card_cons]; omega) iroot ipwd walked
        match parent, linked, walks with
        | none, linked, .nothing holds accepted =>
            exact .settled (leave linked holds) fun lost => accepted lost.2
        | none, linked, .lost holds stopped =>
            cases leave_value linked
            rw [Multiset.cons_swap] at holds
            exact .lost (leave linked holds) ⟨isFile, stopped⟩
        | some (dir, []), linked, .handed holds accepted =>
            exact .settled (leave linked holds) fun lost => accepted lost.2
        | some (dir, next :: rest), linked, .handed holds accepted =>
            apply Settled.settled _ fun lost => accepted lost.2
            dsimp only at linked
            split at linked
            · exact leave linked holds
            · split at linked
              · exact leave linked holds
              · rw [bind_eq_ok] at linked
                obtain ⟨⟨entry, foundDir, searched⟩, search, linked⟩ := linked
                obtain ⟨directory, settled⟩ :=
                  holds.findEntry (by rw [Multiset.card_cons]; omega) search
                cases entry with
                | some _ => exact leave linked directory
                | none => exact directory.addLink settled linked

end Referenced

end Fs
end LightOS
