import LightOS.Fs.Balance
import LightOS.Fs.NameAccounts

/-!
# Balance of buffers

A call leaves the count of every buffer as the inodes in memory and the super blocks hold
it, exactly when it comes neither to `balloc` nor to `ialloc`.
-/

namespace LightOS
namespace Fs

variable {fs : Fs}

/-! ## The labels `clean` -/

theorem leave_accounts (fs : Fs) (result : Int) (first second : Option Nat)
    (pcache : Option BufferId) (given : Multiset BufferId) :
    books.Accounts fs (carrying pcache given) (Buffered.leave result first second pcache)
      (fs.leave result first second) (fun value after result => result = (value, after))
      fun _ => given := by
  unfold Buffered.leave Fs.leave
  refine .bind (iputOption_accounts fs first _) ?_
  rintro _ _ released _ rfl _
  refine .bind (iputOption_accounts released second _) ?_
  rintro _ _ last _ rfl _
  exact giveBack (.ret rfl rfl)

theorem clean_accounts (fs : Fs) (result : Int) (first second : Option Nat)
    (pcache : Option BufferId) (given : Multiset BufferId) :
    books.Accounts fs (carrying pcache given) (Buffered.clean result first second pcache)
      (fs.leave result first second) (fun value after result => result = (value, after))
      fun _ => given := by
  unfold Buffered.clean Fs.leave
  refine giveBack (.bind (iputOption_accounts fs first _) ?_)
  rintro _ _ released _ rfl _
  refine .bind (iputOption_accounts released second _) ?_
  rintro _ _ last _ rfl _
  exact .ret rfl rfl

/-! ## Creating entries -/

section Calls

variable {start : Fs} {base : Nat → Nat} {held : Multiset Nat} {task : Creds}
  {dir inode : Nat} {name : Cursor}

/-- The device of a directory in which an entry is created. -/
theorem real_of_created {named numbered : Fs} {entry : EntryRef} {nr : Nat}
    (referenced : Referenced start fs base (dir ::ₘ held))
    (settled : fs.leaveMount dir name = .ok (dir, fs))
    (added : fs.addEntry dir name = .ok (entry, named))
    (allotted : named.ialloc (named.inodeTable dir).dev = .ok (nr, numbered)) :
    ((numbered.modifyEntry entry (Dentry.setNr nr)).inodeTable dir).dev ≠ eof := by
  have same := ((SameTables.addEntry settled added).trans (.ialloc allotted)).trans
    (.modifyEntry numbered entry (Dentry.setNr nr))
  exact (referenced.congr same).own.real

theorem makeDirectory_accounts (referenced : Referenced start fs base (dir ::ₘ held))
    (settled : fs.leaveMount dir name = .ok (dir, fs)) (mode : Nat)
    (given : Multiset BufferId) :
    books.Accounts fs given (Buffered.makeDirectory task dir name mode)
      (fs.makeDirectory task dir name mode)
      (fun value after result => result = (value, after)) fun _ => given := by
  unfold Buffered.makeDirectory Fs.makeDirectory
  refine .bind (addEntry_accounts fs dir name given) ?_
  rintro entry named _ added rfl _
  refine .view (.bind (ialloc_accounts named _ _) ?_)
  rintro nr numbered _ allotted rfl _
  have real := real_of_created referenced settled added allotted
  refine .view (keep (.ofTables (.modifyEntry numbered entry _)) ?_)
  refine .bind (newInode_accounts real _ task _ _) ?_
  rintro inode made _ _ rfl _
  refine .view (keep (.ofTables ⟨rfl, rfl⟩) (.bind (bmap_accounts _ inode 0 true _) ?_))
  rintro zone mapped _ _ rfl _
  refine .view (read (keep (.ofTables ⟨rfl, rfl⟩) ?_))
  refine .bind (iput_accounts _ inode _) ?_
  rintro _ _ released _ rfl _
  refine .bind (iput_accounts released dir _) ?_
  rintro _ _ last _ rfl _
  exact .release (.release (.ret rfl rfl))

theorem makeNode_accounts (referenced : Referenced start fs base (dir ::ₘ held))
    (settled : fs.leaveMount dir name = .ok (dir, fs)) (mode dev : Nat)
    (given : Multiset BufferId) :
    books.Accounts fs given (Buffered.makeNode task dir name mode dev)
      (fs.makeNode task dir name mode dev)
      (fun value after result => result = (value, after)) fun _ => given := by
  unfold Buffered.makeNode Fs.makeNode
  refine .bind (addEntry_accounts fs dir name given) ?_
  rintro entry named _ added rfl _
  refine .view (.bind (ialloc_accounts named _ _) ?_)
  rintro nr numbered _ allotted rfl _
  have real := real_of_created referenced settled added allotted
  refine .view (keep (.ofTables (.modifyEntry numbered entry _)) ?_)
  refine .bind (newInode_accounts real _ task _ _) ?_
  rintro inode made _ _ rfl _
  refine .view (keep (.ofTables ?_) (clean_accounts _ _ _ _ (some entry.buffer) given))
  split
  · exact ⟨rfl, rfl⟩
  · exact ⟨rfl, rfl⟩

theorem addLink_accounts (fs : Fs) (inode dir : Nat) (name : Cursor)
    (given : Multiset BufferId) :
    books.Accounts fs given (Buffered.addLink inode dir name) (fs.addLink inode dir name)
      (fun value after result => result = (value, after)) fun _ => given := by
  unfold Buffered.addLink Fs.addLink
  refine .bind (addEntry_accounts fs dir name given) ?_
  rintro entry named _ added rfl _
  exact .view (keep (.ofTables ⟨rfl, rfl⟩) (clean_accounts _ _ _ _ (some entry.buffer) given))

/-! ## Removing entries -/

theorem countedBlock_eq (fs : Fs) (inode i number : Nat) :
    (if i % blockDentries = 0 then do
        let (block, _) ← fs.bmap inode (1 / blockDentries) false
        check (block ≠ 0)
        return block
      else
        return number) =
      (if i % blockDentries = 0 then fs.readBlock inode (1 / blockDentries) false
        else .ok (number, fs)) >>= fun found => .ok found.1 := by
  split
  · unfold readBlock
    simp only [bind_assoc, pure_eq_ok, ok_bind]
  · rfl

theorem countEntries_accounts (fs : Fs) (inode left : Nat) {i number : Nat}
    {pcache : Option BufferId} (opened : Opened fs inode i pcache number) (count : Nat)
    (given : Multiset BufferId) :
    books.Accounts fs (carrying pcache given)
      (Buffered.countEntries inode left i pcache count)
      (fs.countEntries inode left i number count)
      (fun value after result => after = fs ∧ result = value) fun _ => given := by
  induction left generalizing i number pcache count with
  | zero =>
      rw [Buffered.countEntries, Fs.countEntries]
      exact giveBack (.ret rfl ⟨rfl, rfl⟩)
  | succ left inductionHypothesis =>
      rw [Buffered.countEntries, Fs.countEntries, countedBlock_eq, bind_assoc]
      refine .bind (entryBlock_accounts opened _ false given) ?_
      rintro buffer after ⟨zone, mapped⟩ found ⟨rfl, rfl⟩ _
      obtain rfl := state_of_readBlock found
      exact .view (inductionHypothesis .opened _)

theorem isDirEmpty_accounts (fs : Fs) (inode : Nat) (given : Multiset BufferId) :
    books.Accounts fs given (Buffered.isDirEmpty inode) (fs.isDirEmpty inode)
      (fun value after result => after = fs ∧ result = value) fun _ => given := by
  unfold Buffered.isDirEmpty Fs.isDirEmpty
  refine .view (.lift fun _ _ => .ite (fun _ => .ret rfl ⟨rfl, rfl⟩) fun _ => ?_)
  refine .bind (countEntries_accounts fs inode _ (.fresh rfl) 0 given) ?_
  rintro count _ _ _ ⟨rfl, rfl⟩ _
  exact .ret rfl ⟨rfl, rfl⟩

theorem removeDirectory_accounts (fs : Fs) (dir inode : Nat) (entry : EntryRef)
    (given : Multiset BufferId) :
    books.Accounts fs (entry.buffer ::ₘ given) (Buffered.removeDirectory dir inode entry)
      (fs.removeDirectory dir inode entry)
      (fun value after result => result = (value, after)) fun _ => given := by
  unfold Buffered.removeDirectory Fs.removeDirectory
  refine .view (.lift fun _ _ => .bind (inodeTruncate_accounts fs inode _) ?_)
  rintro _ _ emptied _ rfl _
  refine .view (.bind (ifree_accounts emptied _ _ _) ?_)
  rintro _ _ freed _ rfl _
  refine .view (.lift fun _ _ => keep ?_ (leave_accounts _ _ _ _ (some entry.buffer) given))
  have numbered := SameHolders.renumber (freed.modifyDesc inode (InodeDesc.setNlinks 0)) inode 0
  exact (SameHolders.ofTables (.modifyDesc freed inode _)).trans
    (numbered.trans (.ofTables ⟨rfl, rfl⟩))

theorem freeUnlinked_accounts (fs : Fs) (inode : Nat) (given : Multiset BufferId) :
    books.Accounts fs given (Buffered.freeUnlinked inode)
      (if (fs.desc inode).nlinks = 0 then do
        let fs ← fs.inodeTruncate inode
        fs.ifree (fs.inodeTable inode).dev (fs.inodeTable inode).nr
      else
        return fs)
      (fun _ after result => result = after) fun _ => given := by
  unfold Buffered.freeUnlinked
  refine .view (.ite (fun _ => .bind (inodeTruncate_accounts fs inode given) ?_)
    fun _ => .ret rfl rfl)
  rintro _ _ emptied _ rfl _
  exact .view (ifree_accounts emptied _ _ given)

theorem removeLink_accounts (fs : Fs) (dir inode : Nat) (entry : EntryRef)
    (given : Multiset BufferId) :
    books.Accounts fs (entry.buffer ::ₘ given) (Buffered.removeLink dir inode entry)
      (fs.removeLink dir inode entry)
      (fun value after result => result = (value, after)) fun _ => given := by
  unfold Buffered.removeLink Fs.removeLink
  refine .view (.lift fun _ _ => keep (.ofTables ⟨rfl, rfl⟩) ?_)
  refine .bind (freeUnlinked_accounts _ inode _) ?_
  rintro _ _ freed _ rfl _
  exact clean_accounts _ _ _ _ (some entry.buffer) given

/-! ## System calls -/

variable (referenced : Referenced start fs base held)
  (iroot : Lasting start base task.iroot) (ipwd : Lasting start base task.ipwd)

include referenced iroot ipwd

theorem sysMkdir_accounts (few : held.card ≤ 1) (pathname : Option Cursor) (mode : Nat)
    (given : Multiset BufferId) :
    books.Accounts fs given (Buffered.sysMkdir task pathname mode)
      (fs.sysMkdir task pathname mode)
      (fun value after result => result = (value, after)) fun _ => given := by
  unfold Buffered.sysMkdir Fs.sysMkdir
  refine .bind (named_accounts referenced iroot ipwd (by omega) pathname given) ?_
  rintro parent walked _ walk rfl _
  match parent, referenced.named (by omega) iroot ipwd walk with
  | none, _ => exact leave_accounts walked _ none none none given
  | some (dir, []), _ => exact leave_accounts walked _ (some dir) none none given
  | some (dir, next :: rest), .handed holds _ =>
      refine .view (.ite (fun _ => leave_accounts walked _ _ _ none given) fun _ => ?_)
      refine .bind (findEntry_accounts walked dir _ given) ?_
      rintro ⟨found, parent⟩ searched _ search rfl _
      obtain ⟨directory, settled⟩ := holds.findEntry (by omega) search
      cases found with
      | some found => exact leave_accounts searched _ _ _ (some found.buffer) given
      | none => exact makeDirectory_accounts directory settled mode given

theorem sysMknod_accounts (few : held.card ≤ 1) (filename : Option Cursor) (mode dev : Nat)
    (given : Multiset BufferId) :
    books.Accounts fs given (Buffered.sysMknod task filename mode dev)
      (fs.sysMknod task filename mode dev)
      (fun value after result => result = (value, after)) fun _ => given := by
  unfold Buffered.sysMknod Fs.sysMknod
  refine .bind (named_accounts referenced iroot ipwd (by omega) filename given) ?_
  rintro parent walked _ walk rfl _
  match parent, referenced.named (by omega) iroot ipwd walk with
  | none, _ => exact clean_accounts walked _ none none none given
  | some (dir, []), _ => exact clean_accounts walked _ none (some dir) none given
  | some (dir, next :: rest), .handed holds _ =>
      refine .view (.ite (fun _ => clean_accounts walked _ _ _ none given) fun _ => ?_)
      refine .bind (findEntry_accounts walked dir _ given) ?_
      rintro ⟨found, parent⟩ searched _ search rfl _
      obtain ⟨directory, settled⟩ := holds.findEntry (by omega) search
      cases found with
      | some found => exact clean_accounts searched _ _ _ (some found.buffer) given
      | none => exact makeNode_accounts directory settled mode dev given

theorem sysLink_accounts (few : held.card = 0) (oldname newname : Option Cursor)
    (given : Multiset BufferId) :
    books.Accounts fs given (Buffered.sysLink task oldname newname)
      (fs.sysLink task oldname newname)
      (fun value after result => result = (value, after)) fun _ => given := by
  unfold Buffered.sysLink Fs.sysLink
  refine .bind (namei_accounts referenced iroot ipwd (by omega) oldname given) ?_
  rintro inode resolved _ resolve rfl _
  match inode, referenced.namei (by omega) iroot ipwd resolve with
  | none, _ => exact clean_accounts resolved _ none none none given
  | some inode, .handed holdsInode _ =>
      refine .view (.ite (fun _ => clean_accounts resolved _ _ _ none given) fun _ => ?_)
      have one : (inode ::ₘ held).card ≤ 2 := by
        rw [Multiset.card_cons]
        omega
      refine .bind (named_accounts holdsInode iroot ipwd one newname given) ?_
      rintro parent walked _ walk rfl _
      match parent, holdsInode.named one iroot ipwd walk with
      | none, _ => exact clean_accounts walked _ none (some inode) none given
      | some (dir, []), _ => exact clean_accounts walked _ (some dir) (some inode) none given
      | some (dir, next :: rest), .handed holds _ =>
          refine .view (.ite (fun _ => clean_accounts walked _ _ _ none given) fun _ => ?_)
          refine .ite (fun _ => clean_accounts walked _ _ _ none given) fun _ => ?_
          refine .bind (findEntry_accounts walked dir _ given) ?_
          rintro ⟨found, parent⟩ searched _ _ rfl _
          cases found with
          | some found => exact clean_accounts searched _ _ _ (some found.buffer) given
          | none => exact addLink_accounts searched inode parent _ given

theorem sysRmdir_accounts (few : held.card ≤ 1) (pathname : Option Cursor)
    (given : Multiset BufferId) :
    books.Accounts fs given (Buffered.sysRmdir task pathname) (fs.sysRmdir task pathname)
      (fun value after result => result = (value, after)) fun _ => given := by
  unfold Buffered.sysRmdir Fs.sysRmdir
  refine .bind (named_accounts referenced iroot ipwd (by omega) pathname given) ?_
  rintro parent walked _ walk rfl _
  match parent, referenced.named (by omega) iroot ipwd walk with
  | none, _ => exact leave_accounts walked _ none none none given
  | some (dir, []), _ => exact leave_accounts walked _ none (some dir) none given
  | some (dir, next :: rest), .handed holds _ =>
      refine .ite (fun _ => leave_accounts walked _ _ _ none given) fun _ => ?_
      refine .view (.ite (fun _ => leave_accounts walked _ _ _ none given) fun _ => ?_)
      refine .bind (findEntry_accounts walked dir _ given) ?_
      rintro ⟨found, parent⟩ searched _ search rfl _
      have directory := (holds.findEntry (by omega) search).1
      cases found with
      | none => exact leave_accounts searched _ none _ none given
      | some found =>
          have left (fs : Fs) (first second : Option Nat) :=
            leave_accounts fs (-1) first second (some found.buffer) given
          refine .view (.bind (iget_accounts directory.own.real searched _ _) ?_)
          rintro inode taken _ _ rfl _
          refine .lift fun _ _ => .view (.ite (fun _ => left taken _ _) fun _ => ?_)
          refine .ite (fun _ => left taken _ _) fun _ => ?_
          refine .ite (fun _ => left taken _ _) fun _ => ?_
          refine .bind (isDirEmpty_accounts taken inode _) ?_
          rintro empty checked _ _ ⟨rfl, rfl⟩ _
          refine .ite (fun _ => left checked _ _) fun _ => ?_
          exact removeDirectory_accounts checked parent inode found.entry given

theorem sysUnlink_accounts (few : held.card ≤ 1) (filename : Option Cursor)
    (given : Multiset BufferId) :
    books.Accounts fs given (Buffered.sysUnlink task filename) (fs.sysUnlink task filename)
      (fun value after result => result = (value, after)) fun _ => given := by
  unfold Buffered.sysUnlink Fs.sysUnlink
  refine .bind (named_accounts referenced iroot ipwd (by omega) filename given) ?_
  rintro parent walked _ walk rfl _
  match parent, referenced.named (by omega) iroot ipwd walk with
  | none, _ => exact clean_accounts walked _ none none none given
  | some (dir, []), _ => exact clean_accounts walked _ none (some dir) none given
  | some (dir, next :: rest), .handed holds _ =>
      refine .view (.ite (fun _ => clean_accounts walked _ _ _ none given) fun _ => ?_)
      refine .bind (findEntry_accounts walked dir _ given) ?_
      rintro ⟨found, parent⟩ searched _ search rfl _
      have directory := (holds.findEntry (by omega) search).1
      cases found with
      | none => exact clean_accounts searched _ none _ none given
      | some found =>
          have cleaned (fs : Fs) (first second : Option Nat) :=
            clean_accounts fs (-1) first second (some found.buffer) given
          refine .view (.bind (iget_accounts directory.own.real searched _ _) ?_)
          rintro inode taken _ _ rfl _
          refine .view (.ite (fun _ => cleaned taken _ _) fun _ => ?_)
          refine .ite (fun _ => cleaned taken _ _) fun _ => ?_
          exact removeLink_accounts taken parent inode found.entry given

end Calls

end Fs
end LightOS
