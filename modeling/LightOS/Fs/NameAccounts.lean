import LightOS.Fs.BufferAccounts
import LightOS.Fs.BufferCalls
import LightOS.Fs.Walking

/-!
# Accounts of buffers along a walk

The functions that look names up hand on the buffer of the entry that they have found, and
give back every other buffer that they read.
-/

namespace LightOS
namespace Fs

variable {i number : Nat} {pcache : Option BufferId}

/-- The buffers that are held with a pointer that may be null. -/
def carrying : Option BufferId → Multiset BufferId → Multiset BufferId
  | none, given => given
  | some pcache, given => pcache ::ₘ given

/-- The buffer of the entry that has been found. -/
def Found.buffer (found : Found) : BufferId :=
  found.entry.buffer

/-- The pointer of a loop over the entries of a directory: the block of the entry is in the
buffer, or a new block begins. -/
inductive Opened (fs : Fs) (dir i : Nat) : Option BufferId → Nat → Prop
  | fresh {number : Nat} : i % blockDentries = 0 → Opened fs dir i none number
  | opened {number : Nat} : Opened fs dir i (some ((fs.inodeTable dir).dev, number)) number

variable {fs : Fs} {dir : Nat}

theorem Opened.congr {after : Fs} (opened : Opened fs dir i pcache number)
    (same : SameTables fs after) : Opened after dir i pcache number := by
  cases opened with
  | fresh begins => exact .fresh begins
  | opened =>
      rw [← same.inodeTable]
      exact .opened

/-- The rule for a buffer that is given back, where there is one. -/
theorem giveBack {Value Plain : Type} {given : Multiset BufferId} {onward : Unit → Buffered Value}
    {plain : Except Fault Plain} {agrees : Value → Fs → Plain → Prop}
    {handed : Value → Multiset BufferId}
    (second : books.Accounts fs given (onward ()) plain agrees handed) :
    books.Accounts fs (carrying pcache given) (Buffered.brelseOption pcache >>= onward)
      plain agrees handed := by
  cases pcache with
  | none => exact second
  | some pcache => exact .release second

/-- The plain function that reads a block of a directory. -/
def readBlock (fs : Fs) (dir block : Nat) (create : Bool) : Except Fault (Nat × Fs) := do
  let (zone, fs) ← fs.bmap dir block create
  check (zone ≠ 0)
  return (zone, fs)

theorem nextBlock_accounts (fs : Fs) (dir block : Nat) (create : Bool)
    (given : Multiset BufferId) :
    books.Accounts fs given (Buffered.nextBlock dir block create)
      (fs.readBlock dir block create)
      (fun pcache after result =>
        result.2 = after ∧ pcache = ((after.inodeTable dir).dev, result.1))
      fun pcache => pcache ::ₘ given := by
  unfold Buffered.nextBlock readBlock
  refine .bind (bmap_accounts fs dir block create given) ?_
  rintro zone mapped _ _ rfl _
  exact .lift fun _ _ => .view (.last (read (.ret rfl ⟨rfl, rfl⟩)))

/-- A buffer is taken over, or given back for the next one. -/
theorem entryBlock_accounts (opened : Opened fs dir i pcache number) (block : Nat) (create : Bool)
    (given : Multiset BufferId) :
    books.Accounts fs (carrying pcache given)
      (Buffered.entryBlock dir i block create pcache)
      (if i % blockDentries = 0 then fs.readBlock dir block create else .ok (number, fs))
      (fun pcache after result =>
        result.2 = after ∧ pcache = ((after.inodeTable dir).dev, result.1))
      fun pcache => pcache ::ₘ given := by
  cases opened with
  | fresh begins =>
      rw [if_pos begins]
      exact nextBlock_accounts fs dir block create given
  | opened =>
      exact .ite (fun _ => .release (nextBlock_accounts fs dir block create given))
        fun _ => .ret rfl ⟨rfl, rfl⟩

theorem entryBlock_eq (fs : Fs) (dir i number : Nat) (create : Bool) :
    fs.entryBlock dir i number create =
      if i % blockDentries = 0 then fs.readBlock dir (i / blockDentries) create
      else .ok (number, fs) :=
  rfl

/-- A block that is read without `create` changes nothing. -/
theorem state_of_readBlock {after : Fs} {block zone : Nat}
    (found : (if i % blockDentries = 0 then fs.readBlock dir block false
      else .ok (number, fs)) = .ok (zone, after)) : fs = after := by
  split at found
  · unfold readBlock at found
    simp only [bind_eq_ok] at found
    obtain ⟨⟨_, mapped⟩, map, _, _, same⟩ := found
    cases same
    exact state_of_bmap map
  · cases found
    rfl

theorem searchEntries_accounts (fs : Fs) (dir : Nat) (name : Cursor) (left : Nat)
    (opened : Opened fs dir i pcache number) (given : Multiset BufferId) :
    books.Accounts fs (carrying pcache given) (Buffered.searchEntries dir name left i pcache)
      (fs.searchEntries dir name left i number)
      (fun found after result => after = fs ∧ result = found)
      fun found => carrying (found.map Found.buffer) given := by
  induction left generalizing i number pcache with
  | zero =>
      rw [Buffered.searchEntries, Fs.searchEntries]
      exact giveBack (.ret rfl ⟨rfl, rfl⟩)
  | succ left inductionHypothesis =>
      rw [Buffered.searchEntries, Fs.searchEntries, entryBlock_eq]
      refine .bind (entryBlock_accounts opened _ false given) ?_
      rintro buffer after ⟨zone, mapped⟩ found ⟨rfl, rfl⟩ _
      obtain rfl := state_of_readBlock found
      refine .view (.ite (fun _ => inductionHypothesis .opened) fun _ => ?_)
      dsimp only
      cases matchName name _ with
      | none => exact inductionHypothesis .opened
      | some next => exact .ret rfl ⟨rfl, rfl⟩

theorem leaveMount_accounts (fs : Fs) (dir : Nat) (name : Cursor)
    (given : Multiset BufferId) :
    books.Accounts fs given (Buffered.leaveMount dir name) (fs.leaveMount dir name)
      (fun found after result => result = (found, after)) fun _ => given := by
  unfold Buffered.leaveMount Fs.leaveMount
  refine .view (.ite (fun _ => ?_) fun _ => .ret rfl rfl)
  cases fs.getSuper (fs.inodeTable dir).dev with
  | none => exact .fail
  | some sb =>
      dsimp only
      cases (fs.superTable sb).imount with
      | none => exact .fail
      | some mounted =>
          refine keep (.setCount fs mounted _) (.bind (iput_accounts _ dir given) ?_)
          rintro _ _ released _ rfl _
          exact .ret rfl rfl

theorem findEntry_accounts (fs : Fs) (dir : Nat) (name : Cursor)
    (given : Multiset BufferId) :
    books.Accounts fs given (Buffered.findEntry dir name) (fs.findEntry dir name)
      (fun found after result => result = (found.1, found.2, after))
      fun found => carrying (found.1.map Found.buffer) given := by
  unfold Buffered.findEntry Fs.findEntry
  refine .view (.lift fun _ _ => .bind (leaveMount_accounts fs dir name given) ?_)
  rintro parent left _ _ rfl _
  refine .view (.bind (searchEntries_accounts left parent name _ (.fresh rfl) given) ?_)
  rintro found _ _ _ ⟨rfl, rfl⟩ _
  exact .ret rfl rfl

/-- The directory grows by an entry where the loop has come to its end. -/
theorem SameTables.grown (fs : Fs) (dir i : Nat) (entry : EntryRef) :
    SameTables fs (if (fs.desc dir).size ≤ i * 16 then
      (fs.modifyEntry entry (Dentry.setNr 0)).modifyDesc dir
        (InodeDesc.setSize ((i + 1) * 16)) else fs) := by
  split
  · exact ⟨rfl, rfl⟩
  · exact .refl fs

theorem claimEntry_accounts (dir : Nat) (name : Cursor) (left : Nat) (fs : Fs)
    (opened : Opened fs dir i pcache number) (given : Multiset BufferId) :
    books.Accounts fs (carrying pcache given) (Buffered.claimEntry dir name left i pcache)
      (Fs.claimEntry dir name left fs i number)
      (fun entry after result => result = (entry, after))
      fun entry => entry.buffer ::ₘ given := by
  induction left generalizing fs i number pcache with
  | zero => exact .fail
  | succ left inductionHypothesis =>
      rw [Buffered.claimEntry, Fs.claimEntry, entryBlock_eq]
      refine .bind (entryBlock_accounts opened _ true given) ?_
      rintro buffer after ⟨zone, mapped⟩ _ ⟨rfl, rfl⟩ _
      have same := SameTables.grown mapped dir i
        ⟨(mapped.inodeTable dir).dev, zone, 16 * (i % blockDentries)⟩
      refine .view (keep (.ofTables same) (.ite (fun _ => ?_) fun _ => ?_))
      · exact inductionHypothesis _ (Opened.opened.congr same)
      · exact keep (.ofTables ⟨rfl, rfl⟩) (.ret rfl rfl)

theorem addEntry_accounts (fs : Fs) (dir : Nat) (name : Cursor)
    (given : Multiset BufferId) :
    books.Accounts fs given (Buffered.addEntry dir name) (fs.addEntry dir name)
      (fun entry after result => result = (entry, after))
      fun entry => entry.buffer ::ₘ given := by
  unfold Buffered.addEntry Fs.addEntry
  refine .bind (findEntry_accounts fs dir name given) ?_
  rintro ⟨found, parent⟩ searched _ _ rfl _
  cases found with
  | some found => exact .ret rfl rfl
  | none =>
      exact .lift fun _ _ => .view (claimEntry_accounts parent name _ searched (.fresh rfl) given)

/-! ## Walks -/

section Walks

variable {start : Fs} {base : Nat → Nat} {held : Multiset Nat} {task : Creds}

theorem descend_accounts {inode : Nat} (right : Cursor) (rounds : Nat)
    (referenced : Referenced start fs base (inode ::ₘ held)) (few : held.card ≤ 2)
    (left : Cursor) (given : Multiset BufferId) :
    books.Accounts fs given (Buffered.descend task right rounds inode left)
      (Fs.descend task right rounds fs inode left)
      (fun walked after result => result = (walked, after)) fun _ => given := by
  induction rounds generalizing fs inode left with
  | zero => exact .fail
  | succ rounds inductionHypothesis =>
      rw [Buffered.descend, Fs.descend]
      refine .bind (findEntry_accounts fs inode left given) ?_
      rintro ⟨found, dir⟩ searched _ search rfl _
      have holds := (referenced.findEntry few search).1
      cases found with
      | none =>
          refine .bind (iput_accounts searched dir given) ?_
          rintro _ _ released _ rfl _
          exact .ret rfl rfl
      | some found =>
          refine .view (.bind (iput_accounts searched dir _) ?_)
          rintro _ _ released release rfl _
          have home := holds.home (Multiset.mem_cons_self dir held)
          refine .view (.bind (iget_accounts home.real released _ _) ?_)
          rintro next taken _ take rfl _
          have arrives := (holds.iput release).iget few home take
          refine .release (.view (.ite (fun _ => .ret rfl rfl) fun _ => ?_))
          exact .ite (fun _ => .ret rfl rfl) fun _ => inductionHypothesis arrives _

variable (referenced : Referenced start fs base held)
  (iroot : Lasting start base task.iroot) (ipwd : Lasting start base task.ipwd)

include referenced iroot ipwd

theorem named_accounts (few : held.card ≤ 2) (pathname : Option Cursor)
    (given : Multiset BufferId) :
    books.Accounts fs given (Buffered.named task pathname) (fs.named task pathname)
      (fun walked after result => result = (walked, after)) fun _ => given := by
  match pathname with
  | none => exact .ret rfl rfl
  | some [] => exact .ret rfl rfl
  | some (first :: rest) =>
      have lasts : Lasting start base (if isSeparator first then task.iroot else task.ipwd) := by
        split
        · exact iroot
        · exact ipwd
      have begins := referenced.take (by omega) (referenced.lasting lasts)
      unfold Buffered.named Fs.named
      dsimp only
      refine .view (keep (.setCount fs _ _) ?_)
      cases strrsep (skipSeparators (first :: rest)) with
      | none => exact .ret rfl rfl
      | some right => exact descend_accounts _ _ begins few _ given

theorem namei_accounts (few : held.card ≤ 1) (pathname : Option Cursor)
    (given : Multiset BufferId) :
    books.Accounts fs given (Buffered.namei task pathname) (fs.namei task pathname)
      (fun inode after result => result = (inode, after)) fun _ => given := by
  unfold Buffered.namei Fs.namei
  refine .bind (named_accounts referenced iroot ipwd (by omega) pathname given) ?_
  rintro parent walked _ walk rfl _
  have walks := referenced.named (by omega) iroot ipwd walk
  match parent, walks with
  | none, _ => exact .ret rfl rfl
  | some (dir, []), _ => exact .ret rfl rfl
  | some (dir, next :: rest), .handed holds _ =>
      refine .bind (findEntry_accounts walked dir _ given) ?_
      rintro ⟨found, parent⟩ searched _ search rfl _
      have directory := (holds.findEntry (by omega) search).1
      cases found with
      | none =>
          refine .bind (iput_accounts searched parent given) ?_
          rintro _ _ released _ rfl _
          exact .ret rfl rfl
      | some found =>
          have home := directory.home (Multiset.mem_cons_self parent held)
          refine .view (.bind (iget_accounts home.real searched _ _) ?_)
          rintro inode taken _ _ rfl _
          refine .bind (iput_accounts taken parent _) ?_
          rintro _ _ released _ rfl _
          exact .release (.ret rfl rfl)

end Walks

end Fs
end LightOS
