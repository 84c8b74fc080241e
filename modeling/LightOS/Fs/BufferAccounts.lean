import LightOS.Fs.Holders
import LightOS.Fs.Lookup

/-!
# Accounts of buffers

The functions of `bmap.c` and `inode.c` and those on the content of files give back every
buffer that they take, except for `balloc` and `ialloc`, which lose the buffers of the maps
that they scan.
-/

namespace LightOS
namespace Fs

variable {fs : Fs}

/-! ## Zones and inode numbers -/

/-- A scan takes a reference to the buffer of each map that it looks at and gives none of
them back. -/
theorem scanMaps_loses {dev first offset limit left i bit : Nat} {count : BufferId → Nat}
    {after : Buffers}
    (scanned : Buffered.scanMaps dev first offset limit left i true ⟨fs, count⟩ =
      .ok (bit, after)) :
    fs.scanMaps dev first offset limit left i = .ok (bit, after.state) ∧
      SameTables fs after.state ∧
      ∃ lost : Multiset BufferId, (0 < left → lost ≠ 0) ∧
        ∀ pcache, after.count pcache = count pcache + lost.count pcache := by
  induction left generalizing i count with
  | zero =>
      cases scanned
      exact ⟨rfl, .refl fs, 0, fun more => absurd more (Nat.lt_irrefl 0), fun _ => rfl⟩
  | succ left inductionHypothesis =>
      rw [Buffered.scanMaps, Buffered.bread_bind, Counting.acquire_bind_run,
        Counting.view_bind_run] at scanned
      rw [Fs.scanMaps]
      dsimp only at scanned ⊢
      rw [Counting.lift_bind_run, bind_eq_ok] at scanned
      obtain ⟨found, isFound, scanned⟩ := scanned
      rw [isFound, ok_bind]
      have taken (pcache : BufferId) : Function.update count (dev, first + i)
          (count (dev, first + i) + 1) pcache =
            count pcache + Multiset.count pcache {(dev, first + i)} := by
        by_cases own : pcache = (dev, first + i)
        · rw [own, Function.update_self, Multiset.count_singleton_self]
        · rw [Function.update_of_ne own, Multiset.count_singleton, if_neg own, add_zero]
      cases found with
      | none =>
          obtain ⟨plain, same, lost, _, counted⟩ := inductionHypothesis scanned
          refine ⟨plain, same, {(dev, first + i)} + lost, fun _ => ?_, fun pcache => ?_⟩
          · simp
          · rw [counted, taken, Multiset.count_add, add_assoc]
      | some found =>
          obtain ⟨bit', memory⟩ := found
          dsimp only at scanned ⊢
          rw [Counting.lift_bind_run, bind_eq_ok] at scanned
          obtain ⟨_, inLimit, scanned⟩ := scanned
          cases scanned
          rw [inLimit]
          exact ⟨rfl, .writeBlock fs dev (first + i) memory, {(dev, first + i)},
            fun _ => Multiset.singleton_ne_zero _, taken⟩

/-- A scan that is not allowed does not return, and one that is loses a buffer. -/
theorem scan_accounts (fs : Fs) (dev first offset limit blocks : Nat)
    (given : Multiset BufferId) :
    books.Accounts fs given
      (do
        Counting.guarded
        let bit ← Buffered.scanMaps dev first offset limit blocks 0
        check (0 < blocks)
        return bit)
      (do
        let result ← fs.scanMaps dev first offset limit blocks 0
        check (0 < blocks)
        return result)
      (fun bit after result => result = (bit, after)) fun _ => given := by
  refine .guarded fun count out after sane returned => ?_
  rw [Counting.bind_run, bind_eq_ok] at returned
  obtain ⟨⟨bit, scanned⟩, scan, returned⟩ := returned
  rw [Counting.lift_bind_run, bind_eq_ok] at returned
  obtain ⟨_, some, returned⟩ := returned
  cases returned
  obtain ⟨plain, same, lost, loses, counted⟩ := scanMaps_loses scan
  have kept := SameHolders.ofTables same
  refine ⟨kept.sane sane, ⟨_, by rw [plain, ok_bind, some]; rfl, rfl⟩, lost,
    loses ((check_eq_ok _ _).mp some), fun pcache => ?_⟩
  change scanned.count pcache + (fs.holders + given).count pcache =
    count pcache + (scanned.state.holders + given + lost).count pcache
  rw [kept.holders, counted, Multiset.count_add _ (_ + _)]
  omega

theorem balloc_accounts (fs : Fs) (dev : Nat) (given : Multiset BufferId) :
    books.Accounts fs given (Buffered.balloc dev) (fs.balloc dev)
      (fun bit after result => result = (bit, after)) fun _ => given :=
  .view (.lift fun _ _ => scan_accounts fs dev _ _ _ _ given)

theorem ialloc_accounts (fs : Fs) (dev : Nat) (given : Multiset BufferId) :
    books.Accounts fs given (Buffered.ialloc dev) (fs.ialloc dev)
      (fun bit after result => result = (bit, after)) fun _ => given :=
  .view (.lift fun _ _ => scan_accounts fs dev _ _ _ _ given)

theorem bfree_accounts (fs : Fs) (dev idx : Nat) (given : Multiset BufferId) :
    books.Accounts fs given (Buffered.bfree dev idx) (fs.bfree dev idx)
      (fun _ after result => result = after) fun _ => given :=
  .view (.plainLast (.lift fun _ freed => .last (keep (.ofTables (.bfree freed))
    (.ret rfl rfl))))

theorem ifree_accounts (fs : Fs) (dev idx : Nat) (given : Multiset BufferId) :
    books.Accounts fs given (Buffered.ifree dev idx) (fs.ifree dev idx)
      (fun _ after result => result = after) fun _ => given :=
  .view (.plainLast (.lift fun _ freed => .last (keep (.ofTables (.ifree freed))
    (.ret rfl rfl))))

theorem fillIndex_accounts (fs : Fs) (pcache : BufferId) (address : Nat) (create : Bool)
    (given : Multiset BufferId) :
    books.Accounts fs given (Buffered.fillIndex pcache address create)
      (fs.fillIndex pcache.1 pcache.2 address create)
      (fun _ after result => result = after) fun _ => given := by
  unfold Buffered.fillIndex Fs.fillIndex
  refine .view (.ite (fun _ => ?_) fun _ => .ret rfl rfl)
  refine .bind (balloc_accounts fs pcache.1 given) ?_
  rintro zone allotted _ _ rfl _
  exact .view (.last (keep (.ofTables (.writeBlock _ _ _ _)) (.ret rfl rfl)))

theorem reckon_accounts (create : Bool) (level : Nat) (fs : Fs) (pcache : BufferId)
    (array index block divider : Nat) (given : Multiset BufferId) :
    books.Accounts fs (pcache ::ₘ given)
      (Buffered.reckon create level pcache array index block divider)
      (Fs.reckon pcache.1 create level fs pcache.2 array index block divider)
      (fun zone after result => result = (zone, after)) fun _ => given := by
  induction level generalizing fs pcache array index block divider with
  | zero =>
      rw [Buffered.reckon, Fs.reckon]
      refine .bind (fillIndex_accounts fs pcache _ create _) ?_
      rintro _ _ filled _ rfl _
      exact .view (.release (.ret rfl rfl))
  | succ level inductionHypothesis =>
      rw [Buffered.reckon, Fs.reckon]
      refine .bind (fillIndex_accounts fs pcache _ create _) ?_
      rintro _ _ filled _ rfl _
      refine .view (.release (.ite (fun _ => .ret rfl rfl) fun _ => ?_))
      exact read (inductionHypothesis filled _ _ _ _ _)

/-- The buffer of the inode is held once more while its array is looked at. -/
theorem bmap_accounts (fs : Fs) (ino block : Nat) (create : Bool)
    (given : Multiset BufferId) :
    books.Accounts fs given (Buffered.bmap ino block create) (fs.bmap ino block create)
      (fun zone after result => result = (zone, after)) fun _ => given := by
  unfold Buffered.bmap Fs.bmap
  refine .lift fun _ _ => .view (.acquire ?_)
  refine .ite (fun _ => reckon_accounts create 0 fs _ _ _ _ _ given) fun _ => ?_
  exact .ite (fun _ => reckon_accounts create 1 fs _ _ _ _ _ given)
    fun _ => reckon_accounts create 2 fs _ _ _ _ _ given

/-- `bmap` without `create` changes nothing. -/
theorem state_of_bmap {after : Fs} {ino block zone : Nat}
    (mapped : fs.bmap ino block false = .ok (zone, after)) : fs = after := by
  have inReach := mapped
  unfold bmap at inReach
  rw [bind_eq_ok] at inReach
  obtain ⟨_, inReach, _⟩ := inReach
  rw [bmap_false fs ino ((check_eq_ok _ _).mp inReach)] at mapped
  cases mapped
  rfl

/-! ## Content of inodes -/

theorem inodeBfree_accounts (dev level : Nat) (fs : Fs) (cache address : Nat)
    (given : Multiset BufferId) :
    books.Accounts fs given (Buffered.inodeBfree dev level cache address)
      (Fs.inodeBfree dev level fs cache address)
      (fun _ after result => result = after) fun _ => given := by
  induction level generalizing fs cache address given with
  | zero =>
      rw [Buffered.inodeBfree, Fs.inodeBfree]
      exact .view (.ite (fun _ => .ret rfl rfl) fun _ => bfree_accounts fs dev _ given)
  | succ level inductionHypothesis =>
      rw [Buffered.inodeBfree, Fs.inodeBfree]
      refine .view (.ite (fun _ => .ret rfl rfl) fun _ => read (.bind (.forM ?_) ?_))
      · intro i _ before
        exact inductionHypothesis before _ _ _
      · rintro _ _ emptied _ rfl _
        exact .release (.view (bfree_accounts emptied dev _ given))

theorem releaseZone_accounts (fs : Fs) (ino level : Nat) (index : Fin 9)
    (given : Multiset BufferId) :
    books.Accounts fs given (Buffered.releaseZone ino level index)
      (fs.releaseZone ino level index) (fun _ after result => result = after)
      fun _ => given := by
  unfold Buffered.releaseZone Fs.releaseZone
  refine .view (.bind (inodeBfree_accounts _ level fs _ _ given) ?_)
  rintro _ _ emptied _ rfl _
  exact .view (.last (keep (.ofTables (.modifyDesc emptied ino _)) (.ret rfl rfl)))

theorem inodeTruncate_accounts (fs : Fs) (ino : Nat) (given : Multiset BufferId) :
    books.Accounts fs given (Buffered.inodeTruncate ino) (fs.inodeTruncate ino)
      (fun _ after result => result = after) fun _ => given := by
  unfold Buffered.inodeTruncate Fs.inodeTruncate
  refine .view (.ite (fun _ => .ret rfl rfl) fun _ => .bind (.forM ?_) ?_)
  · intro index _ before
    exact releaseZone_accounts before ino _ index given
  · rintro _ _ emptied _ rfl _
    exact .view (.last (keep (.ofTables ⟨rfl, rfl⟩) (.ret rfl rfl)))

theorem readLoop_accounts (fs : Fs) (ino rounds : Nat) (offset : Int) (left : Nat)
    (given : Multiset BufferId) :
    books.Accounts fs given (Buffered.readLoop ino rounds offset left)
      (fs.readLoop ino rounds offset left)
      (fun value after result => after = fs ∧ result = value) fun _ => given := by
  induction rounds generalizing offset left with
  | zero =>
      rw [Buffered.readLoop, Fs.readLoop]
      exact .ite (fun _ => .ret rfl ⟨rfl, rfl⟩) fun _ => .fail
  | succ rounds inductionHypothesis =>
      rw [Buffered.readLoop, Fs.readLoop]
      refine .ite (fun _ => .ret rfl ⟨rfl, rfl⟩) fun _ => ?_
      refine .bind (bmap_accounts fs ino _ false given) ?_
      rintro nr mapped _ map rfl _
      obtain rfl := state_of_bmap map
      refine .lift fun _ _ => .view (read (.lift fun _ _ => .release ?_))
      refine .bind (inductionHypothesis _ _) ?_
      rintro ⟨final, rest⟩ _ _ _ ⟨rfl, rfl⟩ _
      exact .ret rfl ⟨rfl, rfl⟩

theorem inodeRead_accounts (fs : Fs) (ino len : Nat) (offset : Int)
    (given : Multiset BufferId) :
    books.Accounts fs given (Buffered.inodeRead ino len offset) (fs.inodeRead ino len offset)
      (fun value after result => after = fs ∧ result = value) fun _ => given := by
  unfold Buffered.inodeRead Fs.inodeRead
  refine .view (.lift fun _ _ => .ite (fun _ => .ret rfl ⟨rfl, rfl⟩) fun _ => ?_)
  refine .ite (fun _ => .ret rfl ⟨rfl, rfl⟩) fun _ => ?_
  refine .bind (readLoop_accounts fs ino _ offset _ given) ?_
  rintro ⟨final, bytes⟩ _ _ _ ⟨rfl, rfl⟩ _
  exact .ret rfl ⟨rfl, rfl⟩

theorem SameTables.writeRound (fs : Fs) (ino nr : Nat) (buf : Nat → UInt8) (offset : Int)
    (chars : Nat) : SameTables fs (fs.writeRound ino nr buf offset chars) := by
  unfold Fs.writeRound
  dsimp only
  split
  · exact ⟨rfl, rfl⟩
  · exact ⟨rfl, rfl⟩

theorem writeLoop_accounts (ino rounds : Nat) (fs : Fs) (buf : Nat → UInt8) (offset : Int)
    (left : Nat) (given : Multiset BufferId) :
    books.Accounts fs given (Buffered.writeLoop ino rounds buf offset left)
      (Fs.writeLoop ino rounds fs buf offset left)
      (fun final after result => result = (final, after)) fun _ => given := by
  induction rounds generalizing fs buf offset left with
  | zero =>
      rw [Buffered.writeLoop, Fs.writeLoop]
      exact .ite (fun _ => .ret rfl rfl) fun _ => .fail
  | succ rounds inductionHypothesis =>
      rw [Buffered.writeLoop, Fs.writeLoop]
      refine .ite (fun _ => .ret rfl rfl) fun _ => ?_
      refine .bind (bmap_accounts fs ino _ true given) ?_
      rintro nr mapped _ _ rfl _
      refine .lift fun _ _ => .view (read (.lift fun _ _ => ?_))
      exact keep (.ofTables (.writeRound mapped ino nr buf offset _))
        (.release (inductionHypothesis _ _ _ _))

theorem inodeWrite_accounts (fs : Fs) (ino : Nat) (buf : Nat → UInt8) (len : Nat)
    (offset : Int) (given : Multiset BufferId) :
    books.Accounts fs given (Buffered.inodeWrite ino buf len offset)
      (fs.inodeWrite ino buf len offset)
      (fun value after result => result = (value, after)) fun _ => given := by
  unfold Buffered.inodeWrite Fs.inodeWrite
  refine .view (.lift fun _ _ => .ite (fun _ => .ret rfl rfl) fun _ => ?_)
  refine .bind (writeLoop_accounts ino len fs buf offset len given) ?_
  rintro final written _ _ rfl _
  exact .view (keep (.ofTables (.modifyDesc written ino _)) (.ret rfl rfl))

end Fs
end LightOS
