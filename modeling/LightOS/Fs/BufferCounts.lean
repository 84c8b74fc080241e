import LightOS.Cache.References
import LightOS.Fs.BufferBalance
import LightOS.Fs.NameCalls
import LightOS.Fs.Unmounting

/-!
# Counts of buffers

The count of a buffer should be that of its holders, whatever is called.  A call keeps this
exactly when it comes neither to `balloc` nor to `ialloc`: these read the blocks of a
bitmap, which the super block holds already, and never give them back.
-/

namespace LightOS
namespace Fs

/-- A call that takes references to buffers or gives them back. -/
inductive BufferCall
  | balloc (dev : Nat)
  | bfree (dev idx : Nat)
  | ialloc (dev : Nat)
  | ifree (dev idx : Nat)
  | bmap (ino block : Nat) (create : Bool)
  | inodeTruncate (ino : Nat)
  | inodeRead (ino len : Nat) (offset : Int)
  | inodeWrite (ino : Nat) (buf : Nat → UInt8) (len : Nat) (offset : Int)
  | sysMkdir (task : Creds) (pathname : Option Cursor) (mode : Nat)
  | sysRmdir (task : Creds) (pathname : Option Cursor)
  | sysLink (task : Creds) (oldname newname : Option Cursor)
  | sysUnlink (task : Creds) (filename : Option Cursor)
  | sysMknod (task : Creds) (filename : Option Cursor) (mode dev : Nat)
  | sysUmount (disks : Disks) (task : Creds) (target : Option Cursor)

/-- The tables are in order between two calls, and the directories of the task last. -/
def Callable (fs : Fs) (task : Creds) : Prop :=
  ∃ base, Referenced fs fs base 0 ∧ Lasting fs base task.iroot ∧ Lasting fs base task.ipwd

/-- A computation without its value. -/
def Buffered.ignore {Value : Type} (prog : Buffered Value) : Buffered Unit := do
  let _ ← prog
  return

namespace BufferCall

/-- A call, without the value that it returns. -/
def run : BufferCall → Buffered Unit
  | balloc dev => (Buffered.balloc dev).ignore
  | bfree dev idx => Buffered.bfree dev idx
  | ialloc dev => (Buffered.ialloc dev).ignore
  | ifree dev idx => Buffered.ifree dev idx
  | bmap ino block create => (Buffered.bmap ino block create).ignore
  | inodeTruncate ino => Buffered.inodeTruncate ino
  | inodeRead ino len offset => (Buffered.inodeRead ino len offset).ignore
  | inodeWrite ino buf len offset => (Buffered.inodeWrite ino buf len offset).ignore
  | sysMkdir task pathname mode => (Buffered.sysMkdir task pathname mode).ignore
  | sysRmdir task pathname => (Buffered.sysRmdir task pathname).ignore
  | sysLink task oldname newname => (Buffered.sysLink task oldname newname).ignore
  | sysUnlink task filename => (Buffered.sysUnlink task filename).ignore
  | sysMknod task filename mode dev => (Buffered.sysMknod task filename mode dev).ignore
  | sysUmount disks task target => (Buffered.sysUmount disks task target).ignore

/-- What a call does to the file systems. -/
def plain (fs : Fs) : BufferCall → Except Fault Fs
  | balloc dev => do return (← fs.balloc dev).2
  | bfree dev idx => fs.bfree dev idx
  | ialloc dev => do return (← fs.ialloc dev).2
  | ifree dev idx => fs.ifree dev idx
  | bmap ino block create => do return (← fs.bmap ino block create).2
  | inodeTruncate ino => fs.inodeTruncate ino
  | inodeRead ino len offset => do
      let _ ← fs.inodeRead ino len offset
      return fs
  | inodeWrite ino buf len offset => do return (← fs.inodeWrite ino buf len offset).2
  | sysMkdir task pathname mode => do return (← fs.sysMkdir task pathname mode).2
  | sysRmdir task pathname => do return (← fs.sysRmdir task pathname).2
  | sysLink task oldname newname => do return (← fs.sysLink task oldname newname).2
  | sysUnlink task filename => do return (← fs.sysUnlink task filename).2
  | sysMknod task filename mode dev => do return (← fs.sysMknod task filename mode dev).2
  | sysUmount disks task target => do return (← fs.sysUmount disks task target).2

/-- What the callers of a call see to: a system call begins between two calls, and a device
is unmounted while the entries of `super_table` are in order. -/
def Ready (fs : Fs) : BufferCall → Prop
  | sysMkdir task _ _ => fs.Callable task
  | sysRmdir task _ => fs.Callable task
  | sysLink task _ _ => fs.Callable task
  | sysUnlink task _ => fs.Callable task
  | sysMknod task _ _ _ => fs.Callable task
  | sysUmount _ task _ => fs.Callable task ∧ fs.SuperOrder
  | _ => True

/-- The call comes neither to `balloc` nor to `ialloc`: it returns as well where these two
do not. -/
def Unscanned (call : BufferCall) (s : Buffers) : Prop :=
  ∃ out, call.run false s = .ok out

variable {fs : Fs}

theorem ignore_accounts {Value : Type} {prog : Buffered Value} {plain : Except Fault (Value × Fs)}
    (spec : books.Accounts fs 0 prog plain (fun value after result => result = (value, after))
      fun _ => 0) :
    books.Accounts fs 0 prog.ignore (do return (← plain).2)
      (fun _ after result => result = after) fun _ => 0 := by
  refine .bind spec ?_
  rintro value after _ _ rfl _
  exact .ret rfl rfl

/-- Every call does what it does without the counts, and settles its account unless it
scans a map. -/
theorem run_accounts (call : BufferCall) (ready : call.Ready fs) :
    books.Accounts fs 0 call.run (call.plain fs) (fun _ after result => result = after)
      fun _ => 0 := by
  cases call with
  | balloc dev => exact ignore_accounts (balloc_accounts fs dev 0)
  | bfree dev idx => exact bfree_accounts fs dev idx 0
  | ialloc dev => exact ignore_accounts (ialloc_accounts fs dev 0)
  | ifree dev idx => exact ifree_accounts fs dev idx 0
  | bmap ino block create => exact ignore_accounts (bmap_accounts fs ino block create 0)
  | inodeTruncate ino => exact inodeTruncate_accounts fs ino 0
  | inodeRead ino len offset =>
      refine .bind (inodeRead_accounts fs ino len offset 0) ?_
      rintro value after _ _ ⟨rfl, _⟩ _
      exact .ret rfl rfl
  | inodeWrite ino buf len offset =>
      exact ignore_accounts (inodeWrite_accounts fs ino buf len offset 0)
  | sysMkdir task pathname mode =>
      obtain ⟨_, referenced, iroot, ipwd⟩ := ready
      exact ignore_accounts
        (sysMkdir_accounts referenced iroot ipwd (Nat.zero_le _) pathname mode 0)
  | sysRmdir task pathname =>
      obtain ⟨_, referenced, iroot, ipwd⟩ := ready
      exact ignore_accounts
        (sysRmdir_accounts referenced iroot ipwd (Nat.zero_le _) pathname 0)
  | sysLink task oldname newname =>
      obtain ⟨_, referenced, iroot, ipwd⟩ := ready
      exact ignore_accounts (sysLink_accounts referenced iroot ipwd rfl oldname newname 0)
  | sysUnlink task filename =>
      obtain ⟨_, referenced, iroot, ipwd⟩ := ready
      exact ignore_accounts
        (sysUnlink_accounts referenced iroot ipwd (Nat.zero_le _) filename 0)
  | sysMknod task filename mode dev =>
      obtain ⟨_, referenced, iroot, ipwd⟩ := ready
      exact ignore_accounts
        (sysMknod_accounts referenced iroot ipwd (Nat.zero_le _) filename mode dev 0)
  | sysUmount disks task target =>
      obtain ⟨⟨_, referenced, iroot, ipwd⟩, order⟩ := ready
      exact ignore_accounts (sysUmount_accounts referenced order iroot ipwd disks target 0)

end BufferCall

/-! ## Balance -/

/-- The count of every buffer is the number of its holders. -/
def Tallied (s : Buffers) : Prop :=
  ∀ pcache, s.count pcache = s.state.holders.count pcache

/-- No super block has the device, and no inode of it is in memory. -/
structure Unused (fs : Fs) (dev : Nat) : Prop where
  unmounted : fs.getSuper dev = none
  inodes : ∀ ino < inodeNr, (fs.inodeTable ino).dev = dev → (fs.inodeTable ino).pipe = true

/-- The buffers of the cache have the counts of their blocks. -/
def Pictures (s : Buffers) (cache : Cache.PageCache) : Prop :=
  ∀ id < cache.cacheCount, (cache.buffer id).count =
    s.count ((cache.buffer id).dev, (cache.buffer id).block.val)

/-- Every buffer of a device is on `free_list`. -/
def OnFreeList (s : Buffers) (dev : Nat) : Prop :=
  ∀ (taskCount : Nat) (pool : Cache.State taskCount), Cache.Booked pool →
    Pictures s pool.cache → ∀ id < pool.cache.cacheCount,
      (pool.cache.buffer id).dev = dev → id ∈ pool.cache.freeList

/-- The counts have changed as the holders have, so that the buffers of a device that is
not used any more are free. -/
structure Balanced (s after : Buffers) : Prop where
  counts : ∀ pcache, (after.count pcache : Int) =
    s.count pcache + (after.state.holders.count pcache - s.state.holders.count pcache)
  free : Tallied s → ∀ dev, after.state.Unused dev → OnFreeList after dev

/-- A super block holds buffers of its own device. -/
theorem SuperBlock.dev_of_mem_buffers {super : SuperBlock} {dev number : Nat}
    (holds : (dev, number) ∈ super.buffers) : dev = super.dev := by
  have inMaps (maps : Nat → Option Nat) (present : (dev, number) ∈ mapBuffers super.dev maps) :
      dev = super.dev := by
    unfold mapBuffers at present
    rw [Multiset.mem_coe, List.mem_filterMap] at present
    obtain ⟨i, _, isMap⟩ := present
    cases isBlock : maps i with
    | none => simp [isBlock] at isMap
    | some block =>
        rw [isBlock] at isMap
        cases isMap
        rfl
  unfold SuperBlock.buffers at holds
  split at holds
  · cases holds
  · rw [Multiset.mem_cons, Multiset.mem_add] at holds
    rcases holds with own | imap | zmap
    · cases own
      rfl
    · exact inMaps super.imaps imap
    · exact inMaps super.zmaps zmap

/-- Nobody holds a buffer of a device that is not used. -/
theorem Unused.holders {fs : Fs} {dev : Nat} (unused : fs.Unused dev) (number : Nat) :
    fs.holders.count (dev, number) = 0 := by
  have inodes (ino : Nat) (inTable : ino ∈ Finset.range inodeNr) :
      (dev, number) ∉ (fs.inodeTable ino).buffers := by
    intro holds
    unfold Inode.buffers at holds
    split at holds
    · cases holds
    · rename_i plain
      cases Multiset.mem_singleton.mp holds
      exact plain (.inr (unused.inodes ino (Finset.mem_range.mp inTable) rfl))
  have supers (sb : Nat) (inTable : sb ∈ Finset.range superNr) :
      (dev, number) ∉ (fs.superTable sb).buffers := by
    intro holds
    have none := unused.unmounted
    unfold getSuper at none
    have other := List.find?_eq_none.mp none sb
      (List.mem_range.mpr (Finset.mem_range.mp inTable))
    exact other (by simpa using (SuperBlock.dev_of_mem_buffers holds).symm)
  unfold Fs.holders
  rw [Multiset.count_add, Multiset.count_sum', Multiset.count_sum',
    Finset.sum_eq_zero fun ino inTable => Multiset.count_eq_zero.mpr (inodes ino inTable),
    Finset.sum_eq_zero fun sb inTable => Multiset.count_eq_zero.mpr (supers sb inTable),
    Nat.add_zero]

theorem OnFreeList.ofTallied {s : Buffers} {dev : Nat} (tallied : Tallied s)
    (unused : s.state.Unused dev) : OnFreeList s dev := by
  intro taskCount pool booked pictures id carved isDev
  refine booked.unused id carved ?_
  rw [pictures id carved, tallied, isDev]
  exact unused.holders _

theorem Balanced.ofCounts {s after : Buffers}
    (counts : ∀ pcache, after.count pcache + s.state.holders.count pcache =
      s.count pcache + after.state.holders.count pcache) : Balanced s after := by
  refine ⟨fun pcache => ?_, fun tallied dev unused => ?_⟩
  · have same := counts pcache
    omega
  · refine OnFreeList.ofTallied (fun pcache => ?_) unused
    have same := counts pcache
    rw [tallied pcache] at same
    omega

/-- The references that a call loses, if it scans a map. -/
theorem BufferCall.loses (call : BufferCall) {s after : Buffers} (sane : s.state.Sane)
    (ready : call.Ready s.state) (returned : call.run true s = .ok ((), after)) :
    after.state.Sane ∧ ∃ lost : Multiset BufferId,
      (∀ pcache, after.count pcache + s.state.holders.count pcache =
        s.count pcache + after.state.holders.count pcache + lost.count pcache) ∧
      (lost = 0 ↔ call.Unscanned s) := by
  obtain ⟨saneAfter, _, lost, changed, free, stopped⟩ :=
    call.run_accounts ready s.count () after sane returned
  refine ⟨saneAfter, lost, fun pcache => ?_, fun nothing => ⟨_, free nothing⟩, ?_⟩
  · have change : after.count pcache + (s.state.holders + 0).count pcache =
        s.count pcache + (after.state.holders + 0 + lost).count pcache := changed pcache
    rw [add_zero, add_zero, Multiset.count_add, ← add_assoc] at change
    exact change
  · rintro ⟨out, quiet⟩
    by_contra some
    exact stopped some out quiet

/-- A call leaves the counts balanced exactly when it scans no map. -/
theorem balanced_iff_unscanned (call : BufferCall) {s after : Buffers}
    (sane : s.state.Sane) (ready : call.Ready s.state)
    (returned : call.run true s = .ok ((), after)) :
    Balanced s after ↔ call.Unscanned s := by
  obtain ⟨_, lost, counted, nothing⟩ := call.loses sane ready returned
  rw [← nothing]
  constructor
  · intro balanced
    refine Multiset.eq_zero_of_forall_notMem fun pcache present => ?_
    have positive := Multiset.count_pos.mpr present
    have same := balanced.counts pcache
    have more := counted pcache
    omega
  · rintro rfl
    exact .ofCounts fun pcache => by rw [counted, Multiset.count_zero, Nat.add_zero]

/-- Calls one after the other, none of which scans a map. -/
inductive Quiet (s : Buffers) : Buffers → Prop
  | start : Quiet s s
  | call {middle after : Buffers} (call : BufferCall) :
      Quiet s middle → call.Ready middle.state → call.run true middle = .ok ((), after) →
        call.Unscanned middle → Quiet s after

/-- The counts stay those of the holders in a run that scans no map. -/
theorem Quiet.tallied {s after : Buffers} (quiet : Quiet s after) (sane : s.state.Sane)
    (tallied : Tallied s) : after.state.Sane ∧ Tallied after := by
  induction quiet with
  | start => exact ⟨sane, tallied⟩
  | call call _ ready returned unscanned inductionHypothesis =>
      obtain ⟨saneMiddle, middle⟩ := inductionHypothesis
      obtain ⟨saneAfter, lost, counted, nothing⟩ := call.loses saneMiddle ready returned
      refine ⟨saneAfter, fun pcache => ?_⟩
      have same := counted pcache
      rw [middle pcache, nothing.mpr unscanned, Multiset.count_zero] at same
      omega

/-- In such a run every buffer of a device that is not used any more is free. -/
theorem Quiet.free {s after : Buffers} (quiet : Quiet s after) (sane : s.state.Sane)
    (tallied : Tallied s) {dev : Nat} (unused : after.state.Unused dev) :
    OnFreeList after dev :=
  .ofTallied (quiet.tallied sane tallied).2 unused

/-! ## The small file system -/

/-- The small file system.  The root inode holds block 4, and the super block its own block
and the two maps. -/
def smallBuffers : Buffers where
  state := small
  count := fun pcache => if pcache.1 = 1 ∧ 1 ≤ pcache.2 ∧ pcache.2 ≤ 4 then 1 else 0

theorem small_sane : small.Sane where
  blank := fun ino => (ProcessState.smallProcess_consistent.blank ino · |>.2)
  listed := by
    intro sb inTable ino present
    refine ⟨?_, ProcessState.smallProcess_consistent.listed sb inTable ino present⟩
    by_cases first : sb = 0
    · have isRoot : ino = 0 := by simpa [first, small] using present
      rw [isRoot]
      decide
    · simp [small, first] at present
  nodup := ProcessState.smallProcess_consistent.nodup

/-- The super user in the root directory. -/
theorem small_callable : small.Callable ⟨0, 0, 0o22, 0, 0⟩ :=
  ⟨_, ProcessState.smallProcess_consistent.referenced,
    ProcessState.smallProcess_consistent.creds (show 0 < Sched.taskNr by decide) rfl⟩

/-- `sys_mkdir` of `g` keeps the buffers of both maps, which the super block holds
already. -/
theorem counts_fail :
    ¬∀ (call : BufferCall) (s after : Buffers), s.state.Sane → call.Ready s.state →
      call.run true s = .ok ((), after) → Balanced s after := by
  intro always
  have twice : (match (BufferCall.sysMkdir ⟨0, 0, 0o22, 0, 0⟩ (some [103]) 0o755).run true
        smallBuffers with
      | .ok (_, after) => decide (after.count (1, 2) = 2 ∧
          after.state.holders.count (1, 2) = 1 ∧ small.holders.count (1, 2) = 1)
      | .error _ => false) = true := by decide +kernel
  split at twice
  · rename_i after returned
    obtain ⟨counted, holders, before⟩ := of_decide_eq_true twice
    have balanced := always (.sysMkdir ⟨0, 0, 0o22, 0, 0⟩ (some [103]) 0o755) smallBuffers
      after small_sane small_callable returned
    have same := balanced.counts (1, 2)
    rw [counted, holders, show smallBuffers.state.holders.count (1, 2) = 1 from before,
      show smallBuffers.count (1, 2) = 1 from rfl] at same
    omega
  · cases twice

/-- `sys_unlink` of the file. -/
theorem balanced_iff_unscanned_unlink :
    ∃ after, (BufferCall.sysUnlink ⟨0, 0, 0o22, 0, 0⟩ (some [102])).run true smallBuffers =
        .ok ((), after) ∧
      (Balanced smallBuffers after ↔
        (BufferCall.sysUnlink ⟨0, 0, 0o22, 0, 0⟩ (some [102])).Unscanned
          smallBuffers) := by
  have returns : ((BufferCall.sysUnlink ⟨0, 0, 0o22, 0, 0⟩ (some [102])).run true
      smallBuffers).toBool = true := by decide +kernel
  cases returned : (BufferCall.sysUnlink ⟨0, 0, 0o22, 0, 0⟩ (some [102])).run true
      smallBuffers with
  | error fault =>
      rw [returned] at returns
      cases returns
  | ok out =>
      exact ⟨out.2, rfl,
        balanced_iff_unscanned _ small_sane small_callable returned⟩

end Fs
end LightOS
