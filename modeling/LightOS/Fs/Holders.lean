import LightOS.Foundation.Ledger
import LightOS.Fs.Buffers
import LightOS.Fs.References
import Mathlib.Algebra.BigOperators.Group.Finset.Basic

/-!
# Holders of buffers

An inode in memory holds the buffer that its descriptor lies in, and a super block those of
its device's super block and bitmaps.  The functions of `inode.c` that take inodes into
memory and out of it take and give back the buffers of these inodes.
-/

namespace LightOS

open Fs (BufferId)

variable {dev sb : Nat} {inode : Inode}

/-- The buffer that an inode in memory holds.  A pipe has none. -/
def Inode.buffers (inode : Inode) : Multiset BufferId :=
  if inode.dev = eof ∨ inode.pipe = true then 0 else {(inode.dev, inode.block)}

theorem Inode.buffers_eq_zero (idle : inode.dev = eof ∨ inode.pipe = true) : inode.buffers = 0 :=
  if_pos idle

theorem Inode.buffers_eq (used : inode.dev ≠ eof) (plain : inode.pipe = false) :
    inode.buffers = {(inode.dev, inode.block)} :=
  if_neg (by simp [used, plain])

namespace Fs

/-- The buffers of an array of bitmap buffers. -/
def mapBuffers (dev : Nat) (maps : Nat → Option Nat) : Multiset BufferId :=
  (List.range mapNr).filterMap fun i => (maps i).map fun number => (dev, number)

end Fs

/-- The buffers that the fields of an entry of `super_table` hold. -/
def SuperBlock.buffers (super : SuperBlock) : Multiset BufferId :=
  if super.dev = eof then 0
  else (super.dev, superBlockNr) ::ₘ
    (Fs.mapBuffers super.dev super.imaps + Fs.mapBuffers super.dev super.zmaps)

namespace Fs

/-- The buffers that the inodes in memory and the super blocks hold. -/
def holders (fs : Fs) : Multiset BufferId :=
  ∑ ino ∈ Finset.range inodeNr, (fs.inodeTable ino).buffers +
    ∑ sb ∈ Finset.range superNr, (fs.superTable sb).buffers

/-- The lists of the super blocks name inodes in memory, each of them once. -/
structure Sane (fs : Fs) : Prop where
  blank : ∀ ino, (fs.inodeTable ino).dev = eof → (fs.inodeTable ino).pipe = false
  listed : ∀ sb < superNr, ∀ ino ∈ (fs.superTable sb).inodeList,
    ino < inodeNr ∧ (fs.inodeTable ino).dev ≠ eof ∧ (fs.inodeTable ino).pipe = false
  nodup : ∀ sb < superNr, (fs.superTable sb).inodeList.Nodup

/-- The references to buffers of the file systems. -/
def books : Books Fs BufferId where
  holds := holders
  sound := Sane

variable {fs after : Fs} {ino : Nat}

/-! ## Changes of the tables -/

theorem holders_eq
    (inodes : ∀ ino, (after.inodeTable ino).buffers = (fs.inodeTable ino).buffers)
    (supers : ∀ sb, (after.superTable sb).buffers = (fs.superTable sb).buffers) :
    after.holders = fs.holders := by
  unfold holders
  simp only [inodes, supers]

/-- The entries of the tables hold the same buffers and have the same places. -/
structure SameHolders (before after : Fs) : Prop where
  inode : ∀ ino, (after.inodeTable ino).dev = (before.inodeTable ino).dev ∧
    (after.inodeTable ino).block = (before.inodeTable ino).block ∧
    (after.inodeTable ino).pipe = (before.inodeTable ino).pipe
  super : ∀ sb, (after.superTable sb).buffers = (before.superTable sb).buffers ∧
    (after.superTable sb).inodeList = (before.superTable sb).inodeList

namespace SameHolders

theorem ofTables (same : SameTables fs after) : SameHolders fs after := by
  obtain ⟨inodes, supers⟩ := same
  exact ⟨fun ino => by rw [inodes]; exact ⟨rfl, rfl, rfl⟩,
    fun sb => by rw [supers]; exact ⟨rfl, rfl⟩⟩

theorem trans {middle : Fs} (first : SameHolders fs middle)
    (second : SameHolders middle after) : SameHolders fs after := by
  refine ⟨fun ino => ?_, fun sb => ?_⟩
  · obtain ⟨dev, block, pipe⟩ := second.inode ino
    rw [dev, block, pipe]
    exact first.inode ino
  · rw [(second.super sb).1, (second.super sb).2]
    exact first.super sb

/-- An entry may change its count, its number and its mount. -/
theorem setInode (dev : inode.dev = (fs.inodeTable ino).dev)
    (block : inode.block = (fs.inodeTable ino).block)
    (pipe : inode.pipe = (fs.inodeTable ino).pipe) : SameHolders fs (fs.setInode ino inode) := by
  refine ⟨fun other => ?_, fun sb => ⟨rfl, rfl⟩⟩
  by_cases own : other = ino
  · simp [own, dev, block, pipe]
  · simp [own]

theorem setCount (fs : Fs) (ino count : Nat) : SameHolders fs (fs.setCount ino count) :=
  setInode rfl rfl rfl

theorem renumber (fs : Fs) (ino nr : Nat) :
    SameHolders fs (fs.setInode ino { fs.inodeTable ino with nr := nr }) :=
  setInode rfl rfl rfl

theorem holders (same : SameHolders fs after) : after.holders = fs.holders := by
  refine holders_eq (fun ino => ?_) fun sb => (same.super sb).1
  unfold Inode.buffers
  simp only [same.inode]

theorem sane (same : SameHolders fs after) (sane : fs.Sane) : after.Sane := by
  constructor
  · simpa only [same.inode] using sane.blank
  · simpa only [same.inode, same.super] using sane.listed
  · simpa only [same.super] using sane.nodup

end SameHolders

/-- One inode holds other buffers than before. -/
theorem holders_change (inTable : ino < inodeNr)
    (inodes : ∀ other, other ≠ ino → after.inodeTable other = fs.inodeTable other)
    (supers : ∀ sb, (after.superTable sb).buffers = (fs.superTable sb).buffers) :
    after.holders + (fs.inodeTable ino).buffers =
      fs.holders + (after.inodeTable ino).buffers := by
  have same (other : Nat) (different : other ≠ ino) :
      (after.inodeTable other).buffers = (fs.inodeTable other).buffers := by
    rw [inodes other different]
  have changed : ∑ other ∈ Finset.range inodeNr, (after.inodeTable other).buffers +
      (fs.inodeTable ino).buffers =
        ∑ other ∈ Finset.range inodeNr, (fs.inodeTable other).buffers +
          (after.inodeTable ino).buffers :=
    sum_change_one (Finset.mem_range.mpr inTable) same
  unfold holders
  simp only [supers]
  rw [add_right_comm, changed, add_right_comm]

/-! ## Releasing inodes -/

/-- The release of an inode keeps the lists in order. -/
theorem Sane.dropped (sane : fs.Sane) (dropped : Dropped fs after ino) : after.Sane := by
  refine ⟨fun other => ?blank, fun sb inTable other present => ?listed,
    fun sb inTable => ?nodup⟩
  case blank =>
    by_cases own : other = ino
    · rw [own]
      intro free
      by_cases none : (after.inodeTable ino).count = 0
      · exact (dropped.freed none).2.2.1
      · rw [(dropped.kept none).1] at free
        rw [(dropped.kept none).2.1]
        exact sane.blank ino free
    · rw [dropped.others other own]
      exact sane.blank other
  case listed =>
    have before := sane.listed sb inTable other (dropped.member present)
    by_cases own : other = ino
    · rw [own] at before present ⊢
      by_cases none : (after.inodeTable ino).count = 0
      · rcases (dropped.freed none).2.2.2 with ⟨isPipe, _⟩ | erased
        · rw [isPipe] at before
          cases before.2.2
        · rw [erased sb] at present
          exact absurd present (sane.nodup sb inTable).not_mem_erase
      · rw [(dropped.kept none).1, (dropped.kept none).2.1]
        exact before
    · rw [dropped.others other own]
      exact before
  case nodup =>
    obtain ⟨inodeList, isAfter, sublist⟩ := dropped.supers sb
    rw [isAfter]
    exact (sane.nodup sb inTable).sublist sublist

/-- The rule for a change of the tables that leaves the holders alone. -/
theorem keep {Value Plain : Type} {given : Multiset BufferId} {later : Fs}
    {onward : Unit → Buffered Value} {plain : Except Fault Plain}
    {agrees : Value → Fs → Plain → Prop} {handed : Value → Multiset BufferId}
    (same : SameHolders fs later)
    (second : books.Accounts later given (onward ()) plain agrees handed) :
    books.Accounts fs given (Counting.replace later >>= onward) plain agrees handed := by
  refine .replace same.sane ?_ second
  exact congrArg (· + given) same.holders.symm

/-- The rule for a block that is read. -/
theorem read {Value Plain : Type} {given : Multiset BufferId} {number : Nat}
    {onward : BufferId → Buffered Value} {plain : Except Fault Plain}
    {agrees : Value → Fs → Plain → Prop} {handed : Value → Multiset BufferId}
    (second : books.Accounts fs ((dev, number) ::ₘ given) (onward (dev, number)) plain
      agrees handed) :
    books.Accounts fs given (Buffered.bread dev number >>= onward) plain agrees handed := by
  rw [Buffered.bread_bind]
  exact .acquire second

/-- The super blocks hold the same buffers after a release. -/
theorem Dropped.superBuffers (dropped : Dropped fs after ino) (sb : Nat) :
    (after.superTable sb).buffers = (fs.superTable sb).buffers := by
  obtain ⟨_, isAfter, _⟩ := dropped.supers sb
  rw [isAfter]
  rfl

/-- The release of a pipe changes no holder. -/
theorem Dropped.pipeHolders (dropped : Dropped fs after ino)
    (isPipe : (fs.inodeTable ino).pipe = true) : after.holders = fs.holders := by
  refine holders_eq (fun other => ?_) dropped.superBuffers
  by_cases own : other = ino
  · rw [own, Inode.buffers_eq_zero (.inr isPipe)]
    apply Inode.buffers_eq_zero
    by_cases none : (after.inodeTable ino).count = 0
    · exact .inl (dropped.freed none).2.1
    · exact .inr ((dropped.kept none).2.1.trans isPipe)
  · rw [dropped.others other own]

/-- The release of the last reference to an inode takes a buffer from it. -/
theorem Dropped.lastHolders (dropped : Dropped fs after ino) (sane : fs.Sane)
    (none : (after.inodeTable ino).count = 0) (inTable : sb < superNr)
    (listed : ino ∈ (fs.superTable sb).inodeList) :
    fs.holders = fs.cache ino ::ₘ after.holders := by
  obtain ⟨inInodes, used, plain⟩ := sane.listed sb inTable ino listed
  have changed := holders_change inInodes dropped.others dropped.superBuffers
  rw [Inode.buffers_eq used plain, Inode.buffers_eq_zero (.inl (dropped.freed none).2.1),
    add_zero] at changed
  rw [← changed, add_comm, Multiset.singleton_add]
  rfl

theorem iput_accounts (fs : Fs) (ino : Nat) (given : Multiset BufferId) :
    books.Accounts fs given (Buffered.iput ino) (fs.iput ino)
      (fun _ after result => result = after) fun _ => given := by
  have released := @iput_dropped fs
  unfold Buffered.iput
  unfold Fs.iput at released ⊢
  refine .view ?_
  dsimp only
  refine .ite (fun isPipe => ?pipe) fun notPipe => ?plain
  case pipe =>
    refine .plainLast (.lift fun later put => .last ?_)
    have dropped : Dropped fs later ino := released (by rw [if_pos isPipe]; exact put)
    refine .replace (fun sane => sane.dropped dropped) ?_ (.ret rfl rfl)
    exact congrArg (· + given) (dropped.pipeHolders isPipe).symm
  case plain =>
    refine .ite (fun more => .last (keep (.setCount fs ino _) (.ret rfl rfl))) fun last => ?_
    refine .releaseLift fun unlisted unlist => .plainLast (.releaseLift fun later free => ?_)
    have dropped : Dropped fs later ino := released (by
      rw [if_neg notPipe, if_neg last, unlist]
      exact free)
    have none : (later.inodeTable ino).count = 0 := by
      rw [dropped.count]
      simpa [setCount] using last
    unfold unlistInode at unlist
    simp only [bind_eq_ok, check_eq_ok] at unlist
    obtain ⟨_, ⟨sb, inTable, listed⟩, _⟩ := unlist
    have same : (fs.setCount ino (sub32 (fs.inodeTable ino).count 1)).cache ino =
        fs.cache ino := by simp [cache, setCount]
    rw [same, ← bind_pure (Counting.replace later)]
    exact .ofSound fun sane => .leave (fun _ => sane.dropped dropped)
      (dropped.lastHolders sane none (List.mem_range.mp inTable) listed) (.ret rfl rfl)

theorem iputOption_accounts (fs : Fs) (pointer : Option Nat) (given : Multiset BufferId) :
    books.Accounts fs given (Buffered.iputOption pointer) (fs.iputOption pointer)
      (fun _ after result => result = after) fun _ => given := by
  cases pointer with
  | none => exact .ret rfl rfl
  | some ino => exact iput_accounts fs ino given

/-! ## Taking inodes -/

/-- An inode that is loaded takes its place on a list. -/
theorem Sane.loaded {nr : Nat} (sane : fs.Sane) (real : dev ≠ eof)
    (isFree : (fs.inodeTable ino).dev = eof) (inInodes : ino < inodeNr)
    (notListed : ino ∉ (fs.superTable sb).inodeList) : (fs.withLoaded sb dev nr ino).Sane := by
  refine ⟨fun other => ?blank, fun other inTable member present => ?listed,
    fun other inTable => ?nodup⟩
  case blank =>
    by_cases own : other = ino
    · rw [own, withLoaded_self]
      exact fun free => absurd free real
    · rw [withLoaded_other own]
      exact sane.blank other
  case listed =>
    rcases mem_withLoaded present with ⟨_, isInode⟩ | before
    · rw [isInode, withLoaded_self]
      exact ⟨inInodes, real, sane.blank ino isFree⟩
    · have kept := sane.listed other inTable member before
      have different : member ≠ ino := by
        rintro rfl
        exact kept.2.1 isFree
      rw [withLoaded_other different]
      exact kept
  case nodup =>
    rw [withLoaded_list]
    by_cases own : other = sb
    · rw [if_pos own]
      exact (sane.nodup sb (own ▸ inTable)).cons notListed
    · rw [if_neg own]
      exact sane.nodup other inTable

theorem withLoaded_superBuffers (fs : Fs) (sb dev nr ino other : Nat) :
    ((fs.withLoaded sb dev nr ino).superTable other).buffers =
      (fs.superTable other).buffers := by
  obtain ⟨_, same⟩ := (withLoaded_tablesOnly fs sb dev nr ino).superTable other
  rw [same]
  rfl

/-- An inode that is loaded holds the buffer of its descriptor. -/
theorem holders_loaded {nr : Nat} (sane : fs.Sane) (real : dev ≠ eof)
    (isFree : (fs.inodeTable ino).dev = eof) (inInodes : ino < inodeNr) :
    (dev, ((fs.withLoaded sb dev nr ino).inodeTable ino).block) ::ₘ fs.holders =
      (fs.withLoaded sb dev nr ino).holders := by
  have changed := holders_change inInodes
    (fun other different => withLoaded_other different)
    (withLoaded_superBuffers fs sb dev nr ino)
  have own : (fs.loadedInode dev nr ino).buffers =
      {(dev, (fs.loadedInode dev nr ino).block)} :=
    Inode.buffers_eq real (sane.blank ino isFree)
  rw [Inode.buffers_eq_zero (.inl isFree), add_zero, withLoaded_self, own] at changed
  rw [changed, add_comm, Multiset.singleton_add, withLoaded_self]

theorem loadInode_accounts (real : dev ≠ eof) (nr : Nat) (given : Multiset BufferId) :
    books.Accounts fs given (Buffered.loadInode sb dev nr) (fs.loadInode sb dev nr)
      (fun ino after result => result = (ino, after)) fun _ => given := by
  unfold Buffered.loadInode
  refine .view (.plainLast (.lift fun loaded load => ?_))
  obtain ⟨ino, later⟩ := loaded
  obtain ⟨_, isFree, inInodes, notListed, rfl⟩ := loadInode_cases load
  simp only [Buffered.bread_bind]
  exact .ofSound fun sane => .enter (fun _ => sane.loaded real isFree inInodes notListed)
    (holders_loaded sane real isFree inInodes) (.ret rfl rfl)

theorem fitInode_accounts (fs : Fs) (ino : Nat) (given : Multiset BufferId) :
    books.Accounts fs given (Buffered.fitInode ino) (fs.fitInode ino)
      (fun found after result => result = (found, after)) fun _ => given := by
  unfold Buffered.fitInode Fs.fitInode
  refine .view ?_
  refine .ite (fun _ => .ret rfl rfl) fun _ => ?_
  cases fs.getSuper (fs.inodeTable ino).mount with
  | none => exact .fail
  | some sb =>
      refine .bind (iput_accounts fs ino given) ?_
      rintro _ _ dropped _ rfl _
      refine .view ?_
      cases (dropped.superTable sb).iroot with
      | none => exact .fail
      | some root => exact keep (.setCount dropped root _) (.ret rfl rfl)

theorem iget_accounts (real : dev ≠ eof) (fs : Fs) (nr : Nat) (given : Multiset BufferId) :
    books.Accounts fs given (Buffered.iget dev nr) (fs.iget dev nr)
      (fun ino after result => result = (ino, after)) fun _ => given := by
  unfold Buffered.iget Fs.iget
  refine .view (.lift fun found _ => ?_)
  cases found with
  | some ino => exact keep (.setCount fs ino _) (fitInode_accounts _ ino given)
  | none =>
      cases fs.getSuper dev with
      | none => exact .fail
      | some sb => exact loadInode_accounts real nr given

theorem newInode_accounts (real : dev ≠ eof) (fs : Fs) (task : Creds) (nr : Nat)
    (given : Multiset BufferId) :
    books.Accounts fs given (Buffered.newInode task dev nr) (fs.newInode task dev nr)
      (fun ino after result => result = (ino, after)) fun _ => given := by
  unfold Buffered.newInode Fs.newInode
  refine .bind (iget_accounts real fs nr given) ?_
  rintro ino taken _ _ rfl _
  exact .view (keep (.ofTables (.modifyDesc taken ino _)) (.ret rfl rfl))

end Fs
end LightOS
