import LightOS.Fs.Formatting
import LightOS.Fs.Mounting
import LightOS.Fs.Moves
import LightOS.Fs.References
import LightOS.Fs.RootDirectory
import LightOS.Foundation.Transition

/-!
# The table of super blocks

An entry of `super_table` is either vacant or belongs to a mounted device.  A device
with another magic number breaks this: `read_super` takes an entry for it and leaves
the entry behind.
-/

namespace LightOS
namespace Fs

variable {value : Int} {devname dirname : Option Cursor} {disks : Disks}

/-- Every entry of `super_table` has kept its fields, but for its list of inodes. -/
def SameEntries (before after : Fs) : Prop :=
  ∀ sb, ∃ inodeList, after.superTable sb =
    { before.superTable sb with inodeList := inodeList }

/-- An entry of `super_table` that `get_free_super` may return. -/
structure Vacant (super : SuperBlock) : Prop where
  dev : super.dev = eof
  count : super.count = 0
  unmounted : super.imount = none

/-- The buffers of an entry hold the bitmaps of its device. -/
structure HoldsMaps (fs : Fs) (super : SuperBlock) : Prop where
  magic : (fs.superDesc super.dev).magic = minixMagic
  imaps : super.imaps =
    setBuffers (fun _ => none) imapBlockNr (fs.superDesc super.dev).imapBlocks
  zmaps : super.zmaps =
    setBuffers (fun _ => none) (imapBlockNr + (fs.superDesc super.dev).imapBlocks)
      (fs.superDesc super.dev).zmapBlocks

/-- An entry of `super_table` for a mounted device. -/
structure Occupied (fs : Fs) (super : SuperBlock) : Prop extends HoldsMaps fs super where
  dev : super.dev ≠ eof
  count : super.count = 1
  mounted : super.imount.isSome

/-- Two entries are not for the same device. -/
def OneEntryEach (fs : Fs) : Prop :=
  ∀ sb < superNr, ∀ other < superNr, (fs.superTable sb).dev ≠ eof →
    (fs.superTable sb).dev = (fs.superTable other).dev → sb = other

/-- What `read_super` should return for a device: an entry of its own with the bitmaps
of a file system, counted for the mount and for the caller. -/
structure ReadWell (before after : Fs) (dev sb : Nat) : Prop where
  dev : (after.superTable sb).dev = dev
  maps : HoldsMaps after (after.superTable sb)
  count : (after.superTable sb).count =
    if (before.superTable sb).imount.isSome then 2 else 1

/-- At most one entry has a given device, and `read_super` returns entries that are in
order. -/
structure SuperSound (fs : Fs) : Prop where
  one : fs.OneEntryEach
  read : ∀ dev sb after, dev ≠ eof → fs.readSuper dev = .ok (some sb, after) →
    ReadWell fs after dev sb

/-- The entries are vacant or belong to mounted devices, and no descriptor of an inode
lies in the super block of its device. -/
structure SuperOrder (fs : Fs) : Prop where
  entry : ∀ sb < superNr, Vacant (fs.superTable sb) ∨ Occupied fs (fs.superTable sb)
  one : fs.OneEntryEach
  inodes : ∀ ino, (fs.inodeTable ino).block ≠ superBlockNr

namespace SameEntries

variable {before middle after : Fs}

theorem refl (fs : Fs) : SameEntries fs fs :=
  fun _ => ⟨_, rfl⟩

theorem trans (first : SameEntries before middle) (second : SameEntries middle after) :
    SameEntries before after := by
  intro sb
  obtain ⟨_, isFirst⟩ := first sb
  obtain ⟨inodeList, isSecond⟩ := second sb
  exact ⟨inodeList, by rw [isSecond, isFirst]⟩

theorem moves (moves : Moves before after) : SameEntries before after :=
  moves.tablesOnly.superTable

end SameEntries

variable {fs before middle after : Fs} {dev sb ino : Nat} {task : Creds}

@[simp] theorem setSuper_superDesc (fs : Fs) (sb : Nat) (super : SuperBlock) :
    (fs.setSuper sb super).superDesc = fs.superDesc := rfl

/-! ## Moves -/

/-- `iput` keeps the place of every descriptor. -/
theorem iput_block (released : fs.iput ino = .ok after) (other : Nat) :
    (after.inodeTable other).block = (fs.inodeTable other).block := by
  by_cases same : other = ino
  · subst same
    unfold iput at released
    split at released
    · unfold putPipeInode at released
      dsimp only at released
      split at released
      · cases released
        simp [setCount]
      · obtain ⟨_, _, rfl⟩ := putFreeInode_cases released
        simp [setCount]
    · dsimp only at released
      split at released
      · cases released
        simp [setCount]
      · rw [bind_eq_ok] at released
        obtain ⟨unlisted, removed, freed⟩ := released
        obtain ⟨_, sameInodes, _⟩ := unlistInode_tablesOnly removed
        obtain ⟨_, _, rfl⟩ := putFreeInode_cases freed
        simp [sameInodes, setCount]
  · rw [(iput_tablesOnly released).2.1 other same]

theorem Moves.inodes (moves : Moves before after)
    (inodes : ∀ ino, (before.inodeTable ino).block ≠ superBlockNr) (ino : Nat) :
    (after.inodeTable ino).block ≠ superBlockNr := by
  induction moves with
  | refl => exact inodes ino
  | tail _ move inductionHypothesis =>
      cases move with
      | take other =>
          by_cases same : ino = other
          · subst same
            simpa [setCount] using inductionHypothesis
          · simpa [setCount, same] using inductionHypothesis
      | put released =>
          rw [iput_block released]
          exact inductionHypothesis
      | load isSuper loaded =>
          rename_i dev nr other
          obtain ⟨_, _, _, _, rfl⟩ := loadInode_cases loaded
          by_cases same : ino = other
          · subst same
            simp only [withLoaded, loadedInode, setSuper_inodeTable, setInode_inodeTable,
              Function.update_self, inodeBlock]
            have behind := superBlock_before
            have positive := Nat.zero_le (sub32 nr 1 / blockInodes)
            omega
          · simpa [withLoaded, same] using inductionHypothesis

/-! ## Order -/

/-- A change that leaves all entries but one as they are, and the descriptors of the
devices in use. -/
theorem SuperOrder.change (order : before.SuperOrder) (sb : Nat)
    (others : ∀ other, other ≠ sb → ∃ inodeList, after.superTable other =
      { before.superTable other with inodeList := inodeList })
    (descs : ∀ other < superNr, other ≠ sb → (before.superTable other).dev ≠ eof →
      after.superDesc (before.superTable other).dev =
        before.superDesc (before.superTable other).dev)
    (own : sb < superNr → Vacant (after.superTable sb) ∨
      Occupied after (after.superTable sb) ∧ ∀ other < superNr, other ≠ sb →
        (before.superTable other).dev ≠ (after.superTable sb).dev)
    (inodes : ∀ ino, (after.inodeTable ino).block ≠ superBlockNr) :
    after.SuperOrder := by
  have sameDev (other : Nat) (different : other ≠ sb) :
      (after.superTable other).dev = (before.superTable other).dev := by
    obtain ⟨_, isAfter⟩ := others other different
    rw [isAfter]
  refine ⟨fun other inTable => ?entry, fun left leftIn right rightIn used carries => ?one,
    inodes⟩
  case entry =>
    by_cases same : other = sb
    · subst same
      exact (own inTable).imp_right And.left
    · obtain ⟨_, isAfter⟩ := others other same
      rw [isAfter]
      rcases order.entry other inTable with vacant | occupied
      · exact .inl ⟨vacant.dev, vacant.count, vacant.unmounted⟩
      · have isDesc := descs other inTable same occupied.dev
        have maps : HoldsMaps after (before.superTable other) := by
          constructor
          · rw [isDesc]
            exact occupied.magic
          · rw [isDesc]
            exact occupied.imaps
          · rw [isDesc]
            exact occupied.zmaps
        exact .inr ⟨⟨maps.magic, maps.imaps, maps.zmaps⟩, occupied.dev, occupied.count,
          occupied.mounted⟩
  case one =>
    have apart (ownIn : sb < superNr) (other : Nat) (inTable : other < superNr)
        (different : other ≠ sb) (used : (after.superTable sb).dev ≠ eof) :
        (before.superTable other).dev ≠ (after.superTable sb).dev := by
      rcases own ownIn with vacant | ⟨_, apart⟩
      · exact absurd vacant.dev used
      · exact apart other inTable different
    by_cases isLeft : left = sb
    · by_cases isRight : right = sb
      · rw [isLeft, isRight]
      · rw [isLeft] at used carries
        rw [sameDev right isRight] at carries
        exact absurd carries.symm (apart (isLeft ▸ leftIn) right rightIn isRight used)
    · by_cases isRight : right = sb
      · rw [isRight] at carries
        rw [carries] at used
        rw [sameDev left isLeft] at carries
        exact absurd carries (apart (isRight ▸ rightIn) left leftIn isLeft used)
      · rw [sameDev left isLeft] at used carries
        rw [sameDev right isRight] at carries
        exact order.one left leftIn right rightIn used carries

/-- A change of the lists of inodes only. -/
theorem SuperOrder.congr (order : before.SuperOrder) (same : SameEntries before after)
    (block : after.block = before.block)
    (inodes : ∀ ino, (after.inodeTable ino).block ≠ superBlockNr) :
    after.SuperOrder := by
  have descs (dev : Nat) : after.superDesc dev = before.superDesc dev := by
    unfold superDesc
    rw [block]
  exact order.change superNr (fun other _ => same other) (fun _ _ _ _ => descs _)
    (fun outside => absurd outside (Nat.lt_irrefl superNr)) inodes

/-- A walk keeps the order. -/
theorem SuperOrder.moves (order : before.SuperOrder) (moves : Moves before after) :
    after.SuperOrder :=
  order.congr (.moves moves) moves.tablesOnly.block (moves.inodes order.inodes)

/-! ## Reading a super block -/

/-- The entry that `read_super` makes for a device. -/
def readEntry (fs : Fs) (dev sb : Nat) : SuperBlock :=
  { fs.superTable sb with
    dev := dev
    count := 1
    imaps := setBuffers (fun _ => none) imapBlockNr (fs.superDesc dev).imapBlocks
    zmaps := setBuffers (fun _ => none) (imapBlockNr + (fs.superDesc dev).imapBlocks)
      (fs.superDesc dev).zmapBlocks }

/-- What `read_super` does. -/
theorem readSuper_cases {result : Option Nat}
    (read : fs.readSuper dev = .ok (result, after)) :
    (∃ sb, fs.getSuper dev = some sb ∧ result = some sb ∧ after = fs.holdSuper sb) ∨
    fs.getSuper dev = none ∧
      ((fs.superDesc dev).magic ≠ minixMagic ∧ result = none ∨
      (fs.superDesc dev).magic = minixMagic ∧ ∃ sb, (fs.superTable sb).dev = eof ∧
        sb < superNr ∧ result = some sb ∧ after = fs.setSuper sb (fs.readEntry dev sb)) := by
  unfold readSuper at read
  split at read
  · rename_i sb isSuper
    cases read
    exact .inl ⟨sb, isSuper, rfl, rfl⟩
  · rename_i absent
    rw [bind_eq_ok] at read
    obtain ⟨sb, found, read⟩ := read
    obtain ⟨isFree, inTable⟩ := getFreeSuper_cases found
    refine .inr ⟨absent, ?_⟩
    dsimp only at read
    split at read
    · rename_i foreign
      cases read
      exact .inl ⟨foreign, rfl⟩
    · rename_i recognised
      simp only [bind_eq_ok] at read
      obtain ⟨_, _, _, _, same⟩ := read
      cases same
      exact .inr ⟨not_not.mp recognised, sb, isFree, inTable, rfl, by
        simp [readEntry, setSuper, superDesc, block]⟩

/-- The entry of a device in use. -/
theorem SuperOrder.occupied (order : fs.SuperOrder) (real : dev ≠ eof)
    (isSuper : fs.getSuper dev = some sb) : Occupied fs (fs.superTable sb) := by
  obtain ⟨isDev, inTable⟩ := dev_of_getSuper isSuper
  rcases order.entry sb inTable with vacant | occupied
  · exact absurd (isDev.symm.trans vacant.dev) real
  · exact occupied

/-- While the table is in order, `read_super` returns entries that are in order. -/
theorem SuperOrder.sound (order : fs.SuperOrder) : fs.SuperSound := by
  refine ⟨order.one, fun dev sb after real read => ?_⟩
  rcases readSuper_cases read with ⟨other, isSuper, same, rfl⟩ |
    ⟨_, ⟨_, none⟩ | ⟨recognised, other, isFree, inTable, same, rfl⟩⟩
  · cases same
    have occupied := order.occupied real isSuper
    have isDev := (dev_of_getSuper isSuper).1
    constructor
    · simpa [holdSuper] using isDev
    · constructor
      · simpa [holdSuper] using occupied.magic
      · simpa [holdSuper] using occupied.imaps
      · simpa [holdSuper] using occupied.zmaps
    · rw [if_pos occupied.mounted]
      simp [holdSuper, occupied.count, add32]
  · cases none
  · cases same
    have vacant : (fs.superTable sb).imount = none := by
      rcases order.entry sb inTable with vacant | occupied
      · exact vacant.unmounted
      · exact absurd isFree occupied.dev
    constructor
    · simp [readEntry]
    · constructor
      · simpa [readEntry] using recognised
      · simp [readEntry]
      · simp [readEntry]
    · simp [readEntry, vacant]

/-! ## Taking and giving back a super block -/

/-- A reference that is taken and given back leaves the entry as it was. -/
theorem hold_put (one : (fs.superTable sb).count = 1) :
    (fs.holdSuper sb).putSuper sb = .ok fs := by
  have two : ((fs.holdSuper sb).superTable sb).count = 2 := by
    simp [holdSuper, one, add32]
  unfold putSuper
  dsimp only
  rw [check_true (by rw [two]; decide), ok_bind, two, if_pos (by decide)]
  have same : { (fs.holdSuper sb).superTable sb with count := 2 - 1 } =
      fs.superTable sb := by
    simp only [holdSuper, setSuper_superTable, Function.update_self]
    rw [show 2 - 1 = (fs.superTable sb).count from one.symm]
  rw [same]
  simp [holdSuper, setSuper]

/-- The last reference to a super block whose pointers have been cleared. -/
theorem putSuper_last (one : (fs.superTable sb).count = 1)
    (unmounted : (fs.superTable sb).imount = none)
    (rootless : (fs.superTable sb).iroot = none) :
    fs.putSuper sb = .ok (fs.setSuper sb { fs.superTable sb with
      count := 0
      dev := eof }) := by
  unfold putSuper
  dsimp only
  rw [check_true (by rw [one]; decide), ok_bind, one]
  simp [unmounted, rootless, iputOption]

/-- What `put_super` does. -/
theorem putSuper_cases (put : fs.putSuper sb = .ok after) :
    ((fs.superTable sb).count ≠ 1 ∧ after = fs.setSuper sb { fs.superTable sb with
      count := (fs.superTable sb).count - 1 }) ∨
    (fs.superTable sb).count = 1 ∧ Moves (fs.setSuper sb { fs.superTable sb with
      count := 0
      dev := eof }) after := by
  unfold putSuper at put
  simp only [bind_eq_ok, check_eq_ok] at put
  obtain ⟨_, positive, put⟩ := put
  split at put
  · rename_i more
    cases put
    exact .inl ⟨by omega, rfl⟩
  · rename_i last
    rw [bind_eq_ok] at put
    obtain ⟨unmounted, first, second⟩ := put
    exact .inr ⟨by omega, (Moves.putOption first).trans (Moves.putOption second)⟩

/-! ## `sys_mount` -/

theorem cleanMount_cases {sb devinode dirinode : Option Nat}
    (cleaned : fs.cleanMount sb devinode dirinode = .ok (value, after)) :
    value = -1 ∧ ∃ released, fs.putSuperOption sb = .ok released ∧
      Moves released after := by
  unfold cleanMount at cleaned
  simp only [bind_eq_ok] at cleaned
  obtain ⟨released, put, dropped, first, last, second, same⟩ := cleaned
  cases same
  exact ⟨rfl, released, put, (Moves.putOption first).trans (Moves.putOption second)⟩

theorem cleanMount_moves {devinode dirinode : Option Nat} {cleaned : Int × Fs}
    (clean : fs.cleanMount none devinode dirinode = .ok cleaned) : Moves fs cleaned.2 := by
  obtain ⟨value, after⟩ := cleaned
  obtain ⟨_, released, put, moves⟩ := cleanMount_cases clean
  cases put
  exact moves

theorem mountTarget_moves {target : Option MountTarget}
    (found : fs.mountTarget task devname dirname = .ok (target, after)) : Moves fs after := by
  unfold mountTarget at found
  rw [bind_eq_ok] at found
  obtain ⟨⟨devinode, walked⟩, walk, found⟩ := found
  apply (Moves.namei walk).trans
  cases devinode with
  | none =>
      simp only [bind_eq_ok] at found
      obtain ⟨cleaned, clean, same⟩ := found
      cases same
      exact cleanMount_moves clean
  | some devinode =>
      dsimp only at found
      split at found
      · simp only [bind_eq_ok] at found
        obtain ⟨cleaned, clean, same⟩ := found
        cases same
        exact cleanMount_moves clean
      · rw [bind_eq_ok] at found
        obtain ⟨⟨dirinode, searched⟩, search, found⟩ := found
        apply (Moves.namei search).trans
        cases dirinode with
        | none =>
            simp only [bind_eq_ok] at found
            obtain ⟨cleaned, clean, same⟩ := found
            cases same
            exact cleanMount_moves clean
        | some dirinode =>
            dsimp only at found
            split at found
            · simp only [bind_eq_ok] at found
              obtain ⟨cleaned, clean, same⟩ := found
              cases same
              exact cleanMount_moves clean
            · split at found
              · simp only [bind_eq_ok] at found
                obtain ⟨cleaned, clean, same⟩ := found
                cases same
                exact cleanMount_moves clean
              · cases found
                exact .refl

theorem zone_ne_eof (fs : Fs) (ino : Nat) (index : Fin 9) :
    (fs.desc ino).zone index ≠ eof := by
  have small : (fs.desc ino).zone index < 2 ^ 16 := Memory.half_lt _ _
  intro same
  rw [same] at small
  exact absurd small (by decide)

/-- The device of a target is a number of 16 bits. -/
theorem mountTarget_dev {target : MountTarget}
    (found : fs.mountTarget task devname dirname = .ok (some target, after)) :
    target.dev ≠ eof := by
  unfold mountTarget at found
  rw [bind_eq_ok] at found
  obtain ⟨⟨devinode, walked⟩, walk, found⟩ := found
  cases devinode with
  | none =>
      simp only [bind_eq_ok] at found
      obtain ⟨_, _, same⟩ := found
      cases same
  | some devinode =>
      dsimp only at found
      split at found
      · simp only [bind_eq_ok] at found
        obtain ⟨_, _, same⟩ := found
        cases same
      · rw [bind_eq_ok] at found
        obtain ⟨⟨dirinode, searched⟩, search, found⟩ := found
        cases dirinode with
        | none =>
            simp only [bind_eq_ok] at found
            obtain ⟨_, _, same⟩ := found
            cases same
        | some dirinode =>
            dsimp only at found
            split at found
            · simp only [bind_eq_ok] at found
              obtain ⟨_, _, same⟩ := found
              cases same
            · split at found
              · simp only [bind_eq_ok] at found
                obtain ⟨_, _, same⟩ := found
                cases same
              · cases found
                exact zone_ne_eof _ _ _

/-- A device comes to be mounted in an entry that was vacant. -/
theorem SuperOrder.mounted (order : before.SuperOrder) (sb : Nat) (real : dev ≠ eof)
    (absent : before.getSuper dev = none)
    (recognised : (before.superDesc dev).magic = minixMagic)
    (own : ∃ inodeList iroot dirinode, after.superTable sb =
      { before.readEntry dev sb with
        inodeList := inodeList
        iroot := iroot
        imount := some dirinode })
    (others : ∀ other, other ≠ sb → ∃ inodeList, after.superTable other =
      { before.superTable other with inodeList := inodeList })
    (block : after.block = before.block)
    (inodes : ∀ ino, (after.inodeTable ino).block ≠ superBlockNr) :
    after.SuperOrder := by
  have descs (other : Nat) : after.superDesc other = before.superDesc other := by
    unfold superDesc
    rw [block]
  obtain ⟨inodeList, iroot, dirinode, isOwn⟩ := own
  refine order.change sb others (fun _ _ _ _ => descs _)
    (fun _ => .inr ⟨?own, fun other inTable different carries => ?apart⟩) inodes
  case own =>
    rw [isOwn]
    refine ⟨⟨?_, ?_, ?_⟩, real, rfl, rfl⟩
    · rw [descs]
      exact recognised
    · rw [descs]
      rfl
    · rw [descs]
      rfl
  case apart =>
    rw [isOwn] at carries
    have found : (before.getSuper dev).isSome := getSuper_isSome inTable carries
    rw [absent] at found
    cases found

theorem setMount_inodes {mount : Nat}
    (inodes : ∀ ino, (fs.inodeTable ino).block ≠ superBlockNr) (other : Nat) :
    ((fs.setMount ino mount).inodeTable other).block ≠ superBlockNr := by
  have kept := inodes other
  by_cases same : other = ino
  · subst same
    simpa [setMount] using kept
  · simpa [setMount, same] using kept

theorem sysMount_spec (order : fs.SuperOrder) (recognised : ∀ target found,
      fs.mountTarget task devname dirname = .ok (some target, found) →
        found.getSuper target.dev = none →
          (found.superDesc target.dev).magic = minixMagic)
    (mounted : fs.sysMount task devname dirname = .ok (value, after)) :
    after.SuperOrder ∧ (value = -1 → SameEntries fs after) := by
  unfold sysMount at mounted
  rw [bind_eq_ok] at mounted
  obtain ⟨⟨target, found⟩, find, mounted⟩ := mounted
  have moved := mountTarget_moves find
  have foundOrder := order.moves moved
  cases target with
  | none =>
      cases mounted
      exact ⟨foundOrder, fun _ => .moves moved⟩
  | some target =>
      have real := mountTarget_dev find
      obtain ⟨dev, devinode, dirinode⟩ := target
      simp only [bind_eq_ok] at mounted
      obtain ⟨⟨result, read⟩, reading, mounted⟩ := mounted
      rcases readSuper_cases reading with ⟨sb, isSuper, same, rfl⟩ |
        ⟨absent, ⟨foreign, _⟩ | ⟨isMinix, sb, isFree, inTable, same, rfl⟩⟩
      · have occupied := foundOrder.occupied real isSuper
        cases same
        dsimp only at mounted
        rw [if_pos (by simpa [holdSuper] using occupied.mounted)] at mounted
        obtain ⟨_, released, put, moves⟩ := cleanMount_cases mounted
        rw [putSuperOption, hold_put occupied.count] at put
        cases put
        exact ⟨foundOrder.moves moves, fun _ => (SameEntries.moves moved).trans (.moves moves)⟩
      · exact absurd (recognised _ _ find absent) foreign
      · have vacant : (found.superTable sb).imount = none := by
          rcases foundOrder.entry sb inTable with vacant | occupied
          · exact vacant.unmounted
          · exact absurd isFree occupied.dev
        cases same
        dsimp only at mounted
        rw [if_neg (by simp [readEntry, vacant])] at mounted
        simp only [bind_eq_ok] at mounted
        obtain ⟨⟨iroot, loaded⟩, taken, released, release, same⟩ := mounted
        cases same
        have read := Moves.iget taken
        have done := Moves.put release
        refine ⟨foundOrder.mounted sb real absent isMinix ?own ?others ?block
          (done.inodes (setMount_inodes (read.inodes foundOrder.inodes))),
          fun failed => absurd failed (by decide)⟩
        case own =>
          obtain ⟨_, isLoaded⟩ := read.tablesOnly.superTable sb
          obtain ⟨inodeList, isAfter⟩ := done.tablesOnly.superTable sb
          refine ⟨inodeList, some iroot, dirinode, ?_⟩
          rw [isAfter]
          simp [setMount, isLoaded]
        case others =>
          intro other different
          obtain ⟨_, isLoaded⟩ := read.tablesOnly.superTable other
          obtain ⟨inodeList, isAfter⟩ := done.tablesOnly.superTable other
          refine ⟨inodeList, ?_⟩
          rw [isAfter]
          simp [setMount, different, isLoaded]
        case block =>
          rw [done.tablesOnly.block]
          exact read.tablesOnly.block

/-! ## `sys_umount` -/

theorem cleanUmount_cases {sb inode : Option Nat} {result : Int}
    (cleaned : fs.cleanUmount result sb inode = .ok (value, after)) :
    value = result ∧ ∃ released, fs.putSuperOption sb = .ok released ∧
      Moves released after := by
  unfold cleanUmount at cleaned
  simp only [bind_eq_ok] at cleaned
  obtain ⟨released, put, dropped, last, same⟩ := cleaned
  cases same
  exact ⟨rfl, released, put, Moves.putOption last⟩

theorem cleanUmount_moves {inode : Option Nat} {result : Int}
    (cleaned : fs.cleanUmount result none inode = .ok (value, after)) : Moves fs after := by
  obtain ⟨_, released, put, moves⟩ := cleanUmount_cases cleaned
  cases put
  exact moves

/-- An entry falls vacant. -/
theorem SuperOrder.vacated (order : before.SuperOrder) (sb : Nat)
    (others : ∀ other, other ≠ sb → ∃ inodeList, after.superTable other =
      { before.superTable other with inodeList := inodeList })
    (block : after.block = before.block) (own : Vacant (after.superTable sb))
    (inodes : ∀ ino, (after.inodeTable ino).block ≠ superBlockNr) :
    after.SuperOrder := by
  have descs (dev : Nat) : after.superDesc dev = before.superDesc dev := by
    unfold superDesc
    rw [block]
  exact order.change sb others (fun _ _ _ _ => descs _) (fun _ => .inl own) inodes

/-- Releasing the mount of a super block that is held twice clears the pointers of its
entry and leaves it held once. -/
theorem releaseMount_cases {mounted : Nat} (two : (fs.superTable sb).count = 2)
    (released : fs.releaseMount sb mounted = .ok after) :
    (∃ inodeList, after.superTable sb = { fs.superTable sb with
      inodeList := inodeList
      count := 1
      iroot := none
      imount := none }) ∧
    (∀ other, other ≠ sb → ∃ inodeList, after.superTable other =
      { fs.superTable other with inodeList := inodeList }) ∧
    after.block = fs.block ∧
    ((∀ ino, (fs.inodeTable ino).block ≠ superBlockNr) →
      ∀ ino, (after.inodeTable ino).block ≠ superBlockNr) := by
  unfold releaseMount at released
  simp only [bind_eq_ok] at released
  obtain ⟨rootless, first, unmounted, second, put⟩ := released
  have firstMoves := Moves.putOption first
  have secondMoves := Moves.put second
  obtain ⟨firstList, isRootless⟩ := firstMoves.tablesOnly.superTable sb
  obtain ⟨secondList, isUnmounted⟩ := secondMoves.tablesOnly.superTable sb
  have held : unmounted.superTable sb = { fs.superTable sb with
      inodeList := secondList
      iroot := none } := by
    rw [isUnmounted]
    simp [setMount, isRootless]
  rcases putSuper_cases put with ⟨_, rfl⟩ | ⟨one, _⟩
  · refine ⟨⟨secondList, by simp [held, two]⟩, fun other different => ?_, ?_,
      fun inodes => ?_⟩
    · obtain ⟨_, isFirst⟩ := firstMoves.tablesOnly.superTable other
      obtain ⟨rest, isSecond⟩ := secondMoves.tablesOnly.superTable other
      refine ⟨rest, ?_⟩
      simp [different, isSecond, setMount, isFirst]
    · rw [setSuper_block, setSuper_block, secondMoves.tablesOnly.block]
      exact firstMoves.tablesOnly.block
    · exact secondMoves.inodes (setMount_inodes (firstMoves.inodes inodes))
  · simp [held, two] at one

/-- A vacant entry that is taken and given back stays vacant. -/
theorem Vacant.hold_put (vacant : Vacant (fs.superTable sb))
    (put : (fs.holdSuper sb).putSuper sb = .ok after) : Moves fs after := by
  have one : ((fs.holdSuper sb).superTable sb).count = 1 := by
    simp [holdSuper, vacant.count, add32]
  rcases putSuper_cases put with ⟨more, _⟩ | ⟨_, moves⟩
  · exact absurd one more
  · have same : { (fs.holdSuper sb).superTable sb with count := 0, dev := eof } =
        fs.superTable sb := by
      simp only [holdSuper, setSuper_superTable, Function.update_self]
      rw [← vacant.dev, show 0 = (fs.superTable sb).count from vacant.count.symm]
    rw [same] at moves
    simpa [holdSuper, setSuper] using moves

theorem umountSuper_spec (order : fs.SuperOrder)
    (unmounted : fs.umountSuper ino dev = .ok (value, after)) :
    after.SuperOrder ∧ (value = -1 → SameEntries fs after) := by
  unfold umountSuper at unmounted
  split at unmounted
  · cases unmounted
  · rename_i sb isSuper
    dsimp only at unmounted
    split at unmounted
    · rename_i idle
      obtain ⟨_, released, put, moves⟩ := cleanUmount_cases unmounted
      rcases order.entry sb (dev_of_getSuper isSuper).2 with vacant | occupied
      · have moved := (vacant.hold_put put).trans moves
        exact ⟨order.moves moved, fun _ => .moves moved⟩
      · have some := occupied.mounted
        rw [show (fs.superTable sb).imount = none by simpa [holdSuper] using idle] at some
        cases some
    · rename_i mounted isMounted
      have occupied : Occupied fs (fs.superTable sb) := by
        rcases order.entry sb (dev_of_getSuper isSuper).2 with vacant | occupied
        · simp [holdSuper, vacant.unmounted] at isMounted
        · exact occupied
      split at unmounted
      · obtain ⟨_, released, put, moves⟩ := cleanUmount_cases unmounted
        rw [putSuperOption, Fs.hold_put occupied.count] at put
        cases put
        exact ⟨order.moves moves, fun _ => .moves moves⟩
      · rw [bind_eq_ok] at unmounted
        obtain ⟨cleared, clear, unmounted⟩ := unmounted
        obtain ⟨isZero, released, put, moves⟩ := cleanUmount_cases unmounted
        have two : ((fs.holdSuper sb).superTable sb).count = 2 := by
          simp [holdSuper, occupied.count, add32]
        obtain ⟨⟨inodeList, own⟩, others, block, inodes⟩ := releaseMount_cases two clear
        rw [putSuperOption, putSuper_last (by rw [own]) (by rw [own]) (by rw [own])] at put
        cases put
        refine ⟨?_, fun failed => absurd (isZero.symm.trans failed) (by decide)⟩
        have vacated : SuperOrder (cleared.setSuper sb { cleared.superTable sb with
            count := 0
            dev := eof }) := by
          refine order.vacated sb (fun other different => ?_) ?_ ?_ (inodes order.inodes)
          · obtain ⟨rest, isCleared⟩ := others other different
            refine ⟨rest, ?_⟩
            simp [different, isCleared, holdSuper]
          · rw [setSuper_block, block]
            rfl
          · rw [setSuper_superTable, Function.update_self, own]
            exact ⟨rfl, rfl, rfl⟩
        exact vacated.moves moves

theorem sysUmount_spec (order : fs.SuperOrder) {target : Option Cursor}
    (unmounted : fs.sysUmount disks task target = .ok (value, after)) :
    after.SuperOrder ∧ (value = -1 → SameEntries fs after) := by
  unfold sysUmount at unmounted
  rw [bind_eq_ok] at unmounted
  obtain ⟨⟨inode, walked⟩, walk, unmounted⟩ := unmounted
  have moved := Moves.namei walk
  have kept (moves : Moves walked after) :
      after.SuperOrder ∧ (value = -1 → SameEntries fs after) :=
    ⟨(order.moves moved).moves moves, fun _ => .moves (moved.trans moves)⟩
  cases inode with
  | none => exact kept (cleanUmount_moves unmounted)
  | some inode =>
      dsimp only at unmounted
      split at unmounted
      · exact kept (cleanUmount_moves unmounted)
      · split at unmounted
        · exact kept (cleanUmount_moves unmounted)
        · split at unmounted
          · exact kept (cleanUmount_moves unmounted)
          · obtain ⟨kept, same⟩ := umountSuper_spec (order.moves moved) unmounted
            exact ⟨kept, fun failed => (SameEntries.moves moved).trans (same failed)⟩

/-! ## `sys_mkfs` -/

/-- The entries of `super_table` are the same, and so are the descriptors of all devices
but one, as long as no inode lies in a super block. -/
structure Spares (dev : Nat) (before after : Fs) : Prop where
  entries : SameEntries before after
  descs : (∀ ino, (before.inodeTable ino).block ≠ superBlockNr) →
    ∀ other, other ≠ dev → after.superDesc other = before.superDesc other
  inodes : (∀ ino, (before.inodeTable ino).block ≠ superBlockNr) →
    ∀ ino, (after.inodeTable ino).block ≠ superBlockNr

namespace Spares

theorem trans (first : Spares dev before middle) (second : Spares dev middle after) :
    Spares dev before after where
  entries := first.entries.trans second.entries
  descs inodes other different :=
    (second.descs (first.inodes inodes) other different).trans
      (first.descs inodes other different)
  inodes inodes := second.inodes (first.inodes inodes)

theorem moves (dev : Nat) (moves : Moves before after) : Spares dev before after where
  entries := .moves moves
  descs _ other _ := moves.tablesOnly.superDesc other
  inodes := moves.inodes

theorem modifyDesc (dev : Nat) (fs : Fs) (ino : Nat) (change : Memory → Nat → Memory) :
    Spares dev fs (fs.modifyDesc ino change) where
  entries := .refl fs
  descs inodes other _ := by
    unfold superDesc
    rw [modifyDesc_block_other]
    exact fun same => inodes ino same.2.symm
  inodes inodes := inodes

theorem writeBlock (fs : Fs) (dev number : Nat) (memory : Memory) :
    Spares dev fs (fs.writeBlock dev number memory) where
  entries := .refl fs
  descs _ other different := by
    unfold superDesc
    rw [writeBlock_block_other _ _ _ _ fun same => different same.1]
  inodes inodes := inodes

theorem balloc {otherDev zone : Nat} (dev : Nat)
    (allocated : before.balloc otherDev = .ok (zone, after)) :
    Spares dev before after := by
  rcases balloc_written allocated with ⟨rfl, _⟩ | ⟨_, _, _, written⟩
  · exact .moves dev .refl
  · constructor
    · rw [show SameEntries before after ↔ SameEntries before before by
        unfold SameEntries; rw [written.superTable]]
      exact .refl before
    · intro _ other _
      exact written.superDesc
        (Nat.lt_of_lt_of_le superBlock_before (Nat.le_add_right _ _)) other
    · rw [written.inodeTable]
      exact id

theorem bmapFirst {zone : Nat} {create : Bool} (dev : Nat)
    (mapped : before.bmap ino 0 create = .ok (zone, after)) :
    Spares dev before after := by
  rcases bmap_direct 0 (by decide) mapped with ⟨_, _, rfl⟩ |
    ⟨_, _, fresh, allotted, allocated, _, rfl⟩
  · exact .moves dev .refl
  · exact (balloc dev allocated).trans (.modifyDesc dev _ _ _)

end Spares

/-- Making the root directory spares the other devices, and stores a pointer in the
entry of the device. -/
theorem makeRoot_spares (made : fs.makeRoot task dev sb = .ok after) :
    ∃ created iroot, Spares dev fs created ∧
      Spares dev (created.setSuper sb { created.superTable sb with
        iroot := some iroot }) after := by
  unfold makeRoot newInode at made
  simp only [bind_eq_ok] at made
  obtain ⟨_, ⟨⟨ino, taken⟩, get, same⟩, ⟨zone, mapped⟩, map, written⟩ := made
  cases same
  cases written
  refine ⟨taken.modifyDesc ino (taken.initialDesc task), ino,
    (Spares.moves dev (.iget get)).trans (.modifyDesc dev _ _ _), ?_⟩
  exact (((Spares.modifyDesc dev _ _ _).trans (.modifyDesc dev _ _ _)).trans
    (.modifyDesc dev _ _ _)).trans ((Spares.bmapFirst dev map).trans (.writeBlock _ _ _ _))

/-- Formatting a device that has no entry leaves the table in order. -/
theorem format_spec (order : fs.SuperOrder) (absent : fs.getSuper dev = none)
    {totalBlock icount : Nat}
    (formatted : fs.format task dev totalBlock icount = .ok after) : after.SuperOrder := by
  obtain ⟨_, _, sb, isFree, inTable, ⟨steps⟩⟩ := format_steps formatted
  obtain ⟨_, _, laid, _⟩ := steps.prepared
  obtain ⟨created, iroot, first, second⟩ := makeRoot_spares steps.made
  have inodes : ∀ ino, (steps.stage.inodeTable ino).block ≠ superBlockNr := by
    rw [laid.inodeTable]
    exact order.inodes
  have vacant : (fs.superTable sb).imount = none := by
    rcases order.entry sb inTable with vacant | occupied
    · exact vacant.unmounted
    · exact absurd isFree occupied.dev
  have others (other : Nat) (different : other ≠ sb) : ∃ inodeList,
      steps.rooted.superTable other =
        { fs.superTable other with inodeList := inodeList } := by
    obtain ⟨_, isCreated⟩ := first.entries other
    obtain ⟨inodeList, isRooted⟩ := second.entries other
    refine ⟨inodeList, ?_⟩
    rw [isRooted]
    simp [different, isCreated, laid.superTable]
  obtain ⟨_, isCreated⟩ := first.entries sb
  obtain ⟨inodeList, isRooted⟩ := second.entries sb
  have own : steps.rooted.superTable sb =
      { fs.formatSuper dev sb (newSuperDesc totalBlock icount) with
        inodeList := inodeList
        iroot := some iroot } := by
    rw [isRooted]
    simp [isCreated, laid.superTable]
  have descs (other : Nat) (different : other ≠ dev) :
      steps.rooted.superDesc other = fs.superDesc other := by
    rw [second.descs (first.inodes inodes) other different, setSuper_superDesc,
      first.descs inodes other different]
    unfold superDesc
    rw [laid.others other _ fun same => different same.1]
  have rootedInodes := second.inodes (first.inodes inodes)
  rcases putSuper_cases steps.put with ⟨more, _⟩ | ⟨_, moves⟩
  · rw [own] at more
    exact absurd rfl more
  · have vacated : SuperOrder (steps.rooted.setSuper sb { steps.rooted.superTable sb with
        count := 0
        dev := eof }) := by
      refine order.change sb (fun other different => ?others)
        (fun other inTable different used => ?descs) (fun _ => .inl ?own) rootedInodes
      case others =>
        obtain ⟨rest, isRooted⟩ := others other different
        exact ⟨rest, by simp [different, isRooted]⟩
      case descs =>
        apply descs
        intro carries
        have found : (fs.getSuper dev).isSome := getSuper_isSome inTable carries
        rw [absent] at found
        cases found
      case own =>
        rw [setSuper_superTable, Function.update_self, own]
        exact ⟨rfl, rfl, vacant⟩
    exact vacated.moves moves

theorem devmkfs_spec (order : fs.SuperOrder) (real : dev ≠ eof) {totalBlock icount : Nat}
    (made : fs.devmkfs task dev totalBlock icount = .ok (value, after)) :
    after.SuperOrder ∧ (value = -1 → SameEntries fs after) := by
  unfold devmkfs at made
  cases isSuper : fs.getSuper dev with
  | some sb =>
      have occupied := order.occupied real isSuper
      rw [isMounted, dropSuper, isSuper] at made
      dsimp only at made
      rw [hold_put occupied.count, ok_bind, if_pos occupied.mounted] at made
      cases made
      exact ⟨order, fun _ => .refl fs⟩
  | none =>
      rw [isMounted, dropSuper, isSuper] at made
      simp only [ok_bind, Bool.false_eq_true, if_false, bind_eq_ok] at made
      obtain ⟨_, _, _, _, formatted, format, same⟩ := made
      cases same
      exact ⟨format_spec order isSuper format, fun failed => absurd failed (by decide)⟩

theorem sysMkfs_spec (order : fs.SuperOrder) {icount : Int}
    (made : fs.sysMkfs disks task devname icount = .ok (value, after)) :
    after.SuperOrder ∧ (value = -1 → SameEntries fs after) := by
  unfold sysMkfs at made
  rw [bind_eq_ok] at made
  obtain ⟨⟨inode, walked⟩, walk, made⟩ := made
  have moved := Moves.namei walk
  have walkedOrder := order.moves moved
  cases inode with
  | none =>
      cases made
      exact ⟨walkedOrder, fun _ => .moves moved⟩
  | some inode =>
      dsimp only at made
      split at made
      · simp only [bind_eq_ok] at made
        obtain ⟨released, release, same⟩ := made
        cases same
        have moves := moved.trans (Moves.put release)
        exact ⟨order.moves moves, fun _ => .moves moves⟩
      · simp only [bind_eq_ok] at made
        obtain ⟨_, _, ⟨result, formatted⟩, format, released, release, same⟩ := made
        cases same
        obtain ⟨kept, same⟩ := devmkfs_spec walkedOrder (zone_ne_eof _ _ _) format
        have moves := Moves.put release
        exact ⟨kept.moves moves, fun failed =>
          ((SameEntries.moves moved).trans (same failed)).trans (.moves moves)⟩

/-! ## Runs -/

/-- A call that may change `super_table`. -/
inductive SuperCall
  | mount (task : Creds) (devname dirname : Option Cursor)
  | umount (task : Creds) (target : Option Cursor)
  | mkfs (task : Creds) (devname : Option Cursor) (icount : Int)

/-- Carry out a call. -/
def perform (fs : Fs) (disks : Disks) : SuperCall → Except Fault (Int × Fs)
  | .mount task devname dirname => fs.sysMount task devname dirname
  | .umount task target => fs.sysUmount disks task target
  | .mkfs task devname icount => fs.sysMkfs disks task devname icount

/-- The runs after `super_init`, on devices with any content. -/
def superRuns (disks : Disks) : System Fs SuperCall where
  initial s := ∃ disk time, superInit (fresh disk time) disks = .ok s
  step before call after := ∃ value, before.perform disks call = .ok (value, after)

/-- A `sys_mount` that comes to `read_super` for a device without an entry finds the
magic number there. -/
def Recognised (fs : Fs) : SuperCall → Prop
  | .mount task devname dirname => ∀ target found,
      fs.mountTarget task devname dirname = .ok (some target, found) →
        found.getSuper target.dev = none →
          (found.superDesc target.dev).magic = minixMagic
  | _ => True

/-- A call finds the table in order where it calls `read_super`, and leaves the table as
it was when it returns `EOF`. -/
structure Keeps (fs : Fs) (disks : Disks) (call : SuperCall) : Prop where
  reads : ∀ task devname dirname target found, call = .mount task devname dirname →
    fs.mountTarget task devname dirname = .ok (target, found) → found.SuperSound
  failed : ∀ after, fs.perform disks call = .ok (-1, after) → fs.SameEntries after

theorem perform_spec (order : fs.SuperOrder) {call : SuperCall} (recognised : fs.Recognised call)
    (performed : fs.perform disks call = .ok (value, after)) :
    after.SuperOrder ∧ (value = -1 → SameEntries fs after) := by
  cases call with
  | mount task devname dirname => exact sysMount_spec order recognised performed
  | umount task target => exact sysUmount_spec order performed
  | mkfs task devname icount => exact sysMkfs_spec order performed

/-- `super_init` leaves the root device as the only one in the table. -/
theorem superInit_order {disk : Volumes} {time : Nat}
    (started : superInit (fresh disk time) disks = .ok after) : after.SuperOrder := by
  unfold superInit mountRoot at started
  simp only [bind_eq_ok] at started
  obtain ⟨⟨root, read⟩, reading, started⟩ := started
  obtain ⟨empty, isEmpty⟩ : ∃ empty : Fs, empty = { fresh disk time with
    superTable := fun sb => { (fresh disk time).superTable sb with
      dev := eof
      inodeList := []
      iroot := none
      imount := none } } := ⟨_, rfl⟩
  rw [← isEmpty] at reading
  have vacant (sb : Nat) : Vacant (empty.superTable sb) := by
    rw [isEmpty]
    exact ⟨rfl, rfl, rfl⟩
  have order : empty.SuperOrder := by
    refine ⟨fun sb _ => .inl (vacant sb), fun sb _ _ _ used => absurd (vacant sb).dev used,
      fun ino => ?_⟩
    rw [isEmpty]
    exact Nat.zero_ne_one
  have real : disks.rootPart.val ≠ eof := by
    have small := disks.rootPart.isLt
    intro same
    rw [same] at small
    exact absurd small (by decide)
  cases root with
  | none => cases started
  | some root =>
      simp only [bind_eq_ok] at started
      obtain ⟨⟨iroot, first⟩, firstTaken, ⟨imount, second⟩, secondTaken, same⟩ := started
      have firstMoves := Moves.iget firstTaken
      have secondMoves := Moves.iget secondTaken
      rcases readSuper_cases reading with ⟨sb, isSuper, _, _⟩ |
        ⟨absent, ⟨_, none⟩ | ⟨isMinix, sb, isFree, inTable, isRoot, isRead⟩⟩
      · have carries := (dev_of_getSuper isSuper).1
        rw [(vacant sb).dev] at carries
        exact absurd carries.symm real
      · cases none
      · cases isRoot
        cases isRead
        cases same
        have kept : ∀ ino, ((second.setMount iroot disks.rootPart.val).inodeTable ino).block ≠
            superBlockNr :=
          setMount_inodes (secondMoves.inodes (firstMoves.inodes order.inodes))
        refine order.mounted root real absent isMinix ?own ?others ?block kept
        case own =>
          obtain ⟨_, isFirst⟩ := firstMoves.tablesOnly.superTable root
          obtain ⟨inodeList, isSecond⟩ := secondMoves.tablesOnly.superTable root
          refine ⟨inodeList, some iroot, imount, ?_⟩
          simp [setMount, isSecond, isFirst]
        case others =>
          intro other different
          obtain ⟨_, isFirst⟩ := firstMoves.tablesOnly.superTable other
          obtain ⟨inodeList, isSecond⟩ := secondMoves.tablesOnly.superTable other
          exact ⟨inodeList, by simp [setMount, different, isSecond, isFirst]⟩
        case block =>
          change second.block = empty.block
          rw [secondMoves.tablesOnly.block]
          exact firstMoves.tablesOnly.block

/-- In every run in which `sys_mount` finds the magic number on each device that it reads
anew, the table of super blocks is sound, and calls that fail leave it alone. -/
theorem superSound_of_recognised {disks : Disks}
    (reached : (superRuns disks).ReachableWithin Recognised fs) :
    fs.SuperSound ∧ ∀ call, fs.Recognised call → fs.Keeps disks call := by
  have order : fs.SuperOrder := by
    refine reached.invariant SuperOrder ?start ?preserved
    case start =>
      rintro state ⟨disk, time, started⟩
      exact superInit_order started
    case preserved =>
      rintro before call after order recognised ⟨value, performed⟩
      exact (perform_spec order recognised performed).1
  refine ⟨order.sound, fun call recognised => ⟨?_, fun after performed => ?_⟩⟩
  · intro task devname dirname target found _ walked
    exact (order.moves (mountTarget_moves walked)).sound
  · exact (perform_spec order recognised performed).2 rfl

/-! ## A machine with two devices -/

/-- The blocks of a device whose root directory has a node `b` for device 2 and a
directory `d`. -/
def nodeDisk (number : Nat) : Memory :=
  match number with
  | 1 => bytes [16, 0, 40, 0, 1, 0, 1, 0, 5, 0, 0, 0, 0, 28, 8, 16, 0x7F, 0x13]
  | 2 => bytes [15, 0, 0xFE]
  | 3 => bytes [7]
  | 4 => bytes [
      0xED, 0x41, 0, 0, 64, 0, 0, 0, 0, 0, 0, 0, 0, 3, 5, 0,
      0, 0, 0, 0, 0, 0, 0, 0, 0, 0, 0, 0, 0, 0, 0, 0,
      0x80, 0x61, 0, 0, 0, 0, 0, 0, 0, 0, 0, 0, 0, 1, 2, 0,
      0, 0, 0, 0, 0, 0, 0, 0, 0, 0, 0, 0, 0, 0, 0, 0,
      0xED, 0x41, 0, 0, 0, 0, 0, 0, 0, 0, 0, 0, 0, 2, 0, 0]
  | 5 => bytes [
      1, 0, 46, 0, 0, 0, 0, 0, 0, 0, 0, 0, 0, 0, 0, 0,
      1, 0, 46, 46, 0, 0, 0, 0, 0, 0, 0, 0, 0, 0, 0, 0,
      2, 0, 98, 0, 0, 0, 0, 0, 0, 0, 0, 0, 0, 0, 0, 0,
      3, 0, 100]
  | _ => bytes []

/-- The root device is number 1, and device 2 has some content. -/
def twoDevices (second : Nat → Memory) : Volumes :=
  fun dev => if dev = 1 then nodeDisk else if dev = 2 then second else fun _ => bytes []

def twoDisks : Disks where
  rootPart := 1
  ramdisk := 3
  blocks := fun _ => 40

/-- `sys_mount` fails on a device that carries no file system, and the next
`read_super` returns the entry that it has left behind. -/
theorem superSound_fails :
    ¬∀ (disks : Disks) (fs : Fs), (superRuns disks).Reachable fs → fs.SuperSound := by
  intro always
  obtain ⟨start, after, read, started, mounted, reading, magic⟩ : ∃ start after read,
      superInit (fresh (twoDevices fun _ => bytes []) 0) twoDisks = .ok start ∧
      start.sysMount rootCreds (some [98]) (some [100]) = .ok (-1, after) ∧
      after.readSuper 2 = .ok (some 1, read) ∧
      (read.superDesc (read.superTable 1).dev).magic = 0 := ⟨_, _, _, rfl, rfl, rfl, rfl⟩
  have taken : (superRuns twoDisks).step start
      (.mount rootCreds (some [98]) (some [100])) after := ⟨-1, mounted⟩
  have reached : (superRuns twoDisks).Reachable after :=
    .step (.initial ⟨_, _, started⟩) trivial taken
  have sound := always _ _ reached
  have isMinix := (sound.read 2 1 read (by decide) reading).maps.magic
  rw [magic] at isMinix
  cases isMinix

/-- A device with a file system comes to be mounted. -/
theorem superSound_of_recognised_mounted :
    ∃ fs, (superRuns twoDisks).ReachableWithin Recognised fs ∧
      (fs.getSuper 2).isSome ∧ fs.SuperSound ∧
        ∀ call, fs.Recognised call → fs.Keeps twoDisks call := by
  obtain ⟨start, found, after, started, walked, magic, mounted, isMounted⟩ :
      ∃ start found after,
        superInit (fresh (twoDevices smallDisk) 0) twoDisks = .ok start ∧
        start.mountTarget rootCreds (some [98]) (some [100]) = .ok (some ⟨2, 1, 2⟩, found) ∧
        (found.superDesc 2).magic = minixMagic ∧
        start.sysMount rootCreds (some [98]) (some [100]) = .ok (0, after) ∧
        (after.getSuper 2).isSome = true := ⟨_, _, _, rfl, rfl, rfl, rfl, rfl⟩
  have recognised : start.Recognised (.mount rootCreds (some [98]) (some [100])) := by
    intro target other walk _
    rw [walked] at walk
    cases walk
    exact magic
  have taken : (superRuns twoDisks).step start
      (.mount rootCreds (some [98]) (some [100])) after := ⟨0, mounted⟩
  have reached : (superRuns twoDisks).ReachableWithin Recognised after :=
    .step (.initial ⟨_, _, started⟩) recognised taken
  exact ⟨after, reached, isMounted, superSound_of_recognised reached⟩

end Fs
end LightOS
