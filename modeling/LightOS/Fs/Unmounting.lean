import LightOS.Fs.NameAccounts
import LightOS.Fs.SuperTable

/-!
# Buffers of super blocks

A super block holds the buffers of its device's super block and bitmaps from `read_super`
to the last `put_super`.  `sys_umount` gives them back as long as the entries of
`super_table` are in order.
-/

namespace LightOS
namespace Fs

variable {fs : Fs} {sb dev : Nat}

/-! ## The bitmaps -/

/-- The rule for a list of buffers that are given back. -/
theorem releaseAll {Item Value Plain : Type} (items : List Item)
    (pointer : Item → Option BufferId) {given : Multiset BufferId}
    {onward : Unit → Buffered Value} {plain : Except Fault Plain}
    {agrees : Value → Fs → Plain → Prop} {handed : Value → Multiset BufferId}
    (second : books.Accounts fs given (onward ()) plain agrees handed) :
    books.Accounts fs ((items.filterMap pointer : Multiset BufferId) + given)
      ((forM items fun item => Buffered.brelseOption (pointer item)) >>= onward) plain agrees
      handed := by
  induction items with
  | nil =>
      rw [List.filterMap_nil, Multiset.coe_nil, zero_add]
      exact second
  | cons item items inductionHypothesis =>
      rw [List.forM_cons, bind_assoc, List.filterMap_cons]
      cases pointer item with
      | none => exact inductionHypothesis
      | some pcache =>
          dsimp only
          rw [← Multiset.cons_coe, Multiset.cons_add]
          exact .release inductionHypothesis

/-- The maps beyond the last block of a bitmap are null. -/
theorem mapBuffers_setBuffers (dev first blocks : Nat) :
    mapBuffers dev (setBuffers (fun _ => none) first blocks) =
      (List.range (min blocks mapNr)).filterMap fun i =>
        (setBuffers (fun _ => none) first blocks i).map fun number => (dev, number) := by
  have beyond (total : Nat) (least : min blocks mapNr ≤ total) (within : total ≤ mapNr) :
      (List.range total).filterMap (fun i =>
        (setBuffers (fun _ => none) first blocks i).map fun number => (dev, number)) =
      (List.range (min blocks mapNr)).filterMap fun i =>
        (setBuffers (fun _ => none) first blocks i).map fun number => (dev, number) := by
    induction total, least using Nat.le_induction with
    | base => rfl
    | succ total least inductionHypothesis =>
        have isNull : setBuffers (fun _ => none) first blocks total = none :=
          if_neg (by omega)
        rw [List.range_succ, List.filterMap_append, inductionHypothesis (by omega)]
        simp [isNull]
  unfold mapBuffers
  rw [beyond mapNr (Nat.min_le_right _ _) (Nat.le_refl _)]

/-- The rule for the buffers of a bitmap. -/
theorem releaseMaps {Value Plain : Type} {first blocks : Nat} {given : Multiset BufferId}
    {onward : Unit → Buffered Value} {plain : Except Fault Plain}
    {agrees : Value → Fs → Plain → Prop} {handed : Value → Multiset BufferId}
    (second : books.Accounts fs given (onward ()) plain agrees handed) :
    books.Accounts fs
      (mapBuffers dev (setBuffers (fun _ => none) first blocks) + given)
      (Buffered.releaseMaps dev (setBuffers (fun _ => none) first blocks) blocks >>= onward)
      plain agrees handed := by
  rw [mapBuffers_setBuffers]
  exact releaseAll _ _ second

/-! ## `put_super` -/

/-- An entry may change its count, its list and its pointers to inodes. -/
theorem SameHolders.setSuper {super : SuperBlock} (dev : super.dev = (fs.superTable sb).dev)
    (imaps : super.imaps = (fs.superTable sb).imaps)
    (zmaps : super.zmaps = (fs.superTable sb).zmaps)
    (inodeList : super.inodeList = (fs.superTable sb).inodeList) :
    SameHolders fs (fs.setSuper sb super) := by
  refine ⟨fun ino => ⟨rfl, rfl, rfl⟩, fun other => ?_⟩
  by_cases own : other = sb
  · simp [own, SuperBlock.buffers, dev, imaps, zmaps, inodeList]
  · simp [own]

/-- One super block holds other buffers than before. -/
theorem holders_setSuper (fs : Fs) (inTable : sb < superNr) (super : SuperBlock) :
    (fs.setSuper sb super).holders + (fs.superTable sb).buffers =
      fs.holders + super.buffers := by
  have others (other : Nat) (different : other ≠ sb) :
      ((fs.setSuper sb super).superTable other).buffers =
        (fs.superTable other).buffers := by
    simp [different]
  have own : (fs.setSuper sb super).superTable sb = super := by simp
  have changed : ∑ other ∈ Finset.range superNr,
        ((fs.setSuper sb super).superTable other).buffers + (fs.superTable sb).buffers =
      ∑ other ∈ Finset.range superNr, (fs.superTable other).buffers +
        ((fs.setSuper sb super).superTable sb).buffers :=
    sum_change_one (Finset.mem_range.mpr inTable) others
  rw [own] at changed
  unfold holders
  rw [add_assoc, changed, add_assoc]
  rfl

/-- An entry that keeps its list leaves the lists in order. -/
theorem Sane.setSuper {super : SuperBlock} (sane : fs.Sane)
    (same : super.inodeList = (fs.superTable sb).inodeList) :
    (fs.setSuper sb super).Sane := by
  have lists (other : Nat) : ((fs.setSuper sb super).superTable other).inodeList =
      (fs.superTable other).inodeList := by
    by_cases own : other = sb
    · simp [own, same]
    · simp [own]
  refine ⟨sane.blank, fun other => ?_, fun other => ?_⟩
  · rw [lists]
    exact sane.listed other
  · rw [lists]
    exact sane.nodup other

/-- The buffers of an entry that holds the maps of its device. -/
theorem HoldsMaps.buffers {super : SuperBlock} (holds : fs.HoldsMaps super)
    (used : super.dev ≠ eof) (given : Multiset BufferId) :
    super.buffers + given =
      mapBuffers super.dev (setBuffers (fun _ => none) imapBlockNr
          (fs.superDesc super.dev).imapBlocks) +
        (mapBuffers super.dev (setBuffers (fun _ => none)
            (imapBlockNr + (fs.superDesc super.dev).imapBlocks)
            (fs.superDesc super.dev).zmapBlocks) +
          (super.dev, superBlockNr) ::ₘ given) := by
  unfold SuperBlock.buffers
  rw [if_neg used, ← holds.imaps, ← holds.zmaps, Multiset.cons_add, add_assoc,
    Multiset.add_cons, Multiset.add_cons]

theorem putSuper_accounts (inTable : sb < superNr)
    (maps : (fs.superTable sb).count = 1 →
      (fs.superTable sb).dev ≠ eof ∧ HoldsMaps fs (fs.superTable sb))
    (given : Multiset BufferId) :
    books.Accounts fs given (Buffered.putSuper sb) (fs.putSuper sb)
      (fun _ after result => result = after) fun _ => given := by
  unfold Buffered.putSuper Fs.putSuper
  refine .view (.lift fun _ positive => .ite (fun _ => ?more) fun last => ?last)
  case more => exact .last (keep (.setSuper rfl rfl rfl rfl) (.ret rfl rfl))
  case last =>
    have one : (fs.superTable sb).count = 1 := by
      have := (check_eq_ok _ _).mp positive
      omega
    obtain ⟨used, holds⟩ := maps one
    have hands := holders_setSuper fs inTable { fs.superTable sb with count := 0, dev := eof }
    rw [show ({ fs.superTable sb with count := 0, dev := eof } : SuperBlock).buffers = 0
      from if_pos rfl, add_zero] at hands
    have given' : books.holds fs + given = books.holds (fs.setSuper sb
        { fs.superTable sb with count := 0, dev := eof }) +
          ((fs.superTable sb).buffers + given) := by
      rw [← add_assoc]
      exact congrArg (· + given) hands.symm
    refine .replace (fun sane => sane.setSuper rfl) given' ?_
    refine .bind (iputOption_accounts _ _ _) ?_
    rintro _ _ unmounted first rfl _
    refine .plainLast (.bind (iputOption_accounts unmounted _ _) ?_)
    rintro _ _ released second rfl _
    have block : released.block = fs.block :=
      (Moves.putOption second).tablesOnly.block.trans (Moves.putOption first).tablesOnly.block
    have desc : released.superDesc (fs.superTable sb).dev =
        fs.superDesc (fs.superTable sb).dev := by
      unfold superDesc
      rw [block]
    refine .view ?_
    dsimp only
    rw [holds.buffers used, desc, holds.imaps, holds.zmaps]
    exact releaseMaps (releaseMaps (.last (.release (.ret rfl rfl))))

/-! ## `sys_umount` -/

/-- A super block that is held twice is put back without being released. -/
theorem releaseMount_accounts (inTable : sb < superNr)
    (two : (fs.superTable sb).count = 2) (mounted : Nat) (given : Multiset BufferId) :
    books.Accounts fs given (Buffered.releaseMount sb mounted) (fs.releaseMount sb mounted)
      (fun _ after result => result = after) fun _ => given := by
  unfold Buffered.releaseMount Fs.releaseMount
  refine .view (.bind (iputOption_accounts fs _ given) ?_)
  rintro _ _ rootless first rfl _
  have cleared : SameHolders rootless
      (rootless.setSuper sb { rootless.superTable sb with iroot := none }) :=
    .setSuper rfl rfl rfl rfl
  refine .view (keep (cleared.trans (.setInode rfl rfl rfl))
    (.bind (iput_accounts _ mounted given) ?_))
  rintro _ _ unmounted second rfl _
  refine .view (keep (.setSuper rfl rfl rfl rfl) (putSuper_accounts inTable ?_ given))
  intro one
  obtain ⟨_, isRootless⟩ := (Moves.putOption first).tablesOnly.superTable sb
  obtain ⟨_, isUnmounted⟩ := (Moves.put second).tablesOnly.superTable sb
  simp [isUnmounted, setMount, isRootless, two] at one

theorem cleanUmount_accounts (fs : Fs) (result : Int) (inode : Option Nat)
    (given : Multiset BufferId) :
    books.Accounts fs given (Buffered.cleanUmount result none inode)
      (fs.cleanUmount result none inode)
      (fun value after result => result = (value, after)) fun _ => given := by
  have put : books.Accounts fs given (Buffered.putSuperOption none) (fs.putSuperOption none)
      (fun _ after result => result = after) fun _ => given := .ret rfl rfl
  refine .bind put ?_
  rintro _ _ kept _ rfl _
  refine .bind (iputOption_accounts kept inode given) ?_
  rintro _ _ released _ rfl _
  exact .ret rfl rfl

/-- The label `clean` of `sys_umount` with a super block. -/
theorem cleanUmount_some (inTable : sb < superNr)
    (maps : (fs.superTable sb).count = 1 →
      (fs.superTable sb).dev ≠ eof ∧ HoldsMaps fs (fs.superTable sb))
    (result : Int) (inode : Option Nat) (given : Multiset BufferId) :
    books.Accounts fs given (Buffered.cleanUmount result (some sb) inode)
      (fs.cleanUmount result (some sb) inode)
      (fun value after result => result = (value, after)) fun _ => given := by
  refine .bind (putSuper_accounts inTable maps given) ?_
  rintro _ _ put _ rfl _
  refine .bind (iputOption_accounts put inode given) ?_
  rintro _ _ released _ rfl _
  exact .ret rfl rfl

theorem umountSuper_accounts (order : fs.SuperOrder) (real : dev ≠ eof) (inode : Nat)
    (given : Multiset BufferId) :
    books.Accounts fs given (Buffered.umountSuper inode dev) (fs.umountSuper inode dev)
      (fun value after result => result = (value, after)) fun _ => given := by
  unfold Buffered.umountSuper Fs.umountSuper
  refine .view ?_
  cases isSuper : fs.getSuper dev with
  | none => exact .fail
  | some sb =>
      obtain ⟨carries, inTable⟩ := dev_of_getSuper isSuper
      have occupied := order.occupied real isSuper
      have two : ((fs.holdSuper sb).superTable sb).count = 2 := by
        simp [holdSuper, occupied.count, add32]
      have shared (one : ((fs.holdSuper sb).superTable sb).count = 1) :
          ((fs.holdSuper sb).superTable sb).dev ≠ eof ∧
            HoldsMaps (fs.holdSuper sb) ((fs.holdSuper sb).superTable sb) := by
        rw [two] at one
        cases one
      refine keep (.setSuper rfl rfl rfl rfl) ?_
      dsimp only
      cases ((fs.holdSuper sb).superTable sb).imount with
      | none => exact cleanUmount_some inTable shared _ _ given
      | some mounted =>
          refine .ite (fun _ => cleanUmount_some inTable shared _ _ given) fun _ => ?_
          refine .bind (releaseMount_accounts inTable two mounted given) ?_
          rintro _ _ cleared clear rfl _
          obtain ⟨⟨_, own⟩, _, block, _⟩ := releaseMount_cases two clear
          have desc : cleared.superDesc = fs.superDesc := by
            funext other
            unfold superDesc
            rw [block]
            rfl
          have kept : (cleared.superTable sb).dev = (fs.superTable sb).dev ∧
              (cleared.superTable sb).imaps = (fs.superTable sb).imaps ∧
              (cleared.superTable sb).zmaps = (fs.superTable sb).zmaps := by
            rw [own]
            simp [holdSuper]
          refine cleanUmount_some inTable (fun _ => ⟨?_, ?_⟩) _ _ given
          · rw [kept.1]
            exact occupied.dev
          · obtain ⟨magic, imaps, zmaps⟩ := occupied.toHoldsMaps
            constructor
            · rwa [kept.1, desc]
            · rwa [kept.1, kept.2.1, desc]
            · rwa [kept.1, kept.2.2, desc]

theorem sysUmount_accounts {start : Fs} {base : Nat → Nat} {task : Creds}
    (referenced : Referenced start fs base 0) (order : fs.SuperOrder)
    (iroot : Lasting start base task.iroot) (ipwd : Lasting start base task.ipwd)
    (disks : Disks) (target : Option Cursor) (given : Multiset BufferId) :
    books.Accounts fs given (Buffered.sysUmount disks task target)
      (fs.sysUmount disks task target)
      (fun value after result => result = (value, after)) fun _ => given := by
  unfold Buffered.sysUmount Fs.sysUmount
  refine .bind (namei_accounts referenced iroot ipwd (Nat.zero_le _) target given) ?_
  rintro inode resolved _ resolve rfl _
  have moved := order.moves (Moves.namei resolve)
  match inode, referenced.namei (Nat.zero_le _) iroot ipwd resolve with
  | none, _ => exact cleanUmount_accounts resolved _ none given
  | some inode, .handed holds _ =>
      refine .view (.ite (fun _ => cleanUmount_accounts resolved _ _ given) fun _ => ?_)
      refine .ite (fun _ => cleanUmount_accounts resolved _ _ given) fun _ => ?_
      refine .ite (fun _ => cleanUmount_accounts resolved _ _ given) fun _ => ?_
      refine umountSuper_accounts moved ?_ inode given
      unfold umountDev
      split
      · exact zone_ne_eof resolved inode 0
      · exact (holds.holds (Multiset.mem_cons_self inode 0)).1

end Fs
end LightOS
