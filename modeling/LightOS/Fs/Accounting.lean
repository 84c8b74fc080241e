import LightOS.Fs.RootDirectory

/-!
# Inodes and zones of a formatted device

Repeating an allocation on a formatted device should return every inode and every
zone that the layout provides for.  `ialloc` asserts that a number is below the
count of inodes, so that it never returns the last one.
-/

namespace LightOS
namespace Fs

variable {fs after : Fs} {dev : Nat}

/-- An allocation is repeated until it finds the bitmap full.  The list has the
numbers returned before. -/
inductive Drains (alloc : Fs → Except Fault (Nat × Fs)) :
    Fs → List Nat → Fs → Prop
  | done {fs after : Fs} : alloc fs = .ok (eof, after) → Drains alloc fs [] after
  | next {fs middle after : Fs} {nr : Nat} {rest : List Nat} :
      alloc fs = .ok (nr, middle) → nr ≠ eof →
      Drains alloc middle rest after → Drains alloc fs (nr :: rest) after

/-- The number of inodes that `devmkfs` takes for a requested one. -/
def inodeCount (totalBlock icount : Nat) : Nat :=
  if icount = 0 then totalBlock / 3 else icount

/-- `devmkfs` accounts for all inodes and zones: once the super block has been read
again, allocations return every inode but the root and every zone but the block of
the root directory, and the bits that stand for no inode, no zone and the root
inode stay set. -/
def Accounted (fs : Fs) (task : Creds) (dev totalBlock icount : Nat) : Prop :=
  let count := inodeCount totalBlock icount
  let desc := newSuperDesc totalBlock count
  ∃ (formatted ready used after : Fs) (sb : Nat) (inodes zones : List Nat),
    fs.devmkfs task dev totalBlock icount = .ok (0, formatted) ∧
    formatted.readSuper dev = .ok (some sb, ready) ∧
    Drains (fun fs => fs.ialloc dev) ready inodes used ∧
    inodes.Nodup ∧ (∀ nr, nr ∈ inodes ↔ 2 ≤ nr ∧ nr ≤ count) ∧
    Drains (fun fs => fs.balloc dev) used zones after ∧
    zones.Nodup ∧ (∀ zone, zone ∈ zones ↔ desc.firstdatazone ≤ zone ∧
      zone < desc.zones ∧ zone ≠ (formatted.rootDesc dev desc).zone 0) ∧
    after.mapBit dev imapBlockNr 0 = true ∧
    after.mapBit dev imapBlockNr 1 = true ∧
    after.mapBit dev (imapBlockNr + desc.imapBlocks) 0 = true

/-- `ialloc` keeps the descriptor of the device. -/
theorem ialloc_superDesc {nr : Nat} (allocated : fs.ialloc dev = .ok (nr, after)) :
    after.superDesc dev = fs.superDesc dev := by
  rcases ialloc_cases allocated with ⟨_, rfl, _⟩ | ⟨_, _, _, written⟩
  · rfl
  · exact written.superDesc superBlock_before dev

/-- The inodes allocated are below the count of inodes. -/
theorem inodes_below {inodes : List Nat}
    (drained : Drains (fun fs => fs.ialloc dev) fs inodes after) :
    ∀ nr ∈ inodes, nr < (fs.superDesc dev).inodes := by
  induction drained with
  | done _ =>
      intro nr inList
      cases inList
  | next allocated notEof _ inductionHypothesis =>
      rw [ialloc_superDesc allocated] at inductionHypothesis
      intro nr inList
      rcases List.mem_cons.mp inList with rfl | inRest
      · rcases ialloc_cases allocated with ⟨isEof, _⟩ | ⟨_, inRange, _⟩
        · exact absurd isEof notEof
        · exact inRange
      · exact inductionHypothesis nr inRest

/-- Two allocations on a cleared inode map need two inodes. -/
theorem Laid.two_inodes {wiped zoned once twice : Fs} {sb zone first second : Nat}
    {desc : SuperDesc} (laid : Laid fs wiped dev sb desc) (hasImap : 0 < desc.imapBlocks)
    (clear : ∀ j, j < desc.imapBlocks * blockBits → wiped.mapBit dev imapBlockNr j = false)
    (allotted : wiped.balloc dev = .ok (zone, zoned))
    (firstMarked : zoned.ialloc dev = .ok (first, once))
    (secondMarked : once.ialloc dev = .ok (second, twice)) : 2 ≤ desc.inodes := by
  have twoBits : 1 < desc.imapBlocks * blockBits :=
    Nat.lt_of_lt_of_le (by decide : 1 < 1 * blockBits)
      (Nat.mul_le_mul_right _ hasImap)
  have zonedDesc := (balloc_superDesc allotted).trans laid.superDesc
  have onceDesc := (ialloc_superDesc firstMarked).trans zonedDesc
  have zonedClear (j : Nat) (inMap : j < desc.imapBlocks * blockBits) :
      zoned.mapBit dev imapBlockNr j = false := by
    have inBlocks := block_of_bit inMap
    rcases balloc_written allotted with ⟨rfl, _⟩ | ⟨k, _, _, written⟩
    · exact clear j inMap
    · have := Nat.zero_le (k / blockBits)
      unfold zmapStart at written
      rw [laid.superDesc] at written
      rw [written.mapBit_other (by omega)]
      exact clear j inMap
  have firstBits (j : Nat) (inMap : j < desc.imapBlocks * blockBits) :
      once.mapBit dev imapBlockNr j = decide (j = 0) := by
    rcases ialloc_cases firstMarked with
      ⟨_, _, full⟩ | ⟨_, _, isFirst, written⟩
    · rw [zonedDesc] at full
      have isSet := full 0 (Nat.le_refl _) (by omega)
      rw [zonedClear 0 (by omega)] at isSet
      cases isSet
    · have zero : first = 0 := by
        by_contra later
        have isSet := isFirst.2.2 0 (Nat.le_refl _) (Nat.pos_of_ne_zero later)
        rw [zonedClear 0 (by omega)] at isSet
        cases isSet
      rw [written.bit j, zero]
      by_cases isZero : j = 0
      · simp only [isZero, if_true, decide_true]
      · simp only [isZero, if_false, decide_false]
        exact zonedClear j inMap
  rcases ialloc_cases secondMarked with
    ⟨_, _, full⟩ | ⟨inMap, inRange, isFirst, _⟩
  · rw [onceDesc] at full
    have isSet := full 1 (Nat.zero_le _) twoBits
    rw [firstBits 1 twoBits] at isSet
    cases isSet
  · rw [onceDesc] at inMap inRange
    have isClear := isFirst.2.1
    rw [firstBits second inMap, decide_eq_false_iff_not] at isClear
    omega

/-- The inode table of a layout is zeroed. -/
def ZeroedTable (fs : Fs) (dev : Nat) (desc : SuperDesc) : Prop :=
  ∀ number address, rootTable desc ≤ number → number < desc.firstdatazone →
    address < blockSize → fs.block dev number address = 0

theorem ZeroedTable.empty {desc : SuperDesc} (zeroed : ZeroedTable fs dev desc)
    (hasTable : rootTable desc < desc.firstdatazone) (index : Fin 9) :
    (fs.rootDesc dev desc).zone index = 0 := by
  have inside := index.isLt
  have byte (address : Nat) (inBlock : address < 1024) :=
    zeroed _ address (Nat.le_refl _) hasTable inBlock
  unfold rootDesc InodeDesc.read Memory.half
  dsimp only
  rw [byte _ (by omega), byte _ (by omega)]
  rfl

/-- After `devmkfs` on a device with a zeroed inode table, the descriptor of the
device is there and counts two inodes at least. -/
theorem superDesc_of_format {task : Creds} {totalBlock icount : Nat} (small : totalBlock ≤ 65535)
    (fewer : icount < totalBlock) (zeroed : ZeroedTable fs dev (newSuperDesc totalBlock icount))
    (idle : fs.Idle dev) (formatted : fs.format task dev totalBlock icount = .ok after) :
    after.superDesc dev = newSuperDesc totalBlock icount ∧
      2 ≤ (newSuperDesc totalBlock icount).inodes := by
  obtain ⟨imapFits, zmapFits, sb, isFree, _, ⟨steps⟩⟩ := format_steps formatted
  obtain ⟨hasImap, hasZmap, laid, _⟩ := steps.prepared
  obtain ⟨hasBlocks, _, first⟩ :=
    layout_facts (by omega) fewer imapFits hasImap zmapFits
  have hasTable : rootTable (newSuperDesc totalBlock icount) <
      (newSuperDesc totalBlock icount).firstdatazone := by
    unfold rootTable
    omega
  have same : steps.stage.rootDesc dev (newSuperDesc totalBlock icount) =
      fs.rootDesc dev (newSuperDesc totalBlock icount) := by
    unfold rootDesc
    rw [laid.others _ _ (by unfold rootTable; omega)]
  have kept := makeRoot_superDesc laid (laid.lists idle isFree) hasTable
    (newSuperDesc_inRange totalBlock icount).zones
    (by rw [same]; exact zeroed.empty hasTable 0) steps.made
  obtain ⟨putDisk, _⟩ := putSuper_spec steps.put
  refine ⟨(superDesc_congr putDisk dev).trans kept, ?_⟩
  refine steps.laid.two_inodes hasImap (fun j inMap => ?_) steps.allotted
    steps.firstMarked steps.secondMarked
  have inBlocks := block_of_bit inMap
  exact steps.clear _ j (Nat.le_refl _) (by omega)

/-- Reading a super block leaves the disk alone. -/
theorem readSuper_disk {found : Option Nat} (read : fs.readSuper dev = .ok (found, after)) :
    after.disk = fs.disk := by
  unfold readSuper at read
  split at read
  · cases read
    rfl
  · simp only [bind_eq_ok] at read
    obtain ⟨sb, _, read⟩ := read
    split at read
    · cases read
      rfl
    · simp only [bind_eq_ok, check_eq_ok] at read
      obtain ⟨_, _, _, _, same⟩ := read
      cases same
      rfl

/-- After `devmkfs`, no sequence of allocations returns the last inode. -/
theorem inodes_of_devmkfs {formatted ready used : Fs} {task : Creds} {totalBlock icount : Nat}
    {found : Option Nat} {inodes : List Nat} (small : totalBlock ≤ 65535)
    (zeroed : ZeroedTable fs dev (newSuperDesc totalBlock (inodeCount totalBlock icount)))
    (idle : fs.Idle dev) (made : fs.devmkfs task dev totalBlock icount = .ok (0, formatted))
    (read : formatted.readSuper dev = .ok (found, ready))
    (drained : Drains (fun fs => fs.ialloc dev) ready inodes used) :
    2 ≤ inodeCount totalBlock icount ∧
      inodeCount totalBlock icount ∉ inodes := by
  obtain ⟨fewer, dropped, sameDisk, nowIdle, format⟩ := devmkfs_cases idle made
  have fewerCount : inodeCount totalBlock icount < totalBlock := by
    unfold inodeCount
    split <;> omega
  have nowZeroed : ZeroedTable dropped dev
      (newSuperDesc totalBlock (inodeCount totalBlock icount)) := by
    intro number address above below inBlock
    unfold block
    rw [sameDisk]
    exact zeroed number address above below inBlock
  obtain ⟨isDesc, two⟩ :=
    superDesc_of_format small fewerCount nowZeroed nowIdle format
  have below := inodes_below drained
  rw [superDesc_congr (readSuper_disk read), isDesc] at below
  have count : (newSuperDesc totalBlock
      (inodeCount totalBlock icount)).inodes =
        inodeCount totalBlock icount :=
    Nat.mod_eq_of_lt (by omega)
  rw [count] at below two
  exact ⟨two, fun last => absurd (below _ last) (Nat.lt_irrefl _)⟩

/-- `devmkfs` accounts for all inodes and zones on no device. -/
theorem not_accounted {fs : Fs} {task : Creds} {dev totalBlock icount : Nat}
    (small : totalBlock ≤ 65535)
    (zeroed : ZeroedTable fs dev
      (newSuperDesc totalBlock (inodeCount totalBlock icount)))
    (idle : fs.Idle dev) : ¬Accounted fs task dev totalBlock icount := by
  rintro ⟨formatted, ready, used, after, sb, inodes, zones, made, read, drained,
    _, members, _⟩
  obtain ⟨two, missing⟩ :=
    inodes_of_devmkfs small zeroed idle made read drained
  exact missing ((members _).mpr ⟨two, Nat.le_refl _⟩)

theorem unused_zeroed (desc : SuperDesc) :
    (unused (bytes [])).ZeroedTable 2 desc := by
  intro number address _ _ _
  simp [unused, block, bytes]

theorem not_accounted_unused :
    ¬Accounted (unused (bytes [])) rootCreds 2 40 16 :=
  not_accounted (by decide) (unused_zeroed _) (unused_idle _)

/-- Repeat an allocation a number of times. -/
def allocate (alloc : Fs → Except Fault (Nat × Fs)) :
    Nat → Fs → Except Fault (List Nat × Fs)
  | 0, fs => .ok ([], fs)
  | times + 1, fs => do
      let (nr, fs) ← alloc fs
      let (rest, fs) ← allocate alloc times fs
      return (nr :: rest, fs)

/-- On a device with 16 inodes, `ialloc` returns 14 numbers.  The next call finds
the bit of inode 16 clear and trips the assertion. -/
theorem accounted_fails :
    (newSuperDesc 40 16).firstdatazone < (newSuperDesc 40 16).zones ∧
      (unused (bytes [])).ZeroedTable 2 (newSuperDesc 40 16) ∧
      (unused (bytes [])).Idle 2 ∧
      (∃ formatted ready last,
        (unused (bytes [])).devmkfs rootCreds 2 40 16 = .ok (0, formatted) ∧
        formatted.readSuper 2 = .ok (some 1, ready) ∧
        allocate (fun fs => fs.ialloc 2) 14 ready =
          .ok ([2, 3, 4, 5, 6, 7, 8, 9, 10, 11, 12, 13, 14, 15], last) ∧
        last.ialloc 2 = .error .assertion) ∧
      ¬Accounted (unused (bytes [])) rootCreds 2 40 16 := by
  refine ⟨by decide, unused_zeroed _, unused_idle _,
    ⟨_, _, _, rfl, rfl, rfl, rfl⟩, ?_⟩
  rintro ⟨formatted, ready, used, after, sb, inodes, zones, made, read, drained,
    _, members, _⟩
  obtain ⟨_, missing⟩ := inodes_of_devmkfs (by decide) (unused_zeroed _)
    (unused_idle _) made read drained
  exact missing ((members 16).mpr (by decide))

end Fs
end LightOS
