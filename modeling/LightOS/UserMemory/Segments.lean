import LightOS.UserMemory.Loading
import LightOS.UserMemory.Sound

/-!
# Segments in memory

What `load_segment` leaves in memory, for a header that the segment does not change: the
bytes of the file and zeros behind them, in pages that the task has now and that are
read-only unless the segment may be written.  Nothing else changes.
-/

namespace LightOS
namespace Loading

open UserMemory (userExecAddr userMmapAddr userStackBottom userStackTop)
open UserMemory.Machine (divRoundUp_pageSize)

/-! ## Accesses of the kernel -/

/-- A page of the stack of the user. -/
def IsStack (page : Nat) : Prop :=
  userStackBottom / pageSize < page ∧ page ≤ userStackTop / pageSize

theorem IsStack.above {page : Nat} (isStack : IsStack page) : userExecAddr / pageSize ≤ page := by
  have := isStack.1
  simp only [userStackBottom, userStackTop, kernelVaddrOffset, userExecAddr, pageSize] at this ⊢
  omega

/-- An address of a page that is not below the first page of programs. -/
theorem le_of_page {vaddr : Nat} (above : userExecAddr / pageSize ≤ vaddr / pageSize) :
    userExecAddr ≤ vaddr := by
  change 0x08048000 / 4096 ≤ vaddr / 4096 at above
  change 0x08048000 ≤ vaddr
  omega

/-- No page but pages of the stack has been added. -/
structure GrowsStack (s after : UserSpace) : Prop where
  stays : ∀ page, s.linked page = true → after.linked page = true
  new : ∀ page, after.linked page = true → s.linked page = true ∨ IsStack page
  write : ∀ page, s.linked page = true → after.write page = s.write page
  readonly : ∀ page, s.linked page = true → after.readonly page = s.readonly page

namespace GrowsStack

variable {s middle after : UserSpace}

theorem refl (s : UserSpace) : GrowsStack s s :=
  ⟨fun _ linked => linked, fun _ linked => .inl linked, fun _ _ => rfl, fun _ _ => rfl⟩

theorem trans (first : GrowsStack s middle) (second : GrowsStack middle after) :
    GrowsStack s after where
  stays page linked := second.stays page (first.stays page linked)
  new page linked := by
    rcases second.new page linked with before | isStack
    · exact first.new page before
    · exact .inr isStack
  write page linked :=
    (second.write page (first.stays page linked)).trans (first.write page linked)
  readonly page linked :=
    (second.readonly page (first.stays page linked)).trans (first.readonly page linked)

end GrowsStack

namespace UserSpace

variable {s after : UserSpace} {file : ByteFile}

@[simp] theorem linkUserPage_memory (s : UserSpace) (vaddr : Nat) :
    (s.linkUserPage vaddr).memory = s.memory := by
  unfold linkUserPage
  dsimp only
  split <;> rfl

theorem linkUserPage_linked (s : UserSpace) (vaddr page : Nat) :
    (s.linkUserPage vaddr).linked page = true ↔
      s.linked page = true ∨ page = vaddr / pageSize := by
  unfold linkUserPage
  dsimp only
  split
  case isTrue linked =>
    constructor
    · exact .inl
    · rintro (before | rfl)
      · exact before
      · exact linked
  case isFalse =>
    by_cases same : page = vaddr / pageSize
    · simp [same]
    · simp [same]

theorem linkUserPage_flags (s : UserSpace) (vaddr : Nat) {page : Nat}
    (linked : s.linked page = true) :
    (s.linkUserPage vaddr).write page = s.write page ∧
      (s.linkUserPage vaddr).readonly page = s.readonly page := by
  unfold linkUserPage
  dsimp only
  split
  case isTrue => exact ⟨rfl, rfl⟩
  case isFalse notLinked =>
    have different : page ≠ vaddr / pageSize := by
      rintro rfl
      exact notLinked linked
    exact ⟨Function.update_of_ne different _ _, Function.update_of_ne different _ _⟩

theorem access_spec {vaddr : Nat} (accessed : s.access vaddr = .ok after) :
    after.memory = s.memory ∧ GrowsStack s after ∧ vaddr < kernelVaddrOffset ∧
      after.linked (vaddr / pageSize) = true := by
  simp only [access, bind_eq_ok, bounded_eq_ok] at accessed
  obtain ⟨_, user, accessed⟩ := accessed
  split at accessed
  · cases accessed
    exact ⟨rfl, .refl s, user, ‹_›⟩
  split at accessed
  · rename_i inStack
    cases accessed
    have isStack : IsStack (vaddr / pageSize) := by
      simp only [IsStack, userStackBottom, userStackTop, kernelVaddrOffset, pageSize] at inStack ⊢
      omega
    refine ⟨linkUserPage_memory s vaddr, ⟨?_, ?_, ?_, ?_⟩, user, ?_⟩
    · exact fun page linked => (linkUserPage_linked s vaddr page).mpr (.inl linked)
    · intro page linked
      rcases (linkUserPage_linked s vaddr page).mp linked with before | rfl
      · exact .inl before
      · exact .inr isStack
    · exact fun page linked => (linkUserPage_flags s vaddr linked).1
    · exact fun page linked => (linkUserPage_flags s vaddr linked).2
    · exact (linkUserPage_linked s vaddr _).mpr (.inr rfl)
  · cases accessed

theorem accesses_spec {vaddr length : Nat} (accessed : s.accesses vaddr length = .ok after) :
    after.memory = s.memory ∧ GrowsStack s after ∧
      ∀ k < length, vaddr + k < kernelVaddrOffset ∧
        after.linked ((vaddr + k) / pageSize) = true := by
  refine foldlM_range
    (fun middle count => middle.memory = s.memory ∧ GrowsStack s middle ∧
      ∀ k < count, vaddr + k < kernelVaddrOffset ∧
        middle.linked ((vaddr + k) / pageSize) = true)
    ?_ ⟨rfl, .refl s, fun _ none => absurd none (Nat.not_lt_zero _)⟩ accessed
  intro before index middle _ ⟨memory, grows, linked⟩ stepped
  obtain ⟨sameMemory, more, user, isLinked⟩ := access_spec stepped
  refine ⟨sameMemory.trans memory, grows.trans more, fun k inRange => ?_⟩
  rcases Nat.lt_succ_iff_lt_or_eq.mp inRange with earlier | rfl
  · exact ⟨(linked k earlier).1, more.stays _ (linked k earlier).2⟩
  · exact ⟨user, isLinked⟩

theorem store_spec {vaddr length : Nat} {bytes : Nat → UInt8}
    (stored : s.store vaddr length bytes = .ok after) :
    after.memory = s.memory.store vaddr length bytes ∧ GrowsStack s after ∧
      ∀ k < length, vaddr + k < kernelVaddrOffset ∧
        after.linked ((vaddr + k) / pageSize) = true := by
  simp only [store, bind_eq_ok] at stored
  obtain ⟨middle, accessed, stored⟩ := stored
  cases stored
  obtain ⟨sameMemory, grows, linked⟩ := accesses_spec accessed
  exact ⟨by rw [sameMemory], ⟨grows.stays, grows.new, grows.write, grows.readonly⟩, linked⟩

/-- A read from the position behind the end stores nothing, as does a read of no bytes. -/
theorem inodeRead_spec {buf len offset : Nat} {n : Int}
    (read : s.inodeRead file buf len offset = .ok (n, after)) :
    after.memory = s.memory.store buf (min len (file.size - offset))
        (fun k => file.byte (offset + k)) ∧
      GrowsStack s after ∧
      (∀ k < min len (file.size - offset), buf + k < kernelVaddrOffset ∧
        after.linked ((buf + k) / pageSize) = true) ∧
      n = if file.size ≤ offset then -1 else ((min len (file.size - offset) : Nat) : Int) := by
  unfold inodeRead at read
  split at read
  case isTrue behind =>
    cases read
    have none : min len (file.size - offset) = 0 := by omega
    rw [none, Memory.store_none]
    exact ⟨rfl, .refl s, fun _ inRange => absurd inRange (Nat.not_lt_zero _),
      (if_pos behind).symm⟩
  rename_i notBehind
  rw [if_neg notBehind]
  split at read
  case isTrue empty =>
    cases read
    have none : min len (file.size - offset) = 0 := by omega
    rw [none, Memory.store_none]
    exact ⟨rfl, .refl s, fun _ inRange => absurd inRange (Nat.not_lt_zero _), rfl⟩
  · simp only [bind_eq_ok] at read
    obtain ⟨middle, stored, read⟩ := read
    cases read
    obtain ⟨memory, grows, linked⟩ := store_spec stored
    exact ⟨memory, grows, linked, rfl⟩

end UserSpace

/-! ## Segments -/

namespace Phdr

/-- The number of bytes from `p_vaddr` on that a segment is about. -/
def span (h : Phdr) : Nat :=
  max h.memsz h.filesz

/-- What the segment holds there: bytes of the file and zeros behind them. -/
def byte (h : Phdr) (file : ByteFile) (k : Nat) : UInt8 :=
  if k < h.filesz then file.byte (h.offset + k) else 0

/-- The file has all bytes of the segment. -/
def Held (h : Phdr) (file : ByteFile) : Prop :=
  0 < h.filesz → h.offset + h.filesz ≤ file.size

/-- A page holds bytes of the segment. -/
def Covers (h : Phdr) (page : Nat) : Prop :=
  h.vaddr ≤ page * pageSize ∧ page * pageSize < h.vaddr + h.span

/-- The address of a page of the segment. -/
def address (h : Phdr) (index : Nat) : Nat :=
  (h.vaddr + index * pageSize) % 2 ^ 32

/-- The number of pages that `load_segment` computes. -/
def count (h : Phdr) : Nat :=
  Fs.divRoundUp h.span pageSize

variable {h : Phdr}

/-- The pages that the loops of `load_segment` go over are those with bytes of the segment. -/
theorem covers_iff (aligned : h.vaddr % pageSize = 0)
    (inside : 0 < h.span → h.vaddr + h.span ≤ kernelVaddrOffset) (page : Nat) :
    h.Covers page ↔ ∃ index < h.count, h.address index / pageSize = page := by
  unfold Covers count address
  simp only [pageSize] at aligned ⊢
  simp only [kernelVaddrOffset] at inside
  by_cases empty : h.span = 0
  · rw [empty]
    constructor
    · omega
    · rintro ⟨index, inRange, _⟩
      exact absurd inRange (Nat.not_lt_zero index)
  rw [divRoundUp_pageSize (by omega) (by simp only [pageSize]; omega)]
  simp only [pageSize]
  constructor
  · intro covers
    refine ⟨page - h.vaddr / 4096, by omega, ?_⟩
    rw [Nat.mod_eq_of_lt (by omega)]
    omega
  · rintro ⟨index, inRange, rfl⟩
    rw [Nat.mod_eq_of_lt (by omega)]
    omega

/-- Every byte of the segment is in one of its pages. -/
theorem covers_page (aligned : h.vaddr % pageSize = 0) {k : Nat} (inRange : k < h.span) :
    h.Covers ((h.vaddr + k) / pageSize) := by
  unfold Covers
  simp only [pageSize] at aligned ⊢
  omega

end Phdr

namespace UserSpace

variable {s after : UserSpace} {file : ByteFile} {h : Phdr}

theorem linkSegmentPages_spec {vaddr count : Nat}
    (linked : (List.range count).foldlM (linkSegmentPage vaddr) s = .ok after) :
    after.memory = s.memory ∧
      (∀ page, after.linked page = true ↔ s.linked page = true ∨
        ∃ index < count, (vaddr + index * pageSize) % 2 ^ 32 / pageSize = page) ∧
      (∀ page, s.linked page = true →
        after.write page = s.write page ∧ after.readonly page = s.readonly page) ∧
      ∀ index < count, userExecAddr ≤ (vaddr + index * pageSize) % 2 ^ 32 ∧
        (vaddr + index * pageSize) % 2 ^ 32 < userMmapAddr := by
  refine foldlM_range
    (fun middle count => middle.memory = s.memory ∧
      (∀ page, middle.linked page = true ↔ s.linked page = true ∨
        ∃ index < count, (vaddr + index * pageSize) % 2 ^ 32 / pageSize = page) ∧
      (∀ page, s.linked page = true →
        middle.write page = s.write page ∧ middle.readonly page = s.readonly page) ∧
      ∀ index < count, userExecAddr ≤ (vaddr + index * pageSize) % 2 ^ 32 ∧
        (vaddr + index * pageSize) % 2 ^ 32 < userMmapAddr)
    ?_ ⟨rfl, fun page => ?_, fun _ _ => ⟨rfl, rfl⟩, fun _ none => absurd none (Nat.not_lt_zero _)⟩
    linked
  · intro before index middle _ ⟨memory, isLinked, flags, placed⟩ stepped
    simp only [linkSegmentPage, bind_eq_ok, check_eq_ok] at stepped
    obtain ⟨_, inRegion, stepped⟩ := stepped
    cases stepped
    refine ⟨(linkUserPage_memory _ _).trans memory, fun page => ?_, fun page before => ?_,
      fun other inRange => ?_⟩
    · rw [linkUserPage_linked, isLinked]
      constructor
      · rintro ((before | ⟨other, inRange, rfl⟩) | rfl)
        · exact .inl before
        · exact .inr ⟨other, by omega, rfl⟩
        · exact .inr ⟨index, by omega, rfl⟩
      · rintro (before | ⟨other, inRange, rfl⟩)
        · exact .inl (.inl before)
        · rcases Nat.lt_succ_iff_lt_or_eq.mp inRange with earlier | rfl
          · exact .inl (.inr ⟨other, earlier, rfl⟩)
          · exact .inr rfl
    · obtain ⟨write, readonly⟩ :=
        linkUserPage_flags _ ((vaddr + index * pageSize) % 2 ^ 32)
          ((isLinked page).mpr (.inl before))
      exact ⟨write.trans (flags page before).1, readonly.trans (flags page before).2⟩
    · rcases Nat.lt_succ_iff_lt_or_eq.mp inRange with earlier | rfl
      · exact placed other earlier
      · exact inRegion
  · constructor
    · exact .inl
    · rintro (before | ⟨index, none, _⟩)
      · exact before
      · exact absurd none (Nat.not_lt_zero index)

theorem protectPages_spec (s : UserSpace) (vaddr count : Nat) :
    ((List.range count).foldl (protectPage vaddr) s).memory = s.memory ∧
      ((List.range count).foldl (protectPage vaddr) s).linked = s.linked ∧
      ∀ page,
        ((∃ index < count, (vaddr + index * pageSize) % 2 ^ 32 / pageSize = page) →
          ((List.range count).foldl (protectPage vaddr) s).write page = false ∧
          ((List.range count).foldl (protectPage vaddr) s).readonly page = true) ∧
        ((¬∃ index < count, (vaddr + index * pageSize) % 2 ^ 32 / pageSize = page) →
          ((List.range count).foldl (protectPage vaddr) s).write page = s.write page ∧
          ((List.range count).foldl (protectPage vaddr) s).readonly page = s.readonly page) := by
  induction count with
  | zero =>
      refine ⟨rfl, rfl, fun page => ⟨?_, fun _ => ⟨rfl, rfl⟩⟩⟩
      rintro ⟨index, none, _⟩
      exact absurd none (Nat.not_lt_zero index)
  | succ count inductionHypothesis =>
      rw [List.range_succ, List.foldl_append, List.foldl_cons, List.foldl_nil]
      generalize (List.range count).foldl (protectPage vaddr) s = middle at inductionHypothesis
      obtain ⟨memory, linked, flags⟩ := inductionHypothesis
      refine ⟨memory, linked, fun page => ?_⟩
      by_cases last : page = (vaddr + count * pageSize) % 2 ^ 32 / pageSize
      · refine ⟨fun _ => by simp [protectPage, last], fun outside => ?_⟩
        exact absurd ⟨count, Nat.lt_succ_self count, last.symm⟩ outside
      · have write : (protectPage vaddr middle count).write page = middle.write page :=
          Function.update_of_ne last _ _
        have readonly : (protectPage vaddr middle count).readonly page = middle.readonly page :=
          Function.update_of_ne last _ _
        rw [write, readonly]
        refine ⟨?_, fun outside => (flags page).2 ?_⟩
        · rintro ⟨index, inRange, isPage⟩
          refine (flags page).1 ⟨index, ?_, isPage⟩
          rcases Nat.lt_succ_iff_lt_or_eq.mp inRange with earlier | rfl
          · exact earlier
          · exact absurd isPage.symm last
        · rintro ⟨index, inRange, isPage⟩
          exact outside ⟨index, Nat.lt_succ_of_lt inRange, isPage⟩

/-- What `load_segment` does for the header `h`. -/
structure Placed (file : ByteFile) (h : Phdr) (s after : UserSpace) : Prop where
  memory : after.memory = s.memory.store h.vaddr h.span (h.byte file)
  aligned : h.vaddr % pageSize = 0
  inside : 0 < h.span → userExecAddr ≤ h.vaddr ∧ h.vaddr + h.span ≤ kernelVaddrOffset
  stays : ∀ page, s.linked page = true → after.linked page = true
  new : ∀ page, after.linked page = true →
    s.linked page = true ∨ IsStack page ∨ h.Covers page
  covered : ∀ page, h.Covers page → after.linked page = true
  flags : ∀ page, s.linked page = true → ¬h.Covers page →
    after.write page = s.write page ∧ after.readonly page = s.readonly page
  readonly : h.flags &&& pfW = 0 → ∀ page, h.Covers page →
    after.write page = false ∧ after.readonly page = true

theorem noteSegment_same (s : UserSpace) (vaddr count ptr : Nat) :
    (s.noteSegment vaddr count ptr).memory = s.memory ∧
      (s.noteSegment vaddr count ptr).linked = s.linked ∧
      (s.noteSegment vaddr count ptr).write = s.write ∧
      (s.noteSegment vaddr count ptr).readonly = s.readonly := by
  unfold noteSegment
  dsimp only
  split
  · exact ⟨rfl, rfl, rfl, rfl⟩
  split
  · exact ⟨rfl, rfl, rfl, rfl⟩
  · exact ⟨rfl, rfl, rfl, rfl⟩

/-- Reading the bytes of a segment that the file has. -/
theorem readSegment_spec {n : Int} (held : h.Held file)
    (read : s.inodeRead file h.vaddr h.filesz h.offset = .ok (n, after)) :
    after.memory = s.memory.store h.vaddr h.filesz (h.byte file) ∧ GrowsStack s after ∧
      (0 < h.filesz → h.vaddr + h.filesz ≤ kernelVaddrOffset ∧
        after.linked (h.vaddr / pageSize) = true) := by
  obtain ⟨memory, grows, linked, _⟩ := inodeRead_spec read
  have all : min h.filesz (file.size - h.offset) = h.filesz := by
    rcases Nat.eq_zero_or_pos h.filesz with none | some
    · omega
    · have := held some
      omega
  rw [all] at memory linked
  refine ⟨memory.trans (Memory.store_congr fun k inRange => ?_), grows, fun some => ⟨?_, ?_⟩⟩
  · rw [Phdr.byte, if_pos inRange]
  · have := (linked (h.filesz - 1) (by omega)).1
    omega
  · exact (linked 0 some).2

/-- Clearing the rest of a segment. -/
theorem clearSegment_spec {start : Memory} {ptr : Nat}
    (filled : s.memory = start.store h.vaddr h.filesz (h.byte file))
    (small : h.vaddr < 2 ^ 32)
    (inside : 0 < h.filesz → h.vaddr + h.filesz ≤ kernelVaddrOffset ∧
      s.linked (h.vaddr / pageSize) = true)
    (sizes : (Phdr.read s.memory ptr).filesz = h.filesz ∧
      (Phdr.read s.memory ptr).memsz = h.memsz)
    (cleared : s.clearSegment h.vaddr ptr = .ok after) :
    after.memory = start.store h.vaddr h.span (h.byte file) ∧ GrowsStack s after ∧
      (0 < h.span → h.vaddr + h.span ≤ kernelVaddrOffset ∧
        after.linked (h.vaddr / pageSize) = true) := by
  unfold clearSegment at cleared
  simp only [sizes.1, sizes.2] at cleared
  split at cleared
  case isTrue less =>
    have spans : h.span = h.filesz + (h.memsz - h.filesz) := by
      unfold Phdr.span
      omega
    have begins : (h.vaddr + h.filesz) % 2 ^ 32 = h.vaddr + h.filesz := by
      simp only [kernelVaddrOffset] at inside
      omega
    rw [begins] at cleared
    obtain ⟨zeros, grows, linked⟩ := store_spec cleared
    refine ⟨?_, grows, fun _ => ⟨?_, ?_⟩⟩
    · rw [zeros, filled, Memory.store_append, ← spans]
      refine Memory.store_congr fun k _ => ?_
      unfold Phdr.byte
      split <;> rfl
    · have := (linked (h.memsz - h.filesz - 1) (by omega)).1
      omega
    · rcases Nat.eq_zero_or_pos h.filesz with none | some
      · have := (linked 0 (by omega)).2
        rw [none] at this
        exact this
      · exact grows.stays _ (inside some).2
  case isFalse notLess =>
    cases cleared
    have spans : h.span = h.filesz := by
      unfold Phdr.span
      omega
    rw [spans]
    exact ⟨filled, .refl s, inside⟩

/-- The pages of a segment become read-only when the segment must not be written. -/
theorem protectSegment_spec {ptr : Nat} (sameFlags : (Phdr.read s.memory ptr).flags = h.flags)
    (covers : ∀ page, h.Covers page ↔ ∃ index < h.count, h.address index / pageSize = page) :
    (s.protectSegment h.vaddr h.count ptr).memory = s.memory ∧
      (s.protectSegment h.vaddr h.count ptr).linked = s.linked ∧
      (h.flags &&& pfW = 0 → ∀ page, h.Covers page →
        (s.protectSegment h.vaddr h.count ptr).write page = false ∧
        (s.protectSegment h.vaddr h.count ptr).readonly page = true) ∧
      ∀ page, ¬h.Covers page →
        (s.protectSegment h.vaddr h.count ptr).write page = s.write page ∧
        (s.protectSegment h.vaddr h.count ptr).readonly page = s.readonly page := by
  unfold protectSegment
  rw [sameFlags]
  split
  case isTrue =>
    obtain ⟨memory, linked, flags⟩ := protectPages_spec s h.vaddr h.count
    refine ⟨memory, linked, fun _ page isCovered => ?_, fun page notCovered => ?_⟩
    · exact (flags page).1 ((covers page).mp isCovered)
    · exact (flags page).2 (mt (covers page).mpr notCovered)
  case isFalse writable =>
    exact ⟨rfl, rfl, fun protected_ => absurd protected_ writable, fun _ _ => ⟨rfl, rfl⟩⟩

/-- `load_segment` for a header that the segment leaves as it is.  Nothing is linked below
the first page of programs. -/
theorem loadSegment_spec {ptr : Nat} (isHeader : Phdr.read s.memory ptr = h)
    (held : h.Held file) (above : ∀ page, s.linked page = true → userExecAddr / pageSize ≤ page)
    (sizes : (Phdr.read (s.memory.store h.vaddr h.filesz (h.byte file)) ptr).filesz = h.filesz ∧
      (Phdr.read (s.memory.store h.vaddr h.filesz (h.byte file)) ptr).memsz = h.memsz)
    (sameFlags : (Phdr.read (s.memory.store h.vaddr h.span (h.byte file)) ptr).flags = h.flags)
    (loaded : s.loadSegment file ptr = .ok after) : Placed file h s after := by
  simp only [loadSegment, bind_eq_ok, check_eq_ok] at loaded
  obtain ⟨start, accessed, _, _, _, aligned, pages, pagesLinked, ⟨n, filled⟩, read,
    cleared, clearedOk, loaded⟩ := loaded
  obtain ⟨sameMemory, begins, _⟩ := accesses_spec accessed
  rw [sameMemory, isHeader] at aligned pagesLinked read clearedOk loaded
  cases loaded
  obtain ⟨pagesMemory, linked, pagesFlags, placed⟩ := linkSegmentPages_spec pagesLinked
  rw [← sameMemory, ← pagesMemory] at sizes sameFlags
  have small : h.vaddr < 2 ^ 32 := by
    rw [← isHeader]
    exact Memory.word_lt _ _
  -- Every page that a store may find is at or above the first page of programs.
  have pagesAbove (page : Nat) (isLinked : pages.linked page = true) :
      userExecAddr / pageSize ≤ page := by
    rcases (linked page).mp isLinked with before | ⟨index, inRange, rfl⟩
    · rcases begins.new page before with before | isStack
      · exact above page before
      · exact isStack.above
    · exact Nat.div_le_div_right (placed index inRange).1
  have startsAbove {space : UserSpace} (grown : GrowsStack pages space)
      (isLinked : space.linked (h.vaddr / pageSize) = true) : userExecAddr ≤ h.vaddr := by
    rcases grown.new _ isLinked with before | isStack
    · exact le_of_page (pagesAbove _ before)
    · exact le_of_page isStack.above
  obtain ⟨filledMemory, grows, filledInside⟩ := readSegment_spec held read
  rw [← filledMemory] at sizes
  obtain ⟨memory, more, isInside⟩ :=
    clearSegment_spec filledMemory small filledInside sizes clearedOk
  have grows := grows.trans more
  have inside (some : 0 < h.span) : h.vaddr + h.span ≤ kernelVaddrOffset := (isInside some).1
  have starts (some : 0 < h.span) : userExecAddr ≤ h.vaddr := startsAbove grows (isInside some).2
  have covers := Phdr.covers_iff aligned inside
  have stillFlags : (Phdr.read cleared.memory ptr).flags = h.flags := by
    rw [memory]
    exact sameFlags
  obtain ⟨keptMemory, keptLinked, readonly, flags⟩ := protectSegment_spec stillFlags covers
  obtain ⟨noteMemory, noteLinked, noteWrite, noteReadonly⟩ :=
    noteSegment_same (cleared.protectSegment h.vaddr h.count ptr) h.vaddr h.count ptr
  have linkedPages (page : Nat) : pages.linked page = true ↔
      start.linked page = true ∨ h.Covers page := by
    rw [covers]
    exact linked page
  have linkedAfter (page : Nat) :
      ((cleared.protectSegment h.vaddr h.count ptr).noteSegment h.vaddr h.count ptr).linked page =
        cleared.linked page := by
    rw [noteLinked, keptLinked]
  refine
    { memory := ?memory, aligned := aligned, inside := ?inside, stays := ?stays, new := ?new,
      covered := ?covered, flags := ?flags, readonly := ?readonly }
  case memory =>
    rw [← sameMemory, ← pagesMemory, ← memory, ← keptMemory]
    exact noteMemory
  case inside => exact fun some => ⟨starts some, inside some⟩
  case stays =>
    intro page before
    exact (linkedAfter page).trans
      (grows.stays page ((linkedPages page).mpr (.inl (begins.stays page before))))
  case new =>
    intro page isLinked
    rcases grows.new page ((linkedAfter page).symm.trans isLinked) with before | isStack
    · rcases (linkedPages page).mp before with before | isCovered
      · exact (begins.new page before).imp_right .inl
      · exact .inr (.inr isCovered)
    · exact .inr (.inl isStack)
  case covered =>
    intro page isCovered
    exact (linkedAfter page).trans (grows.stays page ((linkedPages page).mpr (.inr isCovered)))
  case flags =>
    intro page before notCovered
    have atStart := begins.stays page before
    have atPages := (linkedPages page).mpr (.inl atStart)
    constructor
    · exact (congrFun noteWrite page).trans ((flags page notCovered).1.trans
        ((grows.write page atPages).trans
          ((pagesFlags page atStart).1.trans (begins.write page before))))
    · exact (congrFun noteReadonly page).trans ((flags page notCovered).2.trans
        ((grows.readonly page atPages).trans
          ((pagesFlags page atStart).2.trans (begins.readonly page before))))
  case readonly =>
    intro notWritable page isCovered
    obtain ⟨write, isReadonly⟩ := readonly notWritable page isCovered
    exact ⟨(congrFun noteWrite page).trans write, (congrFun noteReadonly page).trans isReadonly⟩

end UserSpace

/-! ## Page tables -/

section Shows

open UserMemory UserMemory.Machine

variable {s after : Machine} {spaces : Spaces} {pid dir vaddr : Nat} {space : UserSpace}

/-- The page tables of the current task map the pages that the task is said to have. -/
def Shows (s : Machine) (dir : Nat) (space : UserSpace) : Prop :=
  ∀ vaddr < kernelVaddrOffset, s.Mapped dir vaddr ↔ space.linked (vaddr / pageSize) = true

/-- `link_user_page` does to the page tables what it does to the pages of a task here. -/
theorem Shows.linkUserPage (shows_ : Shows s dir space)
    (inUse : s.InUse spaces pid dir userTables) (user : vaddr < kernelVaddrOffset)
    (linked : s.linkUserPage vaddr = .ok after) : Shows after dir (space.linkUserPage vaddr) := by
  obtain ⟨inUseAfter, _, same, ⟨page, isPage⟩, _⟩ :=
    linkUserPage_spec inUse (pdeIdx_lt user) linked
  intro other otherUser
  rw [mapped_iff inUseAfter otherUser, UserSpace.linkUserPage_linked]
  by_cases samePage : other / pageSize = vaddr / pageSize
  · rw [placeOf_congr samePage, isPage]
    exact ⟨fun _ => .inr samePage, fun _ => rfl⟩
  · have elsewhere : placeOf pid other ≠ placeOf pid vaddr :=
      fun samePlace => samePage (page_of_placeOf samePlace)
    have unchanged : refersIn after.frames spaces (placeOf pid other) =
        refersIn s.frames spaces (placeOf pid other) := same _ _ _ elsewhere
    rw [unchanged, ← mapped_iff inUse otherUser, shows_ other otherUser]
    exact ⟨.inl, fun either => either.resolve_right samePage⟩

end Shows

end Loading
end LightOS
