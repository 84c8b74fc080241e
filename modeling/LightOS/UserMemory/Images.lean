import LightOS.UserMemory.Segments

/-!
# Images of programs

Whether `load_elf` loads every segment of a file.  The loop moves its pointer on behind a
header of type `PT_LOAD` only, so that it comes to the headers before the first one of
another type, and it finds them in the page that the first segment may be stored over.
-/

namespace LightOS
namespace Loading

open UserMemory (userExecAddr userMmapAddr userStackBottom userStackTop)

variable {k : Nat} {file : ByteFile} {s : UserSpace}

/-! ## Files -/

/-- The bytes of a file, by position. -/
def bytesOf (file : ByteFile) : Memory :=
  ⟨file.byte⟩

/-- The header of a file. -/
def fileHeader (file : ByteFile) : Ehdr :=
  Ehdr.read (bytesOf file) 0

/-- An entry of the table of program headers of a file. -/
def header (file : ByteFile) (index : Nat) : Phdr :=
  Phdr.read (bytesOf file) ((fileHeader file).phoff + phdrSize * index)

/-- The header describes a segment to load. -/
def IsLoad (file : ByteFile) (index : Nat) : Prop :=
  (header file index).type = ptLoad

instance (file : ByteFile) (index : Nat) : Decidable (IsLoad file index) :=
  inferInstanceAs (Decidable (_ = _))

/-- The segment has bytes at an address. -/
def Phdr.Contains (h : Phdr) (address : Nat) : Prop :=
  h.vaddr ≤ address ∧ address < h.vaddr + h.span

/-- `load_segment` makes its assertions for every segment, and segments do not overlap. -/
structure Loadable (file : ByteFile) : Prop where
  valid : elfValidate (fileHeader file) = true
  aligned : ∀ index < (fileHeader file).phnum, IsLoad file index →
    (header file index).align = 0x1000 ∧ (header file index).vaddr % pageSize = 0
  placed : ∀ index < (fileHeader file).phnum, IsLoad file index →
    ∀ page < (header file index).count, userExecAddr ≤ (header file index).address page ∧
      (header file index).address page < userMmapAddr
  apart : ∀ index < (fileHeader file).phnum, ∀ other < (fileHeader file).phnum,
    index ≠ other → IsLoad file index → IsLoad file other →
      ∀ address, ¬((header file index).Contains address ∧ (header file other).Contains address)

/-- Memory holds a segment with all its bytes of the file, in pages that are read-only unless
it may be written. -/
structure Phdr.InMemory (h : Phdr) (file : ByteFile) (s : UserSpace) : Prop where
  held : h.Held file
  bytes : ∀ k < h.span, s.linked ((h.vaddr + k) / pageSize) = true ∧
    s.memory (h.vaddr + k) = h.byte file k
  readonly : h.flags &&& pfW = 0 → ∀ page, h.Covers page →
    s.write page = false ∧ s.readonly page = true

/-- All segments of a file are in memory, and the task enters where the file says. -/
structure Complete (file : ByteFile) (entry : Nat) (s : UserSpace) : Prop where
  entry : entry = (fileHeader file).entry
  segments : ∀ index < (fileHeader file).phnum, IsLoad file index →
    (header file index).InMemory file s

/-- A task as `fork_clean` leaves it: it has pages of the stack only. -/
def UserSpace.Fresh (s : UserSpace) : Prop :=
  ∀ page, s.linked page = true → IsStack page

/-! ## Headers in memory -/

/-- What the headers of a file have at the position `k` of the first page. -/
def headByte (file : ByteFile) (k : Nat) : UInt8 :=
  if k < ehdrSize then file.byte k else file.byte ((fileHeader file).phoff + (k - ehdrSize))

/-- The position of a program header in the first page. -/
def phdrAt (index : Nat) : Nat :=
  ehdrSize + phdrSize * index

/-- The headers before this one are of type `PT_LOAD`. -/
def Reached (file : ByteFile) (index : Nat) : Prop :=
  ∀ before < index, IsLoad file before

/-- The loop comes to a header from its round `round` on, and looks at the byte: at every
byte of a header of type `PT_LOAD` but those of `p_paddr`, at the type of another. -/
def InTable (file : ByteFile) (round k : Nat) : Prop :=
  ∃ index offset, round ≤ index ∧ index < (fileHeader file).phnum ∧ Reached file index ∧
    k = phdrAt index + offset ∧
      (offset < 4 ∨ IsLoad file index ∧ offset < phdrSize ∧ (offset < 12 ∨ 16 ≤ offset))

/-- The bytes of the first page that are looked at from a round on: `e_entry`, `e_phnum` and
program headers. -/
def Wanted (file : ByteFile) (round k : Nat) : Prop :=
  24 ≤ k ∧ k < 28 ∨ 44 ≤ k ∧ k < 46 ∨ InTable file round k

/-- The first page, when the headers have been read, as far as the file has them. -/
def headPage (file : ByteFile) (s : UserSpace) : Memory :=
  (s.memory.store userExecAddr ehdrSize file.byte).store (userExecAddr + ehdrSize)
    (min (phdrSize * (fileHeader file).phnum) (file.size - (fileHeader file).phoff)) fun k =>
      file.byte ((fileHeader file).phoff + k)

/-- No header that the loop comes to is changed before it has been used: memory has the
bytes that are looked at when the headers have been read, and a segment that is stored over
such a byte after that, or clears it, has the same byte there. -/
structure Intact (file : ByteFile) (s : UserSpace) : Prop where
  table : ∀ k, Wanted file 0 k → headPage file s (userExecAddr + k) = headByte file k
  sizes : ∀ index < (fileHeader file).phnum, IsLoad file index → Reached file index →
    ∀ k, phdrAt index + 16 ≤ k → k < phdrAt index + 24 →
      (header file index).vaddr ≤ userExecAddr + k →
        userExecAddr + k < (header file index).vaddr + (header file index).filesz →
          (header file index).byte file (userExecAddr + k - (header file index).vaddr) =
            headByte file k
  later : ∀ index < (fileHeader file).phnum, IsLoad file index → Reached file index →
    ∀ k, phdrAt index + 24 ≤ k ∧ k < phdrAt index + 28 ∨ Wanted file (index + 1) k →
      (header file index).Contains (userExecAddr + k) →
        (header file index).byte file (userExecAddr + k - (header file index).vaddr) =
          headByte file k

/-- The file has the bytes of all its segments. -/
def HasSegments (file : ByteFile) : Prop :=
  ∀ index < (fileHeader file).phnum, IsLoad file index → (header file index).Held file

/-- A segment that need not be loaded: it is empty, or it is the page of the headers as they
have been read. -/
def Phdr.Idle (h : Phdr) (file : ByteFile) (s : UserSpace) : Prop :=
  h.span = 0 ∨
    h.vaddr = userExecAddr ∧ h.span ≤ pageSize ∧ h.flags &&& pfW ≠ 0 ∧
      ∀ k < h.span, headPage file s (userExecAddr + k) = h.byte file k

/-- Only such segments are behind a header of another type. -/
def SkipsIdle (file : ByteFile) (s : UserSpace) : Prop :=
  ∀ index < (fileHeader file).phnum, IsLoad file index → ¬Reached file index →
    (header file index).Idle file s

section Bytes

variable {round : Nat}

theorem headByte_ehdr (file : ByteFile) (inHeader : k < ehdrSize) : headByte file k = file.byte k :=
  if_pos inHeader

theorem headByte_phdr (file : ByteFile) (index offset : Nat) :
    headByte file (phdrAt index + offset) =
      file.byte ((fileHeader file).phoff + phdrSize * index + offset) := by
  unfold headByte phdrAt
  rw [if_neg (by omega)]
  congr 1
  omega

theorem phdrAt_le {index last : Nat} (before : index < last) :
    phdrAt index + phdrSize ≤ phdrAt last := by
  unfold phdrAt
  simp only [phdrSize]
  omega

theorem Wanted.inHead (isWanted : Wanted file round k) : k < phdrAt (fileHeader file).phnum := by
  have head : ehdrSize ≤ phdrAt (fileHeader file).phnum := Nat.le_add_right _ _
  simp only [ehdrSize] at head
  rcases isWanted with isEntry | isPhnum | ⟨index, offset, _, inTable, _, rfl, used⟩
  · omega
  · omega
  · have := phdrAt_le inTable
    simp only [phdrSize] at used this
    omega

theorem Wanted.before (isWanted : Wanted file (round + 1) k) : Wanted file round k :=
  isWanted.imp_right (.imp_right fun ⟨index, offset, later, inTable⟩ =>
    ⟨index, offset, Nat.le_of_succ_le later, inTable⟩)

/-- A segment that does not begin below the first page of programs comes to a byte of this
page only when it begins there. -/
theorem begins_of_contains {vaddr length : Nat} (aligned : vaddr % pageSize = 0)
    (starts : 0 < length → userExecAddr ≤ vaddr) (inPage : k < pageSize)
    (inside : vaddr ≤ userExecAddr + k ∧ userExecAddr + k < vaddr + length) :
    vaddr = userExecAddr := by
  have above := starts (by omega)
  change vaddr % 4096 = 0 at aligned
  change k < 4096 at inPage
  change 0x08048000 ≤ vaddr at above
  change vaddr ≤ 0x08048000 + k ∧ _ at inside
  change vaddr = 0x08048000
  omega

/-- A byte of the headers that a segment does not change. -/
theorem keepsByte {h : Phdr} {length : Nat} (holds : s.memory (userExecAddr + k) = headByte file k)
    (same : h.vaddr ≤ userExecAddr + k → userExecAddr + k < h.vaddr + length →
      h.byte file (userExecAddr + k - h.vaddr) = headByte file k) :
    s.memory.store h.vaddr length (h.byte file) (userExecAddr + k) = headByte file k := by
  by_cases inside : h.vaddr ≤ userExecAddr + k ∧ userExecAddr + k < h.vaddr + length
  · rw [Memory.store_inside _ inside.1 inside.2]
    exact same inside.1 inside.2
  · rw [Memory.store_outside _ (by omega)]
    exact holds

end Bytes

/-! ## Rounds of the loop -/

/-- After some rounds, all of which have loaded a segment. -/
structure Progress (file : ByteFile) (start : UserSpace) (round : Nat) (s : UserSpace) :
    Prop where
  wanted : ∀ k, Wanted file round k → s.memory (userExecAddr + k) = headByte file k
  loaded : ∀ index < round, (header file index).InMemory file s
  inside : ∀ index < round, 0 < (header file index).span →
    userExecAddr ≤ (header file index).vaddr ∧
      (header file index).vaddr + (header file index).span ≤ kernelVaddrOffset
  first : s.linked (userExecAddr / pageSize) = true
  linked : ∀ page, s.linked page = true → page = userExecAddr / pageSize ∨ IsStack page ∨
    ∃ index < round, (header file index).Covers page
  rest : (∀ index < round, ¬(header file index).Covers (userExecAddr / pageSize)) →
    s.readonly (userExecAddr / pageSize) = false ∧
      ∀ k < pageSize, s.memory (userExecAddr + k) = headPage file start (userExecAddr + k)

namespace Phdr.InMemory

variable {h : Phdr} {after : UserSpace}

theorem linked (inMemory : h.InMemory file s) {page : Nat} (covers : h.Covers page) :
    s.linked page = true := by
  have isPage : h.vaddr + (page * pageSize - h.vaddr) = page * pageSize :=
    Nat.add_sub_of_le covers.1
  have isLinked := (inMemory.bytes (page * pageSize - h.vaddr)
    (by have := covers.2; omega)).1
  rw [isPage, Nat.mul_div_cancel _ (by decide)] at isLinked
  exact isLinked

theorem grow (inMemory : h.InMemory file s) (memory : after.memory = s.memory)
    (grows : GrowsStack s after) : h.InMemory file after where
  held := inMemory.held
  bytes k inRange := by
    rw [memory]
    exact ⟨grows.stays _ (inMemory.bytes k inRange).1, (inMemory.bytes k inRange).2⟩
  readonly notWritable page covers := by
    have isLinked := inMemory.linked covers
    rw [grows.write page isLinked, grows.readonly page isLinked]
    exact inMemory.readonly notWritable page covers

end Phdr.InMemory

namespace Progress

variable {start after : UserSpace} {round : Nat}

theorem grow (progress : Progress file start round s) (memory : after.memory = s.memory)
    (grows : GrowsStack s after) : Progress file start round after where
  wanted k isWanted := by
    rw [memory]
    exact progress.wanted k isWanted
  loaded index earlier := (progress.loaded index earlier).grow memory grows
  inside := progress.inside
  first := grows.stays _ progress.first
  linked page isLinked := by
    rcases grows.new page isLinked with before | isStack
    · exact progress.linked page before
    · exact .inr (.inl isStack)
  rest apart := by
    rw [memory, grows.readonly _ progress.first]
    exact progress.rest apart

/-- Nothing is linked below the first page of programs. -/
theorem above (progress : Progress file start round s) (page : Nat)
    (isLinked : s.linked page = true) : userExecAddr / pageSize ≤ page := by
  rcases progress.linked page isLinked with rfl | isStack | ⟨index, earlier, covers⟩
  · exact le_rfl
  · exact isStack.above
  · have := (progress.inside index earlier (by unfold Phdr.Covers at covers; omega)).1
    unfold Phdr.Covers at covers
    change 0x08048000 ≤ (header file index).vaddr at this
    change 0x08048000 / 4096 ≤ page
    simp only [pageSize] at covers
    omega

theorem phnum (progress : Progress file start round s) :
    (Ehdr.read s.memory userExecAddr).phnum = (fileHeader file).phnum := by
  refine Memory.half_congr fun k inRange => ?_
  rw [Nat.add_assoc, progress.wanted (44 + k) (.inr (.inl (by omega))),
    headByte_ehdr file (by simp only [ehdrSize]; omega), Nat.zero_add]
  rfl

theorem entry (progress : Progress file start round s) :
    (Ehdr.read s.memory userExecAddr).entry = (fileHeader file).entry := by
  refine Memory.word_congr fun k inRange => ?_
  rw [Nat.add_assoc, progress.wanted (24 + k) (.inl (by omega)),
    headByte_ehdr file (by simp only [ehdrSize]; omega), Nat.zero_add]
  rfl

section Table

variable (progress : Progress file start round s) (inTable : round < (fileHeader file).phnum)
  (reached : Reached file round)

include progress inTable reached

/-- A byte of the next header that the loop looks at. -/
theorem phdrByte {offset : Nat} (used : offset < 4 ∨
      IsLoad file round ∧ offset < phdrSize ∧ (offset < 12 ∨ 16 ≤ offset)) :
    s.memory (userExecAddr + phdrAt round + offset) =
      bytesOf file ((fileHeader file).phoff + phdrSize * round + offset) := by
  rw [Nat.add_assoc, progress.wanted (phdrAt round + offset)
    (.inr (.inr ⟨round, offset, le_rfl, inTable, reached, rfl, used⟩)), headByte_phdr]
  rfl

theorem type : (Phdr.read s.memory (userExecAddr + phdrAt round)).type =
    (header file round).type :=
  Memory.word_congr fun _ inRange => progress.phdrByte inTable reached (.inl inRange)

theorem phdr (isLoad : IsLoad file round) :
    Phdr.read s.memory (userExecAddr + phdrAt round) = header file round := by
  have word {field : Nat} (isField : field + 4 ≤ 12 ∨ 16 ≤ field ∧ field + 4 ≤ 32) :
      s.memory.word (userExecAddr + phdrAt round + field) =
        (bytesOf file).word ((fileHeader file).phoff + phdrSize * round + field) := by
    refine Memory.word_congr fun k inRange => ?_
    rw [Nat.add_assoc, Nat.add_assoc (_ + _)]
    refine progress.phdrByte inTable reached (.inr ⟨isLoad, ?_⟩)
    simp only [phdrSize]
    omega
  have type := progress.type inTable reached
  unfold header Phdr.read at type ⊢
  simp only at type
  rw [type, word (by omega), word (by omega), word (by omega), word (by omega), word (by omega),
    word (by omega)]

end Table

/-! ## A round -/

section Step

variable (loadable : Loadable file) (intact : Intact file start) (has : HasSegments file)
  (progress : Progress file start round s)
  (inTable : round < (fileHeader file).phnum) (reached : Reached file round)
  (isLoad : IsLoad file round)

include loadable intact has progress inTable reached isLoad

omit loadable in
theorem placed (loaded : s.loadSegment file (userExecAddr + phdrAt round) = .ok after) :
    UserSpace.Placed file (header file round) s after := by
  have isHeader := progress.phdr inTable reached isLoad
  have holds {offset : Nat} (above : 16 ≤ offset) (below : offset < phdrSize) :
      s.memory (userExecAddr + (phdrAt round + offset)) = headByte file (phdrAt round + offset) :=
    progress.wanted _ (.inr (.inr
      ⟨round, offset, le_rfl, inTable, reached, rfl, .inr ⟨isLoad, below, .inr above⟩⟩))
  -- A field of the header, when the first bytes of the segment have been stored.
  have field (position : Nat) {length : Nat} (above : 16 ≤ position)
      (below : position + 4 ≤ phdrSize)
      (same : ∀ k, phdrAt round + position ≤ k → k < phdrAt round + position + 4 →
        (header file round).vaddr ≤ userExecAddr + k →
          userExecAddr + k < (header file round).vaddr + length →
            (header file round).byte file (userExecAddr + k - (header file round).vaddr) =
              headByte file k) :
      (s.memory.store (header file round).vaddr length ((header file round).byte file)).word
          (userExecAddr + phdrAt round + position) =
        s.memory.word (userExecAddr + phdrAt round + position) := by
    refine Memory.word_congr fun k inWord => ?_
    rw [Nat.add_assoc, Nat.add_assoc,
      holds (by omega) (by omega)]
    exact keepsByte (holds (by omega) (by omega)) (same _ (by omega) (by omega))
  have sizes := intact.sizes round inTable isLoad reached
  have later := intact.later round inTable isLoad reached
  refine UserSpace.loadSegment_spec isHeader (has round inTable isLoad)
    progress.above ⟨?filesz, ?memsz⟩ ?flags loaded
  case filesz =>
    exact (field 16 le_rfl (by decide) fun k _ _ =>
      sizes k (by omega) (by omega)).trans (congrArg Phdr.filesz isHeader)
  case memsz =>
    exact (field 20 (by decide) (by decide) fun k _ _ =>
      sizes k (by omega) (by omega)).trans (congrArg Phdr.memsz isHeader)
  case flags =>
    exact (field 24 (by decide) (by decide) fun k above below begins inside =>
      later k (.inl ⟨above, by omega⟩) ⟨begins, inside⟩).trans (congrArg Phdr.flags isHeader)

omit intact has in
/-- `load_segment` leaves the segments that are loaded already. -/
theorem keepsLoaded (placed : UserSpace.Placed file (header file round) s after) {index : Nat}
    (earlier : index < round) : (header file index).InMemory file after := by
  have apart := loadable.apart index (Nat.lt_trans earlier inTable) round inTable
    (Nat.ne_of_lt earlier) (reached index earlier) isLoad
  have inMemory := progress.loaded index earlier
  refine ⟨inMemory.held, fun k inRange => ?_, fun notWritable page covers => ?_⟩
  · obtain ⟨isLinked, isByte⟩ := inMemory.bytes k inRange
    have outside : ¬(header file round).Contains ((header file index).vaddr + k) :=
      fun contains => apart _ ⟨⟨by omega, by omega⟩, contains⟩
    unfold Phdr.Contains at outside
    rw [placed.memory, Memory.store_outside _ (by omega)]
    exact ⟨placed.stays _ isLinked, isByte⟩
  · have isLinked := inMemory.linked covers
    obtain ⟨sameWrite, sameReadonly⟩ :=
      placed.flags page isLinked fun other => apart _ ⟨covers, other⟩
    rw [sameWrite, sameReadonly]
    exact inMemory.readonly notWritable page covers

theorem step (loaded : s.loadSegment file (userExecAddr + phdrAt round) = .ok after) :
    Progress file start (round + 1) after := by
  have placed := placed intact has progress inTable reached isLoad loaded
  have starts (some : 0 < (header file round).span) := (placed.inside some).1
  refine
    { wanted := ?wanted, loaded := ?loaded, inside := ?inside, first := ?first,
      linked := ?linked, rest := ?rest }
  case wanted =>
    intro k isWanted
    rw [placed.memory]
    exact keepsByte (progress.wanted k isWanted.before) fun begins inside =>
      intact.later round inTable isLoad reached k (.inr isWanted) ⟨begins, inside⟩
  case loaded =>
    intro index inRange
    rcases Nat.lt_succ_iff_lt_or_eq.mp inRange with earlier | rfl
    · exact keepsLoaded loadable progress inTable reached isLoad placed earlier
    · refine ⟨has index inTable isLoad, fun k inSpan => ⟨?_, ?_⟩, placed.readonly⟩
      · exact placed.covered _ (Phdr.covers_page placed.aligned inSpan)
      · rw [placed.memory, Memory.store_inside _ (by omega) (by omega), Nat.add_sub_cancel_left]
  case inside =>
    intro index inRange
    rcases Nat.lt_succ_iff_lt_or_eq.mp inRange with earlier | rfl
    · exact progress.inside index earlier
    · exact placed.inside
  case first => exact placed.stays _ progress.first
  case linked =>
    intro page isLinked
    rcases placed.new page isLinked with before | isStack | covers
    · refine (progress.linked page before).imp_right (.imp_right ?_)
      rintro ⟨index, earlier, covers⟩
      exact ⟨index, Nat.lt_succ_of_lt earlier, covers⟩
    · exact .inr (.inl isStack)
    · exact .inr (.inr ⟨round, Nat.lt_succ_self round, covers⟩)
  case rest =>
    intro apart
    obtain ⟨readonly, bytes⟩ := progress.rest fun index earlier =>
      apart index (Nat.lt_succ_of_lt earlier)
    have notCovered := apart round (Nat.lt_succ_self round)
    refine ⟨((placed.flags _ progress.first notCovered).2).trans readonly, fun k inPage => ?_⟩
    have outside : ¬((header file round).vaddr ≤ userExecAddr + k ∧
        userExecAddr + k < (header file round).vaddr + (header file round).span) := by
      intro inside
      have begins := begins_of_contains placed.aligned starts inPage inside
      exact notCovered ⟨begins.le, by rw [begins]; exact Nat.lt_add_of_pos_right (by omega)⟩
    rw [placed.memory, Memory.store_outside _ (by omega)]
    exact bytes k inPage

end Step

end Progress

/-! ## The loop -/

/-- Behind a header of another type the loop does nothing. -/
theorem loadSegments_skips {ptr : Nat} {after : UserSpace}
    (skips : (Phdr.read s.memory ptr).type ≠ ptLoad) {left round : Nat}
    (looped : UserSpace.loadSegments file left round ptr s = .ok after) :
    after.memory = s.memory ∧ GrowsStack s after := by
  induction left generalizing round s with
  | zero =>
      cases looped
      exact ⟨rfl, .refl _⟩
  | succ left inductionHypothesis =>
      rw [UserSpace.loadSegments] at looped
      split at looped
      · simp only [bind_eq_ok] at looped
        obtain ⟨middle, accessed, looped⟩ := looped
        obtain ⟨sameMemory, grows, _⟩ := UserSpace.accesses_spec accessed
        rw [sameMemory, if_pos skips] at looped
        obtain ⟨memory, more⟩ := inductionHypothesis (by rw [sameMemory]; exact skips) looped
        exact ⟨memory.trans sameMemory, grows.trans more⟩
      · cases looped
        exact ⟨rfl, .refl _⟩

section Loop

variable {start after : UserSpace} (loadable : Loadable file)
  (intact : Intact file start) (has : HasSegments file)

include loadable intact has

/-- The loop loads the segments before the first header of another type. -/
theorem loadSegments_spec {left round : Nat} (rounds : left + round = 2 ^ 16)
    (inTable : round ≤ (fileHeader file).phnum) (reached : Reached file round)
    (progress : Progress file start round s)
    (looped : UserSpace.loadSegments file left round (userExecAddr + phdrAt round) s =
      .ok after) :
    ∃ last ≤ (fileHeader file).phnum, Reached file last ∧
      (last < (fileHeader file).phnum → ¬IsLoad file last) ∧ Progress file start last after := by
  induction left generalizing round s with
  | zero =>
      have : (fileHeader file).phnum < 2 ^ 16 := Memory.half_lt _ _
      omega
  | succ left inductionHypothesis =>
      rw [UserSpace.loadSegments, progress.phnum] at looped
      split at looped
      case isFalse atEnd =>
        cases looped
        exact ⟨round, inTable, reached, fun inTable => absurd inTable atEnd, progress⟩
      case isTrue inTable =>
        simp only [bind_eq_ok] at looped
        obtain ⟨middle, accessed, looped⟩ := looped
        obtain ⟨sameMemory, grows, _⟩ := UserSpace.accesses_spec accessed
        have progress := progress.grow sameMemory grows
        have type := progress.type inTable reached
        rw [type] at looped
        split at looped
        case isTrue notLoad =>
          obtain ⟨memory, more⟩ := loadSegments_skips (by rw [type]; exact notLoad) looped
          exact ⟨round, inTable.le, reached, fun _ => notLoad, progress.grow memory more⟩
        case isFalse isLoad =>
          have isLoad : IsLoad file round := not_not.mp isLoad
          simp only [bind_eq_ok] at looped
          obtain ⟨next, loaded, looped⟩ := looped
          refine inductionHypothesis (by omega) inTable (fun before earlier => ?_)
            (progress.step loadable intact has inTable reached isLoad loaded) looped
          rcases Nat.lt_succ_iff_lt_or_eq.mp earlier with earlier | rfl
          · exact reached before earlier
          · exact isLoad

end Loop

/-! ## The start -/

section Start

variable {after : UserSpace}

theorem elfValidate_phentsize {ehdr : Ehdr} (valid : elfValidate ehdr = true) :
    ehdr.phentsize = phdrSize := by
  by_contra different
  simp [elfValidate, different] at valid

theorem Ehdr.read_congr {left right : Memory} {ptr other : Nat}
    (same : ∀ k < ehdrSize, left (ptr + k) = right (other + k)) :
    Ehdr.read left ptr = Ehdr.read right other := by
  have word {field : Nat} (inHeader : field + 4 ≤ 52) :
      left.word (ptr + field) = right.word (other + field) :=
    Memory.word_congr fun k inRange => by
      rw [Nat.add_assoc, Nat.add_assoc]
      exact same _ (by simp only [ehdrSize]; omega)
  have half {field : Nat} (inHeader : field + 2 ≤ 52) :
      left.half (ptr + field) = right.half (other + field) :=
    Memory.half_congr fun k inRange => by
      rw [Nat.add_assoc, Nat.add_assoc]
      exact same _ (by simp only [ehdrSize]; omega)
  have ident : (List.range 7).map (fun k => left (ptr + k)) =
      (List.range 7).map fun k => right (other + k) :=
    List.map_congr_left fun k inRange => same k (by
      have := List.mem_range.mp inRange
      simp only [ehdrSize]
      omega)
  unfold Ehdr.read
  rw [ident, half (by omega), half (by omega), word (by omega), word (by omega), word (by omega),
    half (by omega), half (by omega)]

/-- The first page of a file that has the table. -/
theorem headPage_eq (file : ByteFile) (s : UserSpace)
    (table : phdrSize * (fileHeader file).phnum ≤ file.size - (fileHeader file).phoff)
    (inHead : k < phdrAt (fileHeader file).phnum) :
    headPage file s (userExecAddr + k) = headByte file k := by
  unfold headPage headByte phdrAt at *
  rw [Nat.min_eq_left table]
  by_cases inHeader : k < ehdrSize
  · rw [if_pos inHeader, Memory.store_outside _ (by omega),
      Memory.store_inside _ (by omega) (by omega), Nat.add_sub_cancel_left]
  · rw [if_neg inHeader, Memory.store_inside _ (by omega) (by omega), Nat.add_sub_add_left]

/-- `load_elf` before its loop, for a valid file. -/
theorem loadElf_begins {entry : Nat} (fresh : s.Fresh) (loadable : Loadable file)
    (intact : Intact file s) (loaded : s.loadElf file = .ok (entry, after)) :
    ∃ first, Progress file s 0 first ∧
      UserSpace.loadSegments file (2 ^ 16) 0 (userExecAddr + phdrAt 0) first = .ok after ∧
      entry = (Ehdr.read after.memory userExecAddr).entry := by
  simp only [UserSpace.loadElf, bind_eq_ok, check_eq_ok] at loaded
  obtain ⟨⟨n, headed⟩, readHeader, _, isWhole, loaded⟩ := loaded
  dsimp only at isWhole loaded
  obtain ⟨headMemory, begins, _, isCount⟩ := UserSpace.inodeRead_spec readHeader
  have whole : min ehdrSize (file.size - 0) = ehdrSize := by
    rw [isWhole] at isCount
    simp only [ehdrSize] at isCount ⊢
    split at isCount <;> omega
  simp only [whole, UserSpace.linkUserPage_memory, Nat.zero_add] at headMemory
  have isHeader : Ehdr.read headed.memory userExecAddr = fileHeader file := by
    refine Ehdr.read_congr fun k inHeader => ?_
    rw [headMemory, Memory.store_inside _ (by omega) (by omega), Nat.add_sub_cancel_left,
      Nat.zero_add]
    rfl
  rw [isHeader, loadable.valid, if_neg Bool.noConfusion,
    elfValidate_phentsize loadable.valid] at loaded
  simp only [bind_eq_ok] at loaded
  obtain ⟨⟨_, first⟩, readTable, finish, looped, loaded⟩ := loaded
  cases loaded
  obtain ⟨tableMemory, grows, _⟩ := UserSpace.inodeRead_spec readTable
  have memory : first.memory = headPage file s := by
    rw [tableMemory, headMemory, Nat.mul_comm]
    rfl
  have isLinked (page : Nat) (linked : first.linked page = true) :
      page = userExecAddr / pageSize ∨ IsStack page := by
    rcases (begins.trans grows).new page linked with before | isStack
    · rcases (UserSpace.linkUserPage_linked s _ page).mp before with before | isFirst
      · exact .inr (fresh page before)
      · exact .inl isFirst
    · exact .inr isStack
  have firstLinked : (s.linkUserPage userExecAddr).linked (userExecAddr / pageSize) = true :=
    (UserSpace.linkUserPage_linked s _ _).mpr (.inr rfl)
  refine ⟨first, ?progress, looped, rfl⟩
  case progress =>
    refine
      { wanted := fun k isWanted => ?_, loaded := fun _ none => absurd none (Nat.not_lt_zero _)
        inside := fun _ none => absurd none (Nat.not_lt_zero _)
        first := (begins.trans grows).stays _ firstLinked
        linked := fun page linked => (isLinked page linked).imp_right .inl
        rest := fun _ => ⟨?_, fun k _ => by rw [memory]⟩ }
    · rw [memory]
      exact intact.table k isWanted
    · have notLinked : ¬s.linked (userExecAddr / pageSize) = true := by
        intro before
        have below : userStackBottom / pageSize < _ := (fresh _ before).1
        exact absurd below (by decide)
      rw [(begins.trans grows).readonly _ firstLinked, UserSpace.linkUserPage]
      simp [notLinked]

end Start

/-! ## Segments that are skipped -/

section Skipped

variable {start after : UserSpace} {last index : Nat}
  (loadable : Loadable file) (progress : Progress file start last after)
  (reached : Reached file last) (inTable : index < (fileHeader file).phnum)
  (isLoad : IsLoad file index) (behind : last < index)

include loadable reached inTable isLoad behind

theorem apart_of_skipped {earlier : Nat} (isEarlier : earlier < last) (address : Nat) :
    ¬((header file index).Contains address ∧ (header file earlier).Contains address) :=
  loadable.apart index inTable earlier (by omega) (by omega) isLoad (reached earlier isEarlier)
    address

include progress

omit reached behind in
/-- A segment on the stack has so many bytes that the number of its pages is 0 for
`load_segment`, and then it reaches into the kernel. -/
theorem not_isStack_of_inMemory (inMemory : (header file index).InMemory file after)
    (some : 0 < (header file index).span) :
    ¬IsStack (((header file index).vaddr + 0) / pageSize) := by
  intro ⟨above, below⟩
  change 0xBFDFF < (header file index).vaddr / 4096 at above
  change (header file index).vaddr / 4096 ≤ 0xBFFFF at below
  by_cases large : 2 ^ 32 - pageSize < (header file index).span
  · change 4294963200 < (header file index).span at large
    have isLinked := (inMemory.bytes (0xC0000000 - (header file index).vaddr) (by omega)).1
    have isKernel : ((header file index).vaddr + (0xC0000000 - (header file index).vaddr)) /
        pageSize = 0xC0000 := by
      change (_ : Nat) / 4096 = 0xC0000
      omega
    rw [isKernel] at isLinked
    rcases progress.linked _ isLinked with isFirst | isStack | ⟨earlier, isEarlier, covers⟩
    · exact absurd isFirst (by decide)
    · exact absurd isStack.2 (by decide)
    · have inside := (progress.inside earlier isEarlier
        (by have := covers.1; have := covers.2; omega)).2
      have := covers.2
      change (header file earlier).vaddr + (header file earlier).span ≤ 0xC0000000 at inside
      change 0xC0000000 < (header file earlier).vaddr + (header file earlier).span at this
      omega
  · have pages : 0 < (header file index).count := by
      unfold Phdr.count
      rw [UserMemory.Machine.divRoundUp_pageSize some (by omega)]
      change 0 < ((header file index).span + 4095) / 4096
      omega
    have placed := (loadable.placed index inTable isLoad 0 pages).2
    unfold Phdr.address at placed
    change ((header file index).vaddr + 0) % 2 ^ 32 < 0x10000000 at placed
    have small : (header file index).vaddr < 2 ^ 32 := Memory.word_lt _ _
    omega

/-- A skipped segment has a page only when it begins at the first page of programs. -/
theorem vaddr_of_inMemory (inMemory : (header file index).InMemory file after)
    (some : 0 < (header file index).span) : (header file index).vaddr = userExecAddr := by
  have aligned := (loadable.aligned index inTable isLoad).2
  rcases progress.linked _ (inMemory.bytes 0 some).1 with
    isFirst | isStack | ⟨earlier, isEarlier, covers⟩
  · change (header file index).vaddr / 4096 = 0x08048000 / 4096 at isFirst
    change (header file index).vaddr % 4096 = 0 at aligned
    change (header file index).vaddr = 0x08048000
    omega
  · exact absurd isStack
      (not_isStack_of_inMemory loadable progress inTable isLoad inMemory some)
  · refine absurd ⟨⟨le_rfl, by omega⟩, ?_⟩
      (apart_of_skipped loadable reached inTable isLoad behind isEarlier (header file index).vaddr)
    have isPage : ((header file index).vaddr + 0) / pageSize * pageSize =
        (header file index).vaddr := Nat.div_mul_cancel (Nat.dvd_of_mod_eq_zero aligned)
    unfold Phdr.Covers at covers
    rw [isPage] at covers
    exact covers

theorem idle_of_inMemory (inMemory : (header file index).InMemory file after) :
    (header file index).Idle file start := by
  rcases Nat.eq_zero_or_pos (header file index).span with none | some
  · exact .inl none
  have begins :=
    vaddr_of_inMemory loadable progress reached inTable isLoad behind inMemory some
  have covers : (header file index).Covers (userExecAddr / pageSize) :=
    ⟨begins.le, by rw [begins]; exact Nat.lt_add_of_pos_right some⟩
  have rest := progress.rest fun earlier isEarlier covered =>
    apart_of_skipped loadable reached inTable isLoad behind isEarlier userExecAddr
      ⟨covers, covered⟩
  have isSmall : (header file index).span ≤ pageSize := by
    by_contra large
    rcases progress.linked _ (inMemory.bytes pageSize (by omega)).1 with
      isFirst | isStack | ⟨earlier, isEarlier, covered⟩
    · rw [begins] at isFirst
      exact absurd isFirst (by decide)
    · rw [begins] at isStack
      exact absurd isStack.1 (by decide)
    · rw [begins] at covered
      refine apart_of_skipped loadable reached inTable isLoad behind isEarlier
        (userExecAddr + pageSize) ⟨⟨?_, ?_⟩, covered⟩
      · rw [begins]
        exact Nat.le_add_right _ _
      · rw [begins]
        omega
  refine .inr ⟨begins, isSmall, fun notWritable => ?_, fun k inRange => ?_⟩
  · have := (inMemory.readonly notWritable _ covers).2
    rw [rest.1] at this
    cases this
  · rw [← rest.2 k (by omega), ← begins]
    exact (inMemory.bytes k inRange).2

theorem inMemory_of_idle (held : (header file index).Held file)
    (idle : (header file index).Idle file start) : (header file index).InMemory file after := by
  rcases idle with none | ⟨begins, small, writable, bytes⟩
  · refine ⟨held, fun k inRange => by omega, fun _ page covers => ?_⟩
    have := covers.1
    have := covers.2
    omega
  · refine ⟨held, fun k inRange => ?_, fun notWritable => absurd notWritable writable⟩
    have notCovered (earlier : Nat) (isEarlier : earlier < last) :
        ¬(header file earlier).Covers (userExecAddr / pageSize) := by
      intro covers
      refine apart_of_skipped loadable reached inTable isLoad behind isEarlier userExecAddr
        ⟨⟨begins.le, by omega⟩, covers⟩
    have inPage : (userExecAddr + k) / pageSize = userExecAddr / pageSize := by
      change (0x08048000 + k) / 4096 = 0x08048000 / 4096
      simp only [pageSize] at small
      omega
    rw [begins, inPage, (progress.rest notCovered).2 k (by omega), bytes k inRange]
    exact ⟨progress.first, rfl⟩

end Skipped

/-- The segments before the first header of another type are loaded when `load_elf` returns. -/
theorem loadElf_spec {after : UserSpace} {entry : Nat} (fresh : s.Fresh) (loadable : Loadable file)
    (intact : Intact file s) (has : HasSegments file)
    (loaded : s.loadElf file = .ok (entry, after)) :
    ∃ last ≤ (fileHeader file).phnum, Reached file last ∧
      (last < (fileHeader file).phnum → ¬IsLoad file last) ∧ Progress file s last after ∧
        entry = (fileHeader file).entry := by
  obtain ⟨first, begins, looped, rfl⟩ := loadElf_begins fresh loadable intact loaded
  obtain ⟨last, inTable, reached, stops, progress⟩ :=
    loadSegments_spec loadable intact has (Nat.add_zero _) (Nat.zero_le _)
      (fun _ none => absurd none (Nat.not_lt_zero _)) begins looped
  exact ⟨last, inTable, reached, stops, progress, progress.entry⟩

/-- For a file whose headers stay as they are, all segments are in memory when `load_elf`
returns exactly when the file has their bytes and no segment is skipped that needs to be
loaded. -/
theorem complete_iff_skipsIdle {file : ByteFile} {s after : UserSpace} {entry : Nat}
    (fresh : s.Fresh) (loadable : Loadable file) (intact : Intact file s)
    (loaded : s.loadElf file = .ok (entry, after)) :
    Complete file entry after ↔ HasSegments file ∧ SkipsIdle file s := by
  have behind {index last : Nat} (reached : Reached file last)
      (notReached : ¬Reached file index) : last < index := by
    by_contra notBehind
    exact notReached fun before earlier => reached before (by omega)
  constructor
  · intro complete
    have has : HasSegments file := fun index inTable isLoad =>
      (complete.segments index inTable isLoad).held
    obtain ⟨last, _, reached, _, progress, _⟩ := loadElf_spec fresh loadable intact has loaded
    exact ⟨has, fun index inTable isLoad notReached =>
      idle_of_inMemory loadable progress reached inTable isLoad (behind reached notReached)
        (complete.segments index inTable isLoad)⟩
  · rintro ⟨has, skipsIdle⟩
    obtain ⟨last, _, reached, stops, progress, isEntry⟩ :=
      loadElf_spec fresh loadable intact has loaded
    refine ⟨isEntry, fun index inTable isLoad => ?_⟩
    by_cases isReached : Reached file index
    · refine progress.loaded index ?_
      by_contra notBefore
      rcases Nat.lt_or_eq_of_le (Nat.le_of_not_lt notBefore) with before | rfl
      · exact stops (by omega) (isReached last before)
      · exact stops inTable isLoad
    · exact inMemory_of_idle loadable progress reached inTable isLoad
        (behind reached isReached) (has index inTable isLoad)
        (skipsIdle index inTable isLoad isReached)

/-- The headers stay as they are when the file has the table right behind its header, and
the only segment that is loaded over them is the front of the file with the table. -/
theorem intact_of_front
    (table : phdrSize * (fileHeader file).phnum ≤ file.size - (fileHeader file).phoff)
    (behind : (fileHeader file).phoff = ehdrSize)
    (front : ∀ index < (fileHeader file).phnum, IsLoad file index →
      (header file index).vaddr = userExecAddr ∧ (header file index).offset = 0 ∧
        phdrAt (fileHeader file).phnum ≤ (header file index).filesz) : Intact file s := by
  have same {index : Nat} (inTable : index < (fileHeader file).phnum) (isLoad : IsLoad file index)
      {k : Nat} (inHead : k < phdrAt (fileHeader file).phnum) :
      (header file index).byte file (userExecAddr + k - (header file index).vaddr) =
        headByte file k := by
    obtain ⟨begins, offset, covers⟩ := front index inTable isLoad
    rw [begins, Nat.add_sub_cancel_left, Phdr.byte, if_pos (by omega), offset, Nat.zero_add,
      headByte, behind]
    split
    · rfl
    · congr 1
      omega
  refine ⟨fun k isWanted => headPage_eq file s table isWanted.inHead,
    fun index inTable isLoad _ k _ inSizes _ _ => ?_,
    fun index inTable isLoad _ k isLater _ => ?_⟩
  · have := phdrAt_le inTable
    exact same inTable isLoad (by simp only [phdrSize] at this; omega)
  · refine same inTable isLoad ?_
    rcases isLater with ⟨_, inFlags⟩ | isWanted
    · have := phdrAt_le inTable
      simp only [phdrSize] at this
      omega
    · exact isWanted.inHead

/-! ## Two files -/

/-- The bytes of a word, least significant first. -/
def wordBytes (size value : Nat) : List UInt8 :=
  (List.range size).map fun k => UInt8.ofNat (value / 256 ^ k)

def Phdr.bytes (h : Phdr) : List UInt8 :=
  [h.type, h.offset, h.vaddr, h.vaddr, h.filesz, h.memsz, h.flags, h.align].flatMap (wordBytes 4)

/-- A program for this machine with a table behind its header and code behind the table. -/
def programBytes (entry : Nat) (table : List Phdr) (code : List UInt8) : List UInt8 :=
  [0x7F, 0x45, 0x4C, 0x46, 1, 1, 1, 0, 0, 0, 0, 0, 0, 0, 0, 0] ++
    wordBytes 2 etExec ++ wordBytes 2 em386 ++ wordBytes 4 evCurrent ++ wordBytes 4 entry ++
    wordBytes 4 ehdrSize ++ wordBytes 8 0 ++ wordBytes 2 ehdrSize ++ wordBytes 2 phdrSize ++
    wordBytes 2 table.length ++ wordBytes 6 0 ++ table.flatMap Phdr.bytes ++ code

def fileOf (bytes : List UInt8) : ByteFile where
  size := bytes.length
  byte k := bytes.getD k 0
  beyond k behind := by simp [List.getD, behind]

/-- A task without pages. -/
def bare : UserSpace where
  memory := ⟨fun _ => 0⟩
  linked _ := false
  write _ := false
  readonly _ := false
  text := 0
  data := 0
  end_ := 0

/-- A program of one segment, which is the file with some bytes to clear. -/
def frontProgram : ByteFile :=
  fileOf (programBytes 0x08048054 [⟨ptLoad, 0, userExecAddr, 86, 128, pfR ||| pfX, 0x1000⟩]
    [0xEB, 0xFE])

/-- A program with a note before its segment. -/
def notedProgram : ByteFile :=
  fileOf (programBytes 0x08049000
    [⟨4, 0, 0, 0, 0, pfR, 0⟩, ⟨ptLoad, 116, 0x08049000, 2, 2, pfR ||| pfX, 0x1000⟩]
    [0xEB, 0xFE])

theorem bare_fresh : bare.Fresh :=
  fun _ isLinked => Bool.noConfusion isLinked

theorem frontProgram_loadable : Loadable frontProgram where
  valid := by decide +kernel
  aligned := by decide +kernel
  placed := by decide +kernel
  apart := by
    have one : (fileHeader frontProgram).phnum = 1 := by decide +kernel
    rw [one]
    intro index inTable other otherInTable different
    omega

theorem frontProgram_intact : Intact frontProgram bare := by
  have one : (fileHeader frontProgram).phnum = 1 := by decide +kernel
  refine intact_of_front (by decide +kernel) (by decide +kernel) ?_
  rw [one]
  intro index inTable _
  obtain rfl : index = 0 := by omega
  decide +kernel

theorem frontProgram_hasSegments : HasSegments frontProgram := by
  have one : (fileHeader frontProgram).phnum = 1 := by decide +kernel
  unfold HasSegments
  rw [one]
  intro index inTable _
  obtain rfl : index = 0 := by omega
  unfold Phdr.Held
  decide +kernel

theorem frontProgram_skipsIdle : SkipsIdle frontProgram bare := by
  have one : (fileHeader frontProgram).phnum = 1 := by decide +kernel
  unfold SkipsIdle
  rw [one]
  intro index inTable _ notReached
  exact absurd (fun before earlier => by omega) notReached

theorem complete_iff_skipsIdle_front : ∃ entry after,
    bare.loadElf frontProgram = .ok (entry, after) ∧ Complete frontProgram entry after := by
  have returns : (bare.loadElf frontProgram).toBool = true := by decide +kernel
  cases loaded : bare.loadElf frontProgram with
  | error fault =>
      rw [loaded] at returns
      cases returns
  | ok result =>
      exact ⟨result.1, result.2, rfl,
        (complete_iff_skipsIdle bare_fresh frontProgram_loadable frontProgram_intact loaded).mpr
          ⟨frontProgram_hasSegments, frontProgram_skipsIdle⟩⟩

theorem notedProgram_loadable : Loadable notedProgram where
  valid := by decide +kernel
  aligned := by decide +kernel
  placed := by decide +kernel
  apart := by
    have two : (fileHeader notedProgram).phnum = 2 := by decide +kernel
    have note : ¬IsLoad notedProgram 0 := by decide +kernel
    rw [two]
    intro index inTable other otherInTable different isLoad otherLoad
    obtain rfl | rfl : index = 0 ∨ index = 1 := by omega
    · exact absurd isLoad note
    · obtain rfl : other = 0 := by omega
      exact absurd otherLoad note

theorem complete_fails :
    ¬∀ (file : ByteFile) (s after : UserSpace) (entry : Nat), s.Fresh → Loadable file →
      s.loadElf file = .ok (entry, after) → Complete file entry after := by
  intro claim
  have returns : (bare.loadElf notedProgram).map (fun result => result.2.linked 0x8049) =
      .ok false := by decide +kernel
  cases loaded : bare.loadElf notedProgram with
  | error fault =>
      rw [loaded] at returns
      cases returns
  | ok result =>
      rw [loaded] at returns
      have missing : result.2.linked 0x8049 = false := Except.ok.inj returns
      have complete := claim notedProgram bare result.2 result.1 bare_fresh
        notedProgram_loadable loaded
      have isLinked := ((complete.segments 1 (by decide +kernel) (by decide +kernel)).bytes 0
        (by decide +kernel)).1
      have isPage : ((header notedProgram 1).vaddr + 0) / pageSize = 0x8049 := by decide +kernel
      rw [isPage, missing] at isLinked
      cases isLinked

end Loading
end LightOS
