import LightOS.Fs.Files
import LightOS.Foundation.Transition

/-!
# File offsets

The offset of an open file should stay non-negative, and every copy between a
file and its caller should stay inside the buffer of a block.
-/

namespace LightOS

variable {pid index count : Nat} {offset fd result : Int}

namespace Fs

/-! ## Block numbers without copies -/

section Inside

variable (fs : Fs) (dev : Nat)

theorem scanMaps_staysInside (first offset limit left i : Nat) :
    StaysInside (fs.scanMaps dev first offset limit left i) := by
  induction left generalizing i with
  | zero => exact .ok _
  | succ left inductionHypothesis =>
      rw [scanMaps]
      rcases (blockMap ((offset + i * blockBits) % 2 ^ 32)).scan_spec
          (fs.block dev (first + i)) Nat.one_pos with
        ⟨full, _⟩ | ⟨start, after, found, _⟩
      · rw [full, ok_bind]
        exact inductionHypothesis (i + 1)
      · rw [found, ok_bind]
        exact .bind (.check _) fun _ _ => .ok _

theorem balloc_staysInside : StaysInside (fs.balloc dev) :=
  .bind (.check _) fun _ _ =>
    .bind (fs.scanMaps_staysInside dev _ _ _ _ _) fun _ _ =>
      .bind (.check _) fun _ _ => .ok _

theorem fillIndex_staysInside (cache address : Nat) (create : Bool) :
    StaysInside (fs.fillIndex dev cache address create) := by
  unfold fillIndex
  split
  · exact .bind (fs.balloc_staysInside dev) fun _ _ => .ok _
  · exact .ok _

theorem reckon_staysInside
    (create : Bool) (level cache array index block divider : Nat) :
    StaysInside (reckon dev create level fs cache array index block divider) := by
  induction level generalizing fs cache array index block divider with
  | zero =>
      rw [reckon]
      exact .bind (fs.fillIndex_staysInside dev _ _ _) fun _ _ => .ok _
  | succ level inductionHypothesis =>
      rw [reckon]
      refine .bind (fs.fillIndex_staysInside dev _ _ _) fun filled _ => ?_
      dsimp only
      split
      · exact .ok _
      · exact inductionHypothesis filled _ _ _ _ _

theorem bmap_staysInside (ino block : Nat) (create : Bool) :
    StaysInside (fs.bmap ino block create) := by
  unfold bmap
  refine .bind (.check _) fun _ _ => ?_
  split
  · exact fs.reckon_staysInside _ _ _ _ _ _ _ _
  · split
    · exact fs.reckon_staysInside _ _ _ _ _ _ _ _
    · exact fs.reckon_staysInside _ _ _ _ _ _ _ _

/-- `bmap` returns for block numbers within reach of a file only. -/
theorem bmap_block_lt {fs : Fs} {ino block : Nat} {create : Bool}
    {result : Nat × Fs}
    (returned : fs.bmap ino block create = .ok result) :
    block < totalBlocks := by
  unfold bmap at returned
  simp only [bind_eq_ok, check_eq_ok] at returned
  obtain ⟨_, inReach, _⟩ := returned
  exact inReach

end Inside

/-! ## Copies -/

/-- An offset of a file within its reach is a small number, its place in the
block is the remainder, and advancing it does not wrap. -/
theorem offset_facts (left : Nat) (nonneg : 0 ≤ offset) (small : offset < 2 ^ 31)
    (inReach : blockIndex offset < totalBlocks) :
    blockOffset offset + roundLength offset left ≤ blockSize ∧
      (0 < left → 0 < roundLength offset left) ∧
      roundLength offset left ≤ left ∧
      advance offset (roundLength offset left) =
        offset + roundLength offset left ∧
      advance offset (roundLength offset left) < 2 ^ 31 := by
  obtain ⟨place, rfl⟩ := Int.eq_ofNat_of_zero_le nonneg
  have smallPlace : place < 2 ^ 31 := by omega
  have index : blockIndex (place : Int) = place / 1024 := by
    unfold blockIndex blockSize
    rw [← Int.ofNat_tdiv, toUnsigned_natCast (by omega)]
  have start : blockOffset (place : Int) = place % 1024 := by
    unfold blockOffset blockSize
    rw [← Int.ofNat_tmod, toUnsigned_natCast (by omega)]
  have length : roundLength (place : Int) left =
      min (1024 - place % 1024) left := by
    unfold roundLength blockSize
    rw [start, sub32_eq (by omega)]
  rw [index] at inReach
  simp only [totalBlocks, directBlocks, blockIndexes, blockSize] at inReach ⊢
  have below : place + roundLength (place : Int) left < 2 ^ 31 := by
    rw [length]
    omega
  have advanced : advance (place : Int) (roundLength (place : Int) left) =
      place + roundLength (place : Int) left := by
    unfold advance
    rw [toUnsigned_natCast (by omega), toSigned_of_lt below]
    rfl
  refine ⟨?_, ?_, ?_, advanced, ?_⟩
  · rw [start, length]
    omega
  · rw [length]
    omega
  · rw [length]
    omega
  · rw [advanced]
    omega

/-- Reading from a non-negative offset copies from inside the block buffers and
ends where the bytes end. -/
theorem readLoop_inside
    (fs : Fs) (ino rounds : Nat) (offset : Int) (left : Nat)
    (nonneg : 0 ≤ offset) (small : offset < 2 ^ 31) :
    StaysInside (fs.readLoop ino rounds offset left) ∧
      ∀ final bytes, fs.readLoop ino rounds offset left = .ok (final, bytes) →
        final = offset + left ∧ final < 2 ^ 31 := by
  induction rounds generalizing offset left with
  | zero =>
      rw [readLoop]
      split
      · rename_i done
        refine ⟨.ok _, fun final bytes returned => ?_⟩
        cases returned
        omega
      · exact ⟨by simp [StaysInside], fun _ _ impossible => by cases impossible⟩
  | succ rounds inductionHypothesis =>
      rw [readLoop]
      split
      · rename_i done
        refine ⟨.ok _, fun final bytes returned => ?_⟩
        cases returned
        omega
      · cases mapped : fs.bmap ino (blockIndex offset) false with
        | error fault =>
            have inside := fs.bmap_staysInside ino (blockIndex offset) false
            rw [mapped] at inside
            refine ⟨?_, fun _ _ impossible => by cases impossible⟩
            intro isWild
            apply inside
            simpa using isWild
        | ok result =>
            obtain ⟨fits, _, atMost, advanced, below⟩ :=
              offset_facts left nonneg small (bmap_block_lt mapped)
            have rest := inductionHypothesis
              (advance offset (roundLength offset left))
              (left - roundLength offset left) (by omega) below
            simp only [ok_bind, bounded_true fits]
            constructor
            · refine .bind (.check _) fun _ _ => ?_
              exact .bind rest.1 fun _ _ => .ok _
            · intro final bytes returned
              simp only [bind_eq_ok, check_eq_ok] at returned
              obtain ⟨_, _, ⟨last, lastBytes⟩, returnedRest, same⟩ := returned
              cases same
              have ends := rest.2 _ _ returnedRest
              omega

/-- Writing at a non-negative offset copies to inside the block buffers and ends
where the bytes end. -/
theorem writeLoop_inside
    (ino rounds : Nat) (fs : Fs) (buf : Nat → UInt8) (offset : Int) (left : Nat)
    (nonneg : 0 ≤ offset) (small : offset < 2 ^ 31) :
    StaysInside (writeLoop ino rounds fs buf offset left) ∧
      ∀ final after,
        writeLoop ino rounds fs buf offset left = .ok (final, after) →
          final = offset + left ∧ final < 2 ^ 31 := by
  induction rounds generalizing fs buf offset left with
  | zero =>
      rw [writeLoop]
      split
      · rename_i done
        refine ⟨.ok _, fun final after returned => ?_⟩
        cases returned
        omega
      · exact ⟨by simp [StaysInside], fun _ _ impossible => by cases impossible⟩
  | succ rounds inductionHypothesis =>
      rw [writeLoop]
      split
      · rename_i done
        refine ⟨.ok _, fun final after returned => ?_⟩
        cases returned
        omega
      · cases mapped : fs.bmap ino (blockIndex offset) true with
        | error fault =>
            have inside := fs.bmap_staysInside ino (blockIndex offset) true
            rw [mapped] at inside
            refine ⟨?_, fun _ _ impossible => by cases impossible⟩
            intro isWild
            apply inside
            simpa using isWild
        | ok result =>
            obtain ⟨fits, _, atMost, advanced, below⟩ :=
              offset_facts left nonneg small (bmap_block_lt mapped)
            have rest := inductionHypothesis
              (result.2.writeRound ino result.1 buf offset
                (roundLength offset left))
              (fun i => buf (roundLength offset left + i))
              (advance offset (roundLength offset left))
              (left - roundLength offset left) (by omega) below
            simp only [ok_bind, bounded_true fits]
            constructor
            · exact .bind (.check _) fun _ _ => rest.1
            · intro final after returned
              simp only [bind_eq_ok, check_eq_ok] at returned
              obtain ⟨_, _, returnedRest⟩ := returned
              have ends := rest.2 _ _ returnedRest
              omega

/-- What a call transferred, for offsets that did not wrap. -/
theorem transferred_eq (nonneg : 0 ≤ offset) (small : offset + count < 2 ^ 31) :
    transferred (offset + count) offset = count := by
  obtain ⟨place, rfl⟩ := Int.eq_ofNat_of_zero_le nonneg
  unfold transferred
  have sum : ((place : Int) + count) = ((place + count : Nat) : Int) := by omega
  rw [sum, toUnsigned_natCast (by omega), toUnsigned_natCast (by omega),
    sub32_eq (by omega), toSigned_of_lt (by omega)]
  omega

/-- `inode_read` at a non-negative offset copies from inside the block buffers,
and the offset moved by its result is non-negative. -/
theorem inodeRead_inside (fs : Fs) (ino len : Nat) (nonneg : 0 ≤ offset) (small : offset < 2 ^ 31) :
    StaysInside (fs.inodeRead ino len offset) ∧
      ∀ result bytes, fs.inodeRead ino len offset = .ok (result, bytes) →
        result = -1 ∨ 0 ≤ result ∧ offset + result < 2 ^ 31 := by
  unfold inodeRead
  have loop (left : Nat) :=
    fs.readLoop_inside ino left offset left nonneg small
  constructor
  · refine .bind (.check _) fun _ _ => ?_
    split
    · exact .ok _
    · split
      · exact .ok _
      · exact .bind (loop _).1 fun _ _ => .ok _
  · intro result bytes returned
    simp only [bind_eq_ok, check_eq_ok] at returned
    obtain ⟨_, _, returned⟩ := returned
    split at returned
    · cases returned
      exact .inl rfl
    · split at returned
      · cases returned
        exact .inr ⟨Int.le_refl 0, by omega⟩
      · rw [bind_eq_ok] at returned
        obtain ⟨⟨final, copied⟩, looped, same⟩ := returned
        obtain ⟨ends, below⟩ := (loop _).2 _ _ looped
        cases same
        simp only at ends below ⊢
        rw [ends] at below ⊢
        rw [transferred_eq nonneg below]
        exact .inr ⟨by omega, below⟩

/-- `inode_write` at a non-negative offset copies to inside the block buffers, and
the offset moved by its result is non-negative. -/
theorem inodeWrite_inside (fs : Fs) (ino : Nat) (buf : Nat → UInt8) (len : Nat)
    (nonneg : 0 ≤ offset) (small : offset < 2 ^ 31) :
    StaysInside (fs.inodeWrite ino buf len offset) ∧
      ∀ result after,
        fs.inodeWrite ino buf len offset = .ok (result, after) →
          result = -1 ∨ 0 ≤ result ∧ offset + result < 2 ^ 31 := by
  unfold inodeWrite
  have loop := writeLoop_inside ino len fs buf offset len nonneg small
  constructor
  · refine .bind (.check _) fun _ _ => ?_
    split
    · exact .ok _
    · exact .bind loop.1 fun _ _ => .ok _
  · intro result after returned
    simp only [bind_eq_ok, check_eq_ok] at returned
    obtain ⟨_, _, returned⟩ := returned
    split at returned
    · cases returned
      exact .inl rfl
    · rw [bind_eq_ok] at returned
      obtain ⟨⟨final, written⟩, looped, same⟩ := returned
      obtain ⟨ends, below⟩ := loop.2 _ _ looped
      cases same
      simp only at ends below ⊢
      rw [ends] at below ⊢
      rw [transferred_eq nonneg below]
      exact .inr ⟨by omega, below⟩

end Fs

/-! ## Runs -/

/-- A system call on an open file, by the task with a number. -/
inductive FileCall
  | sysOpen (pid : Nat) (filename : Option Cursor) (flags mode : Nat)
  | sysLseek (pid : Nat) (fd offset : Int) (whence : Option Whence)
  | sysRead (pid : Nat) (fd : Int) (count : Nat)
  | sysWrite (pid : Nat) (fd : Int) (buf : Nat → UInt8) (count : Nat)
  /-- The rest of the kernel changes the file systems. -/
  | other (fs : Fs)

/-- The arguments of a call have the types of its parameters. -/
def FileCall.WellTyped : FileCall → Prop
  | .sysLseek _ _ offset _ => -(2 ^ 31) ≤ offset ∧ offset < 2 ^ 31
  | _ => True

instance (call : FileCall) : Decidable call.WellTyped := by
  unfold FileCall.WellTyped
  split <;> infer_instance

namespace FileState

variable (devices : Devices)

/-- The effect of a call. -/
def next (state : FileState) : FileCall → Except Fault FileState
  | .sysOpen pid filename flags mode => do
      let (_, state) ← state.sysOpen pid filename flags mode
      return state
  | .sysLseek pid fd offset whence =>
      .ok (state.sysLseek pid fd offset whence).2
  | .sysRead pid fd count => do
      let (_, _, state) ← state.sysRead devices pid fd count
      return state
  | .sysWrite pid fd buf count => do
      let (_, state) ← state.sysWrite devices pid fd buf count
      return state
  | .other fs => .ok { state with fs := fs }

/-- Every open file is at its start. -/
def Initial (state : FileState) : Prop :=
  ∀ pid fd index, (state.task pid).files fd = some index →
    (state.fileTable index).offset = 0

/-- The offset of every open file is a non-negative word. -/
def OffsetsValid (state : FileState) : Prop :=
  ∀ pid fd index, (state.task pid).files fd = some index →
    0 ≤ (state.fileTable index).offset ∧ (state.fileTable index).offset < 2 ^ 31

/-- The offset of every open file is non-negative, and reading or writing there
copies between the caller and the inside of block buffers only. -/
def OffsetsUsable (state : FileState) : Prop :=
  ∀ pid fd index, (state.task pid).files fd = some index →
    let file := state.fileTable index
    0 ≤ file.offset ∧
      ∀ len, StaysInside (state.fs.inodeRead file.inode len file.offset) ∧
        ∀ buf, StaysInside (state.fs.inodeWrite file.inode buf len file.offset)

/-- A call does not place an offset beyond the signed words: an open with
`O_APPEND` finds a file, and a seek from the end leads to a place, below
`2 ^ 31`. -/
def KeepsSign (state : FileState) : FileCall → Prop
  | .sysOpen pid filename flags mode =>
      flags &&& oAppend ≠ 0 → ∀ inode fs,
        state.fs.inodeOpen (state.task pid).creds filename flags mode =
          .ok (some inode, fs) → (fs.desc inode).size < 2 ^ 31
  | .sysLseek pid fd offset (some .seekEnd) =>
      2 < fd → ∀ index, state.fileOf pid fd = some index →
        add32 (state.fs.desc (state.fileTable index).inode).size
          (toUnsigned offset) < 2 ^ 31
  | _ => True

end FileState

/-- The open files as a labelled transition system. -/
def fileSystem (devices : Devices) : System FileState FileCall where
  initial := FileState.Initial
  step state call after :=
    call.WellTyped ∧ state.next devices call = .ok after

namespace FileState

variable {devices : Devices} {state after : FileState}

theorem OffsetsValid.usable (valid : state.OffsetsValid) :
    state.OffsetsUsable := by
  intro pid fd index isOpen
  obtain ⟨nonneg, small⟩ := valid pid fd index isOpen
  exact ⟨nonneg, fun len =>
    ⟨(state.fs.inodeRead_inside _ len nonneg small).1, fun buf =>
      (state.fs.inodeWrite_inside _ buf len nonneg small).1⟩⟩

theorem Initial.offsetsValid (initial : state.Initial) :
    state.OffsetsValid := by
  intro pid fd index isOpen
  rw [initial pid fd index isOpen]
  decide

/-- A change of the file systems leaves the offsets alone. -/
theorem OffsetsValid.withFs (valid : state.OffsetsValid) (fs : Fs) :
    OffsetsValid { state with fs := fs } :=
  valid

/-- A file gets a valid offset. -/
theorem OffsetsValid.setFile (valid : state.OffsetsValid) {file : File} (nonneg : 0 ≤ file.offset)
    (small : file.offset < 2 ^ 31) : (state.setFile index file).OffsetsValid := by
  intro pid fd other isOpen
  by_cases same : other = index
  · subst same
    simpa [FileState.setFile] using ⟨nonneg, small⟩
  · simpa [FileState.setFile, same] using valid pid fd other isOpen

/-- A descriptor in range refers to an open file. -/
theorem files_of_fileOf (found : state.fileOf pid fd = some index) :
    (state.task pid).files fd.toNat = some index := by
  unfold fileOf at found
  split at found
  · exact found
  · cases found

/-- A call that transferred bytes moves a valid offset to a valid one. -/
theorem OffsetsValid.moveOffset (valid : state.OffsetsValid)
    (found : state.fileOf pid fd = some index)
    (moved : result = -1 ∨ 0 ≤ result ∧ (state.fileTable index).offset + result < 2 ^ 31) :
    (state.moveOffset index result).OffsetsValid := by
  obtain ⟨nonneg, _⟩ := valid pid _ index (files_of_fileOf found)
  unfold FileState.moveOffset
  dsimp only
  split
  · exact valid
  · rename_i transferred
    obtain impossible | ⟨atLeast, below⟩ := moved
    · exact absurd impossible transferred
    · obtain ⟨place, isPlace⟩ := Int.eq_ofNat_of_zero_le nonneg
      obtain ⟨count, rfl⟩ := Int.eq_ofNat_of_zero_le atLeast
      rw [isPlace] at below
      have sum : toSigned (toUnsigned (state.fileTable index).offset +
          toUnsigned (count : Int)) = (place : Int) + count := by
        rw [isPlace, toUnsigned_natCast (by omega),
          toUnsigned_natCast (by omega), toSigned_of_lt (by omega)]
        omega
      apply valid.setFile
      · simp only [sum]
        omega
      · simp only [sum]
        exact below

/-- Opening a file with a valid offset keeps all offsets valid. -/
theorem OffsetsValid.withOpened (valid : state.OffsetsValid) {fd : Nat} {file : File}
    (nonneg : 0 ≤ file.offset) (small : file.offset < 2 ^ 31) :
    (state.withOpened pid fd index file).OffsetsValid := by
  intro otherPid otherFd other isOpen
  by_cases same : other = index
  · subst same
    rw [withOpened_fileTable_self]
    exact ⟨nonneg, small⟩
  · have unchanged : (state.withOpened pid fd index file).fileTable other =
        state.fileTable other := by
      simp [FileState.withOpened, FileState.setFile, setDescriptor, same]
    rw [unchanged]
    apply valid otherPid otherFd
    by_cases samePid : otherPid = pid
    · subst samePid
      by_cases sameFd : otherFd = fd
      · subst sameFd
        rw [withOpened_files_self] at isOpen
        cases isOpen
        exact absurd rfl same
      · simpa [FileState.withOpened, FileState.setFile, setDescriptor, sameFd]
          using isOpen
    · simpa [FileState.withOpened, FileState.setFile, setDescriptor, samePid]
        using isOpen

theorem add32_lt (left right : Nat) : add32 left right < 2 ^ 32 :=
  Nat.mod_lt _ (by decide)

/-- A seek that keeps the sign keeps all offsets valid. -/
theorem OffsetsValid.sysLseek (valid : state.OffsetsValid) {whence : Option Whence}
    (wellTyped : (FileCall.sysLseek pid fd offset whence).WellTyped)
    (keepsSign : state.KeepsSign (.sysLseek pid fd offset whence)) :
    (state.sysLseek pid fd offset whence).2.OffsetsValid := by
  unfold FileState.sysLseek
  split
  · exact valid
  · rename_i inRange
    cases found : state.fileOf pid fd with
    | none => exact valid
    | some index =>
        cases whence with
        | none => exact valid
        | some whence =>
            cases whence with
            | seekSet =>
                dsimp only
                split
                · exact valid
                · exact valid.setFile (by dsimp only; omega) wellTyped.2
            | seekCur =>
                dsimp only
                split
                · exact valid
                · rename_i nonneg
                  refine valid.setFile (by dsimp only; omega) ?_
                  dsimp only [toSigned]
                  split <;> omega
            | seekEnd =>
                have below := keepsSign (by omega) index found
                dsimp only
                split
                · exact valid
                · rw [toSigned_of_lt below]
                  exact valid.setFile (by dsimp only; omega)
                    (by dsimp only; omega)

/-- Reading moves the offset to a valid one. -/
theorem OffsetsValid.sysRead (valid : state.OffsetsValid) {bytes : List UInt8}
    (returned : state.sysRead devices pid fd count = .ok (result, bytes, after)) :
    after.OffsetsValid := by
  unfold FileState.sysRead at returned
  split at returned
  · cases returned
    exact valid
  · cases found : state.fileOf pid fd with
    | none => simp [found] at returned
    | some index =>
        obtain ⟨nonneg, small⟩ := valid pid _ index (files_of_fileOf found)
        simp only [found, bind_eq_ok] at returned
        obtain ⟨_, _, returned⟩ := returned
        split at returned
        · cases returned
          exact valid
        split at returned
        · simp only [bind_eq_ok] at returned
          obtain ⟨_, _, same⟩ := returned
          cases same
          exact valid.withFs _
        split at returned
        · simp only [bind_eq_ok] at returned
          obtain ⟨_, _, _, _, same⟩ := returned
          cases same
          exact valid.withFs _
        split at returned
        · simp only [bind_eq_ok] at returned
          obtain ⟨_, _, _, _, _, _, _, _, same⟩ := returned
          cases same
          exact valid.withFs _
        · simp only [bind_eq_ok] at returned
          obtain ⟨⟨moved, copied⟩, read, same⟩ := returned
          cases same
          exact valid.moveOffset found
            ((state.fs.inodeRead_inside _ count nonneg small).2 _ _ read)

/-- Writing moves the offset to a valid one. -/
theorem OffsetsValid.sysWrite (valid : state.OffsetsValid) {buf : Nat → UInt8}
    (returned : state.sysWrite devices pid fd buf count = .ok (result, after)) :
    after.OffsetsValid := by
  unfold FileState.sysWrite at returned
  split at returned
  · cases returned
    exact valid
  · cases found : state.fileOf pid fd with
    | none => simp [found] at returned
    | some index =>
        obtain ⟨nonneg, small⟩ := valid pid _ index (files_of_fileOf found)
        simp only [found, bind_eq_ok] at returned
        obtain ⟨_, _, returned⟩ := returned
        split at returned
        · cases returned
          exact valid
        split at returned
        · simp only [bind_eq_ok] at returned
          obtain ⟨_, _, same⟩ := returned
          cases same
          exact valid.withFs _
        split at returned
        · simp only [bind_eq_ok] at returned
          obtain ⟨_, _, _, _, same⟩ := returned
          cases same
          exact valid.withFs _
        split at returned
        · simp only [bind_eq_ok] at returned
          obtain ⟨_, _, _, _, _, _, _, _, same⟩ := returned
          cases same
          exact valid.withFs _
        · simp only [bind_eq_ok] at returned
          obtain ⟨⟨moved, fs⟩, written, same⟩ := returned
          cases same
          have same : FileState.fileOf { state with fs := fs } pid fd =
              some index := found
          exact (valid.withFs fs).moveOffset same
            ((state.fs.inodeWrite_inside _ buf count nonneg small).2 _ _ written)

/-- A call that keeps the sign keeps all offsets valid. -/
theorem OffsetsValid.next (valid : state.OffsetsValid) {call : FileCall}
    (wellTyped : call.WellTyped) (keepsSign : state.KeepsSign call)
    (returned : state.next devices call = .ok after) :
    after.OffsetsValid := by
  cases call with
  | sysOpen pid filename flags mode =>
      simp only [FileState.next, bind_eq_ok] at returned
      obtain ⟨⟨fd, opened⟩, called, same⟩ := returned
      cases same
      rcases sysOpen_cases called with
        ⟨fs, _, _, rfl⟩ | ⟨inode, fs, slot, index, found, _, _, _, _, rfl⟩
      · exact valid.withFs fs
      · apply (valid.withFs fs).withOpened
        · dsimp only
          split
          · rename_i append
            rw [toSigned_of_lt (keepsSign append inode fs found)]
            omega
          · exact Int.le_refl 0
        · dsimp only
          split
          · rename_i append
            have below := keepsSign append inode fs found
            rw [toSigned_of_lt below]
            omega
          · decide
  | sysLseek pid fd offset whence =>
      simp only [FileState.next, Except.ok.injEq] at returned
      rw [← returned]
      exact valid.sysLseek wellTyped keepsSign
  | sysRead pid fd count =>
      simp only [FileState.next, bind_eq_ok] at returned
      obtain ⟨⟨result, bytes, read⟩, called, same⟩ := returned
      cases same
      exact valid.sysRead called
  | sysWrite pid fd buf count =>
      simp only [FileState.next, bind_eq_ok] at returned
      obtain ⟨⟨result, written⟩, called, same⟩ := returned
      cases same
      exact valid.sysWrite called
  | other fs =>
      cases returned
      exact valid.withFs fs

/-- A call that does not keep the sign leaves a file at a negative offset. -/
theorem not_usable_of_not_keepsSign {call : FileCall}
    (losesSign : ¬state.KeepsSign call)
    (returned : state.next devices call = .ok after) :
    ¬after.OffsetsUsable := by
  intro usable
  apply losesSign
  cases call with
  | sysOpen pid filename flags mode =>
      simp only [FileState.next, bind_eq_ok] at returned
      obtain ⟨⟨fd, opened⟩, called, same⟩ := returned
      cases same
      intro append inode fs found
      rcases sysOpen_cases called with
        ⟨otherFs, notFound, _, rfl⟩ |
          ⟨other, otherFs, slot, index, otherFound, _, _, _, _, rfl⟩
      · rw [found] at notFound
        cases notFound
      · rw [found] at otherFound
        cases otherFound
        have nonneg := (usable pid slot index (withOpened_files_self ..)).1
        rw [withOpened_fileTable_self] at nonneg
        simp only [append, ne_eq, not_false_eq_true, if_true] at nonneg
        have small := (toSigned_nonneg _).mp nonneg
        have bounded : (fs.desc inode).size < 2 ^ 32 := Memory.word_lt _ _
        omega
  | sysLseek pid fd offset whence =>
      simp only [FileState.next, Except.ok.injEq] at returned
      cases whence with
      | none => trivial
      | some whence =>
          cases whence with
          | seekSet => trivial
          | seekCur => trivial
          | seekEnd =>
              intro above index found
              have inRange : ¬(fd ≤ 2 ∨ (taskFileNr : Int) ≤ fd) := by
                unfold fileOf at found
                split at found
                · omega
                · cases found
              unfold FileState.sysLseek at returned
              simp only [inRange, if_false, found, Nat.not_lt_zero] at returned
              have isOpen := files_of_fileOf found
              have nonneg := (usable pid fd.toNat index (by
                rw [← returned]; exact isOpen)).1
              rw [← returned] at nonneg
              simp only [FileState.setFile, Function.update_self] at nonneg
              have small := (toSigned_nonneg _).mp nonneg
              have bounded := add32_lt
                (state.fs.desc (state.fileTable index).inode).size
                (toUnsigned offset)
              omega
  | sysRead pid fd count => trivial
  | sysWrite pid fd buf count => trivial
  | other fs => trivial

/-- A run visits only states in which all offsets are usable exactly when no call
places an offset beyond the signed words. -/
theorem offsetsUsable_iff_keepsSign
    {start final : FileState} {trace : List (FileState × FileCall)}
    (initial : start.Initial)
    (path : (fileSystem devices).Path start trace final) :
    System.Visits OffsetsUsable trace final ↔ System.Obeys KeepsSign trace :=
  path.visits_iff_obeys OffsetsValid initial.offsetsValid
    (fun _ _ _ valid keepsSign step => valid.next step.1 keepsSign step.2)
    (fun _ valid => valid.usable)
    (fun _ _ _ _ losesSign step =>
      not_usable_of_not_keepsSign losesSign step.2)

/-- The small file system with no open files; its tasks run as its owner. -/
def small : FileState where
  fs := Fs.small
  fileTable := fun _ => ⟨0, 0, 0, 0, 0⟩
  task := fun _ => ⟨⟨0, 0, 0o22, 0, 0⟩, fun _ => none⟩

theorem small_initial : small.Initial := by
  intro pid fd index isOpen
  cases isOpen

/-- Devices on which every call fails. -/
def noDevices : Devices where
  pipeRead := fun fs _ _ => .ok (-1, [], fs)
  pipeWrite := fun fs _ _ _ => .ok (-1, fs)
  deviceRead := fun fs _ _ _ => .ok (-1, [], fs)
  deviceWrite := fun fs _ _ _ _ => .ok (-1, fs)

/-- The effect of a call whose arguments have their types. -/
def nextTyped (devices : Devices) (state : FileState) (call : FileCall) :
    Except Fault FileState :=
  if call.WellTyped then state.next devices call else .error .misuse

theorem step_of_nextTyped (devices : Devices) (before : FileState)
    (call : FileCall) (after : FileState)
    (taken : before.nextTyped devices call = .ok after) :
    (fileSystem devices).step before call after := by
  unfold nextTyped at taken
  split at taken
  · rename_i wellTyped
    exact ⟨wellTyped, taken⟩
  · cases taken

/-- The task opens the file `f` for reading and writing and seeks to ten bytes
before its end, which is five bytes before its start. -/
def seekBeforeStart : List FileCall :=
  [.sysOpen 0 (some [102]) 2 0, .sysLseek 0 3 (-10) (some .seekEnd)]

/-- A seek from the end leaves a file at a negative offset, and a write there
leaves the buffer of the block. -/
theorem offsetsUsable_fails :
    ¬∀ (devices : Devices) (start final : FileState)
        (trace : List (FileState × FileCall)),
      start.Initial → (fileSystem devices).Path start trace final →
        final.OffsetsUsable := by
  intro always
  obtain ⟨trace, final, path, negative⟩ := System.Path.of_run
    (fileSystem noDevices) _ (step_of_nextTyped noDevices) small seekBeforeStart
    (fun final =>
      (final.fileOf 0 3).any fun index =>
        let file := final.fileTable index
        decide (file.offset = -5) &&
          match final.fs.inodeWrite file.inode (fun _ => 7) 10 file.offset with
          | .error .wild => true
          | _ => false)
    (by decide +kernel)
  have usable := always noDevices _ _ _ small_initial path
  cases isOpen : final.fileOf 0 3 with
  | none => simp [isOpen] at negative
  | some index =>
      simp only [isOpen, Option.any_some, Bool.and_eq_true, decide_eq_true_eq] at negative
      have nonneg := (usable 0 _ index (files_of_fileOf isOpen)).1
      omega

/-- A run that writes at the end of a file and seeks back into it. -/
theorem offsetsUsable_iff_keepsSign_append :
    ∃ trace final,
      (fileSystem noDevices).Path small trace final ∧
      (final.fileTable 3).offset = 4 ∧
      (System.Visits OffsetsUsable trace final ↔
        System.Obeys KeepsSign trace) := by
  obtain ⟨trace, final, path, placed⟩ := System.Path.of_run
    (fileSystem noDevices) _ (step_of_nextTyped noDevices) small
    [.sysOpen 0 (some [102]) 0o2002 0, .sysWrite 0 3 (fun _ => 33) 2,
      .sysLseek 0 3 (-6) (some .seekEnd), .sysRead 0 3 3]
    (fun final => decide ((final.fileTable 3).offset = 4))
    (by decide +kernel)
  exact ⟨trace, final, path, of_decide_eq_true placed,
    offsetsUsable_iff_keepsSign small_initial path⟩

end FileState
end LightOS
