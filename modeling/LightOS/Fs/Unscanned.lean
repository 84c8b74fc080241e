import LightOS.Fs.BufferCounts

/-!
# Calls that scan no map

The calls that look up, read and remove never come to `balloc` or `ialloc`, so that they
leave the counts of the buffers balanced.
-/

namespace LightOS
namespace Fs
namespace Buffered

open Counting (Unguarded)

/-! ## Zones and inodes -/

theorem bread_unguarded (dev number : Nat) : Unguarded (bread dev number) :=
  .bind (.acquire _) fun _ => .pure _

theorem brelseOption_unguarded (pcache : Option BufferId) :
    Unguarded (brelseOption pcache) := by
  cases pcache with
  | none => exact .pure ()
  | some pcache => exact .release pcache

theorem bfree_unguarded (dev idx : Nat) : Unguarded (bfree dev idx) :=
  .bind .view fun _ => .bind (.lift _) fun _ => .replace _

theorem ifree_unguarded (dev idx : Nat) : Unguarded (ifree dev idx) :=
  .bind .view fun _ => .bind (.lift _) fun _ => .replace _

theorem fillIndex_unguarded (pcache : BufferId) (address : Nat) :
    Unguarded (fillIndex pcache address false) := by
  refine .bind .view fun fs => ?_
  rw [if_neg (by simp)]
  exact .pure ()

theorem reckon_unguarded (level : Nat) (pcache : BufferId)
    (array index block divider : Nat) :
    Unguarded (reckon false level pcache array index block divider) := by
  induction level generalizing pcache array index block divider with
  | zero =>
      exact .bind (fillIndex_unguarded _ _) fun _ => .bind .view fun _ =>
        .bind (.release _) fun _ => .pure _
  | succ level inductionHypothesis =>
      refine .bind (fillIndex_unguarded _ _) fun _ => .bind .view fun _ =>
        .bind (.release _) fun _ => .ite (.pure _) ?_
      exact .bind (bread_unguarded _ _) fun _ => inductionHypothesis _ _ _ _ _

theorem bmap_unguarded (ino block : Nat) : Unguarded (bmap ino block false) :=
  .bind (.lift _) fun _ => .bind .view fun _ => .bind (.acquire _) fun _ =>
    .ite (reckon_unguarded _ _ _ _ _ _)
      (.ite (reckon_unguarded _ _ _ _ _ _) (reckon_unguarded _ _ _ _ _ _))

theorem inodeBfree_unguarded (dev level cache address : Nat) :
    Unguarded (inodeBfree dev level cache address) := by
  induction level generalizing cache address with
  | zero => exact .bind .view fun _ => .ite (.pure _) (bfree_unguarded _ _)
  | succ level inductionHypothesis =>
      refine .bind .view fun _ => .ite (.pure _) ?_
      exact .bind (bread_unguarded _ _) fun _ =>
        .bind (.forM _ fun _ => inductionHypothesis _ _) fun _ =>
          .bind (.release _) fun _ => .bind .view fun _ => bfree_unguarded _ _

theorem inodeTruncate_unguarded (ino : Nat) : Unguarded (inodeTruncate ino) := by
  have released (level : Nat) (index : Fin 9) : Unguarded (releaseZone ino level index) :=
    .bind .view fun _ => .bind (inodeBfree_unguarded _ _ _ _) fun _ =>
      .bind .view fun _ => .replace _
  exact .bind .view fun _ => .ite (.pure _)
    (.bind (.forM _ fun index => released _ index) fun _ => .bind .view fun _ => .replace _)

theorem iput_unguarded (ino : Nat) : Unguarded (iput ino) :=
  .bind .view fun _ => .ite (.bind (.lift _) fun _ => .replace _)
    (.ite (.replace _) (.bind (.release _) fun _ => .bind (.lift _) fun _ =>
      .bind (.lift _) fun _ => .replace _))

theorem iputOption_unguarded (pointer : Option Nat) : Unguarded (iputOption pointer) := by
  cases pointer with
  | none => exact .pure ()
  | some ino => exact iput_unguarded ino

theorem fitInode_unguarded (ino : Nat) : Unguarded (fitInode ino) := by
  refine .bind .view fun fs => .ite (.pure _) ?_
  cases fs.getSuper (fs.inodeTable ino).mount with
  | none => exact .fail _
  | some sb =>
      refine .bind (iput_unguarded _) fun _ => .bind .view fun dropped => ?_
      cases (dropped.superTable sb).iroot with
      | none => exact .fail _
      | some root => exact .bind (.replace _) fun _ => .pure _

theorem iget_unguarded (dev nr : Nat) : Unguarded (iget dev nr) := by
  refine .bind .view fun fs => .bind (.lift _) fun found => ?_
  cases found with
  | some ino => exact .bind (.replace _) fun _ => fitInode_unguarded _
  | none =>
      dsimp only
      cases fs.getSuper dev with
      | none => exact .fail _
      | some sb =>
          exact .bind .view fun _ => .bind (.lift _) fun _ => .bind (.replace _) fun _ =>
            .bind (bread_unguarded _ _) fun _ => .pure _

theorem inodeRead_unguarded (ino len : Nat) (offset : Int) :
    Unguarded (inodeRead ino len offset) := by
  have loop (rounds : Nat) (offset : Int) (left : Nat) :
      Unguarded (readLoop ino rounds offset left) := by
    induction rounds generalizing offset left with
    | zero => exact .ite (.pure _) (.fail _)
    | succ rounds inductionHypothesis =>
        refine .ite (.pure _) (.bind (bmap_unguarded _ _) fun _ => ?_)
        exact .bind (.lift _) fun _ => .bind .view fun _ =>
          .bind (bread_unguarded _ _) fun _ => .bind (.lift _) fun _ =>
            .bind (.release _) fun _ => .bind (inductionHypothesis _ _) fun _ => .pure _
  exact .bind .view fun _ => .bind (.lift _) fun _ => .ite (.pure _)
    (.ite (.pure _) (.bind (loop _ _ _) fun _ => .pure _))

/-! ## Names -/

theorem entryBlock_unguarded (dir i block : Nat) (pcache : Option BufferId) :
    Unguarded (entryBlock dir i block false pcache) := by
  have next : Unguarded (nextBlock dir block false) :=
    .bind (bmap_unguarded _ _) fun _ => .bind (.lift _) fun _ => .bind .view fun _ =>
      bread_unguarded _ _
  cases pcache with
  | none => exact next
  | some pcache => exact .ite (.bind (.release _) fun _ => next) (.pure _)

theorem searchEntries_unguarded (dir : Nat) (name : Cursor) (left i : Nat)
    (pcache : Option BufferId) : Unguarded (searchEntries dir name left i pcache) := by
  induction left generalizing i pcache with
  | zero => exact .bind (brelseOption_unguarded _) fun _ => .pure _
  | succ left inductionHypothesis =>
      refine .bind (entryBlock_unguarded _ _ _ _) fun pcache => .bind .view fun fs =>
        .ite (inductionHypothesis _ _) ?_
      cases matchName name _ with
      | none => exact inductionHypothesis _ _
      | some next => exact .pure _

theorem findEntry_unguarded (dir : Nat) (name : Cursor) :
    Unguarded (findEntry dir name) := by
  have left : Unguarded (leaveMount dir name) := by
    refine .bind .view fun fs => .ite ?_ (.pure _)
    cases fs.getSuper (fs.inodeTable dir).dev with
    | none => exact .fail _
    | some sb =>
        dsimp only
        cases (fs.superTable sb).imount with
        | none => exact .fail _
        | some mounted =>
            exact .bind (.replace _) fun _ => .bind (iput_unguarded _) fun _ => .pure _
  exact .bind .view fun _ => .bind (.lift _) fun _ => .bind left fun _ => .bind .view fun _ =>
    .bind (searchEntries_unguarded _ _ _ _ _) fun _ => .pure _

theorem named_unguarded (task : Creds) (pathname : Option Cursor) :
    Unguarded (named task pathname) := by
  have loop (right : Cursor) (rounds inode : Nat) (left : Cursor) :
      Unguarded (descend task right rounds inode left) := by
    induction rounds generalizing inode left with
    | zero => exact .fail _
    | succ rounds inductionHypothesis =>
        refine .bind (findEntry_unguarded _ _) fun ⟨found, _⟩ => ?_
        cases found with
        | none => exact .bind (iput_unguarded _) fun _ => .pure _
        | some found =>
            refine .bind .view fun _ => .bind (iput_unguarded _) fun _ => ?_
            exact .bind .view fun _ => .bind (iget_unguarded _ _) fun _ =>
              .bind (.release _) fun _ => .bind .view fun _ =>
                .ite (.pure _) (.ite (.pure _) (inductionHypothesis _ _))
  match pathname with
  | none => exact .pure _
  | some [] => exact .pure _
  | some (first :: rest) =>
      refine .bind .view fun _ => .bind (.replace _) fun _ => ?_
      cases strrsep (skipSeparators (first :: rest)) with
      | none => exact .pure _
      | some right => exact loop _ _ _ _

/-! ## System calls -/

theorem leave_unguarded (result : Int) (first second : Option Nat)
    (pcache : Option BufferId) : Unguarded (leave result first second pcache) :=
  .bind (iputOption_unguarded _) fun _ => .bind (iputOption_unguarded _) fun _ =>
    .bind (brelseOption_unguarded _) fun _ => .pure _

theorem clean_unguarded (result : Int) (first second : Option Nat)
    (pcache : Option BufferId) : Unguarded (clean result first second pcache) :=
  .bind (brelseOption_unguarded _) fun _ => .bind (iputOption_unguarded _) fun _ =>
    .bind (iputOption_unguarded _) fun _ => .pure _

theorem isDirEmpty_unguarded (inode : Nat) : Unguarded (isDirEmpty inode) := by
  have loop (left i : Nat) (pcache : Option BufferId) (count : Nat) :
      Unguarded (countEntries inode left i pcache count) := by
    induction left generalizing i pcache count with
    | zero => exact .bind (brelseOption_unguarded _) fun _ => .pure _
    | succ left inductionHypothesis =>
        exact .bind (entryBlock_unguarded _ _ _ _) fun _ => .bind .view fun _ =>
          inductionHypothesis _ _ _
  exact .bind .view fun _ => .bind (.lift _) fun _ => .ite (.pure _)
    (.bind (loop _ _ _ _) fun _ => .pure _)

theorem sysRmdir_unguarded (task : Creds) (pathname : Option Cursor) :
    Unguarded (sysRmdir task pathname) := by
  have removed (dir inode : Nat) (entry : EntryRef) :
      Unguarded (removeDirectory dir inode entry) :=
    .bind .view fun _ => .bind (.lift _) fun _ => .bind (inodeTruncate_unguarded _) fun _ =>
      .bind .view fun _ => .bind (ifree_unguarded _ _) fun _ => .bind .view fun _ =>
        .bind (.lift _) fun _ => .bind (.replace _) fun _ => leave_unguarded _ _ _ _
  refine .bind (named_unguarded task pathname) fun parent => ?_
  match parent with
  | none => exact leave_unguarded _ _ _ _
  | some (dir, []) => exact leave_unguarded _ _ _ _
  | some (dir, next :: rest) =>
      refine .ite (leave_unguarded _ _ _ _) (.bind .view fun _ =>
        .ite (leave_unguarded _ _ _ _) (.bind (findEntry_unguarded _ _) fun ⟨found, _⟩ => ?_))
      cases found with
      | none => exact leave_unguarded _ _ _ _
      | some found =>
          refine .bind .view fun _ => .bind (iget_unguarded _ _) fun _ => .bind (.lift _) fun _ =>
            .bind .view fun _ => .ite (leave_unguarded _ _ _ _) ?_
          exact .ite (leave_unguarded _ _ _ _) (.ite (leave_unguarded _ _ _ _)
            (.bind (isDirEmpty_unguarded _) fun _ =>
              .ite (leave_unguarded _ _ _ _) (removed _ _ _)))

theorem sysUnlink_unguarded (task : Creds) (filename : Option Cursor) :
    Unguarded (sysUnlink task filename) := by
  have freed (inode : Nat) : Unguarded (freeUnlinked inode) :=
    .bind .view fun _ => .ite (.bind (inodeTruncate_unguarded _) fun _ =>
      .bind .view fun _ => ifree_unguarded _ _) (.pure _)
  have removed (dir inode : Nat) (entry : EntryRef) :
      Unguarded (removeLink dir inode entry) :=
    .bind .view fun _ => .bind (.lift _) fun _ => .bind (.replace _) fun _ =>
      .bind (freed _) fun _ => clean_unguarded _ _ _ _
  refine .bind (named_unguarded task filename) fun parent => ?_
  match parent with
  | none => exact clean_unguarded _ _ _ _
  | some (dir, []) => exact clean_unguarded _ _ _ _
  | some (dir, next :: rest) =>
      refine .bind .view fun _ => .ite (clean_unguarded _ _ _ _)
        (.bind (findEntry_unguarded _ _) fun ⟨found, _⟩ => ?_)
      cases found with
      | none => exact clean_unguarded _ _ _ _
      | some found =>
          exact .bind .view fun _ => .bind (iget_unguarded _ _) fun _ => .bind .view fun _ =>
            .ite (clean_unguarded _ _ _ _) (.ite (clean_unguarded _ _ _ _) (removed _ _ _))

end Buffered

/-- The calls that look up, read and remove. -/
def BufferCall.removes : BufferCall → Bool
  | .bfree _ _ => true
  | .ifree _ _ => true
  | .bmap _ _ create => !create
  | .inodeTruncate _ => true
  | .inodeRead _ _ _ => true
  | .sysRmdir _ _ => true
  | .sysUnlink _ _ => true
  | _ => false

theorem BufferCall.run_unguarded (call : BufferCall) (removes : call.removes = true) :
    Counting.Unguarded call.run := by
  have ignored {Value : Type} {prog : Buffered Value} (spec : Counting.Unguarded prog) :
      Counting.Unguarded prog.ignore := .bind spec fun _ => .pure _
  cases call with
  | bfree dev idx => exact Buffered.bfree_unguarded dev idx
  | ifree dev idx => exact Buffered.ifree_unguarded dev idx
  | bmap ino block create =>
      cases create with
      | false => exact ignored (Buffered.bmap_unguarded ino block)
      | true => cases removes
  | inodeTruncate ino => exact Buffered.inodeTruncate_unguarded ino
  | inodeRead ino len offset => exact ignored (Buffered.inodeRead_unguarded ino len offset)
  | sysRmdir task pathname => exact ignored (Buffered.sysRmdir_unguarded task pathname)
  | sysUnlink task filename => exact ignored (Buffered.sysUnlink_unguarded task filename)
  | _ => cases removes

/-- A call that looks up, reads or removes never comes to `balloc` or `ialloc`. -/
theorem BufferCall.unscanned_of_removes (call : BufferCall) (removes : call.removes = true)
    {s after : Buffers} (returned : call.run true s = .ok ((), after)) : call.Unscanned s :=
  ⟨_, (call.run_unguarded removes s).trans returned⟩

/-- `balloc` and `ialloc` themselves are not spared. -/
theorem BufferCall.scans (dev : Nat) (s : Buffers) :
    ¬(BufferCall.balloc dev).Unscanned s ∧ ¬(BufferCall.ialloc dev).Unscanned s := by
  have stops {Value : Type} {prog : Buffered Value}
      (denied : ∀ out, prog false s ≠ .ok out) (out : Unit × Buffers) :
      prog.ignore false s ≠ .ok out := by
    intro returned
    unfold Buffered.ignore at returned
    rw [Counting.bind_run, bind_eq_ok] at returned
    obtain ⟨first, ran, _⟩ := returned
    exact denied first ran
  have guarded {Value : Type} {condition : Prop} [Decidable condition]
      (next : Unit → Buffered Value) (out : Value × Buffers) :
      (liftM (check condition) >>= fun _ => Counting.guarded >>= next : Buffered Value)
        false s ≠ .ok out := by
    intro returned
    rw [Counting.lift_bind_run, bind_eq_ok] at returned
    obtain ⟨_, _, returned⟩ := returned
    cases returned
  exact ⟨fun ⟨out, returned⟩ => stops (guarded _) out returned,
    fun ⟨out, returned⟩ => stops (guarded _) out returned⟩

end Fs
end LightOS
