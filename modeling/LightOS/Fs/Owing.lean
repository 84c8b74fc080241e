import LightOS.Foundation.Transition
import LightOS.Fs.NameCalls

/-!
# References that are owed

Between the steps of a call some references to inodes are counted and not stored, or
given up and not yet released.  The counts cover these as well as the lasting references,
and each call settles them before it returns.
-/

namespace LightOS

open Fs
open Sched (taskNr)

variable {value : Int} {lost : Prop} {pathname : Cursor}

/-- A system call that leaves the open files alone. -/
def NameCall.keepsFiles : NameCall → Bool
  | .named _ => false
  | .namei _ => false
  | .inodeOpen _ _ _ => false
  | .sysOpen _ _ _ => false
  | _ => true

namespace ProcessState

/-- The tables are in order, the inodes are tracked, and an inode has been counted for
each reference to it and for each pointer in `pending`, which is still to be stored or
to be released. -/
structure Owing (state : ProcessState) (pending : Multiset Nat) : Prop
    extends state.fs.InOrder where
  counted : ∀ ino, state.references ino + pending.count ino ≤
    state.count ino + uncounted ino
  directories : ∀ pid < taskNr, state.present pid = true →
    (state.fs.inodeTable (state.creds pid).iroot).pipe = false ∧
      (state.fs.inodeTable (state.creds pid).ipwd).pipe = false
  tracked : state.fs.Tracked

/-- Every count may still grow by the references of a call. -/
def Roomy (fs : Fs) : Prop :=
  ∀ ino, (fs.inodeTable ino).count + 4 < 2 ^ 32

section Rules

variable {state other : ProcessState} {pending rest held : Multiset Nat} {fs after : Fs}
  {ino pid : Nat}

namespace Owing

theorem covers (owing : state.Owing pending) (ino : Nat) :
    state.references ino ≤ state.count ino + uncounted ino := by
  have counted := owing.counted ino
  omega

theorem consistent (owing : state.Owing pending) (roomy : Roomy state.fs) :
    state.Consistent where
  toInOrder := owing.toInOrder
  counted := owing.covers
  room := roomy
  directories := owing.directories

theorem referenced (owing : state.Owing pending) (roomy : Roomy state.fs) :
    Referenced state.fs state.fs state.count 0 :=
  (owing.consistent roomy).referenced

theorem creds (owing : state.Owing pending) (inTable : pid < taskNr)
    (present : state.present pid = true) :
    Lasting state.fs state.count (state.creds pid).iroot ∧
      Lasting state.fs state.count (state.creds pid).ipwd :=
  lasting_creds owing.toInOrder owing.covers (owing.directories pid inTable present)
    inTable present

/-- A pending reference has been counted besides those of the super blocks. -/
theorem positive (owing : state.Owing pending) (ino : Nat) :
    pending.count ino ≤ state.count ino := by
  have counted := owing.counted ino
  have mounts := mountReferences_root owing.toInOrder ino
  have within := state.mountReferences_le ino
  omega

/-- An inode that is referred to is in use. -/
theorem inUse (owing : state.Owing pending)
    (positive : 0 < state.references ino + pending.count ino) :
    (state.fs.inodeTable ino).dev ≠ eof := by
  intro free
  have none : state.count ino = 0 := (owing.blank ino free).1
  have counted := owing.counted ino
  have mounts := mountReferences_root owing.toInOrder ino
  have within := state.mountReferences_le ino
  omega

/-- References may be forgotten. -/
theorem forget (owing : state.Owing pending) (fewer : rest ≤ pending) :
    state.Owing rest where
  toInOrder := owing.toInOrder
  counted ino := by
    have counted := owing.counted ino
    have less := Multiset.count_le_of_le ino fewer
    omega
  directories := owing.directories
  tracked := owing.tracked

/-- What a function of the file systems leaves held is pending. -/
theorem moved (owing : state.Owing pending)
    (referenced : Referenced state.fs fs state.count held) :
    (state.setFs fs).Owing (held + pending) where
  toInOrder := referenced.toInOrder
  counted ino := by
    have counted := owing.counted ino
    rw [references_setFs referenced.pointers, count_setFs referenced, Multiset.count_add]
    omega
  directories pid inTable present := by
    obtain ⟨iroot, ipwd⟩ := owing.creds inTable present
    exact ⟨(referenced.lasting iroot).2, (referenced.lasting ipwd).2⟩
  tracked :=
    { toFiled := referenced.filed owing.tracked.toFiled
      rooted := fun sb inTable => referenced.rooted owing.tracked.toFiled sb inTable
        (owing.tracked.rooted sb inTable) }

/-- `iput` of a pending reference. -/
theorem iput (owing : state.Owing (ino ::ₘ pending))
    (released : state.fs.iput ino = .ok after) : (state.setFs after).Owing pending := by
  have dropped := iput_dropped released
  have counted := owing.counted ino
  rw [Multiset.count_cons_self] at counted
  have positive := owing.positive ino
  rw [Multiset.count_cons_self] at positive
  have isPending : 0 < state.references ino + (ino ::ₘ pending).count ino := by
    rw [Multiset.count_cons_self]
    omega
  have used := owing.inUse isPending
  have left : (after.inodeTable ino).count = state.count ino - 1 := by
    rw [dropped.count]
    exact sub32_eq (by unfold count at positive; omega)
  have pointers (sb : Nat) : ∃ inodeList, after.superTable sb =
      { state.fs.superTable sb with inodeList := inodeList } := by
    obtain ⟨inodeList, same, _⟩ := dropped.supers sb
    exact ⟨inodeList, same⟩
  refine
    { toInOrder := owing.toInOrder.dropped used dropped
      counted := fun other => ?counted
      directories := fun pid inTable present => ?directories
      tracked := ?tracked }
  case counted =>
    rw [references_setFs pointers]
    change _ ≤ (after.inodeTable other).count + _
    by_cases same : other = ino
    · rw [same, left]
      omega
    · have before := owing.counted other
      rw [Multiset.count_cons_of_ne same] at before
      rw [dropped.others other same]
      exact before
  case directories =>
    have plain (other : Nat) (before : (state.fs.inodeTable other).pipe = false) :
        (after.inodeTable other).pipe = false := by
      by_cases same : other = ino
      · rw [same] at before ⊢
        by_cases more : (after.inodeTable ino).count = 0
        · exact (dropped.freed more).2.2.1
        · rw [(dropped.kept more).2.1]
          exact before
      · rw [dropped.others other same]
        exact before
    obtain ⟨iroot, ipwd⟩ := owing.directories pid inTable present
    exact ⟨plain _ iroot, plain _ ipwd⟩
  case tracked =>
    refine ⟨owing.tracked.toFiled.dropped owing.toInOrder used dropped,
      fun sb inTable => ?_⟩
    refine (owing.tracked.rooted sb inTable).dropped owing.toInOrder inTable used dropped
      fun mounted isRoot => ?_
    have mounts := mountReferences_mounted owing.toInOrder inTable mounted (.inl isRoot)
    have within := state.mountReferences_le ino
    change (after.inodeTable ino).count ≠ 0
    omega

/-- The holders of inodes change. -/
theorem exchange (owing : state.Owing pending) (sameFs : other.fs = state.fs)
    (counted : ∀ ino, other.references ino + rest.count ino ≤
      state.references ino + pending.count ino)
    (directories : ∀ pid < taskNr, other.present pid = true →
      (state.fs.inodeTable (other.creds pid).iroot).pipe = false ∧
        (state.fs.inodeTable (other.creds pid).ipwd).pipe = false) :
    other.Owing rest where
  toInOrder := sameFs ▸ owing.toInOrder
  counted ino := by
    have before := owing.counted ino
    have change := counted ino
    have same : other.count ino = state.count ino := by
      unfold count
      rw [sameFs]
    omega
  directories := by
    rw [sameFs]
    exact directories
  tracked := sameFs ▸ owing.tracked

theorem settled (owing : state.Owing pending)
    (settled : Settled state.fs state.count 0 lost value fs) : (state.setFs fs).Owing pending := by
  cases settled with
  | settled holds _ => exact (owing.moved holds).forget (by simp)
  | lost holds _ =>
      exact (owing.moved holds).forget (Multiset.le_add_left pending _)

theorem nothing (owing : state.Owing pending)
    (handed : Handed state.fs state.count 0 lost none fs) : (state.setFs fs).Owing pending := by
  cases handed with
  | nothing holds _ => exact (owing.moved holds).forget (by simp)
  | lost holds _ =>
      exact (owing.moved holds).forget (Multiset.le_add_left pending _)

end Owing

theorem holds_of_handed {base : Nat → Nat} {start : Fs}
    (handed : Handed start base 0 lost (some ino) fs) : Referenced start fs base {ino} := by
  cases handed with
  | handed holds _ => exact holds

end Rules

/-! ## Calls on names -/

/-- The open files and the tasks are the same, but for the directories of the tasks. -/
structure SameFiles (before after : ProcessState) : Prop where
  fileTable : after.files.fileTable = before.files.fileTable
  files : ∀ pid, (after.files.task pid).files = (before.files.task pid).files
  present : after.present = before.present
  iexec : after.iexec = before.iexec

theorem SameFiles.setFs (state : ProcessState) (fs : Fs) :
    SameFiles state (state.setFs fs) :=
  ⟨rfl, fun _ => rfl, rfl, rfl⟩

theorem SameFiles.setCreds (state : ProcessState) (fs : Fs) (pid : Nat) (creds : Creds) :
    SameFiles state ((state.setFs fs).setCreds pid creds) := by
  refine ⟨rfl, fun other => ?_, rfl, rfl⟩
  by_cases same : other = pid
  · simp [ProcessState.setCreds, ProcessState.setFs, same]
  · simp [ProcessState.setCreds, ProcessState.setFs, same]

section Calls

variable {state : ProcessState} {pid inode left : Nat}

/-- A task takes a directory that is pending, and gives up another one. -/
theorem Owing.setCreds (owing : state.Owing {inode}) (creds : Creds)
    (inTable : pid < taskNr) (present : state.present pid = true)
    (plain : (state.fs.inodeTable creds.iroot).pipe = false ∧
      (state.fs.inodeTable creds.ipwd).pipe = false)
    (exchanged : ∀ ino, pointsTo (some creds.iroot) ino + pointsTo (some creds.ipwd) ino +
        pointsTo (some left) ino =
      pointsTo (some (state.creds pid).iroot) ino +
        pointsTo (some (state.creds pid).ipwd) ino + pointsTo (some inode) ino) :
    (state.setCreds pid creds).Owing {left} := by
  refine owing.exchange rfl (fun ino => ?counted) fun other otherIn isPresent => ?directories
  case counted =>
    have moved := references_setCreds creds inTable present ino
    have change := exchanged ino
    have one (held : Nat) : Multiset.count ino {held} = pointsTo (some held) ino := by
      simp [Multiset.count_singleton, pointsTo, eq_comm]
    rw [one, one]
    omega
  case directories =>
    by_cases same : other = pid
    · have own : (state.setCreds pid creds).creds other = creds := by
        simp [ProcessState.creds, ProcessState.setCreds, same]
      rw [own]
      exact plain
    · have kept : (state.setCreds pid creds).creds other = state.creds other := by
        simp [ProcessState.creds, ProcessState.setCreds, same]
      rw [kept]
      exact owing.directories other otherIn isPresent

theorem Owing.setPwd {pending : Multiset Nat} (owing : state.Owing pending) (pid : Nat)
    (pwd : Cursor) : (state.setPwd pid pwd).Owing pending :=
  owing.exchange rfl (fun _ => le_rfl) owing.directories

/-- What `sys_chdir` and `sys_chroot` do before they look at the inode. -/
theorem Owing.path (owing : state.Owing 0) (roomy : Roomy state.fs) (inTable : pid < taskNr)
    (present : state.present pid = true) {after : ProcessState}
    {body : Cursor → Option Nat × Fs → Except Fault (Int × ProcessState)}
    (moves : (check (pathname.length < maxPathLen) >>= fun _ =>
      if pathname.length < 1 then
        pure (-1, state)
      else
        abspath (state.pwd pid) pathname >>= fun path =>
          state.fs.namei (state.creds pid) (some path) >>= body path) =
        .ok (value, after)) (nothing : ∀ path fs, body path (none, fs) = .ok (-1, state.setFs fs))
    (found : ∀ path inode fs, (state.setFs fs).Owing {inode} →
      (fs.inodeTable inode).pipe = false → body path (some inode, fs) = .ok (value, after) →
        after.Owing 0 ∧ SameFiles state after) : after.Owing 0 ∧ SameFiles state after := by
  obtain ⟨iroot, ipwd⟩ := owing.creds inTable present
  rw [bind_eq_ok] at moves
  obtain ⟨_, _, moves⟩ := moves
  split at moves
  · cases moves
    exact ⟨owing, .setFs state state.fs⟩
  · simp only [bind_eq_ok] at moves
    obtain ⟨path, _, ⟨result, fs⟩, resolved, moves⟩ := moves
    have handed := (owing.referenced roomy).namei (by simp) iroot ipwd resolved
    cases result with
    | none =>
        rw [nothing] at moves
        cases moves
        exact ⟨owing.nothing handed, .setFs state fs⟩
    | some inode =>
        have holds := holds_of_handed handed
        exact found path inode fs (owing.moved holds)
          (holds.plain inode (Multiset.mem_singleton_self inode)) moves

theorem Owing.returned {fs released : Fs} (owing : (state.setFs fs).Owing {inode})
    (release : fs.iput inode = .ok released) :
    (state.setFs released).Owing 0 ∧ SameFiles state (state.setFs released) := by
  have settled : ((state.setFs fs).setFs released).Owing 0 := owing.iput release
  exact ⟨settled, .setFs state released⟩

theorem Owing.sysChdir (owing : state.Owing 0) (roomy : Roomy state.fs) (inTable : pid < taskNr)
    (present : state.present pid = true) {after : ProcessState}
    (moves : state.sysChdir pid pathname = .ok (value, after)) :
    after.Owing 0 ∧ SameFiles state after := by
  unfold ProcessState.sysChdir at moves
  refine owing.path roomy inTable present moves (fun _ _ => rfl) ?_
  intro path inode fs pending plain moves
  dsimp only at moves
  split at moves
  · simp only [bind_eq_ok] at moves
    obtain ⟨released, release, same⟩ := moves
    cases same
    exact pending.returned release
  · split at moves
    · simp only [bind_eq_ok] at moves
      obtain ⟨released, release, same⟩ := moves
      cases same
      exact pending.returned release
    · simp only [bind_eq_ok] at moves
      obtain ⟨released, release, same⟩ := moves
      cases same
      have kept := pending.directories pid inTable present
      have moved := pending.setCreds { state.creds pid with ipwd := inode } inTable
        present ⟨kept.1, plain⟩ fun ino => Nat.add_right_comm _ (pointsTo (some inode) ino)
          (pointsTo (some (state.creds pid).ipwd) ino)
      have settled := (moved.iput release).setPwd pid path
      have same := SameFiles.setCreds state released pid
        { state.creds pid with ipwd := inode }
      exact ⟨settled, same.fileTable, same.files, same.present, same.iexec⟩

theorem Owing.sysChroot (owing : state.Owing 0) (roomy : Roomy state.fs) (inTable : pid < taskNr)
    (present : state.present pid = true) {after : ProcessState}
    (moves : state.sysChroot pid pathname = .ok (value, after)) :
    after.Owing 0 ∧ SameFiles state after := by
  unfold ProcessState.sysChroot at moves
  refine owing.path roomy inTable present moves (fun _ _ => rfl) ?_
  intro path inode fs pending plain moves
  dsimp only at moves
  split at moves
  · simp only [bind_eq_ok] at moves
    obtain ⟨released, release, same⟩ := moves
    cases same
    exact pending.returned release
  · simp only [bind_eq_ok] at moves
    obtain ⟨released, release, same⟩ := moves
    cases same
    have kept := pending.directories pid inTable present
    have moved := pending.setCreds { state.creds pid with iroot := inode } inTable
      present ⟨plain, kept.2⟩ fun ino => by
        change pointsTo (some inode) ino + pointsTo (some (state.creds pid).ipwd) ino +
            pointsTo (some (state.creds pid).iroot) ino =
          pointsTo (some (state.creds pid).iroot) ino +
            pointsTo (some (state.creds pid).ipwd) ino + pointsTo (some inode) ino
        omega
    have settled := moved.iput release
    exact ⟨settled, .setCreds state released pid _⟩

/-- A call on names settles all that it owes. -/
theorem Owing.perform (owing : state.Owing 0) (roomy : Roomy state.fs)
    (inTable : pid < taskNr) (present : state.present pid = true) {call : NameCall}
    (keeps : call.keepsFiles = true) {outcome : Outcome}
    (performed : state.perform pid call = .ok outcome) :
    outcome.state.Owing 0 ∧ SameFiles state outcome.state := by
  obtain ⟨iroot, ipwd⟩ := owing.creds inTable present
  have begins := owing.referenced roomy
  have settle {run : Except Fault (Int × Fs)} {lost : Prop}
      (settles : ∀ {value fs}, run = .ok (value, fs) →
        Settled state.fs state.count 0 lost value fs)
      (performed : (do
        let result ← run
        return state.returned result.1 result.2) = .ok outcome) :
      outcome.state.Owing 0 ∧ SameFiles state outcome.state := by
    obtain ⟨⟨value, fs⟩, called, same⟩ := (bind_eq_ok _ _ _).mp performed
    cases same
    exact ⟨owing.settled (settles called), .setFs state fs⟩
  cases call with
  | named pathname => cases keeps
  | namei pathname => cases keeps
  | inodeOpen pathname flag mode => cases keeps
  | sysOpen filename flags mode => cases keeps
  | sysMkdir pathname mode => exact settle (begins.sysMkdir (by simp) iroot ipwd) performed
  | sysRmdir pathname => exact settle (begins.sysRmdir (by simp) iroot ipwd) performed
  | sysLink oldname newname => exact settle (begins.sysLink rfl iroot ipwd) performed
  | sysUnlink filename => exact settle (begins.sysUnlink (by simp) iroot ipwd) performed
  | sysMknod filename mode dev => exact settle (begins.sysMknod (by simp) iroot ipwd) performed
  | sysStat filename =>
      simp only [ProcessState.perform, bind_eq_ok] at performed
      obtain ⟨⟨value, status, fs⟩, called, same⟩ := performed
      cases same
      exact ⟨owing.settled (begins.sysStat (by simp) iroot ipwd called), .setFs state fs⟩
  | sysChdir pathname =>
      simp only [ProcessState.perform, bind_eq_ok] at performed
      obtain ⟨⟨value, after⟩, called, same⟩ := performed
      cases same
      exact owing.sysChdir roomy inTable present called
  | sysChroot pathname =>
      simp only [ProcessState.perform, bind_eq_ok] at performed
      obtain ⟨⟨value, after⟩, called, same⟩ := performed
      cases same
      exact owing.sysChroot roomy inTable present called

/-- The calls on names that leave the open files alone, from states that owe nothing. -/
def nameCalls : System ProcessState (Nat × NameCall) where
  initial state := state.Owing 0
  step before label after := ∃ outcome, before.perform label.1 label.2 = .ok outcome ∧
    outcome.state = after

/-- A task that is there makes one of these calls, while the counts have room. -/
def Calls (state : ProcessState) (label : Nat × NameCall) : Prop :=
  Roomy state.fs ∧ label.1 < taskNr ∧ state.present label.1 = true ∧ label.2.keepsFiles = true

/-- In every run of these calls the counts cover the references and the tables stay in order,
so that an inode that a file, a task or a super block refers to is in use. -/
theorem owing_of_reachable {state : ProcessState}
    (reached : nameCalls.ReachableWithin Calls state) :
    state.Owing 0 ∧ ∀ ino, 0 < state.references ino → (state.fs.inodeTable ino).dev ≠ eof := by
  have owing : state.Owing 0 := by
    refine reached.invariant (Owing · 0) (fun _ owing => owing) ?_
    rintro before ⟨pid, call⟩ _ owing ⟨roomy, inTable, present, keeps⟩ ⟨_, performed, rfl⟩
    exact (owing.perform roomy inTable present keeps performed).1
  exact ⟨owing, fun ino refers => owing.inUse (Nat.add_pos_left refers _)⟩

theorem small_tracked : small.Tracked := by
  have first {sb ino : Nat} (listed : ino ∈ (small.superTable sb).inodeList) :
      sb = 0 ∧ ino = 0 := by
    by_cases same : sb = 0
    · simpa [small, same] using listed
    · simp [small, same] at listed
  have root : 0 ∈ (small.superTable 0).inodeList := List.mem_singleton_self 0
  refine ⟨⟨fun sb _ ino listed => ?_, fun ino used _ => ?_,
    fun sb _ ino listed other also _ _ => (first listed).2.trans (first also).2.symm⟩,
    fun sb _ => ⟨fun unmounted => ?_, fun mounted => ?_⟩⟩
  · obtain ⟨rfl, rfl⟩ := first listed
    rfl
  · have isRoot : ino = 0 := by
      by_contra other
      exact used (by simp [small, other])
    subst isRoot
    exact ⟨0, rfl, root⟩
  · refine List.eq_nil_iff_forall_not_mem.mpr fun ino listed => ?_
    obtain ⟨rfl, _⟩ := first listed
    cases unmounted
  · by_cases same : sb = 0
    · subst same
      exact ⟨0, root, rfl, rfl⟩
    · simp [small, same] at mounted

theorem smallProcess_owing : smallProcess.Owing 0 where
  toInOrder := smallProcess_consistent.toInOrder
  counted ino := by
    rw [Multiset.count_zero, Nat.add_zero]
    exact smallProcess_consistent.counted ino
  directories := smallProcess_consistent.directories
  tracked := small_tracked

/-- A task removes a file. -/
theorem owing_of_reachable_unlink : ∃ outcome,
    smallProcess.perform 0 (.sysUnlink (some [102])) = .ok outcome ∧ outcome.failed = false ∧
      outcome.state.Owing 0 := by
  have returns : (match smallProcess.perform 0 (.sysUnlink (some [102])) with
      | .ok outcome => !outcome.failed
      | .error _ => false) = true := by decide +kernel
  cases performed : smallProcess.perform 0 (.sysUnlink (some [102])) with
  | error fault =>
      rw [performed] at returns
      cases returns
  | ok outcome =>
      rw [performed] at returns
      have taken : nameCalls.step smallProcess (0, .sysUnlink (some [102])) outcome.state :=
        ⟨outcome, performed, rfl⟩
      have allowed : Calls smallProcess (0, .sysUnlink (some [102])) :=
        ⟨smallProcess_consistent.room, by decide, rfl, rfl⟩
      have reached := System.ReachableWithin.step (.initial smallProcess_owing) allowed taken
      exact ⟨outcome, rfl, by simpa using returns, (owing_of_reachable reached).1⟩

end Calls

end ProcessState
end LightOS
