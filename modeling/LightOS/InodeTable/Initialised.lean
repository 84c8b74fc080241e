import LightOS.InodeTable.Soundness

/-!
# `iget` hands out initialised inodes

An inode that a task got from `iget` is the one that it asked for, points into a
valid buffer of its block and is in the table once.  This holds on every run in
which no `iget` finds an inode that another task is still waiting to read: `iget`
puts an inode on the list before it reads its block, and does not tell such an
inode from a complete one.
-/

namespace LightOS
namespace InodeTable

open LightOS.System

variable {taskCount poolSize : Nat}

/-- What `iget` returned to a task for a device and a number is the in-memory
inode of that device and number, its fields `cache` and `desc` lead to its
descriptor in a valid buffer of its block, and no other entry of the table has
that device and number. -/
def Initialised (state : State taskCount) : Prop :=
  ∀ task, ∀ ref ∈ state.refs task,
    (state.entry ref.slot).dev = ref.dev ∧ (state.entry ref.slot).nr = ref.nr ∧
    (∃ super id, state.super ref.dev = some super ∧
      (state.entry ref.slot).cache = some id ∧
      (state.cache.cache.buffer id).dev = ref.dev ∧
      (state.cache.cache.buffer id).block = inodeBlock super.desc ref.nr ∧
      (state.cache.cache.buffer id).valid = true ∧
      (state.entry ref.slot).desc = some (id, descIndex ref.nr)) ∧
    ∀ other, (state.entry other).dev = ref.dev → (state.entry other).nr = ref.nr →
      other = ref.slot

/-- An `iget` that finds its inode in memory finds one that no task is still
reading, and whose reference count has room for one more. -/
def FindsLoaded (state : State taskCount) : Label taskCount → Prop
  | .iget _ dev nr => ∀ super slot, state.super dev = some super →
      super.inodeList.find? (fun slot => (state.entry slot).nr = nr) = some slot →
      ¬state.Loading slot ∧ (state.entry slot).count + 1 < 2 ^ 32
  | _ => True

namespace Sound

variable {state after : State taskCount} {task : Fin taskCount}

theorem initialised (sound : Sound state) : Initialised state := by
  intro task ref present
  obtain ⟨names, notLoading⟩ := sound.refs task ref present
  have inUse : (state.entry ref.slot).dev ≠ eof := names.dev ▸ names.inUse
  obtain ⟨id, filled, _⟩ := sound.filled ref.slot inUse notLoading
  obtain ⟨super, found, carries⟩ := filled.carries
  rw [names.dev, names.nr] at carries
  refine ⟨names.dev, names.nr, ⟨super, id, names.dev ▸ found, filled.cache, carries.1,
    carries.2, filled.valid, names.nr ▸ filled.desc⟩, fun other sameDev sameNr => ?_⟩
  exact sound.tabled.distinct ref.slot other inUse (sameDev.trans names.dev.symm)
    (sameNr.trans names.nr.symm)

/-- The entry behind a reference keeps a buffer. -/
theorem keeps_buffer (sound : Sound state) {ref : Ref} (present : ref ∈ state.refs task) :
    ∃ id, (state.entry ref.slot).cache = some id := by
  obtain ⟨names, notLoading⟩ := sound.refs task ref present
  obtain ⟨id, filled, _⟩ := sound.filled ref.slot (names.dev ▸ names.inUse) notLoading
  exact ⟨id, filled.cache⟩

/-- `iput` behind its call of `bwrite`. -/
theorem afterWrite (sound : Sound state) {ref : Ref} {id : Nat}
    (notLoading : ∀ ref, state.point task ≠ .loading ref)
    (present : ref ∈ state.refs task)
    (kept : (state.entry ref.slot).cache = some id)
    (clean : (state.cache.cache.buffer id).dirty = false)
    (done : state.afterWrite poolSize task ref none = .ok after) : Sound after := by
  have dropped := sound.drop notLoading present
  rw [State.afterWrite] at done
  have keptStill : ((state.dropCount ref.slot).entry ref.slot).cache = some id := by
    simpa [State.dropCount, State.modifyEntry] using kept
  dsimp only at done
  by_cases more : ((state.dropCount ref.slot).entry ref.slot).count ≠ 0
  · rw [if_pos more, State.afterIput] at done
    cases done
    exact dropped
  rw [if_neg more, keptStill] at done
  simp only [bind_eq_ok] at done
  obtain ⟨released, taken, done⟩ := done
  obtain ⟨names, loaded⟩ := sound.refs task ref present
  obtain ⟨found, filled, heldSlot⟩ :=
    sound.filled ref.slot (names.dev ▸ names.inUse) loaded
  have sameId : found = id := Option.some.inj (filled.cache.symm.trans kept)
  subst sameId
  have passed := booked_passBuffer sound.booked (self_ne_keeper task ref.slot).symm
    (by simp [heldSlot] : found ∈ state.cache.held (keeper ref.slot))
  have back := (brelse_clean passed taken clean).1
  have isBack : ((state.dropCount ref.slot).setCache released).cache.pc (self task) =
      .client := back
  rw [if_pos back, State.afterRelease] at done
  simp only [bind_eq_ok, State.putFreeInode, check_eq_ok, State.afterIput] at done
  obtain ⟨freed, ⟨_, _, _, _, isFreed⟩, done⟩ := done
  cases isFreed
  cases done
  have count : ((state.dropCount ref.slot).entry ref.slot).count = 0 := by
    simpa using more
  refine dropped.release
    (by simp [State.setPoint]) ?inUse ?notLoading ?unused keptStill taken
  case inUse =>
    simpa [State.setPoint, State.dropCount, State.modifyEntry, names.dev] using names.inUse
  case notLoading =>
    rintro ⟨other, also, place, isSlot⟩
    by_cases same : other = task
    · subst same
      simp [State.setPoint] at place
    · refine loaded ⟨other, also, ?_, isSlot⟩
      simpa [State.setPoint, State.dropCount, State.modifyEntry, same] using place
  case unused =>
    have few := (dropped.counted ref.slot).1
    exact Nat.eq_zero_of_le_zero (few.trans_eq count)

/-- A task that is back from the cache goes on. -/
theorem settle (sound : Sound state)
    (clean : ∀ ref fitting id, state.point task = .writing ref fitting →
      state.cache.pc (self task) = .client → (state.entry ref.slot).cache = some id →
      (state.cache.cache.buffer id).dirty = false)
    (done : state.settle poolSize task = .ok after) : Sound after := by
  rw [State.settle] at done
  by_cases back : state.cache.pc (self task) = .client
  case neg =>
    rw [if_neg back] at done
    cases done
    exact sound
  rw [if_pos back] at done
  cases place : state.point task with
  | outside =>
      rw [place] at done
      cases done
      exact sound
  | loading ref =>
      rw [place] at done
      obtain ⟨names, super, kept, found, reads⟩ := sound.loads task ref place
      have returned : state.cache.Returned (self task) kept ref.dev
          (inodeBlock super.desc ref.nr) := by
        refine reads.resolve_left fun inside => ?_
        have reading := inside.1
        rw [back] at reading
        exact reading
      obtain ⟨_, id, held, carries, valid⟩ := returned
      rw [held] at done
      cases done
      exact sound.fill place found held carries valid
  | writing ref fitting =>
      rw [place] at done
      obtain ⟨rfl, present, _⟩ := sound.writes task ref fitting place
      obtain ⟨id, kept⟩ := sound.keeps_buffer present
      exact sound.afterWrite (by simp [place]) present kept
        (clean ref none id place back kept) done
  | releasing ref fitting => exact absurd place (sound.noRelease task ref fitting)

/-- `iput` of a reference. -/
theorem iput (sound : Sound state) {ref : Ref}
    (outside : state.point task = .outside)
    (place : state.cache.pc (self task) = .client) (present : ref ∈ state.refs task)
    (done : state.iput poolSize task ref none = .ok after) : Sound after := by
  obtain ⟨id, kept⟩ := sound.keeps_buffer present
  have notPipe := (sound.tabled.plain ref.slot).2
  rw [State.iput, if_neg (by simp [notPipe]), kept] at done
  dsimp only at done
  by_cases dirty : (state.cache.cache.buffer id).dirty = true
  · rw [if_pos dirty] at done
    cases done
    exact sound.beginWrite outside place present kept _ _
  · rw [if_neg dirty] at done
    exact sound.afterWrite (by simp [outside]) present kept (by simpa using dirty) done

/-- The part of `iget` for an inode that is not in memory. -/
theorem loadInode (sound : Sound state) {dev nr : Nat} {super : Super}
    (outside : state.point task = .outside)
    (found : state.super dev = some super)
    (missing : super.inodeList.find? (fun slot => (state.entry slot).nr = nr) = none)
    (done : state.loadInode poolSize task dev nr super = .ok after) : Sound after := by
  rw [State.loadInode] at done
  simp only [bind_eq_ok] at done
  obtain ⟨_, _, slot, isFree, _, _, _, _, cache, taken, done⟩ := done
  have free : (state.entry slot).dev = eof := by
    unfold State.getFreeInode at isFree
    split at isFree
    · rename_i first isFound
      cases isFree
      simpa using List.find?_some isFound
    · cases isFree
  have called : state.cache.step poolSize
      (.bread (self task) dev (inodeBlock super.desc nr)) = .ok cache := taken
  have reads := Cache.State.bread_reads sound.booked.shape.layout called
  have stepped := sound.setCache called rfl (.inl outside)
  have loaded := stepped.load slot nr outside found
    (fun other present => by
      have absent := List.find?_eq_none.mp missing other present
      exact fun same => absent (decide_eq_true same))
    free (if slot.val = Fs.rootInode then 4 else 1) (by split <;> simp)
    (by split <;> simp) reads
  exact loaded.settle (by simp [State.setPoint]) done

/-- `iget`, when an inode that it finds in memory is complete. -/
theorem iget (sound : Sound state) {dev nr : Nat}
    (outside : state.point task = .outside)
    (finds : FindsLoaded state (.iget task dev nr))
    (done : state.iget poolSize task dev nr = .ok after) : Sound after := by
  rw [State.iget] at done
  cases found : state.super dev with
  | none => simp [found, throw, throwThe, MonadExceptOf.throw] at done
  | some super =>
      rw [found] at done
      dsimp only at done
      cases listed : super.inodeList.find? fun slot => (state.entry slot).nr = nr with
      | none =>
          rw [listed] at done
          exact sound.loadInode outside found listed done
      | some slot =>
          rw [listed] at done
          have noMount : ((state.addCount slot).entry slot).mount = 0 := by
            simpa [State.addCount, State.modifyEntry] using (sound.tabled.plain slot).1
          dsimp only at done
          rw [if_pos noMount] at done
          cases done
          obtain ⟨loaded, room⟩ := finds super slot found listed
          have isDev := (sound.tabled.listed dev super found slot).mp
            (List.mem_of_find?_eq_some listed)
          have isNr : (state.entry slot).nr = nr := by simpa using List.find?_some listed
          have inUse : dev ≠ eof := by
            rintro rfl
            rw [sound.tabled.noDevice] at found
            cases found
          have names : state.Names ⟨slot, dev, nr⟩ := ⟨isDev, isNr, inUse⟩
          exact sound.give outside names loaded room

/-- Every step that meets the condition keeps the invariant. -/
theorem step (sound : Sound state) {label : Label taskCount}
    (finds : FindsLoaded state label)
    (taken : state.step poolSize label = .ok after) : Sound after := by
  cases label with
  | iget task dev nr =>
      rw [State.step] at taken
      split at taken
      · rename_i place
        exact sound.iget place.1 finds taken
      · cases taken
  | iput task ref =>
      rw [State.step] at taken
      split at taken
      · rename_i place
        exact sound.iput place.1 place.2.1 place.2.2 taken
      · cases taken
  | cache task label =>
      rw [State.step] at taken
      split at taken
      case isFalse => cases taken
      rename_i allowed
      obtain ⟨mine, turn⟩ := allowed
      rw [bind_eq_ok] at taken
      obtain ⟨cache, stepped, done⟩ := taken
      refine (sound.setCache stepped mine turn).settle ?_ done
      intro ref fitting id place back kept
      have before : state.cache.pc (self task) ≠ .client := by
        refine turn.resolve_left fun outside => ?_
        cases outside.symm.trans place
      obtain ⟨_, _, writes⟩ := sound.writes task ref fitting place
      obtain ⟨itsId, dev, block, sector, itsCache, position⟩ := writes before
      have sameId : itsId = id := Option.some.inj (itsCache.symm.trans kept)
      subst sameId
      have view : state.cache.view.pc label.task =
          .writeIo itsId dev block sector false := by
        rw [mine]
        simp [Cache.State.view, position, Cache.Pc.forget]
      have effect := Cache.step_effect sound.booked.shape.layout stepped
      rcases (effect.writeIo view).2 with ⟨next, stays⟩ | ⟨_, clean⟩
      · rw [mine] at stays
        have inside := writeIo_of_forget
          (.writeIo itsId dev block next false) stays rfl
        exact absurd (back.symm.trans inside) (by simp)
      · exact clean

end Sound

theorem Booted.sound {state : State taskCount} (booted : Booted state) : Sound state where
  tabled :=
    { plain := fun slot => ⟨booted.mount slot, booted.pipe slot⟩
      noDevice := booted.noDevice
      nodup := fun dev block found => by
        rw [booted.inodeList dev block found]
        exact List.nodup_nil
      listed := fun dev block found slot => by
        rw [booted.inodeList dev block found, booted.free]
        refine ⟨fun present => by simp at present, fun same => ?_⟩
        rw [← same, booted.noDevice] at found
        cases found
      known := fun slot inUse => absurd (booted.free slot) inUse
      distinct := fun slot _ inUse => absurd (booted.free slot) inUse }
  booked := booted.cache.counted.booked
  keepers := fun slot => booted.cache.pc _
  vacant := fun slot _ => booted.cache.held _
  filled := fun slot inUse => absurd (booted.free slot) inUse
  loads := fun task ref place => by simp [booted.point] at place
  single := fun task _ ref _ place => by simp [booted.point] at place
  refs := fun task ref present => by simp [booted.refs] at present
  counted := fun slot => by
    have unused : state.users slot = 0 := by simp [State.users, booted.refs]
    rw [unused, booted.count]
    split <;> simp
  loadCount := fun slot => by
    rintro ⟨task, ref, place, _⟩
    simp [booted.point] at place
  writes := fun task ref fitting place => by simp [booted.point] at place
  noRelease := fun task ref fitting place => by simp [booted.point] at place

/-- On a run in which every `iget` that finds its inode in memory finds it complete,
every inode that `iget` handed out is initialised. -/
theorem initialised_of_findsLoaded
    {start final : State taskCount}
    {trace : List (State taskCount × Label taskCount)}
    (booted : Booted start)
    (path : (interleavings taskCount poolSize).Path start trace final)
    (finds : Obeys FindsLoaded trace) : Visits Initialised trace final :=
  path.visits_of_obeys Sound booted.sound
    (fun _ _ _ sound allowed taken => sound.step allowed taken)
    (fun _ sound => sound.initialised) finds

/-! ## Two tasks ask for the same inode -/

instance (state : State taskCount) (slot : Slot) : Decidable (state.Loading slot) :=
  decidable_of_iff (∃ task, ∃ ref ∈ (match state.point task with
    | .loading ref => some ref
    | _ => none), ref.slot = slot) (by
      unfold State.Loading
      refine exists_congr fun task => exists_congr fun ref => ?_
      cases state.point task <;> simp)

instance (state : State taskCount) (label : Label taskCount) :
    Decidable (FindsLoaded state label) :=
  match label with
  | .iget _ dev nr =>
      decidable_of_iff (∀ super ∈ state.super dev, ∀ slot ∈
          super.inodeList.find? (fun slot => (state.entry slot).nr = nr),
          ¬state.Loading slot ∧ (state.entry slot).count + 1 < 2 ^ 32)
        ⟨fun finds super slot found listed => finds super found slot listed,
          fun finds super found slot listed => finds super slot found listed⟩
  | .iput _ _ => isTrue trivial
  | .cache _ _ => isTrue trivial

/-- A system with one device that has a super block. -/
def blank (taskCount : Nat) : State taskCount where
  cache := Cache.blankBoot (taskCount + inodeNr)
  entry := fun slot =>
    ⟨eof, 0, if slot.val = Fs.rootInode then 4 else 0, 0, false, none, none⟩
  super := fun dev =>
    if dev = 1 then some ⟨⟨16, 40, 1, 1, 5, 0, 0, minixMagic⟩, none, []⟩ else none
  point := fun _ => .outside
  refs := fun _ => []

theorem blank_booted (taskCount : Nat) : Booted (blank taskCount) where
  cache := Cache.blankBoot_booted _
  free := fun _ => rfl
  mount := fun _ => rfl
  pipe := fun _ => rfl
  count := fun _ => rfl
  noDevice := rfl
  inodeList := by
    intro dev super found
    unfold blank at found
    dsimp only at found
    split at found
    · cases found
      rfl
    · cases found
  point := fun _ => rfl
  refs := fun _ => rfl

/-- The second task finds the inode while the first one waits for its block. -/
theorem initialised_fails :
    ¬∀ (taskCount poolSize : Nat) (start final : State taskCount)
      (trace : List (State taskCount × Label taskCount)), Booted start →
      (interleavings taskCount poolSize).Path start trace final → Initialised final := by
  intro always
  obtain ⟨trace, final, path, given⟩ := Path.of_run
    (interleavings 2 Cache.twoBuffers) (State.step Cache.twoBuffers)
    (fun _ _ _ taken => taken) (blank 2) [.iget 0 1 2, .iget 1 1 2]
    (fun final => decide (⟨0, 1, 2⟩ ∈ final.refs 1 ∧ (final.entry 0).cache = none))
    (by decide +kernel)
  obtain ⟨present, noBuffer⟩ := of_decide_eq_true given
  obtain ⟨_, _, ⟨_, id, _, kept, _⟩, _⟩ :=
    always 2 Cache.twoBuffers _ _ _ (blank_booted 2) path 1 ⟨0, 1, 2⟩ present
  rw [noBuffer] at kept
  cases kept

/-- A step that meets the condition. -/
def stepLoaded (poolSize : Nat) (state : State taskCount) (label : Label taskCount) :
    Except Fault (State taskCount) :=
  if FindsLoaded state label then state.step poolSize label else .error .misuse

/-- The second task asks when the block has been read. -/
theorem initialised_of_findsLoaded_shared :
    ∃ (start final : State 2) (trace : List (State 2 × Label 2)),
      Booted start ∧ (interleavings 2 Cache.twoBuffers).Path start trace final ∧
      (⟨0, 1, 2⟩ ∈ final.refs 0 ∧ ⟨0, 1, 2⟩ ∈ final.refs 1) ∧
      Visits Initialised trace final := by
  obtain ⟨trace, final, path, finds, shared⟩ := Path.of_run_within
    (interleavings 2 Cache.twoBuffers) FindsLoaded (stepLoaded Cache.twoBuffers)
    (fun before label after taken => by
      unfold stepLoaded at taken
      split at taken
      · rename_i finds
        exact ⟨finds, taken⟩
      · cases taken)
    (blank 2)
    [.iget 0 1 2, .cache 0 (.transfer (self 0)), .cache 0 (.transfer (self 0)),
      .cache 0 (.finish (self 0)), .iget 1 1 2]
    (fun final => decide (⟨0, 1, 2⟩ ∈ final.refs 0 ∧ ⟨0, 1, 2⟩ ∈ final.refs 1))
    (by decide +kernel)
  exact ⟨blank 2, final, trace, blank_booted 2, path, of_decide_eq_true shared,
    initialised_of_findsLoaded (blank_booted 2) path finds⟩

end InodeTable
end LightOS
