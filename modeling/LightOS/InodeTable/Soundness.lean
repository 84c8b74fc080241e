import LightOS.InodeTable.Interleaving

/-!
# The invariant of the inode table

Every entry of the table is vacant, or on the list of its super block and being
loaded by one task, or on the list and filled: it keeps a valid buffer of the
block of its inode.  A task has references to filled entries only, and the field
`count` is at least their number.
-/

namespace LightOS
namespace InodeTable

variable {id taskCount poolSize : Nat} {slot : Slot} {ref : Ref} {new : Entry} {kept : List Nat}

/-! ## The cache underneath -/

section Cache

variable {users : Nat} {state : Cache.State users}

open Cache (Booked)

theorem self_ne_keeper (task : Fin taskCount) (slot : Slot) : self task ≠ keeper slot := by
  intro same
  have values := congrArg Fin.val same
  simp only [self, keeper, Fin.val_castAdd, Fin.val_natAdd] at values
  have inTable := task.isLt
  omega

theorem self_injective {task other : Fin taskCount} (same : self task = self other) :
    task = other :=
  Fin.castAdd_injective taskCount inodeNr same

theorem keeper_injective {other : Slot}
    (same : (keeper slot : Fin (taskCount + inodeNr)) = keeper other) : slot = other :=
  Fin.natAdd_injective inodeNr taskCount same

section Pass

variable {giver taker : Fin users}

theorem passBuffer_giver (apart : giver ≠ taker) :
    (passBuffer state giver taker id).held giver = (state.held giver).erase id := by
  simp [passBuffer, apart]

theorem passBuffer_taker (apart : giver ≠ taker) :
    (passBuffer state giver taker id).held taker = id :: state.held taker := by
  simp [passBuffer, apart.symm]

theorem passBuffer_other {other : Fin users} (notGiver : other ≠ giver)
    (notTaker : other ≠ taker) :
    (passBuffer state giver taker id).held other = state.held other := by
  simp [passBuffer, notGiver, notTaker]

/-- Passing a buffer on leaves the number of references to every buffer. -/
theorem passBuffer_references (apart : giver ≠ taker) (holds : id ∈ state.held giver)
    (other : Nat) :
    (passBuffer state giver taker id).references other = state.references other := by
  obtain ⟨dropped, isDropped⟩ : ∃ dropped : Cache.State users, dropped =
      { state with
        held := Function.update state.held giver ((state.held giver).erase id) } :=
    ⟨_, rfl⟩
  have samePc : dropped.pc = state.pc := by rw [isDropped]
  have gave : dropped.held giver = (state.held giver).erase id := by simp [isDropped]
  have kept (user : Fin users) (notGiver : user ≠ giver) :
      dropped.held user = state.held user := by simp [isDropped, notGiver]
  have first : dropped.references other + state.refsOf other giver =
      state.references other + dropped.refsOf other giver :=
    Cache.State.references_step other fun user different =>
      ⟨kept user different, by rw [samePc]⟩
  have second : (passBuffer state giver taker id).references other +
        dropped.refsOf other taker =
      dropped.references other + (passBuffer state giver taker id).refsOf other taker :=
    Cache.State.references_step other fun user different =>
      ⟨by simp [isDropped, passBuffer, different], by rw [samePc]; rfl⟩
  have refs (which : Cache.State users) (same : which.pc = state.pc)
      (user : Fin users) : which.refsOf other user = (which.held user).count other +
        if (state.pc user).promised = some other then 1 else 0 := by
    unfold Cache.State.refsOf
    rw [same]
  rw [refs state rfl, refs dropped samePc, gave, List.count_erase] at first
  rw [refs dropped samePc, refs (passBuffer state giver taker id) rfl,
    kept taker apart.symm, passBuffer_taker apart, List.count_cons] at second
  by_cases same : other = id
  · subst same
    have positive := List.count_pos_iff.mpr holds
    simp only [beq_self_eq_true, if_true] at first second
    omega
  · simp only [beq_iff_eq, Ne.symm same, if_false] at first second
    omega

/-- Passing a buffer on keeps the books. -/
theorem booked_passBuffer (booked : Booked state) (apart : giver ≠ taker)
    (holds : id ∈ state.held giver) : Booked (passBuffer state giver taker id) where
  shape := by
    refine ⟨booked.shape.layout, ?_, booked.shape.busy⟩
    intro user held present
    by_cases isTaker : user = taker
    · rw [isTaker, passBuffer_taker apart] at present
      rcases List.mem_cons.mp present with rfl | present
      · exact booked.shape.held giver held holds
      · exact booked.shape.held taker held present
    · by_cases isGiver : user = giver
      · rw [isGiver, passBuffer_giver apart] at present
        exact booked.shape.held giver held (List.mem_of_mem_erase present)
      · rw [passBuffer_other isGiver isTaker] at present
        exact booked.shape.held user held present
  counted := by
    intro other carved
    rw [passBuffer_references apart holds]
    exact booked.counted other carved
  listed := booked.listed
  unused := booked.unused

end Pass

/-- A user that begins to write a buffer that another holds. -/
theorem booked_writeIo (booked : Booked state) {user holder : Fin users}
    (place : state.pc user = .client) (holds : id ∈ state.held holder) (dev : Cache.Dev)
    (block : Cache.BlockNo) : Booked (state.setPc user (.writeIo id dev block 0 false)) := by
  refine booked.keep ?_ user ?_ rfl rfl (fun _ => rfl) fun other => ?_
  · refine booked.shape.setPc user _ fun busy isBusy => ?_
    cases isBusy
    exact booked.shape.held holder id holds
  · intro other different
    simp [Cache.State.setPc, different]
  · simp [Cache.State.refsOf, Cache.State.setPc, place, Cache.Pc.promised]

/-- Releasing a clean buffer never waits. -/
theorem brelse_clean {after : Cache.State users} {user : Fin users} (booked : Booked state)
    (taken : state.step poolSize (.brelse user id) = .ok after)
    (clean : (state.cache.buffer id).dirty = false) :
    after.pc user = .client ∧ after.held user = (state.held user).erase id := by
  have effect := Cache.step_effect booked.shape.layout taken
  have isClient (place : after.view.pc user = .client) : after.pc user = .client := by
    simp only [Cache.State.view] at place
    cases position : after.pc user <;> simp_all [Cache.Pc.forget]
  have dirtyView : (state.view.cache.buffer id).dirty = false := clean
  generalize seen : state.view = before at effect dirtyView
  generalize reached : after.view = final at effect isClient
  have holds : after.held = final.held := by rw [← reached]; rfl
  have held : state.held = before.held := by rw [← seen]; rfl
  rw [holds, held]
  cases effect with
  | asleep enters => cases enters
  | acquired enters _ _ _ => cases enters
  | releaseShared place _ _ =>
      exact ⟨isClient place, by simp⟩
  | releaseClean place _ _ _ _ =>
      exact ⟨isClient place, by simp [Cache.State.published]⟩
  | releaseDirty _ _ _ dirty _ =>
      rw [dirty] at dirtyView
      cases dirtyView

end Cache

/-! ## The table and the lists -/

/-- The entries in use are those on the lists of the super blocks, and no two of
them are for the same inode. -/
structure Tabled (entry : Slot → Entry) (super : Nat → Option Super) : Prop where
  plain : ∀ slot, (entry slot).mount = 0 ∧ (entry slot).pipe = false
  noDevice : super eof = none
  nodup : ∀ dev block, super dev = some block → block.inodeList.Nodup
  listed : ∀ dev block, super dev = some block →
    ∀ slot, slot ∈ block.inodeList ↔ (entry slot).dev = dev
  known : ∀ slot, (entry slot).dev ≠ eof → ∃ block, super (entry slot).dev = some block
  distinct : ∀ slot other, (entry slot).dev ≠ eof →
    (entry other).dev = (entry slot).dev → (entry other).nr = (entry slot).nr →
    other = slot

namespace Tabled

variable {entry after : Slot → Entry} {super : Nat → Option Super}

/-- A change that leaves devices, numbers, mounts and pipes alone. -/
theorem congr (tabled : Tabled entry super)
    (dev : ∀ slot, (after slot).dev = (entry slot).dev)
    (nr : ∀ slot, (after slot).nr = (entry slot).nr)
    (mount : ∀ slot, (after slot).mount = (entry slot).mount)
    (pipe : ∀ slot, (after slot).pipe = (entry slot).pipe) : Tabled after super where
  plain := by
    intro slot
    rw [mount, pipe]
    exact tabled.plain slot
  noDevice := tabled.noDevice
  nodup := tabled.nodup
  listed := by
    intro itsDev block found slot
    rw [dev]
    exact tabled.listed itsDev block found slot
  known := by
    intro slot
    rw [dev]
    exact tabled.known slot
  distinct := by
    intro slot other
    rw [dev, dev, nr, nr]
    exact tabled.distinct slot other

/-- A change of one entry that leaves those fields alone. -/
theorem modify (tabled : Tabled entry super) (slot : Slot) (dev : new.dev = (entry slot).dev)
    (nr : new.nr = (entry slot).nr) (mount : new.mount = (entry slot).mount)
    (pipe : new.pipe = (entry slot).pipe) : Tabled (Function.update entry slot new) super := by
  apply tabled.congr <;>
  · intro other
    by_cases same : other = slot
    · subst same
      simpa
    · simp [same]

/-- A free entry is taken for an inode that no entry on the list is for. -/
theorem add (tabled : Tabled entry super) {dev nr : Nat} {block : Super}
    (found : super dev = some block) (free : (entry slot).dev = eof)
    (missing : ∀ other ∈ block.inodeList, (entry other).nr ≠ nr) (newDev : new.dev = dev)
    (newNr : new.nr = nr) (mount : new.mount = (entry slot).mount)
    (pipe : new.pipe = (entry slot).pipe) :
    Tabled (Function.update entry slot new)
      (Function.update super dev
        (some { block with inodeList := slot :: block.inodeList })) where
  plain := by
    intro other
    by_cases same : other = slot
    · subst same
      simpa [mount, pipe] using tabled.plain other
    · simpa [same] using tabled.plain other
  noDevice := by
    have isDevice : eof ≠ dev := by
      intro same
      rw [← same, tabled.noDevice] at found
      cases found
    rw [Function.update_of_ne isDevice]
    exact tabled.noDevice
  nodup := by
    intro itsDev itsBlock isFound
    by_cases same : itsDev = dev
    · subst same
      rw [Function.update_self, Option.some.injEq] at isFound
      subst isFound
      refine List.nodup_cons.mpr ⟨fun present => ?_, tabled.nodup _ _ found⟩
      rw [tabled.listed _ _ found, free] at present
      rw [← present, tabled.noDevice] at found
      cases found
    · rw [Function.update_of_ne same] at isFound
      exact tabled.nodup _ _ isFound
  listed := by
    intro itsDev itsBlock isFound other
    by_cases sameDev : itsDev = dev
    · subst sameDev
      rw [Function.update_self, Option.some.injEq] at isFound
      subst isFound
      by_cases same : other = slot
      · subst same
        simp [newDev]
      · simpa [same] using tabled.listed _ _ found other
    · rw [Function.update_of_ne sameDev] at isFound
      rw [tabled.listed _ _ isFound]
      by_cases same : other = slot
      · subst same
        rw [Function.update_self, newDev, free]
        refine ⟨fun isEof => ?_, fun isDev => absurd isDev.symm sameDev⟩
        rw [← isEof, tabled.noDevice] at isFound
        cases isFound
      · rw [Function.update_of_ne same]
  known := by
    intro other inUse
    by_cases same : other = slot
    · subst same
      exact ⟨_, by rw [Function.update_self, newDev, Function.update_self]⟩
    · rw [Function.update_of_ne same] at inUse ⊢
      obtain ⟨itsBlock, isFound⟩ := tabled.known other inUse
      by_cases sameDev : (entry other).dev = dev
      · exact ⟨_, by rw [sameDev, Function.update_self]⟩
      · exact ⟨itsBlock, by rw [Function.update_of_ne sameDev]; exact isFound⟩
  distinct := by
    have fresh (other : Slot) (sameDev : (entry other).dev = dev) :
        (entry other).nr ≠ nr :=
      missing other ((tabled.listed _ _ found other).mpr sameDev)
    intro first second
    by_cases isFirst : first = slot
    · by_cases isSecond : second = slot
      · exact fun _ _ _ => isSecond.trans isFirst.symm
      · subst isFirst
        rw [Function.update_self, Function.update_of_ne isSecond, newDev, newNr]
        exact fun _ sameDev sameNr => absurd sameNr (fresh second sameDev)
    · by_cases isSecond : second = slot
      · subst isSecond
        rw [Function.update_self, Function.update_of_ne isFirst, newDev, newNr]
        exact fun _ sameDev sameNr => absurd sameNr.symm (fresh first sameDev.symm)
      · rw [Function.update_of_ne isFirst, Function.update_of_ne isSecond]
        exact tabled.distinct first second

/-- An entry is taken off its list and becomes free. -/
theorem remove (tabled : Tabled entry super) (slot : Slot) (newDev : new.dev = eof)
    (mount : new.mount = (entry slot).mount) (pipe : new.pipe = (entry slot).pipe) :
    Tabled (Function.update entry slot new) (fun dev => (super dev).map fun block =>
      { block with inodeList := block.inodeList.erase slot }) where
  plain := by
    intro other
    by_cases same : other = slot
    · subst same
      simpa [mount, pipe] using tabled.plain other
    · simpa [same] using tabled.plain other
  noDevice := by rw [tabled.noDevice]; rfl
  nodup := by
    intro dev block isFound
    obtain ⟨before, found, rfl⟩ := Option.map_eq_some_iff.mp isFound
    exact (tabled.nodup _ _ found).erase slot
  listed := by
    intro dev block isFound other
    obtain ⟨before, found, rfl⟩ := Option.map_eq_some_iff.mp isFound
    rw [(tabled.nodup _ _ found).mem_erase_iff, tabled.listed _ _ found]
    by_cases same : other = slot
    · subst same
      rw [Function.update_self, newDev]
      refine ⟨fun absent => absurd rfl absent.1, fun isEof => ?_⟩
      rw [← isEof, tabled.noDevice] at found
      cases found
    · simp [same]
  known := by
    intro other inUse
    by_cases same : other = slot
    · subst same
      rw [Function.update_self, newDev] at inUse
      exact absurd rfl inUse
    · rw [Function.update_of_ne same] at inUse ⊢
      obtain ⟨block, found⟩ := tabled.known other inUse
      exact ⟨_, by rw [found]; rfl⟩
  distinct := by
    intro first second
    by_cases isFirst : first = slot
    · subst isFirst
      rw [Function.update_self, newDev]
      exact fun inUse => absurd rfl inUse
    · by_cases isSecond : second = slot
      · subst isSecond
        rw [Function.update_self, Function.update_of_ne isFirst, newDev]
        exact fun inUse isEof => absurd isEof.symm inUse
      · rw [Function.update_of_ne isFirst, Function.update_of_ne isSecond]
        exact tabled.distinct first second

end Tabled

/-! ## The invariant -/

namespace State

/-- Some task is inside the `bread` of `iget` for an entry. -/
def Loading (state : State taskCount) (slot : Slot) : Prop :=
  ∃ task ref, state.point task = .loading ref ∧ ref.slot = slot

/-- The number of references that tasks have to an entry. -/
def users (state : State taskCount) (slot : Slot) : Nat :=
  ∑ task, (state.refs task).countP fun ref => ref.slot = slot

/-- The pointers of an entry lead into a valid buffer of the block of its inode. -/
structure Filled (state : State taskCount) (slot : Slot) (id : Nat) : Prop where
  cache : (state.entry slot).cache = some id
  desc : (state.entry slot).desc = some (id, descIndex (state.entry slot).nr)
  valid : (state.cache.cache.buffer id).valid = true
  carries : ∃ super, state.super (state.entry slot).dev = some super ∧
    Cache.Carries state.cache.cache id (state.entry slot).dev
      (inodeBlock super.desc (state.entry slot).nr)

/-- A reference is to an entry that is in use for the inode asked for. -/
structure Names (state : State taskCount) (ref : Ref) : Prop where
  dev : (state.entry ref.slot).dev = ref.dev
  nr : (state.entry ref.slot).nr = ref.nr
  inUse : ref.dev ≠ eof

/-- A task is in the `bread` of `iget`, or just back from it. -/
def Awaits (state : State taskCount) (task : Fin taskCount) (ref : Ref) : Prop :=
  ∃ super kept, state.super ref.dev = some super ∧
    state.cache.Reads (self task) kept ref.dev (inodeBlock super.desc ref.nr)

/-- A task that is still in the `bwrite` of `iput` writes the buffer of the
entry. -/
def Writes (state : State taskCount) (task : Fin taskCount) (slot : Slot) : Prop :=
  state.cache.pc (self task) ≠ .client → ∃ id dev block sector,
    (state.entry slot).cache = some id ∧
      state.cache.pc (self task) = .writeIo id dev block sector false

end State

/-- The invariant of the inode table. -/
structure Sound {taskCount : Nat} (state : State taskCount) : Prop where
  tabled : Tabled state.entry state.super
  booked : Cache.Booked state.cache
  keepers : ∀ slot, state.cache.pc (keeper slot) = .client
  vacant : ∀ slot, (state.entry slot).dev = eof ∨ state.Loading slot →
    state.cache.held (keeper slot) = []
  filled : ∀ slot, (state.entry slot).dev ≠ eof → ¬state.Loading slot →
    ∃ id, state.Filled slot id ∧ state.cache.held (keeper slot) = [id]
  loads : ∀ task ref, state.point task = .loading ref →
    state.Names ref ∧ state.Awaits task ref
  single : ∀ task other ref also, state.point task = .loading ref →
    state.point other = .loading also → ref.slot = also.slot → task = other
  refs : ∀ task, ∀ ref ∈ state.refs task, state.Names ref ∧ ¬state.Loading ref.slot
  counted : ∀ slot, state.users slot ≤ (state.entry slot).count ∧
    (state.entry slot).count < 2 ^ 32
  loadCount : ∀ slot, state.Loading slot → 0 < (state.entry slot).count
  writes : ∀ task ref fitting, state.point task = .writing ref fitting →
    fitting = none ∧ ref ∈ state.refs task ∧ state.Writes task ref.slot
  noRelease : ∀ task ref fitting, state.point task ≠ .releasing ref fitting

namespace Sound

variable {state : State taskCount} {task : Fin taskCount}

/-- A buffer that an entry keeps has a reference. -/
theorem referenced (sound : Sound state) (held : state.cache.held (keeper slot) = [id]) :
    id < state.cache.cache.cacheCount ∧ state.cache.references id ≠ 0 := by
  have holds : id ∈ state.cache.held (keeper slot) := by simp [held]
  exact ⟨sound.booked.shape.held _ _ holds,
    (Cache.State.references_pos_of_held holds).ne'⟩

end Sound

/-- Waking a task or not, a task outside the cache stays outside. -/
theorem client_of_forget {pc : Cache.Pc} (other : Cache.Pc) (same : pc.forget = other.forget)
    (place : other = .client) : pc = .client := by
  subst place
  cases pc <;> simp_all [Cache.Pc.forget]

theorem writeIo_of_forget {pc : Cache.Pc} (other : Cache.Pc) (same : pc.forget = other.forget)
    {dev : Cache.Dev} {block : Cache.BlockNo} {sector : Nat}
    (place : other = .writeIo id dev block sector false) :
    pc = .writeIo id dev block sector false := by
  subst place
  cases pc <;> simp_all [Cache.Pc.forget]

namespace State

variable {state : State taskCount}

/-- What an entry keeps is there as long as the entry is the same, the buffer keeps its block
and the super block its description. -/
theorem Filled.of_entry {after : State taskCount} (filled : state.Filled slot id)
    (entry : after.entry slot = state.entry slot)
    (keeps : Cache.Keeps state.cache.cache after.cache.cache id)
    (supers : ∀ dev super, state.super dev = some super →
      ∃ list, after.super dev = some { super with inodeList := list }) : after.Filled slot id := by
  refine ⟨?_, ?_, keeps.valid filled.valid, ?_⟩
  · rw [entry]
    exact filled.cache
  · rw [entry]
    exact filled.desc
  · obtain ⟨super, found, carries⟩ := filled.carries
    obtain ⟨list, later⟩ := supers _ _ found
    rw [entry]
    exact ⟨_, later, keeps.carries carries⟩

/-- What an entry keeps is there as long as the buffer keeps its block. -/
theorem Filled.setCache (filled : state.Filled slot id) {cache : Cache.State (taskCount + inodeNr)}
    (keeps : Cache.Keeps state.cache.cache cache.cache id) :
    (state.setCache cache).Filled slot id where
  cache := filled.cache
  desc := filled.desc
  valid := keeps.valid filled.valid
  carries := by
    obtain ⟨super, found, carries⟩ := filled.carries
    exact ⟨super, found, keeps.carries carries⟩

end State

/-- Another user's step leaves a task in `bread` where it is, or back from it. -/
theorem reads_other {users : Nat} {before after : Cache.State users} {label : Cache.Label users}
    (booked : Cache.Booked before) (taken : before.step poolSize label = .ok after)
    {other : Fin users} (different : other ≠ label.task) {dev : Cache.Dev} {block : Cache.BlockNo}
    (reads : before.Reads other kept dev block) : after.Reads other kept dev block := by
  obtain ⟨sameHeld, samePc⟩ := booked.others taken different
  rcases reads with ⟨reading, held⟩ | ⟨back, id, held, carries, valid⟩
  · exact .inl ⟨booked.reading taken different reading, sameHeld.trans held⟩
  · have holds : id ∈ before.held other := by simp [held]
    have keeps := booked.keeps taken (booked.shape.held _ _ holds)
      (Cache.State.references_pos_of_held holds).ne'
    exact .inr ⟨client_of_forget _ samePc back, id, sameHeld.trans held,
      keeps.carries carries, keeps.valid valid⟩

namespace Sound

variable {state : State taskCount} {task : Fin taskCount}

/-- A step of a task in the cache keeps the invariant, when the task is outside
`inode.c` or inside the cache. -/
theorem setCache (sound : Sound state) {label : Cache.Label (taskCount + inodeNr)}
    {cache : Cache.State (taskCount + inodeNr)}
    (taken : state.cache.step poolSize label = .ok cache)
    (mine : label.task = self task)
    (turn : state.point task = .outside ∨ state.cache.pc (self task) ≠ .client) :
    Sound (state.setCache cache) where
  tabled := sound.tabled
  booked := sound.booked.step taken
  keepers := by
    intro slot
    have others := sound.booked.others taken
      (mine ▸ (self_ne_keeper task slot).symm)
    exact client_of_forget _ others.2 (sound.keepers slot)
  vacant := by
    intro slot isVacant
    have others := sound.booked.others taken
      (mine ▸ (self_ne_keeper task slot).symm)
    exact others.1.trans (sound.vacant slot isVacant)
  filled := by
    intro slot inUse notLoading
    obtain ⟨id, filled, held⟩ := sound.filled slot inUse notLoading
    have others := sound.booked.others taken
      (mine ▸ (self_ne_keeper task slot).symm)
    obtain ⟨carved, used⟩ := sound.referenced held
    exact ⟨id, filled.setCache (sound.booked.keeps taken carved used),
      others.1.trans held⟩
  loads := by
    intro other ref place
    obtain ⟨names, super, kept, found, reads⟩ := sound.loads other ref place
    refine ⟨⟨names.dev, names.nr, names.inUse⟩, super, ?_⟩
    by_cases same : other = task
    · subst same
      have inside : state.cache.pc (self other) ≠ .client := by
        refine turn.resolve_left fun outside => ?_
        cases outside.symm.trans place
      have reading := (reads.resolve_right fun back => inside back.1).1
      rw [← mine] at reading
      have later := Cache.State.reading_step sound.booked.shape.layout taken reading
      rw [mine] at later
      exact ⟨_, found, later⟩
    · have different : self other ≠ label.task := by
        rw [mine]
        exact fun equal => same (self_injective equal)
      exact ⟨kept, found, reads_other sound.booked taken different reads⟩
  single := sound.single
  refs := by
    intro other ref present
    obtain ⟨names, notLoading⟩ := sound.refs other ref present
    exact ⟨⟨names.dev, names.nr, names.inUse⟩, notLoading⟩
  counted := sound.counted
  loadCount := sound.loadCount
  writes := by
    intro other ref fitting place
    obtain ⟨isNone, holds, writes⟩ := sound.writes other ref fitting place
    refine ⟨isNone, holds, fun inside => ?_⟩
    by_cases same : other = task
    · subst same
      have before : state.cache.pc (self other) ≠ .client := by
        refine turn.resolve_left fun outside => ?_
        cases outside.symm.trans place
      obtain ⟨id, dev, block, sector, kept, position⟩ := writes before
      have effect := Cache.step_effect sound.booked.shape.layout taken
      have view : state.cache.view.pc label.task = .writeIo id dev block sector false := by
        rw [mine]
        simp [Cache.State.view, position, Cache.Pc.forget]
      rcases (effect.writeIo view).2 with ⟨next, stays⟩ | ⟨back, _⟩
      · rw [mine] at stays
        exact ⟨id, dev, block, next, kept,
          writeIo_of_forget (.writeIo id dev block next false) stays rfl⟩
      · rw [mine] at back
        exact absurd (client_of_forget .client back rfl) inside
    · have different : self other ≠ label.task := by
        rw [mine]
        exact fun equal => same (self_injective equal)
      have samePc := (sound.booked.others taken different).2
      have before : state.cache.pc (self other) ≠ .client := fun place =>
        inside (client_of_forget _ samePc place)
      obtain ⟨id, dev, block, sector, kept, position⟩ := writes before
      exact ⟨id, dev, block, sector, kept, writeIo_of_forget _ samePc position⟩
  noRelease := sound.noRelease

end Sound

/-! ## References and positions -/

namespace State

variable {state after : State taskCount} {task : Fin taskCount}

/-- A task that is elsewhere than the one that takes a step was there before. -/
theorem point_of_ne
    (points : ∀ other, other ≠ task → after.point other = state.point other)
    {other : Fin taskCount} {point : Point} (place : after.point other = point)
    (mine : after.point task ≠ point) : other ≠ task ∧ state.point other = point := by
  have different : other ≠ task := by
    rintro rfl
    exact mine place
  exact ⟨different, (points other different).symm.trans place⟩

/-- A task that loads nothing before and after a step does not matter for what is
being loaded. -/
theorem loading_congr
    (points : ∀ other, other ≠ task → after.point other = state.point other)
    (before : ∀ ref, state.point task ≠ .loading ref)
    (behind : ∀ ref, after.point task ≠ .loading ref) (slot : Slot) :
    after.Loading slot ↔ state.Loading slot := by
  constructor
  · rintro ⟨other, ref, place, isSlot⟩
    exact ⟨other, ref, (point_of_ne points place (behind ref)).2, isSlot⟩
  · rintro ⟨other, ref, place, isSlot⟩
    have different : other ≠ task := by
      rintro rfl
      exact before ref place
    exact ⟨other, ref, (points other different).trans place, isSlot⟩

/-- What the references of one task make of the number of users. -/
theorem users_change
    (refs : ∀ other, other ≠ task → after.refs other = state.refs other) (slot : Slot) :
    after.users slot + (state.refs task).countP (fun ref => ref.slot = slot) =
      state.users slot + (after.refs task).countP (fun ref => ref.slot = slot) := by
  let share (refs : Fin taskCount → List Ref) (task : Fin taskCount) : Nat :=
    (refs task).countP fun ref => ref.slot = slot
  have same (other : Fin taskCount) (different : other ≠ task) :
      share after.refs other = share state.refs other := by
    simp only [share, refs other different]
  exact sum_change_one (Finset.mem_univ task) same

/-- An entry that a task has a reference to has a user. -/
theorem users_pos (present : ref ∈ state.refs task) : 0 < state.users ref.slot := by
  have own : (state.refs task).countP (fun other => other.slot = ref.slot) ≤
      state.users ref.slot :=
    Finset.single_le_sum (f := fun other => (state.refs other).countP
      fun other => other.slot = ref.slot) (fun _ _ => Nat.zero_le _)
      (Finset.mem_univ task)
  have positive : 0 < (state.refs task).countP fun other => other.slot = ref.slot :=
    List.countP_pos_iff.mpr ⟨ref, present, by simp⟩
  omega

end State

namespace Sound

variable {state after : State taskCount} {task : Fin taskCount}

/-- A step of a task that loads nothing, which changes reference counts and the
references and the position of the task only. -/
theorem change (task : Fin taskCount) (sound : Sound state)
    (entry : ∀ slot, ∃ count, after.entry slot = { state.entry slot with count := count })
    (super : after.super = state.super)
    (booked : Cache.Booked after.cache)
    (buffers : after.cache.cache = state.cache.cache)
    (held : after.cache.held = state.cache.held)
    (pc : ∀ user, user ≠ self task → after.cache.pc user = state.cache.pc user)
    (points : ∀ other, other ≠ task → after.point other = state.point other)
    (before : ∀ ref, state.point task ≠ .loading ref)
    (behind : ∀ ref, after.point task ≠ .loading ref)
    (refs : ∀ other, other ≠ task → after.refs other = state.refs other)
    (own : ∀ ref ∈ after.refs task, state.Names ref ∧ ¬state.Loading ref.slot)
    (counted : ∀ slot, after.users slot ≤ (after.entry slot).count ∧
      (after.entry slot).count < 2 ^ 32)
    (loadCount : ∀ slot, state.Loading slot → 0 < (after.entry slot).count)
    (writes : ∀ ref fitting, after.point task = .writing ref fitting →
      fitting = none ∧ ref ∈ after.refs task ∧ after.Writes task ref.slot)
    (noRelease : ∀ ref fitting, after.point task ≠ .releasing ref fitting) :
    Sound after := by
  have loading := State.loading_congr points before behind
  have dev (slot : Slot) : (after.entry slot).dev = (state.entry slot).dev := by
    obtain ⟨count, same⟩ := entry slot
    rw [same]
  have nr (slot : Slot) : (after.entry slot).nr = (state.entry slot).nr := by
    obtain ⟨count, same⟩ := entry slot
    rw [same]
  have cache (slot : Slot) : (after.entry slot).cache = (state.entry slot).cache := by
    obtain ⟨count, same⟩ := entry slot
    rw [same]
  have desc (slot : Slot) : (after.entry slot).desc = (state.entry slot).desc := by
    obtain ⟨count, same⟩ := entry slot
    rw [same]
  have names (ref : Ref) (before : state.Names ref) : after.Names ref :=
    ⟨(dev _).trans before.dev, (nr _).trans before.nr, before.inUse⟩
  have apart (other : Fin taskCount) (different : other ≠ task) : self other ≠ self task :=
    fun same => different (self_injective same)
  refine ⟨?tabled, booked, ?keepers, ?vacant, ?filled, ?loads, ?single, ?refs, counted,
    ?loadCount, ?writes, ?noRelease⟩
  case tabled =>
    rw [super]
    refine sound.tabled.congr dev nr ?_ ?_ <;>
    · intro slot
      obtain ⟨count, same⟩ := entry slot
      rw [same]
  case keepers =>
    intro slot
    rw [pc _ (self_ne_keeper task slot).symm]
    exact sound.keepers slot
  case vacant =>
    intro slot
    rw [dev, loading, held]
    exact sound.vacant slot
  case filled =>
    intro slot
    rw [dev, loading, held]
    intro inUse notLoading
    obtain ⟨id, filled, keeps⟩ := sound.filled slot inUse notLoading
    refine ⟨id, ⟨(cache slot).trans filled.cache, ?_, ?_, ?_⟩, keeps⟩
    · rw [desc, nr]
      exact filled.desc
    · rw [buffers]
      exact filled.valid
    · rw [super, dev, nr, buffers]
      exact filled.carries
  case loads =>
    intro other ref itsPlace
    obtain ⟨different, place⟩ := State.point_of_ne points itsPlace (behind ref)
    obtain ⟨isNamed, itsSuper, kept, found, reads⟩ := sound.loads other ref place
    refine ⟨names ref isNamed, itsSuper, kept, by rw [super]; exact found, ?_⟩
    unfold Cache.State.Reads Cache.State.Returned
    rw [pc _ (apart other different), held, buffers]
    exact reads
  case single =>
    intro first second ref also place otherPlace
    exact sound.single first second ref also (State.point_of_ne points place (behind ref)).2
      (State.point_of_ne points otherPlace (behind also)).2
  case refs =>
    intro other ref present
    rw [loading]
    by_cases same : other = task
    · subst same
      obtain ⟨isNamed, notLoading⟩ := own ref present
      exact ⟨names ref isNamed, notLoading⟩
    · rw [refs other same] at present
      obtain ⟨isNamed, notLoading⟩ := sound.refs other ref present
      exact ⟨names ref isNamed, notLoading⟩
  case loadCount =>
    intro slot
    rw [loading]
    exact loadCount slot
  case writes =>
    intro other ref fitting place
    by_cases same : other = task
    · subst same
      exact writes ref fitting place
    · rw [points other same] at place
      obtain ⟨isNone, holds, itWrites⟩ := sound.writes other ref fitting place
      refine ⟨isNone, by rw [refs other same]; exact holds, ?_⟩
      unfold State.Writes
      rw [pc _ (apart other same), cache]
      exact itWrites
  case noRelease =>
    intro other ref fitting
    by_cases same : other = task
    · subst same
      exact noRelease ref fitting
    · rw [points other same]
      exact sound.noRelease other ref fitting

/-- A task is given another reference to an entry that is not being loaded. -/
theorem give (sound : Sound state) (outside : state.point task = .outside) (names : state.Names ref)
    (notLoading : ¬state.Loading ref.slot) (room : (state.entry ref.slot).count + 1 < 2 ^ 32) :
    Sound ((state.addCount ref.slot).give task ref) := by
  have count : add32 (state.entry ref.slot).count 1 =
      (state.entry ref.slot).count + 1 := by
    unfold add32
    omega
  have entry (slot : Slot) (different : slot ≠ ref.slot) :
      ((state.addCount ref.slot).give task ref).entry slot = state.entry slot := by
    simp [State.give, State.setPoint, State.addCount, State.modifyEntry, different]
  have own : ((state.addCount ref.slot).give task ref).entry ref.slot =
      { state.entry ref.slot with count := (state.entry ref.slot).count + 1 } := by
    simp [State.give, State.setPoint, State.addCount, State.modifyEntry, count]
  have refs : ((state.addCount ref.slot).give task ref).refs task =
      ref :: state.refs task := by
    simp [State.give, State.setPoint, State.addCount, State.modifyEntry]
  have others (other : Fin taskCount) (different : other ≠ task) :
      ((state.addCount ref.slot).give task ref).refs other = state.refs other := by
    simp [State.give, State.setPoint, State.addCount, State.modifyEntry, different]
  have place : ((state.addCount ref.slot).give task ref).point task = .outside := by
    simp [State.give, State.setPoint]
  refine sound.change task ?entry rfl sound.booked rfl rfl (fun _ _ => rfl) ?points
    (by simp [outside]) (by simp [place]) others ?own ?counted ?loadCount
    (by simp [place]) (by simp [place])
  case entry =>
    intro slot
    by_cases same : slot = ref.slot
    · rw [same]
      exact ⟨_, own⟩
    · exact ⟨_, entry slot same⟩
  case points =>
    intro other different
    simp [State.give, State.setPoint, State.addCount, State.modifyEntry, different]
  case own =>
    intro also present
    rw [refs] at present
    rcases List.mem_cons.mp present with rfl | present
    · exact ⟨names, notLoading⟩
    · exact sound.refs task also present
  case counted =>
    intro slot
    have users := State.users_change others slot
    rw [refs, List.countP_cons] at users
    have before := sound.counted slot
    by_cases same : slot = ref.slot
    · subst same
      rw [own]
      simp only [decide_true, if_true] at users
      dsimp only
      omega
    · rw [entry slot same]
      simp only [Ne.symm same, decide_false, Bool.false_eq_true, if_false] at users
      omega
  case loadCount =>
    intro slot loading
    have different : slot ≠ ref.slot := by
      rintro rfl
      exact notLoading loading
    rw [entry slot different]
    exact sound.loadCount slot loading

/-- A task gives a reference back, by `iput` from the start or behind its call of
`bwrite`. -/
theorem drop (sound : Sound state) (notLoading : ∀ ref, state.point task ≠ .loading ref)
    (present : ref ∈ state.refs task) :
    Sound { (state.dropCount ref.slot).setPoint task .outside with
      refs := Function.update state.refs task ((state.refs task).erase ref) } := by
  obtain ⟨after, isAfter⟩ : ∃ after : State taskCount, after =
      { (state.dropCount ref.slot).setPoint task .outside with
        refs := Function.update state.refs task ((state.refs task).erase ref) } :=
    ⟨_, rfl⟩
  have users := State.users_pos present
  have enough := sound.counted ref.slot
  have count : sub32 (state.entry ref.slot).count 1 = (state.entry ref.slot).count - 1 := by
    unfold sub32
    rw [if_pos (by omega)]
  have entry (slot : Slot) (different : slot ≠ ref.slot) :
      after.entry slot = state.entry slot := by
    simp [isAfter, State.setPoint, State.dropCount, State.modifyEntry, different]
  have own : after.entry ref.slot =
      { state.entry ref.slot with count := (state.entry ref.slot).count - 1 } := by
    simp [isAfter, State.setPoint, State.dropCount, State.modifyEntry, count]
  have refs : after.refs task = (state.refs task).erase ref := by simp [isAfter]
  have others (other : Fin taskCount) (different : other ≠ task) :
      after.refs other = state.refs other := by
    simp [isAfter, different]
  have place : after.point task = .outside := by simp [isAfter, State.setPoint]
  rw [← isAfter]
  refine sound.change task ?entry (by rw [isAfter]; rfl)
    (by rw [isAfter]; exact sound.booked) (by rw [isAfter]; rfl) (by rw [isAfter]; rfl)
    (fun _ _ => by rw [isAfter]; rfl) ?points notLoading (by simp [place]) others ?own
    ?counted ?loadCount (by simp [place]) (by simp [place])
  case entry =>
    intro slot
    by_cases same : slot = ref.slot
    · rw [same]
      exact ⟨_, own⟩
    · exact ⟨_, entry slot same⟩
  case points =>
    intro other different
    simp [isAfter, State.setPoint, State.dropCount, State.modifyEntry, different]
  case own =>
    intro also kept
    rw [refs] at kept
    exact sound.refs task also (List.mem_of_mem_erase kept)
  case counted =>
    intro slot
    have changed := State.users_change others slot
    rw [refs, List.countP_erase] at changed
    have before := sound.counted slot
    by_cases same : slot = ref.slot
    · subst same
      rw [own]
      have positive : 0 < (state.refs task).countP fun other => other.slot = ref.slot :=
        List.countP_pos_iff.mpr ⟨ref, present, by simp⟩
      simp only [present, decide_true, and_self, if_true] at changed
      dsimp only
      omega
    · rw [entry slot same]
      simp only [Ne.symm same, decide_false, Bool.false_eq_true, and_false, if_false]
        at changed
      omega
  case loadCount =>
    intro slot loading
    have different : slot ≠ ref.slot := by
      rintro rfl
      exact (sound.refs task ref present).2 loading
    rw [entry slot different]
    exact sound.loadCount slot loading

/-- A task begins to write the buffer of an entry that it has a reference to. -/
theorem beginWrite (sound : Sound state) (outside : state.point task = .outside)
    (place : state.cache.pc (self task) = .client) (present : ref ∈ state.refs task)
    (kept : (state.entry ref.slot).cache = some id) (dev : Cache.Dev) (block : Cache.BlockNo) :
    Sound ((state.setCache (state.cache.setPc (self task)
      (.writeIo id dev block 0 false))).setPoint task (.writing ref none)) := by
  obtain ⟨names, notLoading⟩ := sound.refs task ref present
  obtain ⟨found, filled, held⟩ := sound.filled ref.slot
    (names.dev ▸ names.inUse) notLoading
  have sameId : found = id := Option.some.inj (filled.cache.symm.trans kept)
  subst sameId
  have holds : found ∈ state.cache.held (keeper ref.slot) := by simp [held]
  refine sound.change task (fun slot => ⟨_, rfl⟩) rfl
    (booked_writeIo sound.booked place holds dev block) rfl rfl ?pc ?points
    (by simp [outside]) (by simp [State.setPoint]) (fun _ _ => rfl)
    (sound.refs task) sound.counted sound.loadCount ?writes (by simp [State.setPoint])
  case pc =>
    intro user different
    simp [State.setPoint, State.setCache, Cache.State.setPc, different]
  case points =>
    intro other different
    simp [State.setPoint, State.setCache, different]
  case writes =>
    intro also fitting position
    simp only [State.setPoint, Function.update_self, Point.writing.injEq] at position
    obtain ⟨rfl, rfl⟩ := position
    refine ⟨rfl, present, fun _ => ⟨found, dev, block, 0, kept, ?_⟩⟩
    simp [State.setPoint, State.setCache, Cache.State.setPc]

/-- A free entry has no user. -/
theorem users_free (sound : Sound state) (free : (state.entry slot).dev = eof) :
    state.users slot = 0 := by
  refine Finset.sum_eq_zero fun other _ => ?_
  refine List.countP_eq_zero.mpr fun ref present isSlot => ?_
  have names := (sound.refs other ref present).1
  have same : ref.slot = slot := by simpa using isSlot
  rw [← same, names.dev] at free
  exact names.inUse free

/-- `iget` puts a free entry on the list and waits for its block. -/
theorem load (slot : Slot) (nr : Nat) (sound : Sound state) {dev : Nat} {super : Super}
    (outside : state.point task = .outside) (found : state.super dev = some super)
    (missing : ∀ other ∈ super.inodeList, (state.entry other).nr ≠ nr)
    (free : (state.entry slot).dev = eof) (count : Nat) (positive : 0 < count)
    (small : count < 2 ^ 32)
    (reads : state.cache.Reads (self task) kept dev (inodeBlock super.desc nr)) :
    Sound (((state.modifyEntry slot fun entry =>
        { entry with dev := dev, nr := nr, count := count }).setSuper dev
          { super with inodeList := slot :: super.inodeList }).setPoint task
            (.loading ⟨slot, dev, nr⟩)) := by
  obtain ⟨after, isAfter⟩ : ∃ after : State taskCount, after =
      ((state.modifyEntry slot fun entry =>
        { entry with dev := dev, nr := nr, count := count }).setSuper dev
          { super with inodeList := slot :: super.inodeList }).setPoint task
            (.loading ⟨slot, dev, nr⟩) := ⟨_, rfl⟩
  rw [← isAfter]
  have isDevice : dev ≠ eof := by
    rintro rfl
    rw [sound.tabled.noDevice] at found
    cases found
  have own : after.entry slot =
      { state.entry slot with dev := dev, nr := nr, count := count } := by
    simp [isAfter, State.setPoint, State.setSuper, State.modifyEntry]
  have entry (other : Slot) (different : other ≠ slot) :
      after.entry other = state.entry other := by
    simp [isAfter, State.setPoint, State.setSuper, State.modifyEntry, different]
  have cache : after.cache = state.cache := by rw [isAfter]; rfl
  have refs : after.refs = state.refs := by rw [isAfter]; rfl
  have mine : after.point task = .loading ⟨slot, dev, nr⟩ := by
    simp [isAfter, State.setPoint]
  have points (other : Fin taskCount) (different : other ≠ task) :
      after.point other = state.point other := by
    simp [isAfter, State.setPoint, State.setSuper, State.modifyEntry, different]
  have notLoading : ¬state.Loading slot := by
    rintro ⟨other, ref, place, rfl⟩
    have names := (sound.loads other ref place).1
    rw [names.dev] at free
    exact names.inUse free
  have loading (other : Slot) : after.Loading other ↔ other = slot ∨ state.Loading other := by
    constructor
    · rintro ⟨who, ref, place, rfl⟩
      by_cases same : who = task
      · rw [same, mine, Point.loading.injEq] at place
        exact .inl (by rw [← place])
      · exact .inr ⟨who, ref, (points who same).symm.trans place, rfl⟩
    · rintro (rfl | ⟨who, ref, place, isSlot⟩)
      · exact ⟨task, _, mine, rfl⟩
      · have different : who ≠ task := by
          rintro rfl
          cases outside.symm.trans place
        exact ⟨who, ref, (points who different).trans place, isSlot⟩
  have supers (itsDev : Nat) (itsSuper : Super) (isFound : state.super itsDev = some itsSuper) :
      ∃ list, after.super itsDev = some { itsSuper with inodeList := list } := by
    by_cases same : itsDev = dev
    · subst same
      rw [found, Option.some.injEq] at isFound
      subst isFound
      exact ⟨slot :: super.inodeList, by simp [isAfter, State.setPoint, State.setSuper]⟩
    · exact ⟨itsSuper.inodeList, by
        simp [isAfter, State.setPoint, State.setSuper, State.modifyEntry, same, isFound]⟩
  have names (ref : Ref) (before : state.Names ref) : after.Names ref := by
    have different : ref.slot ≠ slot := by
      intro same
      rw [← same, before.dev] at free
      exact before.inUse free
    exact ⟨by rw [entry _ different]; exact before.dev,
      by rw [entry _ different]; exact before.nr, before.inUse⟩
  refine ⟨?tabled, cache ▸ sound.booked, cache ▸ sound.keepers, ?vacant, ?filled, ?loads,
    ?single, ?refs, ?counted, ?loadCount, ?writes, ?noRelease⟩
  case tabled =>
    rw [isAfter]
    exact sound.tabled.add found free missing rfl rfl rfl rfl
  case vacant =>
    intro other
    rw [loading, cache]
    by_cases same : other = slot
    · subst same
      exact fun _ => sound.vacant other (.inl free)
    · rw [entry other same]
      exact fun isVacant => sound.vacant other (isVacant.imp_right fun either =>
        either.resolve_left same)
  case filled =>
    intro other
    rw [loading, cache]
    intro inUse notLoaded
    have different : other ≠ slot := fun same => notLoaded (.inl same)
    rw [entry other different] at inUse
    obtain ⟨id, filled, held⟩ := sound.filled other inUse fun isLoading =>
      notLoaded (.inr isLoading)
    exact ⟨id, filled.of_entry (entry other different) (cache ▸ Cache.Keeps.refl _ _) supers, held⟩
  case loads =>
    intro other ref place
    by_cases same : other = task
    · subst same
      rw [mine, Point.loading.injEq] at place
      subst place
      obtain ⟨list, later⟩ := supers _ _ found
      exact ⟨⟨by rw [own], by rw [own], isDevice⟩, _, kept, later, cache ▸ reads⟩
    · rw [points other same] at place
      obtain ⟨isNamed, itsSuper, itsKept, isFound, itsReads⟩ := sound.loads other ref place
      obtain ⟨list, later⟩ := supers _ _ isFound
      exact ⟨names ref isNamed, _, itsKept, later, cache ▸ itsReads⟩
  case single =>
    intro first second ref also place otherPlace sameSlot
    by_cases isFirst : first = task
    · by_cases isSecond : second = task
      · exact isFirst.trans isSecond.symm
      · rw [isFirst, mine, Point.loading.injEq] at place
        rw [points second isSecond] at otherPlace
        subst place
        exact absurd ⟨second, also, otherPlace, sameSlot.symm⟩ notLoading
    · rw [points first isFirst] at place
      by_cases isSecond : second = task
      · rw [isSecond, mine, Point.loading.injEq] at otherPlace
        subst otherPlace
        exact absurd ⟨first, ref, place, sameSlot⟩ notLoading
      · rw [points second isSecond] at otherPlace
        exact sound.single first second ref also place otherPlace sameSlot
  case refs =>
    intro other ref present
    rw [refs] at present
    obtain ⟨isNamed, notLoaded⟩ := sound.refs other ref present
    refine ⟨names ref isNamed, ?_⟩
    rw [loading]
    rintro (same | isLoading)
    · rw [← same, isNamed.dev] at free
      exact isNamed.inUse free
    · exact notLoaded isLoading
  case counted =>
    intro other
    have users : after.users other = state.users other := by
      unfold State.users
      rw [refs]
    rw [users]
    by_cases same : other = slot
    · subst same
      rw [own, sound.users_free free]
      exact ⟨Nat.zero_le _, small⟩
    · rw [entry other same]
      exact sound.counted other
  case loadCount =>
    intro other
    rw [loading]
    by_cases same : other = slot
    · subst same
      rw [own]
      exact fun _ => positive
    · rw [entry other same]
      exact fun either => sound.loadCount other (either.resolve_left same)
  case writes =>
    intro other ref fitting itsPlace
    obtain ⟨different, place⟩ := State.point_of_ne points itsPlace (by simp [mine])
    obtain ⟨isNone, holds, itWrites⟩ := sound.writes other ref fitting place
    have isNamed := (sound.refs other ref holds).1
    have otherSlot : ref.slot ≠ slot := by
      intro same
      rw [← same, isNamed.dev] at free
      exact isNamed.inUse free
    refine ⟨isNone, refs ▸ holds, ?_⟩
    unfold State.Writes
    rw [cache, entry _ otherSlot]
    exact itWrites
  case noRelease =>
    intro other ref fitting itsPlace
    obtain ⟨_, place⟩ := State.point_of_ne points itsPlace (by simp [mine])
    exact sound.noRelease other ref fitting place

/-- `iget` fills the entry with the buffer that `bread` has returned. -/
theorem fill (sound : Sound state) {super : Super} (place : state.point task = .loading ref)
    (found : state.super ref.dev = some super) (held : state.cache.held (self task) = id :: kept)
    (carries : Cache.Carries state.cache.cache id ref.dev (inodeBlock super.desc ref.nr))
    (valid : (state.cache.cache.buffer id).valid = true) : Sound (state.afterRead task ref id) := by
  have names := (sound.loads task ref place).1
  have loadingNow : state.Loading ref.slot := ⟨task, ref, place, rfl⟩
  have noBuffer := sound.vacant ref.slot (.inr loadingNow)
  have apart := self_ne_keeper task ref.slot
  have holds : id ∈ state.cache.held (self task) := by simp [held]
  obtain ⟨after, isAfter⟩ : ∃ after : State taskCount,
      after = state.afterRead task ref id := ⟨_, rfl⟩
  rw [← isAfter]
  have cache : after.cache =
      passBuffer state.cache (self task) (keeper ref.slot) id := by rw [isAfter]; rfl
  have supers : after.super = state.super := by rw [isAfter]; rfl
  have buffers : after.cache.cache = state.cache.cache := by rw [cache]; rfl
  have pc : after.cache.pc = state.cache.pc := by rw [cache]; rfl
  have own : after.entry ref.slot = { state.entry ref.slot with
      cache := some id, desc := some (id, descIndex (state.entry ref.slot).nr) } := by
    simp [isAfter, State.afterRead, State.give, State.setPoint, State.modifyEntry,
      State.setCache]
  have entry (slot : Slot) (different : slot ≠ ref.slot) :
      after.entry slot = state.entry slot := by
    simp [isAfter, State.afterRead, State.give, State.setPoint, State.modifyEntry,
      State.setCache, different]
  have dev (slot : Slot) : (after.entry slot).dev = (state.entry slot).dev := by
    by_cases same : slot = ref.slot
    · rw [same, own]
    · rw [entry slot same]
  have nr (slot : Slot) : (after.entry slot).nr = (state.entry slot).nr := by
    by_cases same : slot = ref.slot
    · rw [same, own]
    · rw [entry slot same]
  have count (slot : Slot) : (after.entry slot).count = (state.entry slot).count := by
    by_cases same : slot = ref.slot
    · rw [same, own]
    · rw [entry slot same]
  have mine : after.point task = .outside := by
    simp [isAfter, State.afterRead, State.give, State.setPoint]
  have points (other : Fin taskCount) (different : other ≠ task) :
      after.point other = state.point other := by
    simp [isAfter, State.afterRead, State.give, State.setPoint, State.modifyEntry,
      State.setCache, different]
  have refs : after.refs task = ref :: state.refs task := by
    simp [isAfter, State.afterRead, State.give, State.setPoint, State.modifyEntry,
      State.setCache]
  have others (other : Fin taskCount) (different : other ≠ task) :
      after.refs other = state.refs other := by
    simp [isAfter, State.afterRead, State.give, State.setPoint, State.modifyEntry,
      State.setCache, different]
  have heldOther (user : Fin (taskCount + inodeNr)) (notTask : user ≠ self task)
      (notKeeper : user ≠ keeper ref.slot) :
      after.cache.held user = state.cache.held user := by
    rw [cache]
    exact passBuffer_other notTask notKeeper
  have loading (slot : Slot) :
      after.Loading slot ↔ slot ≠ ref.slot ∧ state.Loading slot := by
    constructor
    · rintro ⟨other, also, itsPlace, rfl⟩
      obtain ⟨different, otherPlace⟩ := State.point_of_ne points itsPlace (by simp [mine])
      refine ⟨fun same => different ?_, other, also, otherPlace, rfl⟩
      exact sound.single other task also ref otherPlace place same
    · rintro ⟨notSlot, other, also, otherPlace, isSlot⟩
      have different : other ≠ task := by
        rintro rfl
        rw [place, Point.loading.injEq] at otherPlace
        exact notSlot (by rw [← isSlot, otherPlace])
      exact ⟨other, also, (points other different).trans otherPlace, isSlot⟩
  have namesAfter (also : Ref) (before : state.Names also) : after.Names also :=
    ⟨(dev _).trans before.dev, (nr _).trans before.nr, before.inUse⟩
  refine ⟨?tabled, ?booked, ?keepers, ?vacant, ?filled, ?loads, ?single, ?refs, ?counted,
    ?loadCount, ?writes, ?noRelease⟩
  case tabled =>
    rw [supers, isAfter]
    exact sound.tabled.modify ref.slot rfl rfl rfl rfl
  case booked =>
    rw [cache]
    exact booked_passBuffer sound.booked apart holds
  case keepers =>
    intro slot
    rw [pc]
    exact sound.keepers slot
  case vacant =>
    intro slot
    rw [dev, loading]
    intro isVacant
    have different : slot ≠ ref.slot := by
      rintro rfl
      rcases isVacant with isFree | ⟨notSlot, _⟩
      · rw [names.dev] at isFree
        exact names.inUse isFree
      · exact notSlot rfl
    rw [heldOther _ (self_ne_keeper task slot).symm
      (fun same => different (keeper_injective same))]
    exact sound.vacant slot (isVacant.imp_right And.right)
  case filled =>
    intro slot
    rw [dev, loading]
    intro inUse notLoading
    by_cases same : slot = ref.slot
    · subst same
      refine ⟨id, ⟨by rw [own], by rw [own], ?_, ?_⟩, ?_⟩
      · rw [buffers]
        exact valid
      · rw [supers, dev, nr, names.dev, names.nr, buffers]
        exact ⟨super, found, carries⟩
      · rw [cache, passBuffer_taker apart, noBuffer]
    · obtain ⟨kept, filled, keeps⟩ := sound.filled slot inUse fun isLoading =>
        notLoading ⟨same, isLoading⟩
      refine ⟨kept, filled.of_entry (entry slot same) (buffers ▸ Cache.Keeps.refl _ _)
        fun itsDev itsSuper isFound => ⟨itsSuper.inodeList, by rw [supers]; exact isFound⟩, ?_⟩
      · rw [heldOther _ (self_ne_keeper task slot).symm
          (fun equal => same (keeper_injective equal))]
        exact keeps
  case loads =>
    intro other also itsPlace
    obtain ⟨different, otherPlace⟩ := State.point_of_ne points itsPlace (by simp [mine])
    obtain ⟨isNamed, itsSuper, itsKept, isFound, reads⟩ :=
      sound.loads other also otherPlace
    refine ⟨namesAfter also isNamed, itsSuper, itsKept, by rw [supers]; exact isFound, ?_⟩
    unfold Cache.State.Reads Cache.State.Returned
    rw [pc, buffers, heldOther _ (fun same => different (self_injective same))
      (self_ne_keeper other ref.slot)]
    exact reads
  case single =>
    intro first second also another firstPlace secondPlace
    exact sound.single first second also another
      (State.point_of_ne points firstPlace (by simp [mine])).2
      (State.point_of_ne points secondPlace (by simp [mine])).2
  case refs =>
    intro other also present
    rw [loading]
    by_cases same : other = task
    · rw [same, refs] at present
      rcases List.mem_cons.mp present with rfl | present
      · exact ⟨namesAfter also names, fun isLoading => isLoading.1 rfl⟩
      · obtain ⟨isNamed, notLoading⟩ := sound.refs task also present
        exact ⟨namesAfter also isNamed, fun isLoading => notLoading isLoading.2⟩
    · rw [others other same] at present
      obtain ⟨isNamed, notLoading⟩ := sound.refs other also present
      exact ⟨namesAfter also isNamed, fun isLoading => notLoading isLoading.2⟩
  case counted =>
    intro slot
    have users := State.users_change others slot
    rw [refs, List.countP_cons] at users
    have before := sound.counted slot
    rw [count]
    by_cases same : slot = ref.slot
    · subst same
      have positive := sound.loadCount ref.slot loadingNow
      have unused : state.users ref.slot = 0 := by
        refine Finset.sum_eq_zero fun other _ => ?_
        refine List.countP_eq_zero.mpr fun also present isSlot => ?_
        have same : also.slot = ref.slot := by simpa using isSlot
        exact (sound.refs other also present).2 (by rw [same]; exact loadingNow)
      simp only [decide_true, if_true] at users
      omega
    · simp only [Ne.symm same, decide_false, Bool.false_eq_true, if_false] at users
      omega
  case loadCount =>
    intro slot
    rw [loading, count]
    exact fun isLoading => sound.loadCount slot isLoading.2
  case writes =>
    intro other also fitting itsPlace
    obtain ⟨different, otherPlace⟩ := State.point_of_ne points itsPlace (by simp [mine])
    obtain ⟨isNone, present, itWrites⟩ := sound.writes other also fitting otherPlace
    have otherSlot : also.slot ≠ ref.slot := by
      intro same
      exact (sound.refs other also present).2 (by rw [same]; exact loadingNow)
    refine ⟨isNone, by rw [others other different]; exact present, ?_⟩
    unfold State.Writes
    rw [pc, entry _ otherSlot]
    exact itWrites
  case noRelease =>
    intro other also fitting itsPlace
    obtain ⟨_, otherPlace⟩ := State.point_of_ne points itsPlace (by simp [mine])
    exact sound.noRelease other also fitting otherPlace

/-- `iput` releases the buffer of an entry without users, takes the entry off its
list and frees it. -/
theorem release (sound : Sound state) {released : Cache.State (taskCount + inodeNr)}
    (outside : state.point task = .outside) (inUse : (state.entry slot).dev ≠ eof)
    (notLoading : ¬state.Loading slot) (unused : state.users slot = 0)
    (kept : (state.entry slot).cache = some id)
    (taken : (passBuffer state.cache (keeper slot) (self task) id).step poolSize
      (.brelse (self task) id) = .ok released) :
    Sound (((state.setCache released).unlistInode slot).modifyEntry slot fun entry =>
      { entry with dev := eof }) := by
  obtain ⟨found, isFilled, heldSlot⟩ := sound.filled slot inUse notLoading
  have sameId : found = id := Option.some.inj (isFilled.cache.symm.trans kept)
  subst sameId
  have holds : found ∈ state.cache.held (keeper slot) := by simp [heldSlot]
  have apart := (self_ne_keeper task slot).symm
  have passed := booked_passBuffer sound.booked apart holds
  obtain ⟨after, isAfter⟩ : ∃ after : State taskCount, after =
      ((state.setCache released).unlistInode slot).modifyEntry slot fun entry =>
        { entry with dev := eof } := ⟨_, rfl⟩
  rw [← isAfter]
  have cache : after.cache = released := by rw [isAfter]; rfl
  have own : after.entry slot = { state.entry slot with dev := eof } := by
    simp [isAfter, State.modifyEntry, State.unlistInode, State.setCache]
  have entry (other : Slot) (different : other ≠ slot) :
      after.entry other = state.entry other := by
    simp [isAfter, State.modifyEntry, State.unlistInode, State.setCache, different]
  have count (other : Slot) : (after.entry other).count = (state.entry other).count := by
    by_cases same : other = slot
    · rw [same, own]
    · rw [entry other same]
  have points : after.point = state.point := by rw [isAfter]; rfl
  have refs : after.refs = state.refs := by rw [isAfter]; rfl
  have loading (other : Slot) : after.Loading other ↔ state.Loading other := by
    unfold State.Loading
    rw [points]
  have supers (dev : Nat) (super : Super) (isFound : state.super dev = some super) :
      ∃ list, after.super dev = some { super with inodeList := list } :=
    ⟨super.inodeList.erase slot, by
      simp [isAfter, State.modifyEntry, State.unlistInode, State.setCache, isFound]⟩
  -- Every other user of the cache is where it was.
  have others (user : Fin (taskCount + inodeNr)) (notTask : user ≠ self task)
      (notKeeper : user ≠ keeper slot) :
      released.held user = state.cache.held user ∧
        (released.pc user).forget = (state.cache.pc user).forget := by
    obtain ⟨sameHeld, samePc⟩ := passed.others taken notTask
    exact ⟨sameHeld.trans (passBuffer_other notKeeper notTask), samePc⟩
  have keeps {other : Slot} {id : Nat} (held : state.cache.held (keeper other) = [id]) :
      Cache.Keeps state.cache.cache released.cache id := by
    obtain ⟨carved, used⟩ := sound.referenced held
    refine passed.keeps taken carved ?_
    rw [passBuffer_references apart holds]
    exact used
  have unnamed (ref : Ref) (present : ∃ other, ref ∈ state.refs other) :
      ref.slot ≠ slot := by
    obtain ⟨other, present⟩ := present
    intro same
    have positive := State.users_pos present
    rw [same, unused] at positive
    exact Nat.lt_irrefl _ positive
  have names (ref : Ref) (different : ref.slot ≠ slot) (before : state.Names ref) :
      after.Names ref :=
    ⟨by rw [entry _ different]; exact before.dev,
      by rw [entry _ different]; exact before.nr, before.inUse⟩
  have keeperApart {other : Slot} (different : other ≠ slot) :
      (keeper other : Fin (taskCount + inodeNr)) ≠ keeper slot :=
    fun same => different (keeper_injective same)
  refine ⟨?tabled, cache ▸ passed.step taken, ?keepers, ?vacant, ?filled, ?loads, ?single,
    ?refs, ?counted, ?loadCount, ?writes, ?noRelease⟩
  case tabled =>
    rw [isAfter]
    exact sound.tabled.remove slot rfl rfl rfl
  case keepers =>
    intro other
    rw [cache]
    have samePc := (passed.others taken (self_ne_keeper task other).symm).2
    exact client_of_forget _ samePc (sound.keepers other)
  case vacant =>
    intro other
    rw [loading, cache]
    by_cases same : other = slot
    · subst same
      intro _
      rw [(passed.others taken apart).1, passBuffer_giver apart, heldSlot]
      simp
    · rw [entry other same, (others _ (self_ne_keeper task other).symm
        (keeperApart same)).1]
      exact sound.vacant other
  case filled =>
    intro other
    rw [loading]
    intro otherInUse otherNotLoading
    have different : other ≠ slot := by
      rintro rfl
      rw [own] at otherInUse
      exact otherInUse rfl
    rw [entry other different] at otherInUse
    obtain ⟨keptId, filled, held⟩ := sound.filled other otherInUse otherNotLoading
    have stays := keeps held
    refine ⟨keptId, filled.of_entry (entry other different) (cache ▸ stays) supers, ?_⟩
    · rw [cache, (others _ (self_ne_keeper task other).symm (keeperApart different)).1]
      exact held
  case loads =>
    intro other ref place
    rw [points] at place
    have different : other ≠ task := by
      rintro rfl
      cases outside.symm.trans place
    have userApart : self other ≠ self task := fun same => different (self_injective same)
    obtain ⟨isNamed, super, itsKept, isFound, reads⟩ := sound.loads other ref place
    have otherSlot : ref.slot ≠ slot := fun same => notLoading ⟨other, ref, place, same⟩
    obtain ⟨list, later⟩ := supers _ _ isFound
    refine ⟨names ref otherSlot isNamed, _, itsKept, later, ?_⟩
    rw [cache]
    refine reads_other passed taken userApart ?_
    unfold Cache.State.Reads Cache.State.Returned
    rw [passBuffer_other (self_ne_keeper other slot) userApart]
    exact reads
  case single =>
    intro first second ref also
    rw [points]
    exact sound.single first second ref also
  case refs =>
    intro other ref present
    rw [refs] at present
    rw [loading]
    obtain ⟨isNamed, isNotLoading⟩ := sound.refs other ref present
    exact ⟨names ref (unnamed ref ⟨other, present⟩) isNamed, isNotLoading⟩
  case counted =>
    intro other
    have users : after.users other = state.users other := by
      unfold State.users
      rw [refs]
    rw [users, count]
    exact sound.counted other
  case loadCount =>
    intro other
    rw [loading, count]
    exact sound.loadCount other
  case writes =>
    intro other ref fitting place
    rw [points] at place
    have different : other ≠ task := by
      rintro rfl
      cases outside.symm.trans place
    have userApart : self other ≠ self task := fun same => different (self_injective same)
    obtain ⟨isNone, present, itWrites⟩ := sound.writes other ref fitting place
    refine ⟨isNone, refs ▸ present, ?_⟩
    have samePc := (others _ userApart (self_ne_keeper other slot)).2
    unfold State.Writes
    rw [cache, entry _ (unnamed ref ⟨other, present⟩)]
    intro inside
    obtain ⟨itsId, dev, block, sector, itsCache, position⟩ :=
      itWrites fun back => inside (client_of_forget _ samePc back)
    exact ⟨itsId, dev, block, sector, itsCache, writeIo_of_forget _ samePc position⟩
  case noRelease =>
    rw [points]
    exact sound.noRelease

end Sound

end InodeTable
end LightOS
