import LightOS.UserMemory.Sound

/-!
# Bitmaps in physical pages

One page is allocated for the bits of a task, and the bits of most pages of the region for
`sys_mmap` lie behind it, in the pages of the kernel that follow.  The calls of `Machine` keep
the bits of tasks apart from everything else.  Here they reach the bytes that are there: a
bit behind the page of a bitmap is a bit of another task, or of a word of a directory.
-/

namespace LightOS
namespace UserMemory

open Sched (taskNr userRing3)
open Machine (MmapArgs Label)

/-- The number with the given bits. -/
def fromBits (length : Nat) (bits : Nat → Bool) : Nat :=
  (List.range length).foldr
    (fun position number => if bits position then 2 ^ position + number else number) 0

namespace Entry

/-- A bit of a word. -/
def bit (entry : Entry) : Nat → Bool
  | 0 => entry.present
  | 1 => entry.write
  | 2 => entry.user
  | 3 => entry.pwt
  | 4 => entry.pcd
  | 5 => entry.accessed
  | 6 => entry.dirty
  | 7 => entry.pat
  | 8 => entry.global
  | 9 => entry.shared
  | 10 => entry.privat
  | 11 => entry.readonly
  | position + 12 => entry.index.testBit position

/-- The word with the given bits. -/
def ofBits (bits : Nat → Bool) : Entry :=
  ⟨bits 0, bits 1, bits 2, bits 3, bits 4, bits 5, bits 6, bits 7, bits 8, bits 9, bits 10,
    bits 11, fromBits 20 fun position => bits (position + 12)⟩

end Entry

namespace Physical

/-- The page at an address of the kernel, and the number of the word there. -/
def wordAt (address : Nat) : Nat × Nat :=
  ((address - kernelVaddrOffset) / pageSize, address % pageSize / 4)

/-- The page at an address holds bits of a user task. -/
def holdsBits (s : Machine) (address : Nat) : Bool :=
  (List.range taskNr).any fun pid =>
    match s.tasks pid with
    | some task =>
        task.uid == userRing3 && !task.dead && task.vmap.bits / pageSize == address / pageSize
    | none => false

/-- The bytes of the kernel. -/
def bytes (s : Machine) : Memory :=
  ⟨fun address =>
    if holdsBits s address then
      s.memory address
    else
      let word := s.frames (wordAt address).1 (wordAt address).2
      UInt8.ofNat (fromBits 8 fun position => word.bit (address % 4 * 8 + position))⟩

/-- What is left of the word at an address when the bytes of an interval are cleared. -/
def clearWord (start length address : Nat) (word : Entry) : Entry :=
  if address + 3 < start ∨ start + length ≤ address then
    word
  else
    .ofBits fun position =>
      let byte := address + position / 8
      if start ≤ byte ∧ byte < start + length then false else word.bit position

/-- The words of pages when the bytes of an interval are cleared. -/
def clearFrames (start length : Nat) (frames : Nat → Nat → Entry) : Nat → Nat → Entry :=
  fun frame index =>
    clearWord start length (kernelVaddrOffset + frame * pageSize + index * 4) (frames frame index)

/-- `bitmap_init`. -/
def bitmapInit (s : Machine) (bits length offset : Nat) : Bitmap × Machine :=
  let (map, s) := s.bitmapInit bits length offset
  (map, { s with frames := clearFrames bits length s.frames })

/-- `bitmap_test`. -/
def bitmapTest (s : Machine) (map : Bitmap) (index : Nat) : Except Fault (Bool × Machine) :=
  if (index - map.offset) / 8 < pageSize then
    s.bitmapTest map index
  else do
    let (bit, after) ← { s with memory := bytes s }.bitmapTest map index
    return (bit, { after with memory := s.memory })

/-- `bitmap_set`. -/
def bitmapSet (s : Machine) (map : Bitmap) (index : Nat) (value : Bool) :
    Except Fault Machine :=
  if (index - map.offset) / 8 < pageSize then
    s.bitmapSet map index value
  else do
    let s ← { s with memory := bytes s }.bitmapSet map index value
    let address := map.bits + (index - map.offset) / 8
    let (frame, number) := wordAt address
    let bits := Function.update (s.frames frame number).bit
      (address % 4 * 8 + (index - map.offset) % 8) value
    return s.setWord frame number (.ofBits bits)

/-- The first loop of `bitmap_scan`: the number of the first bit of the run that it finds. -/
def findRun (s : Machine) (map : Bitmap) (count : Nat) : Except Fault (Option Nat) :=
  map.search (bytes s) count (map.length * 8) 0 0

/-- `bitmap_scan`. -/
def bitmapScan (s : Machine) (map : Bitmap) (count : Nat) :
    Except Fault (Option Nat × Machine) := do
  match ← findRun s map count with
  | none => return (none, s)
  | some start =>
      let s ← (List.range count).foldlM
        (fun s index => bitmapSet s map (map.offset + (start + index)) true) s
      return (some (start + map.offset), s)

/-- A round of the loop of `sys_mmap`. -/
def mmapPage (args : MmapArgs) (vmap : Bitmap) (vaddr : Nat) (s : Machine) (index : Nat) :
    Except Fault Machine := do
  let page := (vaddr + pageSize * index) % 2 ^ 32
  let s ← s.linkUserPage page
  let s ← bitmapSet s vmap (page / pageSize) true
  let (entry, s) ← s.getPte page
  return s.write entry (Machine.mmapEntry args (s.read entry))

/-- The address at which `sys_mmap` begins. -/
def mmapStart (s : Machine) (args : MmapArgs) (vmap : Bitmap) :
    Except Fault (Nat × Machine) := do
  if args.addr = 0 then
    let (index, s) ← bitmapScan s vmap (Fs.divRoundUp args.length pageSize)
    return (index.getD eof * pageSize % 2 ^ 32, s)
  else
    return (args.addr, s)

/-- `sys_mmap`. -/
def sysMmap (s : Machine) (args : MmapArgs) : Except Stop (Nat × Machine) := do
  lift (check (args.addr % pageSize = 0))
  lift (check (0 < args.length))
  let task ← lift s.getCurrent
  let (vaddr, s) ← lift (mmapStart s args task.vmap)
  lift (check (userMmapAddr ≤ vaddr ∧ add32 vaddr args.length ≤ userMmapAddr + userMmapSize))
  let s ← lift ((List.range (Fs.divRoundUp args.length pageSize)).foldlM
    (mmapPage args task.vmap vaddr) s)
  match args.file with
  | none => return (vaddr, s)
  | some (size, words) =>
      return (vaddr, ← s.kernelStores vaddr (min size args.length) words)

/-- A round of the loop of `sys_munmap`. -/
def munmapPage (vmap : Bitmap) (vaddr : Nat) (s : Machine) (index : Nat) :
    Except Fault Machine := do
  let page := (vaddr + pageSize * index) % 2 ^ 32
  let s ← s.unlinkUserPage page
  let (bit, s) ← bitmapTest s vmap (page / pageSize)
  check (bit = true)
  bitmapSet s vmap (page / pageSize) false

/-- `sys_munmap`. -/
def sysMunmap (s : Machine) (addr length : Nat) : Except Fault (Int × Machine) := do
  let task ← s.getCurrent
  check (userMmapAddr ≤ addr ∧ add32 addr length ≤ userMmapAddr + userMmapSize)
  check (addr % pageSize = 0)
  let s ← (List.range (Fs.divRoundUp length pageSize)).foldlM (munmapPage task.vmap addr) s
  return (0, s)

/-- `move_to_user_mode`, up to its call of `sys_execve`. -/
def moveToUserMode (s : Machine) (growths : Nat) : Except Fault Machine := do
  let s := { s with pages := ← Paging.grow s.pages Paging.bitmapSize growths }
  let (buf, s) ← s.allocKpage 1
  let (vmap, s) := bitmapInit s buf (userMmapSize / pageSize / 8) (userMmapAddr / pageSize)
  let (pde, s) ← s.copyPde
  return s.modify s.current fun task => { task with vmap := vmap, pde := pde, uid := userRing3 }

/-- Carry out a step. -/
def next (s : Machine) : Label → Except Fault Machine
  | .mmap args => Machine.settle do
      let (_, s) ← sysMmap s args
      return s
  | .munmap addr length => do
      let (_, s) ← sysMunmap s addr length
      return s
  | label => s.next label

/-- The runs of user tasks from the return of `move_to_user_mode` on. -/
def runs (Start : Machine → Prop) : System Machine Label where
  initial s := ∃ before growths, Start before ∧ moveToUserMode before growths = .ok s
  step before label after := before.Takes label ∧ next before label = .ok after

variable {s after : Machine} {map : Bitmap} {task : Task} {args : MmapArgs}
  {vaddr index count : Nat} {value : Bool}

/-- Two loops with the same rounds. -/
theorem foldlM_congr {round other : Machine → Nat → Except Fault Machine} {items : List Nat}
    (same : ∀ item ∈ items, ∀ before, round before item = other before item) (s : Machine) :
    items.foldlM round s = items.foldlM other s := by
  induction items generalizing s with
  | nil => rfl
  | cons item rest inductionHypothesis =>
      rw [List.foldlM_cons, List.foldlM_cons, same item List.mem_cons_self]
      congr 1
      funext next
      exact inductionHypothesis
        (fun other inRest => same other (List.mem_cons_of_mem _ inRest)) next

/-- The bits of pages lie in the page that is allocated for them. -/
def BitsInPage (vaddr count : Nat) : Prop :=
  vaddr / pageSize + count ≤ userMmapAddr / pageSize + 8 * pageSize

/-- A call needs no bits but those in the page of the bitmap. -/
def StaysInPage (s : Machine) : Label → Prop
  | .mmap args =>
      let count := Fs.divRoundUp args.length pageSize
      if args.addr = 0 then
        ∃ task start, s.tasks s.current = some task ∧
          findRun s task.vmap count = .ok (some start) ∧ start + count ≤ 8 * pageSize
      else
        BitsInPage args.addr count
  | .munmap addr length => BitsInPage addr (Fs.divRoundUp length pageSize)
  | _ => True

theorem bitmapSet_eq (inside : (index - map.offset) / 8 < pageSize) :
    bitmapSet s map index value = s.bitmapSet map index value :=
  if_pos inside

theorem bitmapTest_eq (inside : (index - map.offset) / 8 < pageSize) :
    bitmapTest s map index = s.bitmapTest map index :=
  if_pos inside

theorem BitsInPage.inside (bits : BitsInPage vaddr count) (region : Region map)
    (isRound : index < count) :
    ((vaddr + pageSize * index) % 2 ^ 32 / pageSize - map.offset) / 8 < pageSize := by
  simp only [BitsInPage, pageSize, userMmapAddr] at bits
  rw [region.offset]
  simp only [pageSize, userMmapAddr]
  omega

/-- The loop of `sys_mmap`. -/
theorem mmapPages_eq (bits : BitsInPage vaddr count) (region : Region map) (s : Machine) :
    (List.range count).foldlM (mmapPage args map vaddr) s =
      (List.range count).foldlM (Machine.mmapPage args map vaddr) s := by
  refine foldlM_congr (fun index isRound before => ?_) s
  simp only [mmapPage, Machine.mmapPage,
    bitmapSet_eq (bits.inside region (List.mem_range.mp isRound))]

/-- The loop of `sys_munmap`. -/
theorem munmapPages_eq (bits : BitsInPage vaddr count) (region : Region map) (s : Machine) :
    (List.range count).foldlM (munmapPage map vaddr) s =
      (List.range count).foldlM (Machine.munmapPage map vaddr) s := by
  refine foldlM_congr (fun index isRound before => ?_) s
  have inside := bits.inside region (List.mem_range.mp isRound)
  simp only [munmapPage, Machine.munmapPage, bitmapSet_eq inside, bitmapTest_eq inside]

/-- A scan that finds its run in the page sets the bits of the run. -/
theorem bitmapScan_spec {start : Nat} (found : findRun s map count = .ok (some start))
    (inside : start + count ≤ 8 * pageSize) {result : Option Nat}
    (scanned : bitmapScan s map count = .ok (result, after)) :
    result = some (start + map.offset) ∧
      ∃ memory touched, after = { s with memory := memory, touched := touched } ∧
        (∀ other, (∀ index < count, other ≠ start + index) →
          map.bit memory other = map.bit s.memory other) ∧
        ∀ address, address < map.bits ∨ map.bits + map.length ≤ address →
          memory address = s.memory address := by
  simp only [bitmapScan, found, bind_eq_ok, ok_bind] at scanned
  obtain ⟨middle, marked, result⟩ := scanned
  cases result
  refine ⟨rfl, foldlM_invariant
    (fun middle => ∃ memory touched, middle = { s with memory := memory, touched := touched } ∧
      (∀ other, (∀ index < count, other ≠ start + index) →
        map.bit memory other = map.bit s.memory other) ∧
      ∀ address, address < map.bits ∨ map.bits + map.length ≤ address →
        memory address = s.memory address)
    (fun before index next isRound isKept isSet => ?_)
    ⟨_, _, rfl, fun _ _ => rfl, fun _ _ => rfl⟩ marked⟩
  obtain ⟨memory, touched, rfl, bits, outside⟩ := isKept
  have below := List.mem_range.mp isRound
  have isBit : (map.offset + (start + index) - map.offset) / 8 < pageSize := by
    simp only [pageSize] at inside ⊢
    omega
  rw [bitmapSet_eq isBit] at isSet
  obtain ⟨_, _, ⟨memory, touched, rfl⟩, bitsSet, outsideSet⟩ := Machine.bitmapSet_spec isSet
  refine ⟨memory, touched, rfl, fun other away => ?_, fun address away => ?_⟩
  · exact (bitsSet other).trans ((if_neg (by have := away index below; omega)).trans
      (bits other away))
  · exact (outsideSet address away).trans (outside address away)

/-- The address at which `sys_mmap` begins. -/
theorem mmapStart_spec (region : Region task.vmap) (present : s.tasks s.current = some task)
    (stays : StaysInPage s (.mmap args))
    (started : mmapStart s args task.vmap = .ok (vaddr, after)) :
    BitsInPage vaddr (Fs.divRoundUp args.length pageSize) ∧
      (args.addr % pageSize = 0 → vaddr % pageSize = 0) ∧
      ∃ memory touched, after = { s with memory := memory, touched := touched } ∧
        (∀ other, (∀ page ∈ Machine.pagesFrom vaddr args.length,
            other ≠ page / pageSize - task.vmap.offset) →
          task.vmap.bit memory other = task.vmap.bit s.memory other) ∧
        ∀ address, address < task.vmap.bits ∨ task.vmap.bits + task.vmap.length ≤ address →
          memory address = s.memory address := by
  by_cases given : args.addr = 0
  · simp only [StaysInPage, if_pos given] at stays
    obtain ⟨other, start, isOther, found, inside⟩ := stays
    rw [present] at isOther
    cases isOther
    simp only [mmapStart, if_pos given, bind_eq_ok] at started
    obtain ⟨⟨result, middle⟩, scanned, isStart⟩ := started
    obtain ⟨rfl, memory, touched, rfl, bits, outside⟩ := bitmapScan_spec found inside scanned
    cases isStart
    refine ⟨?_, fun _ => ?_, memory, touched, rfl, fun other away => bits other
      fun index inRange => ?_, outside⟩
    · simp only [BitsInPage, Option.getD_some, region.offset]
      simp only [pageSize, userMmapAddr] at inside ⊢
      omega
    · change (start + task.vmap.offset) * 4096 % 2 ^ 32 % 4096 = 0
      omega
    · have differs := away _ (List.mem_map.mpr ⟨index, List.mem_range.mpr inRange, rfl⟩)
      have offset := region.offset
      change task.vmap.offset = 65536 at offset
      change start + _ ≤ 32768 at inside
      change other ≠ ((start + task.vmap.offset) * 4096 % 2 ^ 32 + 4096 * index) % 2 ^ 32 / 4096 -
        task.vmap.offset at differs
      omega
  · simp only [StaysInPage, if_neg given] at stays
    simp only [mmapStart, if_neg given] at started
    cases started
    exact ⟨stays, id, _, _, rfl, fun _ _ => rfl, fun _ _ => rfl⟩

/-- `sys_mmap` keeps the tables in order, and the tasks. -/
theorem sysMmap_serves {spaces : Spaces} {pid dir : Nat} (inUse : s.InUse spaces pid dir userTables)
    (region : Region task.vmap) (present : s.tasks s.current = some task)
    (stays : StaysInPage s (.mmap args)) :
    Leaves (fun after => Machine.Serves spaces pid dir s after ∧ after.tasks = s.tasks) (do
      let (_, s) ← sysMmap s args
      return s) := by
  unfold sysMmap
  simp only [bind_assoc]
  refine .bind_lift fun _ _ => .bind_lift fun _ _ => .bind_lift fun other isTask => ?_
  rw [Machine.getCurrent_present present] at isTask
  cases isTask
  refine .bind_lift fun found started => .bind_lift fun _ _ => .bind_lift fun two mapped => ?_
  obtain ⟨start, one⟩ := found
  obtain ⟨bits, _, memory, touched, rfl, _⟩ := mmapStart_spec region present stays started
  rw [mmapPages_eq bits region] at mapped
  have first : Machine.Serves spaces pid dir s { s with memory := memory, touched := touched } :=
    .of_tasks inUse (fun _ => rfl) (fun _ _ => rfl) memory touched
  have second := first.trans (Machine.mmapPages_spec first.inUse region mapped).1
  have same : two.tasks = ({ s with memory := memory, touched := touched } : Machine).tasks :=
    Machine.foldlM_tasks (fun _ _ _ mapped => Machine.mmapPage_tasks mapped) mapped
  cases args.file with
  | none => exact .ok ⟨second, same⟩
  | some file =>
      dsimp only
      simp only [bind_assoc]
      have serves := Machine.kernelStores_serves second.inUse start (min file.1 args.length) file.2
      have kept := Machine.kernelStores_kept two start (min file.1 args.length) file.2
      have stored : Leaves
          (fun after => Machine.Serves spaces pid dir s after ∧ after.tasks = s.tasks)
          (two.kernelStores start (min file.1 args.length) file.2) :=
        ⟨fun three stored => ⟨second.trans (serves.1 _ stored),
          (kept.1 _ stored).tasks.trans same⟩,
        fun status three stored => ⟨second.trans (serves.2 status _ stored),
          (kept.2 status _ stored).tasks.trans same⟩⟩
      exact .bind stored fun three returned => .ok (stored.1 three returned)

/-- A call of `sys_munmap` that stays in the page is one of `Machine`. -/
theorem sysMunmap_eq {length : Nat} (region : Region task.vmap)
    (present : s.tasks s.current = some task) (stays : StaysInPage s (.munmap vaddr length)) :
    sysMunmap s vaddr length = s.sysMunmap vaddr length := by
  have isTask := Machine.getCurrent_present present
  simp only [sysMunmap, Machine.sysMunmap, isTask, ok_bind, munmapPages_eq stays region]

/-- A step that needs no bits but those in the page of the bitmap keeps tables and accounts in
order. -/
theorem next_sound {label : Label} (sound : s.Sound) (heap : s.HeapBounded)
    (takes : s.Takes label) (stays : StaysInPage s label) (stepped : next s label = .ok after) :
    after.Sound ∧ after.HeapBounded := by
  cases label with
  | mmap args =>
      obtain ⟨task, present, live⟩ := takes
      have region := (sound.furnished _ task present live).region
      have leaves := sysMmap_serves (sound.inUse present live) region present stays
      refine sound.settle heap present live (leaves.mono fun _ served => served.1.toOrders)
        (fun after called other presentAfter isLive => ?_) stepped
      rw [(leaves.1 after called).2] at presentAfter
      exact heap _ other presentAfter isLive
  | munmap addr length =>
      have isAlive := takes
      obtain ⟨task, present, live⟩ := isAlive
      have region := (sound.furnished _ task present live).region
      simp only [next, sysMunmap_eq region present stays] at stepped
      exact sound.next heap takes stepped
  | _ => exact sound.next heap takes stepped

/-! ## The first user task -/

/-- Clearing bytes sets no bit of the word. -/
theorem clearWord_absent {start length address : Nat} {word : Entry}
    (absent : word.present = false) : (clearWord start length address word).present = false := by
  unfold clearWord
  split
  · exact absent
  · change (if _ then false else word.present) = false
    rw [absent, ite_self]

theorem clearWord_guarded {start length address : Nat} {word : Entry}
    (guarded : word.user = false) : (clearWord start length address word).user = false := by
  unfold clearWord
  split
  · exact guarded
  · change (if _ then false else word.user) = false
    rw [guarded, ite_self]

/-- `move_to_user_mode` is that of `Machine`, with other words in the pages of the kernel. -/
theorem moveToUserMode_eq {growths : Nat} (booted : s.Booted)
    (entered : moveToUserMode s growths = .ok after) :
    ∃ before : Machine, before.Booted ∧ before.current = s.current ∧
      before.moveToUserMode growths = .ok after := by
  simp only [moveToUserMode, Machine.allocKpage, bind_eq_ok] at entered
  obtain ⟨pages, grown, ⟨buf, one⟩, ⟨⟨vaddr, pagesOne⟩, allocated, isOne⟩, ⟨target, two⟩, copied,
    result⟩ := entered
  cases isOne
  refine ⟨{ s with frames := clearFrames vaddr (userMmapSize / pageSize / 8) s.frames },
    { booted with
      absent := fun index isUser => clearWord_absent (booted.absent index isUser)
      guarded := fun index isKernel => clearWord_guarded (booted.guarded index isKernel) },
    rfl, ?_⟩
  simp only [Machine.moveToUserMode, Machine.allocKpage, bind_eq_ok]
  exact ⟨pages, grown, ⟨vaddr, _⟩, ⟨⟨vaddr, pagesOne⟩, allocated, rfl⟩, ⟨target, two⟩, copied,
    result⟩

/-- Tables and accounts are in order in every state that user tasks reach while they need no
bits but those in the pages of their bitmaps. -/
theorem sound_of_reachable
    (reached : (runs fun before => before.Booted ∧ before.current < 2).ReachableWithin
      StaysInPage s) : s.Sound ∧ s.HeapBounded := by
  refine reached.invariant (fun s => s.Sound ∧ s.HeapBounded) ?_ ?_
  · rintro s ⟨before, growths, ⟨booted, isInit⟩, entered⟩
    obtain ⟨other, isBooted, isCurrent, entered⟩ := moveToUserMode_eq booted entered
    exact Machine.sound_of_reachable
      (.initial ⟨other, growths, ⟨isBooted, isCurrent ▸ isInit⟩, entered⟩)
  · rintro before label after ⟨sound, heap⟩ stays ⟨takes, stepped⟩
    exact next_sound sound heap takes stays stepped

/-- The first user task. -/
theorem fresh_enters : ∃ s task,
    (runs fun before => before.Booted ∧ before.current < 2).ReachableWithin StaysInPage s ∧
      moveToUserMode Machine.fresh 0 = .ok s ∧ s.tasks s.current = some task ∧ task.Live := by
  have returns : (moveToUserMode Machine.fresh 0).toBool = true := by decide +kernel
  obtain ⟨s, entered⟩ := Machine.exists_of_toBool returns
  obtain ⟨before, booted, isCurrent, alsoEntered⟩ :=
    moveToUserMode_eq Machine.fresh_booted entered
  obtain ⟨_, current, task, tasks, live, _⟩ := booted.enters (isCurrent ▸ by decide) alsoEntered
  refine ⟨s, task, .initial ⟨Machine.fresh, 0, ⟨Machine.fresh_booted, by decide⟩, entered⟩,
    entered, ?_, live⟩
  rw [current, tasks, Function.update_self]

/-- Carry out a step that may be taken. -/
def take (s : Machine) (label : Label) : Except Fault Machine := do
  check (s.Takes label)
  next s label

theorem reachable_of_take {Start : Machine → Prop} {labels : List Label}
    (reached : (runs Start).ReachableWithin StaysInPage s)
    (stays : ∀ label ∈ labels, ∀ before, StaysInPage before label)
    (taken : labels.foldlM take s = .ok after) :
    (runs Start).ReachableWithin StaysInPage after := by
  refine foldlM_invariant ((runs Start).ReachableWithin StaysInPage)
    (fun before label next present reached stepped => ?_) reached taken
  simp only [take, bind_eq_ok, check_eq_ok] at stepped
  obtain ⟨_, takes, stepped⟩ := stepped
  exact reached.step (stays label present before) ⟨takes, stepped⟩

/-! ## The counts of user pages -/

/-- The number of entries of directories and tables of user tasks that refer to a page. -/
abbrev entriesTo (s : Machine) (page : Nat) : Nat :=
  rowPointers places (refersIn s.frames (spacesOf s.tasks)) page

/-- `mem_map` counts the entries that refer to a user page, so that no page in use is handed
out and none is lost. -/
structure Counted (s : Machine) : Prop where
  counts : ∀ page, UserPage s.pages page → (s.pages.memMap page).toNat = entriesTo s page
  unused : ∀ paddr after, s.pages.getUserPage = .ok (paddr, after) →
    entriesTo s (paddr / pageSize) = 0
  available : ∀ page, UserPage s.pages page → entriesTo s page = 0 → s.pages.memMap page = 0

theorem counted_of_sound (sound : s.Sound) : Counted s := by
  have counts (page : Nat) (user : UserPage s.pages page) :
      (s.pages.memMap page).toNat = entriesTo s page := sound.tables.accounts.tallied page user
  refine ⟨counts, fun paddr after got => ?_, fun page user none => ?_⟩
  · obtain ⟨frame, above, below, rfl, free, _⟩ := PageMaps.getUserPage_spec got
    have positive : 0 < pageSize := by decide
    rw [Nat.mul_div_cancel _ positive, ← counts frame ⟨above, below⟩, free]
    rfl
  · rw [← counts page user] at none
    exact UInt8.toNat_inj.mp none

/-- The counts of user pages are right in every run of user tasks that needs no bits but
those in the pages of the bitmaps. -/
theorem counted_of_staysInPage
    (reached : (runs fun before => before.Booted ∧ before.current < 2).ReachableWithin
      StaysInPage s) : Counted s :=
  counted_of_sound (sound_of_reachable reached).1

/-- The arguments for a private page that may be written to. -/
def singlePage (addr : Nat) : MmapArgs :=
  ⟨addr, pageSize, protWrite, mapPrivate, none⟩

/-- The first user task maps a page at the start of the region. -/
theorem counted_of_staysInPage_mmap : ∃ s after : Machine,
    next s (.mmap (singlePage userMmapAddr)) = .ok after ∧
      Counted after := by
  have computed : (moveToUserMode Machine.fresh 0 >>= fun s => do
      check (s.Takes (.mmap (singlePage userMmapAddr)))
      next s (.mmap (singlePage userMmapAddr))).toBool = true := by
    decide +kernel
  obtain ⟨after, ran⟩ := Machine.exists_of_toBool computed
  simp only [bind_eq_ok, check_eq_ok] at ran
  obtain ⟨s, entered, _, takes, mapped⟩ := ran
  have start : (runs fun before => before.Booted ∧ before.current < 2).ReachableWithin
      StaysInPage s := .initial ⟨Machine.fresh, 0, ⟨Machine.fresh_booted, by decide⟩, entered⟩
  have stays : StaysInPage s (.mmap (singlePage userMmapAddr)) := by
    change userMmapAddr / pageSize + Fs.divRoundUp pageSize pageSize ≤ _
    decide
  exact ⟨s, after, mapped, counted_of_staysInPage (start.step stays ⟨takes, mapped⟩)⟩

/-- The address in the region whose bit is the bit 13 of the last word for user programs of
the page behind the bits. -/
abbrev straying : Nat :=
  userMmapAddr + ((pageSize + (userTables - 1) * 4) * 8 + 13) * pageSize

/-- The first user task writes to its stack and maps a page.  The bit of that page is one of
the entry for the stack in the directory of the task, which follows the bits. -/
theorem counted_fails : ¬∀ s, (runs fun before => before.Booted ∧ before.current < 2).Reachable s →
    Counted s := by
  intro always
  have computed : (moveToUserMode Machine.fresh 0 >>= fun first => do
      check (first.Takes (.access Machine.stackPage (some .zero)))
      let second ← next first (.access Machine.stackPage (some .zero))
      check (second.Takes (.mmap (singlePage straying)))
      let s ← next second (.mmap (singlePage straying))
      let task ← s.getCurrent
      check (s.current = 1 ∧ task.uid = userRing3 ∧ task.dead = false)
      check ((s.frames (task.pde / pageSize) 767).page = some 4098)
      check ((s.frames (task.pde / pageSize) (pdeIdx straying)).page = some 4098)
      check (s.pages.totalPages = 8192 ∧ s.pages.memMap 4098 = 1)).toBool = true := by
    decide +kernel
  obtain ⟨_, ran⟩ := Machine.exists_of_toBool computed
  simp only [bind_eq_ok, check_eq_ok] at ran
  obtain ⟨first, entered, _, accessing, second, stored, _, mapping, s, mapped, task, isTask, _,
    ⟨isCurrent, live⟩, _, stack, _, region, total, once⟩ := ran
  have start : (runs fun before => before.Booted ∧ before.current < 2).Reachable first :=
    .initial ⟨Machine.fresh, 0, ⟨Machine.fresh_booted, by decide⟩, entered⟩
  have reached := (start.step trivial ⟨accessing, stored⟩).step trivial ⟨mapping, mapped⟩
  have counted := (always s reached).counts 4098 ⟨by decide, by rw [total]; decide⟩
  have present := Machine.present_of_getCurrent isTask
  rw [isCurrent] at present
  have space := spacesOf_live present live
  have refers (index : Nat) (isUser : index < userTables) :
      refersIn s.frames (spacesOf s.tasks) (1, index, 0) =
        (s.frames (task.pde / pageSize) index).page := tableOf_eq space isUser
  -- The tables for the stack and for the page are the same now.
  have two : 1 < entriesTo s 4098 := by
    refine Finset.one_lt_card.mpr ⟨(1, 767, 0), ?_, (1, pdeIdx straying, 0), ?_, by decide⟩
    · exact Finset.mem_filter.mpr ⟨mem_places.mpr (by decide), (refers _ (by decide)).trans stack⟩
    · exact Finset.mem_filter.mpr ⟨mem_places.mpr (by decide), (refers _ (by decide)).trans region⟩
  rw [← counted, once] at two
  exact absurd two (by decide)

end Physical

end UserMemory
end LightOS
