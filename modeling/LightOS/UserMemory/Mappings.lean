import LightOS.UserMemory.Kmap

/-!
# Mappings that stay

Runs of `kmap` and `kunmap`.  `kunmap` marks the slot of its address as free however often
the page is still mapped there, so mappings stay exactly as long as every address that is
undone is mapped once.
-/

namespace LightOS
namespace UserMemory
namespace KmapPool

/-! ## Runs -/

/-- A call. -/
inductive Call
  | kmap (paddr : Nat)
  | kunmap (vaddr : Nat)

/-- Carry out a call. -/
def next (s : KmapPool) : Call → Except Fault KmapPool
  | .kmap paddr => do
      let (_, s) ← s.kmap paddr
      return s
  | .kunmap vaddr => s.kunmap vaddr

/-- The addresses given to `kunmap` are those of mappings that have not been undone. -/
def Legal (s : KmapPool) : Call → Prop
  | .kmap paddr => paddr < 2 ^ 32
  | .kunmap vaddr => ∃ paddr, (vaddr, paddr) ∈ s.outstanding

/-- The runs from `kmap_init`. -/
def runs : System KmapPool Call where
  initial s := s = init
  step before call after := before.Legal call ∧ before.next call = .ok after

/-- An address maps a page. -/
def Maps (s : KmapPool) (vaddr paddr : Nat) : Prop :=
  (s.pool (slotOf vaddr)).present = true ∧ (s.pool (slotOf vaddr)).paddr = paddr ∧
    (s.pte (slotOf vaddr)).present = true ∧
      (s.pte (slotOf vaddr)).index = paddr / pageSize

/-- Mappings that have not been undone are in force, and no other page is mapped to their
addresses; without such mappings all slots are free. -/
structure Stable (s : KmapPool) : Prop where
  maps : ∀ vaddr paddr, (vaddr, paddr) ∈ s.outstanding → s.Maps vaddr paddr
  distinct : ∀ vaddr paddr, (vaddr, paddr) ∈ s.outstanding → ∀ other after,
    s.kmap other = .ok (vaddr, after) → other = paddr
  free : s.outstanding = [] → ∀ slot < kmapPoolLen, (s.pool slot).present = false

/-- A mapping is undone only when its address is mapped once. -/
def MappedOnce (s : KmapPool) : Call → Prop
  | .kmap _ => True
  | .kunmap vaddr => (s.outstanding.map Prod.fst).count vaddr = 1

variable {s after : KmapPool} {paddr vaddr slot : Nat}

/-- How often an address is mapped. -/
def uses (s : KmapPool) (vaddr : Nat) : Nat :=
  (s.outstanding.map Prod.fst).count vaddr

/-- The slots agree with the mappings that have not been undone. -/
structure Accounted (s : KmapPool) : Prop where
  held : ∀ vaddr paddr, (vaddr, paddr) ∈ s.outstanding → ∃ slot < kmapPoolLen,
    vaddr = address slot ∧ (s.pool slot).present = true ∧ (s.pool slot).paddr = paddr
  mapped : ∀ slot < kmapPoolLen, (s.pool slot).present = true →
    (s.pte slot).present = true ∧ (s.pte slot).index = (s.pool slot).paddr / pageSize
  counted : ∀ slot < kmapPoolLen, (s.pool slot).present = true →
    0 < s.uses (address slot) ∧ (s.pool slot).cnt = s.uses (address slot) % 2 ^ 31

/-- Erasing the only pair with a key leaves the pairs with other keys. -/
theorem mem_eraseP_key {α β : Type*} [DecidableEq α] {key other : α} {value : β}
    {pairs : List (α × β)} (once : (pairs.map Prod.fst).count key ≤ 1) :
    (other, value) ∈ pairs.eraseP (fun pair => pair.1 = key) ↔
      (other, value) ∈ pairs ∧ other ≠ key := by
  induction pairs with
  | nil => simp
  | cons pair pairs inductionHypothesis =>
      obtain ⟨first, stored⟩ := pair
      rw [List.map_cons, List.count_cons] at once
      by_cases same : first = key
      · subst same
        have noOther : (pairs.map Prod.fst).count first = 0 := by simpa using once
        rw [List.eraseP_cons_of_pos (by simp)]
        refine ⟨fun inRest => ⟨List.mem_cons_of_mem _ inRest, ?_⟩, ?_⟩
        · rintro rfl
          exact List.count_eq_zero.mp noOther (List.mem_map_of_mem inRest)
        · rintro ⟨inAll, different⟩
          rcases List.mem_cons.mp inAll with isFirst | inRest
          · cases isFirst
            exact absurd rfl different
          · exact inRest
      · rw [List.eraseP_cons_of_neg (by simpa using same), List.mem_cons, List.mem_cons,
          inductionHypothesis (by omega)]
        constructor
        · rintro (isFirst | ⟨inRest, different⟩)
          · cases isFirst
            exact ⟨.inl rfl, same⟩
          · exact ⟨.inr inRest, different⟩
        · rintro ⟨isFirst | inRest, different⟩
          · exact .inl isFirst
          · exact .inr ⟨inRest, different⟩

theorem map_eraseP_key {α β : Type*} [DecidableEq α] (pairs : List (α × β)) (key : α) :
    (pairs.eraseP fun pair => pair.1 = key).map Prod.fst = (pairs.map Prod.fst).erase key := by
  rw [List.erase_eq_eraseP', List.eraseP_map]
  congr 1

theorem uses_pos : 0 < s.uses vaddr ↔ ∃ paddr, (vaddr, paddr) ∈ s.outstanding := by
  unfold uses
  rw [List.count_pos_iff, List.mem_map]
  constructor
  · rintro ⟨⟨_, paddr⟩, present, rfl⟩
    exact ⟨paddr, present⟩
  · rintro ⟨paddr, present⟩
    exact ⟨_, present, rfl⟩

theorem accounted_init : init.Accounted where
  held _ _ present := by cases present
  mapped _ _ present := by cases present
  counted _ _ present := by cases present

/-- The address of a free slot is not mapped. -/
theorem Accounted.uses_free (accounted : s.Accounted)
    (free : (s.pool slot).present = false) : s.uses (address slot) = 0 := by
  by_contra used
  obtain ⟨paddr, present⟩ := uses_pos.mp (Nat.pos_of_ne_zero used)
  obtain ⟨other, _, same, isPresent, _⟩ := accounted.held _ _ present
  cases address_inj same
  rw [free] at isPresent
  cases isPresent

theorem Accounted.kmap (accounted : s.Accounted) (word : paddr < 2 ^ 32)
    (mapped : s.kmap paddr = .ok (vaddr, after)) : after.Accounted := by
  obtain ⟨slot, inPool, rfl, high, aligned, outstanding, change⟩ := kmap_spec mapped
  have usesAfter (other : Nat) : after.uses (address other) =
      s.uses (address other) + if other = slot then 1 else 0 := by
    unfold uses
    rw [outstanding, List.map_cons, List.count_cons]
    by_cases same : other = slot
    · simp [same]
    · have different : address slot ≠ address other := fun equal => same (address_inj equal).symm
      simp [same, different]
  rcases change with ⟨isPresent, samePage, pool, pte⟩ | ⟨free, pool, pte⟩
  · have presentAfter (other : Nat) :
        (after.pool other).present = (s.pool other).present ∧
          (after.pool other).paddr = (s.pool other).paddr := by
      rw [pool]
      by_cases same : other = slot
      · subst same
        rw [Function.update_self]
        exact ⟨rfl, rfl⟩
      · rw [Function.update_of_ne same]
        exact ⟨rfl, rfl⟩
    refine ⟨fun vaddr page present => ?held, fun other inside present => ?mapped,
      fun other inside present => ?counted⟩
    case held =>
      rw [outstanding, List.mem_cons] at present
      rcases present with new | old
      · cases new
        exact ⟨slot, inPool, rfl, (presentAfter slot).1.trans isPresent,
          (presentAfter slot).2.trans samePage⟩
      · obtain ⟨other, inside, rfl, otherPresent, otherPage⟩ := accounted.held _ _ old
        exact ⟨other, inside, rfl, (presentAfter other).1.trans otherPresent,
          (presentAfter other).2.trans otherPage⟩
    case mapped =>
      rw [(presentAfter other).1] at present
      rw [pte, (presentAfter other).2]
      exact accounted.mapped other inside present
    case counted =>
      rw [(presentAfter other).1] at present
      obtain ⟨used, cnt⟩ := accounted.counted other inside present
      rw [usesAfter]
      refine ⟨by omega, ?_⟩
      by_cases same : other = slot
      · rw [pool, same, Function.update_self, if_pos rfl]
        rw [same] at cnt
        dsimp only
        omega
      · rw [pool, Function.update_of_ne same, if_neg same]
        exact cnt
  · have unused := accounted.uses_free free
    refine ⟨fun vaddr page present => ?held, fun other inside present => ?mapped,
      fun other inside present => ?counted⟩
    case held =>
      rw [outstanding, List.mem_cons] at present
      rcases present with new | old
      · cases new
        exact ⟨slot, inPool, rfl, by simp [pool], by simp [pool]⟩
      · obtain ⟨other, inside, rfl, otherPresent, otherPage⟩ := accounted.held _ _ old
        have different : other ≠ slot := by
          rintro rfl
          rw [free] at otherPresent
          cases otherPresent
        refine ⟨other, inside, rfl, ?_, ?_⟩
        · rwa [pool, Function.update_of_ne different]
        · rwa [pool, Function.update_of_ne different]
    case mapped =>
      by_cases same : other = slot
      · subst same
        rw [pool, pte, Function.update_self, Function.update_self]
        refine ⟨rfl, Nat.mod_eq_of_lt ?_⟩
        simp only [pageSize]
        omega
      · rw [pool, Function.update_of_ne same] at present
        rw [pool, pte, Function.update_of_ne same, Function.update_of_ne same]
        exact accounted.mapped other inside present
    case counted =>
      rw [usesAfter]
      by_cases same : other = slot
      · rw [same, pool, Function.update_self, if_pos rfl, unused]
        exact ⟨Nat.one_pos, rfl⟩
      · rw [pool, Function.update_of_ne same] at present
        rw [pool, Function.update_of_ne same, if_neg same]
        exact accounted.counted other inside present

/-- A mapping is undone whose address is mapped once. -/
theorem Accounted.kunmap (accounted : s.Accounted) (once : s.uses vaddr = 1)
    (unmapped : s.kunmap vaddr = .ok after) : after.Accounted := by
  obtain ⟨slot, inPool, rfl, outstanding, pool, pte⟩ := kunmap_spec unmapped
  have poolOther (other : Nat) (different : other ≠ slot) : after.pool other = s.pool other := by
    rw [pool, Function.update_of_ne different]
  have pteOther (other : Nat) (different : other ≠ slot) : after.pte other = s.pte other := by
    rw [pte]
    split
    · rw [Function.update_of_ne different]
    · rfl
  have gone : (after.pool slot).present = false := by rw [pool, Function.update_self]
  have isOther {other : Nat} (present : (after.pool other).present = true) : other ≠ slot := by
    rintro rfl
    rw [gone] at present
    cases present
  refine ⟨fun vaddr page present => ?held, fun other inside present => ?mapped,
    fun other inside present => ?counted⟩
  case held =>
    rw [outstanding, mem_eraseP_key (Nat.le_of_eq once)] at present
    obtain ⟨other, inside, rfl, isPresent, isPage⟩ := accounted.held _ _ present.1
    have different : other ≠ slot := fun same => present.2 (by rw [same])
    exact ⟨other, inside, rfl, by rwa [poolOther other different],
      by rwa [poolOther other different]⟩
  case mapped =>
    have different := isOther present
    rw [poolOther other different] at present ⊢
    rw [pteOther other different]
    exact accounted.mapped other inside present
  case counted =>
    have different := isOther present
    rw [poolOther other different] at present ⊢
    have same : after.uses (address other) = s.uses (address other) := by
      unfold uses
      rw [outstanding, map_eraseP_key]
      exact List.count_erase_of_ne fun equal => different (address_inj equal)
    rw [same]
    exact accounted.counted other inside present

/-- Slots that agree with the mappings keep them in force. -/
theorem Accounted.stable (accounted : s.Accounted) : s.Stable where
  maps vaddr paddr present := by
    obtain ⟨slot, inPool, rfl, isPresent, isPage⟩ := accounted.held _ _ present
    obtain ⟨ptePresent, pteIndex⟩ := accounted.mapped slot inPool isPresent
    rw [isPage] at pteIndex
    unfold Maps
    rw [slotOf_address inPool]
    exact ⟨isPresent, isPage, ptePresent, pteIndex⟩
  distinct vaddr paddr present other after mapped := by
    obtain ⟨slot, inPool, rfl, isPresent, isPage⟩ := accounted.held _ _ present
    obtain ⟨found, _, same, _, _, _, change⟩ := kmap_spec mapped
    cases address_inj same
    rcases change with ⟨_, samePage, _⟩ | ⟨free, _⟩
    · exact samePage.symm.trans isPage
    · rw [isPresent] at free
      cases free
  free nothing slot inPool := by
    by_contra used
    obtain ⟨positive, _⟩ := accounted.counted slot inPool (by simpa using used)
    obtain ⟨paddr, present⟩ := uses_pos.mp positive
    rw [nothing] at present
    cases present

theorem Accounted.step (accounted : s.Accounted) {call : Call} (once : s.MappedOnce call)
    (stepped : runs.step s call after) : after.Accounted := by
  obtain ⟨legal, stepped⟩ := stepped
  cases call with
  | kmap paddr =>
      simp only [next, bind_eq_ok] at stepped
      obtain ⟨⟨vaddr, middle⟩, mapped, result⟩ := stepped
      cases result
      exact accounted.kmap legal mapped
  | kunmap vaddr => exact accounted.kunmap once stepped

/-- When an address that is mapped more than once is undone, its slot is marked as free
while a mapping remains. -/
theorem not_stable_of_mappedTwice {call : Call} (twice : ¬s.MappedOnce call)
    (stepped : runs.step s call after) : ¬after.Stable := by
  obtain ⟨legal, stepped⟩ := stepped
  cases call with
  | kmap paddr => exact absurd trivial twice
  | kunmap vaddr =>
      obtain ⟨slot, inPool, rfl, outstanding, pool, _⟩ := kunmap_spec stepped
      have positive : 0 < s.uses (address slot) := uses_pos.mpr legal
      have many : s.uses (address slot) ≠ 1 := twice
      have remains : 0 < after.uses (address slot) := by
        unfold uses at positive many ⊢
        rw [outstanding, map_eraseP_key, List.count_erase_self]
        omega
      intro stable
      obtain ⟨paddr, present⟩ := uses_pos.mp remains
      have inForce := (stable.maps _ _ present).1
      rw [slotOf_address inPool, pool, Function.update_self] at inForce
      cases inForce

/-- The mappings of a run are stable exactly when every address that is undone is mapped
once. -/
theorem stable_iff_mappedOnce {first final : KmapPool} {trace : List (KmapPool × Call)}
    (begins : runs.initial first) (path : runs.Path first trace final) :
    System.Visits Stable trace final ↔ System.Obeys MappedOnce trace := by
  cases begins
  exact path.visits_iff_obeys Accounted accounted_init
    (fun before call after accounted once stepped => accounted.step once stepped)
    (fun state accounted => accounted.stable)
    (fun before call after _ twice stepped => not_stable_of_mappedTwice twice stepped)

/-- The first page that is mapped is mapped at the first slot, where it is found again. -/
theorem kmap_twice : ∃ one two, runs.step init (.kmap 0x1000000) one ∧
    runs.step one (.kmap 0x1000000) two ∧
    one.outstanding = [(address 0, 0x1000000)] ∧ two.uses (address 0) = 2 := by
  have high : kernelMemSize ≤ 0x1000000 := Nat.le_refl _
  have aligned : 0x1000000 % pageSize = 0 := by decide
  have inPool : 0 < kmapPoolLen := by decide
  have word : 0x1000000 < 2 ^ 32 := by decide
  obtain ⟨_, one, atZero, mapped⟩ := @kmap_returns init _ 0 high aligned inPool (.inl rfl)
  cases Nat.le_zero.mp atZero
  obtain ⟨slot, _, same, _, _, oneOutstanding, change⟩ := kmap_spec mapped
  cases address_inj same
  have page : (one.pool 0).paddr = 0x1000000 := by
    rcases change with ⟨isPresent, _⟩ | ⟨_, pool, _⟩
    · cases isPresent
    · rw [pool, Function.update_self]
  obtain ⟨_, two, atZero, again⟩ := kmap_returns high aligned inPool (.inr page)
  cases Nat.le_zero.mp atZero
  obtain ⟨slot, _, same, _, _, twoOutstanding, _⟩ := kmap_spec again
  cases address_inj same
  refine ⟨one, two, ⟨word, ?_⟩, ⟨word, ?_⟩, oneOutstanding, ?_⟩
  · simp only [next, mapped, ok_bind, pure_eq_ok]
  · simp only [next, again, ok_bind, pure_eq_ok]
  · unfold uses
    rw [twoOutstanding, oneOutstanding]
    rfl

/-- The page is mapped once and its mapping is undone. -/
theorem stable_iff_mappedOnce_page :
    ∃ trace final, runs.Path init trace final ∧ trace.length = 2 ∧
      (System.Visits Stable trace final ↔ System.Obeys MappedOnce trace) := by
  obtain ⟨one, _, first, _, outstanding, _⟩ := kmap_twice
  obtain ⟨final, unmapped⟩ := one.kunmap_returns (show 0 < kmapPoolLen by decide)
  have second : runs.step one (.kunmap (address 0)) final :=
    ⟨⟨0x1000000, by simp [outstanding]⟩, unmapped⟩
  have path := (System.Path.nil.cons first).cons second
  exact ⟨_, final, path, rfl, stable_iff_mappedOnce rfl path⟩

/-- A page is mapped twice and one of the mappings is undone. -/
theorem stable_fails : ¬∀ s, runs.Reachable s → s.Stable := by
  intro always
  obtain ⟨one, two, first, second, _, twice⟩ := kmap_twice
  obtain ⟨final, unmapped⟩ := two.kunmap_returns (show 0 < kmapPoolLen by decide)
  have third : runs.step two (.kunmap (address 0)) final :=
    ⟨uses_pos.mp (by omega), unmapped⟩
  have many : ¬two.MappedOnce (.kunmap (address 0)) := by
    change two.uses (address 0) ≠ 1
    omega
  have reached : runs.Reachable final :=
    (((System.ReachableWithin.initial rfl).step trivial first).step trivial second).step
      trivial third
  exact not_stable_of_mappedTwice many third (always final reached)

end KmapPool

end UserMemory
end LightOS
