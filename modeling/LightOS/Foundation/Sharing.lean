import LightOS.Foundation.Slots

/-!
# Counts of references

Places refer to pages, and every page counts the places that refer to it.  The counts stay
right when a place begins to refer to a page that counts one more, and when it gives up a
page that counts one less.
-/

namespace LightOS

variable {Place Page : Type*} [DecidableEq Page]

/-- The pages of a domain count the places that refer to them. -/
def Tallied (domain : Page → Prop) (places : Finset Place) (refers : Place → Option Page)
    (count : Page → Nat) : Prop :=
  ∀ page, domain page → count page = rowPointers places refers page

namespace Tallied

variable {domain : Page → Prop} {places : Finset Place} {refers later : Place → Option Page}
  {count counts : Page → Nat} {place other : Place} {page : Page}

/-- A page that a place refers to is counted. -/
theorem positive (tallied : Tallied domain places refers count) (inside : domain page)
    (isPlace : place ∈ places) (refersTo : refers place = some page) : 0 < count page := by
  rw [tallied page inside, rowPointers, Finset.card_pos]
  exact ⟨place, Finset.mem_filter.mpr ⟨isPlace, refersTo⟩⟩

/-- No place refers to a page that is not counted. -/
theorem unused (tallied : Tallied domain places refers count) (inside : domain page)
    (free : count page = 0) (isPlace : place ∈ places) : refers place ≠ some page := by
  intro refersTo
  have counted := tallied.positive inside isPlace refersTo
  omega

variable [DecidableEq Place]

/-- A place begins to refer to a page. -/
theorem take (tallied : Tallied domain places refers count) (isPlace : place ∈ places)
    (free : refers place = none)
    (counted : ∀ other, domain other →
      counts other = count other + if page = other then 1 else 0) :
    Tallied domain places (Function.update refers place (some page)) counts := by
  intro other inside
  rw [counted other inside, rowPointers_fill isPlace free, tallied other inside]

/-- A place gives up a page. -/
theorem give (tallied : Tallied domain places refers count) (isPlace : place ∈ places)
    (refersTo : refers place = some page)
    (counted : ∀ other, domain other →
      count other = counts other + if page = other then 1 else 0) :
    Tallied domain places (Function.update refers place none) counts := by
  intro other inside
  have before := tallied other inside
  rw [counted other inside, rowPointers_clear isPlace refersTo] at before
  exact Nat.add_right_cancel before

end Tallied

end LightOS
