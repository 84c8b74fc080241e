import Mathlib.Logic.Basic
import Mathlib.Data.Option.Basic

/-!
# Trees of parents

Nodes with at most one parent each, some of them roots.  A node is rooted when its
ancestors lead to a root.  Rooted nodes stay rooted when leaves come and go, and when
the children of a node move to the parent of the node.
-/

namespace LightOS
namespace Ancestry

variable {Node : Type*}

/-- The ancestors of a node lead to a root. -/
inductive Rooted (isRoot : Node → Prop) (parent : Node → Option Node) : Node → Prop
  | root {node : Node} : isRoot node → Rooted isRoot parent node
  | child {node up : Node} :
      parent node = some up → Rooted isRoot parent up → Rooted isRoot parent node

namespace Rooted

variable {isRoot : Node → Prop} {parent later : Node → Option Node} {node up : Node}

theorem present (roots : ∀ root, isRoot root → (parent root).isSome)
    (rooted : Rooted isRoot parent node) : (parent node).isSome := by
  cases rooted with
  | root isRoot => exact roots node isRoot
  | child isParent _ => rw [isParent, Option.isSome_some]

/-- The ancestors stay the same. -/
theorem mono (kept : ∀ node up, ¬isRoot node → parent node = some up → later node = some up)
    (rooted : Rooted isRoot parent node) : Rooted isRoot later node := by
  induction rooted with
  | root isRoot => exact .root isRoot
  | @child node up isParent _ inductionHypothesis =>
      by_cases isRootNode : isRoot node
      · exact .root isRootNode
      · exact .child (kept node up isRootNode isParent) inductionHypothesis

/-- A node without children goes. -/
theorem drop {leaf : Node} (kept : ∀ node up, node ≠ leaf → parent node = some up →
      later node = some up) (childless : ∀ node, ¬isRoot node → parent node ≠ some leaf)
    (rooted : Rooted isRoot parent node) (stays : node ≠ leaf) :
    Rooted isRoot later node := by
  induction rooted with
  | root isRoot => exact .root isRoot
  | @child node up isParent _ inductionHypothesis =>
      by_cases isRootNode : isRoot node
      · exact .root isRootNode
      · have apart : up ≠ leaf := by
          rintro rfl
          exact childless node isRootNode isParent
        exact .child (kept node up stays isParent) (inductionHypothesis apart)

/-- The children of a node move to its parent. -/
theorem adopt [DecidableEq Node] {leaver grand : Node} (isGrand : parent leaver = some grand)
    (atRoot : isRoot leaver → isRoot grand)
    (moved : ∀ node up, parent node = some up →
      later node = some (if up = leaver then grand else up))
    (rooted : Rooted isRoot parent node) : Rooted isRoot later node := by
  have grandMoved : later leaver = some grand := by
    rw [moved leaver grand isGrand]
    split <;> rfl
  induction rooted with
  | root isRoot => exact .root isRoot
  | @child node up isParent _ inductionHypothesis =>
      have movedUp := moved node up isParent
      by_cases same : up = leaver
      · subst same
        rw [if_pos rfl] at movedUp
        cases inductionHypothesis with
        | root isRoot => exact .child movedUp (.root (atRoot isRoot))
        | child isUp rootedGrand =>
            rw [grandMoved] at isUp
            cases isUp
            exact .child movedUp rootedGrand
      · rw [if_neg same] at movedUp
        exact .child movedUp inductionHypothesis

/-- No node other than a root is its own parent. -/
theorem ne_parent (rooted : Rooted isRoot parent node) (notRoot : ¬isRoot node) :
    parent node ≠ some node := by
  intro isOwn
  induction rooted with
  | root isRoot => exact notRoot isRoot
  | child isParent _ inductionHypothesis =>
      have same := Option.some.inj (isParent.symm.trans isOwn)
      rw [same] at inductionHypothesis
      exact inductionHypothesis notRoot isOwn

/-- No two nodes other than roots are parents of each other. -/
theorem not_mutual (rooted : Rooted isRoot parent node) {other : Node}
    (notRoot : ¬isRoot node) (otherNotRoot : ¬isRoot other)
    (isParent : parent node = some other) : parent other ≠ some node := by
  intro isChild
  induction rooted generalizing other with
  | root isRoot => exact notRoot isRoot
  | child isUp _ inductionHypothesis =>
      have same := Option.some.inj (isUp.symm.trans isParent)
      subst same
      exact inductionHypothesis otherNotRoot notRoot isChild isParent

end Rooted
end Ancestry
end LightOS
