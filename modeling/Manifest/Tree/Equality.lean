import Manifest.Tree.Walk

/-!
# Equality of trees

Trees are equal when their nodes and their ranges are. Floats are compared as numbers. Of the
excerpt that a here-doc's text refers to, only the text and the offset count.
-/

namespace Manifest

/-- Equality of leaves. -/
def Leaf.same : Leaf → Leaf → Bool
  | .float x, .float y => x.same y
  | a, b => a == b

/-- Equality of nodes without their sub-expressions. -/
def Node.sameHead : Node Unit → Node Unit → Bool
  | .leaf a, .leaf b => a.same b
  | .located s _, .located t _ => s.body.text == t.body.text && s.leadingOffset == t.leadingOffset
  | a, b => a == b

/-- Equality of trees. -/
def Expr.same (e f : Expr) : Bool :=
  e.range == f.range && e.node.head.sameHead f.node.head
    && (e.children.attach.zip f.children).all fun (⟨c, _⟩, d) => c.same d
termination_by sizeOf e
decreasing_by exact sizeOf_lt_of_mem_children (by assumption)

end Manifest
