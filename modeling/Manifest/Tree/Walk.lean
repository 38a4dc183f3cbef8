import Manifest.Tree.Size

/-!
# Walking a tree

* `Expr.nodes` lists an expression and everything below it, each node before its children.
-/

namespace Manifest

/-- The expression and all below it, each before its sub-expressions. -/
def Expr.nodes (e : Expr) : List Expr :=
  e :: e.children.attach.flatMap fun ⟨c, _⟩ => c.nodes
termination_by sizeOf e
decreasing_by exact sizeOf_lt_of_mem_children (by assumption)

/-- An expression comes before all below it. -/
theorem Expr.nodes_eq (e : Expr) : e.nodes = e :: e.children.flatMap Expr.nodes := by
  rw [nodes]
  simp

end Manifest
