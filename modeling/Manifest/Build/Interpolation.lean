import Manifest.Build.Material

/-!
# Expressions inside strings

In a string, `${x.each}` means `${$x.each}`: a name or a decimal number at the head of the
expression is a variable.

* `readHead` makes that change.
-/

namespace Manifest.Build

/-- The leaf is a name or a decimal number. -/
def isBareName : Leaf → Bool
  | .name _ | .integer _ .decimal => true
  | _ => false

/-- The expression with a bare name at its head read as a variable. The head is found by way of
the left-hand sides of accesses and the functors of method calls. -/
def readHead : Expr → Expr
  | ⟨.leaf l, range⟩ =>
      if isBareName l then ⟨.unary .dollar ⟨.leaf l, range⟩, range⟩ else ⟨.leaf l, range⟩
  | ⟨.access left keys, range⟩ => ⟨.access (readHead left) keys, range⟩
  | ⟨.binary .dot left right, range⟩ => ⟨.binary .dot (readHead left) right, range⟩
  | ⟨.call .method valueRequired functor args block, range⟩ =>
      ⟨.call .method valueRequired (readHead functor) args block, range⟩
  | e => e

/-- `${e}` inside a string. -/
def text (e : Material) : Except Error Expr :=
  e.toExpr.map fun e => .ofNode (.unary .text (readHead e))

end Manifest.Build
