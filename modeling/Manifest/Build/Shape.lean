import Manifest.Build.Material

/-!
# What a resource body belongs to

The same braces create resources, set defaults for a type or override what exists: it depends on
the expression in front of them.
-/

namespace Manifest.Build

/-- What braces after an expression mean. -/
inductive Shape
  /-- `name { title: … }` -/
  | resource
  /-- `Name { … }` or `Resource[name] { … }` -/
  | defaults
  /-- `Name[title] { … }` -/
  | overrides
  /-- `class { title: … }` -/
  | classes
  /-- they mean nothing there -/
  | none
  deriving DecidableEq, Repr, Inhabited

/-- The name of a shape. -/
def Shape.label : Shape → String
  | .resource => "Resource"
  | .defaults => "Defaults"
  | .overrides => "Override"
  | .classes => "Class"
  | .none => "Error"

/-- The reference to the type of all resources, up to the case of letters. -/
def isResourceType (e : Expr) : Bool :=
  match e.node with
  | .leaf (.reference s) => s.toList.map Char.toLower == "resource".toList
  | _ => false

/-- The shape after an expression. -/
def shapeAfter (e : Expr) : Shape :=
  match e.node with
  | .leaf (.name s) => if s = "class" then .classes else .resource
  | .leaf (.reference _) => .defaults
  | .access left keys => if isResourceType left && keys.length = 1 then .defaults else .overrides
  | _ => .none

/-- The shape after a token. -/
def shapeAfterToken (t : Token) : Shape :=
  match t.kind with
  | .keyword .classWord => .classes
  | .name => .resource
  | .reference => .defaults
  | _ => .none

/-- The shape after what stands in front of the braces. -/
def shape : Material → Shape
  | .string s => if s = "class" then .classes else .none
  | .token t => shapeAfterToken t
  | .expr e => shapeAfter e
  | _ => .none

end Manifest.Build
