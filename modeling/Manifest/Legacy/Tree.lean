import Manifest.Tree.Basic

/-!
# Legacy trees

The form of trees that the older evaluator reads. It has fewer variants: numbers are names, and
resources are missing. A tree is a node and the place it stems from, if that is known; `Node ν` is
one level of the tree.

* `same` is equality of trees, places included; `sameNode` is equality of their nodes.
* `Node.label` names the variant of a node.
-/

namespace Manifest.Legacy

/-- The place a tree stems from. -/
structure Location where
  file : String
  line : Nat
  column : Nat
  deriving DecidableEq, Repr, Inhabited

/-! ## Parts -/

/-- `key => value`, in a hash or in a selector. -/
structure Pair (ν : Type) where
  key : ν
  value : ν
  deriving Inhabited

/-- `values: { body }` in a case expression. -/
structure Choice (ν : Type) where
  values : List ν
  body : ν
  deriving Inhabited

/-- A parameter and its default. -/
structure Argument (ν : Type) where
  name : String
  value : Option ν
  deriving Inhabited

/-- `name => value` or `name +> value`. -/
structure Setting (ν : Type) where
  name : String
  op : AttributeOp
  value : ν
  deriving Inhabited

/-! ## Nodes -/

/-- A node without parts. -/
inductive Leaf
  | nop
  | undef
  | default
  | name (s : String)
  | type (s : String)
  | string (s : String)
  | boolean (b : Bool)
  | regex (pattern : String)
  | dollar (name : String)
  /-- the name of a host, or a pattern for it -/
  | host (text : String) (isPattern : Bool)
  deriving DecidableEq, Repr, Inhabited

/-- What joins two values. -/
inductive BinaryOp
  | arithmetic (op : ArithmeticOp)
  | comparison (op : ComparisonOp)
  | matching (op : MatchOp)
  | relationship (op : RelationshipOp)
  | membership
  | conjunction
  | disjunction
  deriving DecidableEq, Repr, Inhabited

/-- What is done to one value. -/
inductive UnaryOp
  | minus
  | negation
  deriving DecidableEq, Repr, Inhabited

/-- What a query asks: tests of values, and tests joined. -/
inductive TestOp
  | eq
  | ne
  | conjunction
  | disjunction
  deriving DecidableEq, Repr, Inhabited

/-- One level of a legacy tree. -/
inductive Node (ν : Type)
  | leaf (l : Leaf)
  | unary (op : UnaryOp) (v : ν)
  | binary (op : BinaryOp) (left right : ν)
  | items (sequence : Sequence) (vs : List ν)
  /-- `target[key]` -/
  | access (target key : ν)
  /-- `Type[titles]` -/
  | reference (type : String) (titles : List ν)
  | assignment (target value : ν) (appends : Bool)
  | hash (entries : List (Pair ν))
  | branch (test body : ν) (elseBody : Option ν)
  | cases (test : ν) (choices : List (Choice ν))
  | selector (subject : ν) (entries : List (Pair ν))
  | call (name : String) (args : List ν) (valueRequired : Bool) (lambda : Option ν)
  | method (receiver : ν) (name : String) (args : List ν) (lambda : Option ν)
  | lambda (params : List (Argument ν)) (body : ν)
  | hostClass (name : String) (params : List (Argument ν)) (parent : Option String) (body : ν)
  | definition (name : String) (params : List (Argument ν)) (body : ν)
  | hosts (names : List ν) (parent : Option ν) (body : ν)
  | collection (type : String) (kind : QueryKind) (query : Option ν)
      (settings : List (Setting ν))
  /-- a query, and whether it stands in parentheses -/
  | test (op : TestOp) (left right : ν) (parens : Bool)
  deriving Inhabited

/-- A legacy tree: a node and the place it stems from. -/
structure Tree where
  node : Node Tree
  location : Option Location
  deriving Inhabited

/-! ## Names and spellings -/

namespace BinaryOp

/-- The name of the variant. -/
def label : BinaryOp → String
  | arithmetic _ => "Arithmetic"
  | comparison _ => "Comparison"
  | matching _ => "Match"
  | relationship _ => "Relationship"
  | membership => "In"
  | conjunction | disjunction => "BooleanOp"

/-- The spelling of the operator. -/
def symbol : BinaryOp → String
  | arithmetic op => op.symbol
  | comparison op => op.symbol
  | matching op => op.symbol
  | relationship op => op.symbol
  | membership => "in"
  | conjunction => "and"
  | disjunction => "or"

end BinaryOp

/-- The spelling of the operator. -/
def TestOp.symbol : TestOp → String
  | eq => "=="
  | ne => "!="
  | conjunction => "and"
  | disjunction => "or"

/-- The name of a leaf's variant. -/
def Leaf.label : Leaf → String
  | nop => "Nop"
  | undef => "Undef"
  | default => "Default"
  | name _ => "Name"
  | type _ => "Type"
  | string _ => "String"
  | boolean _ => "Boolean"
  | regex _ => "Regex"
  | dollar _ => "Variable"
  | host _ _ => "HostName"

/-- The name of the variant. -/
def UnaryOp.label : UnaryOp → String
  | minus => "Minus"
  | negation => "Not"

/-- The name of the variant of a row of values. -/
def sequenceLabel : Sequence → String
  | .concatenation => "Concat"
  | .list => "Array"
  | .block => "Block"

/-- The name of a node's variant. -/
def Node.label {ν : Type} : Node ν → String
  | leaf l => l.label
  | unary op _ => op.label
  | binary op _ _ => op.label
  | items sequence _ => sequenceLabel sequence
  | access _ _ => "HashOrArrayAccess"
  | reference _ _ => "ResourceReference"
  | assignment _ _ _ => "VarDef"
  | hash _ => "Hash"
  | branch _ _ _ => "If"
  | cases _ _ => "Case"
  | selector _ _ => "Selector"
  | call _ _ _ _ => "Function"
  | method _ _ _ _ => "MethodCall"
  | lambda _ _ => "Lambda"
  | hostClass _ _ _ _ => "Hostclass"
  | definition _ _ _ => "Definition"
  | hosts _ _ _ => "Node"
  | collection _ _ _ _ => "Collection"
  | test _ _ _ _ => "CollExpr"

namespace Tree

/-- A tree of unknown place. -/
def ofNode (node : Node Tree) : Tree := ⟨node, none⟩

/-- A leaf of unknown place. -/
def ofLeaf (l : Leaf) : Tree := ofNode (.leaf l)

/-- The tree that does nothing. -/
def nop : Tree := ofLeaf .nop

/-- The tree with a place, unless it has one already. -/
def orAt (t : Tree) (location : Option Location) : Tree := ⟨t.node, t.location <|> location⟩

end Tree

/-! ## Equality -/

mutual

/-- Equality of trees. -/
def same : Tree → Tree → Bool
  | ⟨n, at₁⟩, ⟨m, at₂⟩ => at₁ == at₂ && sameNode n m

/-- Equality of nodes. -/
def sameNode : Node Tree → Node Tree → Bool
  | .leaf a, .leaf b => a == b
  | .unary p v, .unary q w => p == q && same v w
  | .binary p v₁ v₂, .binary q w₁ w₂ => p == q && same v₁ w₁ && same v₂ w₂
  | .items s vs, .items t ws => s == t && sameTrees vs ws
  | .access v k, .access w l => same v w && same k l
  | .reference s vs, .reference t ws => s == t && sameTrees vs ws
  | .assignment v₁ v₂ a, .assignment w₁ w₂ b => same v₁ w₁ && same v₂ w₂ && a == b
  | .hash ps, .hash qs => samePairs ps qs
  | .branch v₁ v₂ v₃, .branch w₁ w₂ w₃ => same v₁ w₁ && same v₂ w₂ && sameOption v₃ w₃
  | .cases v cs, .cases w ds => same v w && sameChoices cs ds
  | .selector v ps, .selector w qs => same v w && samePairs ps qs
  | .call s vs a v, .call t ws b w => s == t && sameTrees vs ws && a == b && sameOption v w
  | .method v₁ s vs v₂, .method w₁ t ws w₂ =>
      same v₁ w₁ && s == t && sameTrees vs ws && sameOption v₂ w₂
  | .lambda ps v, .lambda qs w => sameArguments ps qs && same v w
  | .hostClass s ps p v, .hostClass t qs q w =>
      s == t && sameArguments ps qs && p == q && same v w
  | .definition s ps v, .definition t qs w => s == t && sameArguments ps qs && same v w
  | .hosts vs v₁ v₂, .hosts ws w₁ w₂ => sameTrees vs ws && sameOption v₁ w₁ && same v₂ w₂
  | .collection s p v ss, .collection t q w ts =>
      s == t && p == q && sameOption v w && sameSettings ss ts
  | .test p v₁ v₂ a, .test q w₁ w₂ b => p == q && same v₁ w₁ && same v₂ w₂ && a == b
  | _, _ => false

/-- Equality of trees in a row. -/
def sameTrees : List Tree → List Tree → Bool
  | [], [] => true
  | v :: vs, w :: ws => same v w && sameTrees vs ws
  | _, _ => false

/-- Equality of trees that may be missing. -/
def sameOption : Option Tree → Option Tree → Bool
  | none, none => true
  | some v, some w => same v w
  | _, _ => false

/-- Equality of entries in a row. -/
def samePairs : List (Pair Tree) → List (Pair Tree) → Bool
  | [], [] => true
  | ⟨k, v⟩ :: ps, ⟨l, w⟩ :: qs => same k l && same v w && samePairs ps qs
  | _, _ => false

/-- Equality of choices in a row. -/
def sameChoices : List (Choice Tree) → List (Choice Tree) → Bool
  | [], [] => true
  | ⟨vs, v⟩ :: cs, ⟨ws, w⟩ :: ds => sameTrees vs ws && same v w && sameChoices cs ds
  | _, _ => false

/-- Equality of parameters in a row. -/
def sameArguments : List (Argument Tree) → List (Argument Tree) → Bool
  | [], [] => true
  | ⟨s, v⟩ :: ps, ⟨t, w⟩ :: qs => s == t && sameOption v w && sameArguments ps qs
  | _, _ => false

/-- Equality of settings in a row. -/
def sameSettings : List (Setting Tree) → List (Setting Tree) → Bool
  | [], [] => true
  | ⟨s, p, v⟩ :: ss, ⟨t, q, w⟩ :: ts => s == t && p == q && same v w && sameSettings ss ts
  | _, _ => false

end

end Manifest.Legacy
