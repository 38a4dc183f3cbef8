import Manifest.Literal.Number
import Manifest.Text.Source
import Manifest.Tree.Operator

/-!
# Expression trees

An expression is a node and the range it was read from, if there is one. `Node ε` is one level of
the tree: a node whose sub-expressions have type `ε`. Parts that have a range but are no
expressions of their own, such as the entries of a hash, are structures over `ε`.

* `Node.label` names the variant of a node.
* `Expr.nameText?` is the text of a node that stands for a name.
-/

namespace Manifest

open Text (Range Excerpt)

/-! ## Parts -/

/-- `key => value`, in a hash or in a selector. -/
structure Entry (ε : Type) where
  key : ε
  value : ε
  range : Option Range
  deriving DecidableEq, Inhabited

/-- `values: { body }` in a case expression. -/
structure CaseOption (ε : Type) where
  values : List ε
  body : ε
  range : Option Range
  deriving DecidableEq, Inhabited

/-- Which resources a query looks at. -/
inductive QueryKind
  | exportedResources
  | virtualResources
  deriving DecidableEq, Repr, Inhabited

/-- The name of a kind of query. -/
def QueryKind.label : QueryKind → String
  | .exportedResources => "exported"
  | .virtualResources => "virtual"

/-- The query of a collect expression; without an expression it finds everything. -/
structure Query (ε : Type) where
  kind : QueryKind
  expr : Option ε
  range : Option Range
  deriving DecidableEq, Inhabited

/-- A parameter of a definition or a lambda. -/
structure Parameter (ε : Type) where
  name : String
  value : Option ε
  type : Option ε
  /-- it takes all further arguments -/
  capturesRest : Bool
  range : Option Range
  deriving DecidableEq, Inhabited

/-- What is said about the attributes of a resource. -/
inductive Operation (ε : Type)
  /-- `name => value` or `name +> value` -/
  | attribute (name : String) (op : AttributeOp) (value : ε) (range : Option Range)
  /-- `* => values` -/
  | attributes (values : ε) (range : Option Range)
  deriving DecidableEq

namespace Operation

/-- The range of an operation. -/
def range {ε : Type} : Operation ε → Option Range
  | .attribute _ _ _ range => range
  | .attributes _ range => range

/-- The value that an operation gives. -/
def value {ε : Type} : Operation ε → ε
  | .attribute _ _ value _ => value
  | .attributes values _ => values

/-- The operation with another range. -/
def withRange {ε : Type} (o : Operation ε) (range : Option Range) : Operation ε :=
  match o with
  | .attribute name op value _ => .attribute name op value range
  | .attributes values _ => .attributes values range

end Operation

/-- `title: operations` in a resource expression. -/
structure ResourceBody (ε : Type) where
  title : Option ε
  operations : List (Operation ε)
  range : Option Range
  deriving DecidableEq, Inhabited

/-- Whether resources are realized. -/
inductive ResourceForm
  | regular
  /-- `@type { … }` -/
  | virtualResource
  /-- `@@type { … }` -/
  | exportedResource
  deriving DecidableEq, Repr, Inhabited

namespace ResourceForm

/-- The name of a form. -/
def label : ResourceForm → String
  | .regular => "regular"
  | .virtualResource => "virtual"
  | .exportedResource => "exported"

/-- The form with a name. -/
def ofLabel? (s : String) : Option ResourceForm :=
  [regular, virtualResource, exportedResource].find? (·.label == s)

end ResourceForm

/-! ## Nodes -/

/-- A node without sub-expressions. -/
inductive Leaf
  | nop
  | undef
  | default
  | string (s : String)
  | integer (value : Int64) (radix : Radix)
  | float (x : Binary64)
  | boolean (b : Bool)
  | regex (pattern : String)
  | name (s : String)
  /-- a capitalized name of a type or a class, as written -/
  | reference (s : String)
  | reserved (word : String) (future : Bool)
  | renderString (s : String)
  deriving DecidableEq, Repr, Inhabited

/-- What joins two expressions. -/
inductive BinaryOp
  | arithmetic (op : ArithmeticOp)
  | assignment (op : AssignmentOp)
  | relationship (op : RelationshipOp)
  | comparison (op : ComparisonOp)
  | matching (op : MatchOp)
  | membership
  | conjunction
  | disjunction
  /-- `left.right` -/
  | dot
  deriving DecidableEq, Repr, Inhabited

/-- What is done to one expression. -/
inductive UnaryOp
  | negation
  | minus
  /-- `*list` -/
  | unfold
  | parens
  /-- an expression inside a string -/
  | text
  /-- `$name` -/
  | dollar
  /-- `<%= expression %>` -/
  | render
  deriving DecidableEq, Repr, Inhabited

/-- What expressions in a row make up. -/
inductive Sequence
  /-- the fragments of a string -/
  | concatenation
  | list
  | block
  deriving DecidableEq, Repr, Inhabited

/-- A choice between two bodies. -/
inductive BranchForm
  | ifTrue
  | unlessTrue
  deriving DecidableEq, Repr, Inhabited

/-- What is called. -/
inductive CallForm
  /-- the value of an expression -/
  | value
  /-- a function by its name -/
  | named
  /-- a method of a receiver -/
  | method
  deriving DecidableEq, Repr, Inhabited

/-- What a definition with parameters and a body defines. -/
inductive DefinitionForm
  | resourceType
  | application
  | hostClass (parent : Option String)
  deriving DecidableEq, Repr, Inhabited

/-- What attributes are set of. -/
inductive SettingsForm
  /-- all resources of a type -/
  | defaults
  /-- resources that exist -/
  | overrides
  deriving DecidableEq, Repr, Inhabited

/-- One level of an expression tree. -/
inductive Node (ε : Type)
  | leaf (l : Leaf)
  | binary (op : BinaryOp) (left right : ε)
  | unary (op : UnaryOp) (e : ε)
  | items (sequence : Sequence) (es : List ε)
  /-- `left[keys]` -/
  | access (left : ε) (keys : List ε)
  | hereDoc (format : Option String) (text : ε)
  /-- an expression whose ranges refer to an excerpt -/
  | located (source : Excerpt) (e : ε)
  | hash (entries : List (Entry ε))
  | branch (form : BranchForm) (test thenBody elseBody : ε)
  | cases (test : ε) (options : List (CaseOption ε))
  | selector (left : ε) (entries : List (Entry ε))
  | call (form : CallForm) (valueRequired : Bool) (functor : ε) (args : List ε)
      (lambda : Option ε)
  | lambda (params : List (Parameter ε)) (returns body : Option ε)
  | function (name : String) (params : List (Parameter ε)) (returns body : Option ε)
  | definition (form : DefinitionForm) (name : String) (params : List (Parameter ε))
      (body : Option ε)
  | typeAlias (name : String) (type : ε)
  | typeMapping (type mapping : ε)
  | typeDefinition (name : String) (parent : Option String) (body : Option ε)
  | host (names : List ε) (parent body : Option ε)
  | site (body : Option ε)
  /-- `component produces capability { mappings }`, or `consumes` -/
  | capability (verb : String) (component : ε) (capability : String)
      (mappings : List (Operation ε))
  | resource (form : ResourceForm) (type : ε) (bodies : List (ResourceBody ε))
  | settings (what : SettingsForm) (form : ResourceForm) (target : ε)
      (operations : List (Operation ε))
  | collect (type : ε) (query : Query ε) (operations : List (Operation ε))
  | template (parametersSpecified : Bool) (body : Option ε)
  deriving DecidableEq, Inhabited

/-- An expression: a node and the range it was read from. -/
structure Expr where
  node : Node Expr
  range : Option Range
  deriving Inhabited

/-! ## Names of variants -/

/-- The name of a leaf's variant. -/
def Leaf.label : Leaf → String
  | nop => "Nop"
  | undef => "LiteralUndef"
  | default => "LiteralDefault"
  | string _ => "LiteralString"
  | integer _ _ => "LiteralInteger"
  | float _ => "LiteralFloat"
  | boolean _ => "LiteralBoolean"
  | regex _ => "LiteralRegex"
  | name _ => "QualifiedName"
  | reference _ => "QualifiedReference"
  | reserved _ _ => "ReservedWord"
  | renderString _ => "RenderString"

namespace BinaryOp

/-- The name of the variant. -/
def label : BinaryOp → String
  | arithmetic _ => "Arithmetic"
  | assignment _ => "Assignment"
  | relationship _ => "Relationship"
  | comparison _ => "Comparison"
  | matching _ => "Match"
  | membership => "In"
  | conjunction => "And"
  | disjunction => "Or"
  | dot => "NamedAccess"

/-- The spelling of the operator. -/
def symbol : BinaryOp → String
  | arithmetic op => op.symbol
  | assignment op => op.symbol
  | relationship op => op.symbol
  | comparison op => op.symbol
  | matching op => op.symbol
  | membership => "in"
  | conjunction => "and"
  | disjunction => "or"
  | dot => "."

end BinaryOp

/-- The name of the variant. -/
def UnaryOp.label : UnaryOp → String
  | negation => "Not"
  | minus => "UnaryMinus"
  | unfold => "Unfold"
  | parens => "Parenthesized"
  | text => "Text"
  | dollar => "Variable"
  | render => "Render"

/-- The name of the variant. -/
def Sequence.label : Sequence → String
  | concatenation => "ConcatenatedString"
  | list => "LiteralList"
  | block => "Block"

/-- The name of the variant. -/
def BranchForm.label : BranchForm → String
  | ifTrue => "If"
  | unlessTrue => "Unless"

/-- The name of the variant. -/
def CallForm.label : CallForm → String
  | value => "CallFunction"
  | named => "CallNamedFunction"
  | method => "CallMethod"

/-- The name of the variant. -/
def DefinitionForm.label : DefinitionForm → String
  | resourceType => "ResourceTypeDefinition"
  | application => "Application"
  | hostClass _ => "HostClassDefinition"

/-- The name of the variant. -/
def SettingsForm.label : SettingsForm → String
  | defaults => "ResourceDefaults"
  | overrides => "ResourceOverride"

/-- The name of a node's variant. -/
def Node.label {ε : Type} : Node ε → String
  | leaf l => l.label
  | binary op _ _ => op.label
  | unary op _ => op.label
  | items sequence _ => sequence.label
  | access _ _ => "Access"
  | hereDoc _ _ => "Heredoc"
  | located _ _ => "SubLocated"
  | hash _ => "LiteralHash"
  | branch form _ _ _ => form.label
  | cases _ _ => "Case"
  | selector _ _ => "Selector"
  | call form _ _ _ _ => form.label
  | lambda _ _ _ => "Lambda"
  | function _ _ _ _ => "FunctionDefinition"
  | definition form _ _ _ => form.label
  | typeAlias _ _ => "TypeAlias"
  | typeMapping _ _ => "TypeMapping"
  | typeDefinition _ _ _ => "TypeDefinition"
  | host _ _ _ => "NodeDefinition"
  | site _ => "SiteDefinition"
  | capability _ _ _ _ => "CapabilityMapping"
  | resource _ _ _ => "Resource"
  | settings what _ _ _ => what.label
  | collect _ _ _ => "Collect"
  | template _ _ => "Epp"

namespace Expr

/-- An expression that was not read from a text. -/
def ofNode (node : Node Expr) : Expr := ⟨node, none⟩

/-- A leaf that was not read from a text. -/
def ofLeaf (l : Leaf) : Expr := ofNode (.leaf l)

/-- The expression that does nothing. -/
def nop : Expr := ofLeaf .nop

/-- The name of the variant. -/
def label (e : Expr) : String := e.node.label

/-- The expression is the one that does nothing. -/
def isNop (e : Expr) : Bool :=
  match e.node with
  | .leaf .nop => true
  | _ => false

/-- The text of a name, a reference, a string or a reserved word. -/
def nameText? (e : Expr) : Option String :=
  match e.node with
  | .leaf (.name s) | .leaf (.reference s) | .leaf (.string s) | .leaf (.reserved s _) => some s
  | _ => none

end Expr

end Manifest
