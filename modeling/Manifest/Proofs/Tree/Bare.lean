import Manifest.Tree.Basic

/-!
# Trees without ranges

* `Expr.bare` — an expression without its ranges, and without those of its parts.
-/

namespace Manifest

mutual

/-- The expression without ranges. -/
def Expr.bare : Expr → Expr
  | ⟨n, _⟩ => ⟨n.bare, none⟩

/-- The node without ranges. -/
def Node.bare : Node Expr → Node Expr
  | .leaf l => .leaf l
  | .binary op left right => .binary op left.bare right.bare
  | .unary op e => .unary op e.bare
  | .items sequence es => .items sequence (bareEach es)
  | .access left keys => .access left.bare (bareEach keys)
  | .hereDoc format text => .hereDoc format text.bare
  | .located source e => .located source e.bare
  | .hash entries => .hash (bareEntries entries)
  | .branch form test thenBody elseBody => .branch form test.bare thenBody.bare elseBody.bare
  | .cases test options => .cases test.bare (bareOptions options)
  | .selector left entries => .selector left.bare (bareEntries entries)
  | .call form valueRequired functor args block =>
      .call form valueRequired functor.bare (bareEach args) (bare? block)
  | .lambda params returns body => .lambda (bareParameters params) (bare? returns) (bare? body)
  | .function name params returns body =>
      .function name (bareParameters params) (bare? returns) (bare? body)
  | .definition form name params body => .definition form name (bareParameters params) (bare? body)
  | .typeAlias name type => .typeAlias name type.bare
  | .typeMapping type mapping => .typeMapping type.bare mapping.bare
  | .typeDefinition name parent body => .typeDefinition name parent (bare? body)
  | .host names parent body => .host (bareEach names) (bare? parent) (bare? body)
  | .site body => .site (bare? body)
  | .capability verb component capability mappings =>
      .capability verb component.bare capability (bareOperations mappings)
  | .resource form type bodies => .resource form type.bare (bareBodies bodies)
  | .settings what form target operations =>
      .settings what form target.bare (bareOperations operations)
  | .collect type ⟨kind, expr, _⟩ operations =>
      .collect type.bare ⟨kind, bare? expr, none⟩ (bareOperations operations)
  | .template parametersSpecified body => .template parametersSpecified (bare? body)

/-- The expressions without ranges. -/
def bareEach : List Expr → List Expr
  | [] => []
  | e :: es => e.bare :: bareEach es

/-- An expression that may be missing, without ranges. -/
def bare? : Option Expr → Option Expr
  | none => none
  | some e => some e.bare

/-- The entries without ranges. -/
def bareEntries : List (Entry Expr) → List (Entry Expr)
  | [] => []
  | ⟨key, value, _⟩ :: entries => ⟨key.bare, value.bare, none⟩ :: bareEntries entries

/-- The options without ranges. -/
def bareOptions : List (CaseOption Expr) → List (CaseOption Expr)
  | [] => []
  | ⟨values, body, _⟩ :: options => ⟨bareEach values, body.bare, none⟩ :: bareOptions options

/-- The parameters without ranges. -/
def bareParameters : List (Parameter Expr) → List (Parameter Expr)
  | [] => []
  | ⟨name, value, type, capturesRest, _⟩ :: params =>
      ⟨name, bare? value, bare? type, capturesRest, none⟩ :: bareParameters params

/-- The operations without ranges. -/
def bareOperations : List (Operation Expr) → List (Operation Expr)
  | [] => []
  | .attribute name op value _ :: operations =>
      .attribute name op value.bare none :: bareOperations operations
  | .attributes values _ :: operations => .attributes values.bare none :: bareOperations operations

/-- The bodies without ranges. -/
def bareBodies : List (ResourceBody Expr) → List (ResourceBody Expr)
  | [] => []
  | ⟨title, operations, _⟩ :: bodies =>
      ⟨bare? title, bareOperations operations, none⟩ :: bareBodies bodies

end

variable {e : Expr} {n : Node Expr}

/-- The node of a bare expression is bare. -/
theorem Expr.bare_node (e : Expr) : e.bare.node = e.node.bare := by
  obtain ⟨n, range⟩ := e
  rw [bare]

theorem Expr.bare_range (e : Expr) : e.bare.range = none := by
  obtain ⟨n, range⟩ := e
  rw [bare]

/-- The name of a variant says nothing of ranges. -/
theorem Node.label_bare (n : Node Expr) : n.bare.label = n.label := by
  cases n <;> rw [Node.bare] <;> rfl

/-- A bare expression is called as before. -/
theorem Expr.label_bare (e : Expr) : e.bare.label = e.label := by
  rw [label, bare_node, Node.label_bare, label]

end Manifest
