import Manifest.Build.Material
import Manifest.Tree.Program

/-!
# Building expressions

One function for each form of the language. Parts that have to be expressions are given as
materials and are converted from left to right; the first failure is the failure of the form.
Expressions are built without a range.
-/

namespace Manifest.Build

open Text (Document Excerpt Source place)

/-! ## Operators -/

/-- `left op right`. -/
def binary (op : BinaryOp) (left right : Material) : Except Error Expr := do
  let left ← left.toExpr
  let right ← right.toExpr
  return .ofNode (.binary op left right)

/-- `op e`. -/
def unary (op : UnaryOp) (e : Material) : Except Error Expr :=
  e.toExpr.map fun e => .ofNode (.unary op e)

/-- `$name`; a plain string is the name. -/
def dollar (name : Material) : Except Error Expr :=
  name.toName.map fun e => .ofNode (.unary .dollar e)

/-- Variables, elements and lists can be assigned to. -/
def isAssignable (e : Expr) : Bool :=
  match e.node with
  | .unary .dollar _ | .access _ _ | .items .list _ => true
  | _ => false

/-- `left = right`, `left += right` or `left -= right`. The left-hand side is checked before the
right-hand side is converted. -/
def assign (source : Option Source) (op : AssignmentOp) (left right : Material) :
    Except Error Expr := do
  let left ← left.toExpr
  if isAssignable left then
    let right ← right.toExpr
    return .ofNode (.binary (.assignment op) left right)
  else throw ⟨.illegalAssignment left.label, place source left.range⟩

/-- `left[keys]`. -/
def access (left : Material) (keys : List Material) : Except Error Expr := do
  let left ← left.toExpr
  let keys ← Material.toExprs keys
  return .ofNode (.access left keys)

/-! ## Sequences -/

/-- A list. Nothing is the empty list, and a value is the list of it. -/
def list : Material → Except Error Expr
  | .absent => .ok (.ofNode (.items .list []))
  | m => m.spread.map fun es => .ofNode (.items .list es)

/-- A block of statements, or the fragments of a string. -/
def sequence (kind : Sequence) (ms : List Material) : Except Error Expr :=
  (Material.toExprs ms).map fun es => .ofNode (.items kind es)

/-- A block for several statements; one statement is itself, and none do nothing. -/
def blockOrExpr : List Expr → Expr
  | [] => .nop
  | [e] => e
  | es => .ofNode (.items .block es)

/-- `key => value`, in a hash or in a selector. -/
def entry (key value : Material) : Except Error (Entry Expr) := do
  let key ← key.toExpr
  let value ← value.toExpr
  return ⟨key, value, none⟩

/-! ## Control flow -/

/-- A choice between two bodies. -/
def branch (form : BranchForm) (test thenBody elseBody : Material) : Except Error Expr := do
  let test ← test.toExpr
  let thenBody ← thenBody.toStatements
  let elseBody ← elseBody.toStatements
  return .ofNode (.branch form test thenBody elseBody)

/-- `case test { options }`. -/
def cases (test : Material) (options : List (CaseOption Expr)) : Except Error Expr :=
  test.toExpr.map fun test => .ofNode (.cases test options)

/-- `values: { body }`; one value may stand for the list of it. -/
def caseOption (values body : Material) : Except Error (CaseOption Expr) := do
  let values ← values.spread
  let body ← body.toStatements
  return ⟨values, body, none⟩

/-- `left ? { entries }`. -/
def selector (left : Material) (entries : List (Entry Expr)) : Except Error Expr :=
  left.toExpr.map fun left => .ofNode (.selector left entries)

/-! ## Strings and templates -/

/-- A here-doc; an empty format is none. -/
def hereDoc (text : Material) (format : Option String) : Except Error Expr :=
  text.toExpr.map fun e => .ofNode (.hereDoc (format.filter (· != "")) e)

/-- An expression whose ranges refer to an excerpt. -/
def located (excerpt : Excerpt) (e : Material) : Except Error Expr :=
  e.toExpr.map fun e => .ofNode (.located excerpt e)

/-- A template: a lambda whose body renders. Without parameters none are specified. -/
def template (params : Option (List (Parameter Expr))) (body : Material) : Except Error Expr :=
  body.toBody?.map fun body =>
    .ofNode (.lambda (params.getD []) none (some (.ofNode (.template params.isSome body))))

/-! ## Resources -/

/-- `type { bodies }`. -/
def resource (form : ResourceForm) (type : Material) (bodies : List (ResourceBody Expr)) :
    Except Error Expr :=
  type.toExpr.map fun type => .ofNode (.resource form type bodies)

/-- `title: operations`. -/
def resourceBody (title : Material) (operations : List (Operation Expr)) :
    Except Error (ResourceBody Expr) :=
  title.toExpr?.map fun title => ⟨title, operations, none⟩

/-- Defaults of a type, or overrides of resources. -/
def settings (what : SettingsForm) (form : ResourceForm) (target : Material)
    (operations : List (Operation Expr)) : Except Error Expr :=
  target.toExpr.map fun target => .ofNode (.settings what form target operations)

/-- The expression with its resources in a form; expressions without resources stay. -/
def withForm (form : ResourceForm) (e : Expr) : Expr :=
  match e.node with
  | .resource _ type bodies => { e with node := .resource form type bodies }
  | .settings what _ target operations => { e with node := .settings what form target operations }
  | _ => e

/-- The query of a collect expression; without an expression it finds everything. -/
def query (kind : QueryKind) (e : Material) : Except Error (Query Expr) :=
  e.toExpr?.map fun e => ⟨kind, e, none⟩

/-- `type <| query |> { operations }`; a plain string or a name is the type. -/
def collect (type : Material) (query : Query Expr) (operations : List (Operation Expr)) :
    Except Error Expr :=
  type.toReference.map fun type => .ofNode (.collect type query operations)

/-- `name => value` or `name +> value`. -/
def attributeOperation (name : String) (op : AttributeOp) (value : Material) :
    Except Error (Operation Expr) :=
  value.toExpr.map fun value => .attribute name op value none

/-- `* => values`. -/
def attributesOperation (values : Material) : Except Error (Operation Expr) :=
  values.toExpr.map fun values => .attributes values none

/-! ## Definitions -/

/-- A class, a defined type or an application. -/
def definition (form : DefinitionForm) (name : String) (params : List (Parameter Expr))
    (body : Material) : Except Error Expr :=
  body.toBody?.map fun body => .ofNode (.definition form name params body)

/-- `function name(params) >> returns { body }`. -/
def function (name : String) (params : List (Parameter Expr)) (body : Material)
    (returns : Option Expr) : Except Error Expr :=
  body.toBody?.map fun body => .ofNode (.function name params returns body)

/-- `|params| >> returns { body }`. -/
def lambda (params : List (Parameter Expr)) (body : Material) (returns : Option Expr) :
    Except Error Expr :=
  body.toBody?.map fun body => .ofNode (.lambda params returns body)

/-- `node names inherits parent { body }`. -/
def host (names : List Expr) (parent : Option Expr) (body : Material) : Except Error Expr :=
  body.toBody?.map fun body => .ofNode (.host names parent body)

/-- `site { body }`. -/
def site (body : Material) : Except Error Expr :=
  body.toBody?.map fun body => .ofNode (.site body)

/-- `type name = type`. -/
def typeAlias (name : String) (type : Material) : Except Error Expr :=
  type.toExpr.map fun type => .ofNode (.typeAlias name type)

/-- `type type = mapping`. -/
def typeMapping (type mapping : Material) : Except Error Expr := do
  let type ← type.toExpr
  let mapping ← mapping.toExpr
  return .ofNode (.typeMapping type mapping)

/-- `type name inherits parent { body }`. -/
def typeDefinition (name : String) (parent : Option String) (body : Material) :
    Except Error Expr :=
  body.toBody?.map fun body => .ofNode (.typeDefinition name parent body)

/-- `component verb capability { mappings }`. -/
def capability (verb : String) (component : Material) (name : String)
    (mappings : List (Operation Expr)) : Except Error Expr :=
  component.toExpr.map fun component => .ofNode (.capability verb component name mappings)

/-! ## Programs -/

/-- The finished program. Its document is the one that the source refers to; without a source it
is empty. -/
def program (source : Option Source) (body : Material) : Except Error Program :=
  body.toStatements.map fun body =>
    .ofBody body (match source with
      | some s => s.base
      | none => Document.ofText [] "")

end Manifest.Build
