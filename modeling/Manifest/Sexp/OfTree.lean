import Manifest.Sexp.Basic
import Manifest.Tree.Program

/-!
# Trees as s-expressions

Every expression has an s-expression: `$a = 2 + 2` is `(= $a (+ 2 2))`. Ranges, parentheses and
the excerpts of here-docs are left out. What a node may lack, such as a parent, a default or an
else branch, is a form of its own in the s-expression when it is there.

* `Expr.toSexp` is the s-expression of an expression.
* `Program.toSexp` is that of the body of a program.
-/

namespace Manifest

namespace Sexp

/-- A form without arguments or with one. -/
def optional (head : String) : Option Sexp → Sexp
  | some v => .call head [v]
  | none => .call head []

/-- A form with one argument, where there is an argument. -/
def clause (head : String) : Option Sexp → List Sexp
  | some v => [.call head [v]]
  | none => []

/-- A form that lists what it holds, where it holds anything. -/
def group (head : String) : List Sexp → List Sexp
  | [] => []
  | vs => [.call head vs]

end Sexp

/-- The s-expression of a leaf. Only decimal integers are integers in it. -/
def Leaf.toSexp : Leaf → Sexp
  | nop => .sym ":nop"
  | undef => .sym ":undef"
  | default => .sym ":default"
  | string s => .str s
  | integer value .decimal => .int value
  | integer value radix => .sym (String.ofList (Number.renderInteger value radix))
  | float x => .float x
  | boolean b => .bool b
  | regex pattern => .call "regex" [.str pattern]
  | name s => .sym s
  | reference s => .sym s
  | reserved word _ => .call "reserved" [.str word]
  | renderString s => .call "render-s" [.str s]

/-- The head of the form that an operator makes. -/
def BinaryOp.head : BinaryOp → String
  | .conjunction => "&&"
  | .disjunction => "||"
  | op => op.symbol

/-- The head of the form that an operator makes; parentheses make none. -/
def UnaryOp.head? : UnaryOp → Option String
  | .negation => some "!"
  | .minus => some "-"
  | .unfold => some "unfold"
  | .parens => none
  | .text => some "str"
  | .dollar => some "$"
  | .render => some "render"

/-- The name or the number of a variable. -/
def Expr.variableText? (e : Expr) : Option String :=
  match e.node with
  | .leaf (.name s) => some s
  | .leaf (.integer value .decimal) => some (textOfInt64 value)
  | _ => none

/-- The s-expression of an operator applied to `e`, whose own s-expression is `v`. -/
def UnaryOp.toSexp (op : UnaryOp) (e : Expr) (v : Sexp) : Sexp :=
  match op.head?, op, e.variableText? with
  | none, _, _ => v
  | some _, .dollar, some s => .sym ("$" ++ s)
  | some head, _, _ => .call head [v]

/-- The value that expressions in a row make up. -/
def Sequence.toSexp : Sequence → List Sexp → Sexp
  | .concatenation, vs => .call "cat" vs
  | .list, vs => .list vs
  | .block, vs => .call "block" vs

/-- The word that begins a choice. -/
def BranchForm.head : BranchForm → String
  | .ifTrue => "if"
  | .unlessTrue => "unless"

/-- The head of a call; one whose value is not used is invoked. -/
def CallForm.head (valueRequired : Bool) : CallForm → String
  | .method => "call-method"
  | .value | .named => if valueRequired then "call" else "invoke"

/-- The word that begins a definition. -/
def DefinitionForm.head : DefinitionForm → String
  | .resourceType => "define"
  | .application => "application"
  | .hostClass _ => "class"

/-- What a definition inherits from. -/
def DefinitionForm.parent? : DefinitionForm → Option String
  | .hostClass parent => parent
  | .resourceType | .application => none

/-- The head of a resource form. -/
def ResourceForm.head (base : String) : ResourceForm → String
  | .regular => base
  | .virtualResource => "virtual-" ++ base
  | .exportedResource => "exported-" ++ base

/-- The word for what is set. -/
def SettingsForm.head : SettingsForm → String
  | .defaults => "resource-defaults"
  | .overrides => "override"

/-- The opening of a query. -/
def QueryKind.head : QueryKind → String
  | .virtualResources => "<|"
  | .exportedResources => "<<|"

/-- The symbol of a parameter. -/
def Parameter.symbol {ε : Type} (p : Parameter ε) : Sexp :=
  .sym ((if p.capturesRest then "*$" else "$") ++ p.name)

/-- The clause for a parent. -/
def inherits (parent : Option String) : List Sexp := Sexp.clause "inherits" (parent.map .sym)

mutual

/-- The s-expression of an expression. -/
def Expr.toSexp : Expr → Sexp
  | ⟨.leaf l, _⟩ => l.toSexp
  | ⟨.binary op left right, _⟩ => .call op.head [left.toSexp, right.toSexp]
  | ⟨.unary op e, _⟩ => op.toSexp e e.toSexp
  | ⟨.items sequence es, _⟩ => sequence.toSexp (sexpsOf es)
  | ⟨.access left keys, _⟩ => .call "slice" (left.toSexp :: sexpsOf keys)
  | ⟨.hereDoc format text, _⟩ =>
      .call "heredoc" (Sexp.clause "syntax" (format.map .str) ++ [text.toSexp])
  | ⟨.located _ e, _⟩ => e.toSexp
  | ⟨.hash entries, _⟩ => .call "hash" (entrySexps entries)
  | ⟨.branch form test thenBody elseBody, _⟩ =>
      .call form.head (test.toSexp :: .call "then" [thenBody.toSexp]
        :: Sexp.clause "else" (if elseBody.isNop then none else some elseBody.toSexp))
  | ⟨.cases test options, _⟩ => .call "case" (test.toSexp :: optionSexps options)
  | ⟨.selector left entries, _⟩ => .call "?" (left.toSexp :: entrySexps entries)
  | ⟨.call form valueRequired functor args block, _⟩ =>
      .call (form.head valueRequired) (functor.toSexp :: sexpsOf args ++ (sexp? block).toList)
  | ⟨.lambda params returns body, _⟩ =>
      .call "lambda" (Sexp.group "parameters" (parameterSexps params)
        ++ Sexp.clause "returns" (sexp? returns) ++ (sexp? body).toList)
  | ⟨.function name params returns body, _⟩ =>
      .call "function" (.sym name :: Sexp.group "parameters" (parameterSexps params)
        ++ Sexp.clause "returns" (sexp? returns) ++ (sexp? body).toList)
  | ⟨.definition form name params body, _⟩ =>
      .call form.head (.sym name :: Sexp.group "parameters" (parameterSexps params)
        ++ inherits form.parent? ++ (sexp? body).toList)
  | ⟨.typeAlias name type, _⟩ => .call "type-alias" [.sym name, type.toSexp]
  | ⟨.typeMapping type mapping, _⟩ => .call "type-mapping" [type.toSexp, mapping.toSexp]
  | ⟨.typeDefinition name parent body, _⟩ =>
      .call "type-definition" (.sym name :: inherits parent ++ (sexp? body).toList)
  | ⟨.host names parent body, _⟩ =>
      .call "node" (.call "matches" (sexpsOf names) :: Sexp.clause "parent" (sexp? parent)
        ++ (sexp? body).toList)
  | ⟨.site body, _⟩ => Sexp.optional "site" (sexp? body)
  | ⟨.capability verb component name mappings, _⟩ =>
      .call verb (component.toSexp :: .sym name :: operationSexps mappings)
  | ⟨.resource form type bodies, _⟩ =>
      .call (form.head "resource") (type.toSexp :: bodySexps bodies)
  | ⟨.settings what form target operations, _⟩ =>
      .call (form.head what.head) (target.toSexp :: operationSexps operations)
  | ⟨.collect type query operations, _⟩ =>
      .call "collect" (type.toSexp :: querySexp query :: operationSexps operations)
  | ⟨.template _ body, _⟩ => Sexp.optional "epp" (sexp? body)

/-- The s-expressions of expressions in a row. -/
def sexpsOf : List Expr → List Sexp
  | [] => []
  | e :: es => e.toSexp :: sexpsOf es

/-- The s-expression of an expression that may be absent. -/
def sexp? : Option Expr → Option Sexp
  | none => none
  | some e => some e.toSexp

/-- The s-expressions of entries. -/
def entrySexps : List (Entry Expr) → List Sexp
  | [] => []
  | ⟨key, value, _⟩ :: entries => .call "=>" [key.toSexp, value.toSexp] :: entrySexps entries

/-- The s-expressions of the options of a case expression. -/
def optionSexps : List (CaseOption Expr) → List Sexp
  | [] => []
  | ⟨values, body, _⟩ :: options =>
      .call "when" [.list (sexpsOf values), .call "then" [body.toSexp]] :: optionSexps options

/-- The s-expressions of parameters. -/
def parameterSexps : List (Parameter Expr) → List Sexp
  | [] => []
  | ⟨name, value, type, capturesRest, range⟩ :: params =>
      .call "param" ((Parameter.mk name value type capturesRest range).symbol
        :: Sexp.clause "type" (sexp? type) ++ Sexp.clause "value" (sexp? value))
        :: parameterSexps params

/-- The s-expressions of operations on attributes. -/
def operationSexps : List (Operation Expr) → List Sexp
  | [] => []
  | .attribute name op value _ :: operations =>
      .call op.symbol [.sym name, value.toSexp] :: operationSexps operations
  | .attributes values _ :: operations =>
      .call "attributes" [values.toSexp] :: operationSexps operations

/-- The s-expressions of the bodies of a resource. -/
def bodySexps : List (ResourceBody Expr) → List Sexp
  | [] => []
  | ⟨title, operations, _⟩ :: bodies =>
      .call "body" ((sexp? title).getD .nil :: operationSexps operations) :: bodySexps bodies

/-- The s-expression of a query. -/
def querySexp : Query Expr → Sexp
  | ⟨kind, e, _⟩ => Sexp.optional kind.head (sexp? e)

end

/-- The s-expression of the body of a program. -/
def Program.toSexp (p : Program) : Sexp := p.body.toSexp

end Manifest
