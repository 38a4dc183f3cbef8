import Manifest.Build.Problem
import Manifest.Token.Basic
import Manifest.Tree.Basic

/-!
# What expressions are made from

Wherever an expression is expected, a plain value, a token or a finished expression may be given.

* `Material.toExpr` is the expression that a material stands for.
* `Material.toName` and `Material.toReference` let a plain string stand for a name.
-/

namespace Manifest

/-- What an expression can be made from. -/
inductive Material
  /-- nothing at all -/
  | absent
  | bool (b : Bool)
  | int (i : Int64)
  | float (x : Binary64)
  | string (s : String)
  | undef
  | default
  | list (items : List Material)
  /-- keys and values in any order -/
  | map (entries : List (String × Material))
  | regex (pattern : String)
  | expr (e : Expr)
  | token (t : Token)
  deriving Inhabited

/-! ## Numbers -/

/-- The leaf that holds a number. -/
def Number.toLeaf : Number → Leaf
  | .integer value radix => .integer value radix
  | .float x => .float x

namespace Build

/-- The number that a text spells. -/
def number (literal : String) : Except Error Expr :=
  match Number.parse literal.toList with
  | .ok n => .ok (.ofLeaf n.toLeaf)
  | .error rule => .error ⟨.number rule literal, none⟩

/-- The number that a text spells, or else a name. -/
def nameOrNumber (text : String) : Expr :=
  match Number.parse text.toList with
  | .ok n => .ofLeaf n.toLeaf
  | .error _ => .ofLeaf (.name text)

end Build

/-! ## Tokens -/

namespace Token

/-- A leaf with the range of the token. -/
def leafExpr (t : Token) (l : Leaf) : Expr := ⟨.leaf l, some t.range⟩

/-- The number that the token spells. -/
def toNumber (t : Token) : Except Build.Error Expr :=
  match Number.parse t.text.toList with
  | .ok n => .ok (t.leafExpr n.toLeaf)
  | .error rule => .error ⟨.number rule t.text, some t.position⟩

/-- The expression that a token stands for. Keywords stand for reserved words; marks and the parts
of strings stand for nothing. -/
def toExpr (t : Token) : Except Build.Error Expr :=
  match t.kind with
  | .name | .word => .ok (t.leafExpr (.name t.text))
  | .reference => .ok (t.leafExpr (.reference t.text))
  | .number => t.toNumber
  | .string => .ok (t.leafExpr (.string t.text))
  | .regex => .ok (t.leafExpr (.regex t.text))
  | .boolean => .ok (t.leafExpr (.boolean (t.value = .boolean true)))
  | .variable => .ok ⟨.unary .dollar (t.leafExpr (.name t.text)), some t.range⟩
  | .keyword .defaultWord => .ok (t.leafExpr .default)
  | .keyword .undefWord => .ok (t.leafExpr .undef)
  | .keyword _ => .ok (t.leafExpr (.reserved t.text false))
  | kind => .error ⟨.notAnExpression ("Token " ++ kind.label), some t.position⟩

end Token

/-! ## Materials -/

namespace Build

/-- Values under string keys, in a row; the first failure counts. -/
def keyed : List (String × Except Error Expr) → Except Error (List (Entry Expr))
  | [] => .ok []
  | (key, value) :: rest =>
      match value with
      | .error e => .error e
      | .ok value => (keyed rest).map (⟨.ofLeaf (.string key), value, none⟩ :: ·)

/-- Entries in ascending order of their keys; those of one key stay in their order. -/
def sortKeys {α : Type} (entries : List (String × α)) : List (String × α) :=
  entries.mergeSort fun a b => decide (a.1 ≤ b.1)

end Build

namespace Material

/-- There is nothing, or an expression that does nothing. -/
def isAbsent : Material → Bool
  | .absent => true
  | .expr e => e.isNop
  | _ => false

/-- The text of what may stand for a name. -/
def text? : Material → Option String
  | .string s | .regex s => some s
  | .expr e => e.nameText?
  | .token t => some t.text
  | _ => none

mutual

/-- The expression that a material stands for. A map becomes a hash with its keys in order. -/
def toExpr : Material → Except Build.Error Expr
  | .absent => .ok .nop
  | .bool b => .ok (.ofLeaf (.boolean b))
  | .int i => .ok (.ofLeaf (.integer i .decimal))
  | .float x => .ok (.ofLeaf (.float x))
  | .string s => .ok (.ofLeaf (.string s))
  | .undef => .ok (.ofLeaf .undef)
  | .default => .ok (.ofLeaf .default)
  | .list items => (toExprs items).map fun es => .ofNode (.items .list es)
  | .map entries =>
      (Build.keyed (Build.sortKeys (toValues entries))).map fun es => .ofNode (.hash es)
  | .regex pattern => .ok (.ofLeaf (.regex pattern))
  | .expr e => .ok e
  | .token t => t.toExpr

/-- The expressions that materials stand for; the first failure counts. -/
def toExprs : List Material → Except Build.Error (List Expr)
  | [] => .ok []
  | m :: ms =>
      match toExpr m with
      | .error e => .error e
      | .ok e => (toExprs ms).map (e :: ·)

/-- The expressions of the values of a map, under their keys. -/
def toValues : List (String × Material) → List (String × Except Build.Error Expr)
  | [] => []
  | (key, value) :: rest => (key, toExpr value) :: toValues rest

end

/-- The expressions that a list of materials stands for; another material is a list of one. -/
def spread : Material → Except Build.Error (List Expr)
  | .list items => toExprs items
  | m => m.toExpr.map ([·])

/-- The expression of a material; a plain string is a name. -/
def toName : Material → Except Build.Error Expr
  | .string s => .ok (.ofLeaf (.name s))
  | m => m.toExpr

/-- The expression of a material; a plain string or a name is a reference. -/
def toReference : Material → Except Build.Error Expr
  | .string s => .ok (.ofLeaf (.reference s))
  | .expr ⟨.leaf (.name s), range⟩ => .ok ⟨.leaf (.reference s), range⟩
  | m => m.toExpr

/-- The expression of a material that is there. -/
def toExpr? (m : Material) : Except Build.Error (Option Expr) :=
  if m.isAbsent then .ok none else m.toExpr.map some

/-- Statements in a row: a list or a map makes a block. -/
def toStatements : Material → Except Build.Error Expr
  | .list items => (toExprs items).map fun es => .ofNode (.items .block es)
  | .map entries => (Material.map entries).toExpr.map fun e => .ofNode (.items .block [e])
  | m => m.toExpr

/-- The statements of a body that may be missing. -/
def toBody? : Material → Except Build.Error (Option Expr)
  | .absent => .ok none
  | m => m.toStatements.map some

end Material

end Manifest
