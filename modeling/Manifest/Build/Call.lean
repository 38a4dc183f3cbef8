import Manifest.Build.Material
import Manifest.Build.Ranged

/-!
# Building calls

Some functions may be called as statements, without parentheses: `include a, b`. Their arguments
are recognized only afterwards, in the list of statements.

* `statementCalls` turns such a name and what follows it into a call.
-/

namespace Manifest.Build

open Text (Source place)

/-- The expression is a name or a reference. -/
def isFunctionName (e : Expr) : Bool :=
  match e.node with
  | .leaf (.name _) | .leaf (.reference _) => true
  | _ => false

/-- `name(args)`; a plain string is the name. -/
def callNamed (source : Option Source) (functor : Material) (valueRequired : Bool)
    (args : List Expr) : Except Error Expr := do
  let functor ← functor.toName
  if isFunctionName functor then
    return .ofNode (.call .named valueRequired functor args none)
  else throw ⟨.functorNotName functor.label, place source functor.range⟩

/-- A call of what an expression denotes: of its value, or of a method of a receiver. -/
def call (form : CallForm) (functor : Material) (valueRequired : Bool) (args : List Expr)
    (block : Option Expr) : Except Error Expr :=
  functor.toExpr.map fun functor => .ofNode (.call form valueRequired functor args block)

/-- The call with a lambda; what is no call stays. -/
def withLambda (block e : Expr) : Expr :=
  match e.node with
  | .call form valueRequired functor args _ =>
      { e with node := .call form valueRequired functor args (some block) }
  | _ => e

/-! ## Calls as statements -/

/-- The functions that may be called as statements. -/
def statementCallNames : List String :=
  ["include", "require", "realize", "contain", "tag", "debug", "info", "notice", "warning", "err",
    "fail"]

/-- Names that look like statement calls and are refused. -/
def refusedCallNames : List String := ["import"]

/-- The name that an expression is, if it begins a statement call. -/
def statementCallName? (e : Expr) : Option String :=
  match e.node with
  | .leaf (.name s) =>
      if statementCallNames.contains s || refusedCallNames.contains s then some s else none
  | _ => none

/-- A call by name, with or without need of its value; everything else stays. -/
def withValueRequired (valueRequired : Bool) (e : Expr) : Expr :=
  match e.node with
  | .call .named _ functor args block =>
      { e with node := .call .named valueRequired functor args block }
  | _ => e

/-- The call of a name with arguments, from the name to the last of them. -/
def statementCall (functor : Expr) (args : List Expr) : Expr :=
  record functor.range (args.getLast?.bind Expr.range)
    (.ofNode (.call .named false functor (args.map (withValueRequired true)) none))

/-- The statements so far, the latest first, with one item more. After a statement call the item
is what it is called with; elsewhere it is a statement, and a list of arguments is an error. -/
def addStatement (source : Option Source) (done : List Expr) (item : Material) :
    Except Error (List Expr) :=
  match done.head?.bind statementCallName?, done with
  | some name, functor :: done =>
      if refusedCallNames.contains name then
        .error ⟨.unsupported name, place source functor.range⟩
      else item.spread.map fun args => statementCall functor args :: done
  | _, done =>
      match item with
      | .list _ =>
          .error ⟨.argumentsWithoutCall (done.head?.bind Expr.nameText?),
            place source (done.head?.bind Expr.range)⟩
      | item => item.toExpr.map fun e => withValueRequired false e :: done

/-- The statements that items make up, the latest first. -/
def addStatements (source : Option Source) (done : List Expr) :
    List Material → Except Error (List Expr)
  | [] => .ok done
  | item :: items =>
      match addStatement source done item with
      | .error e => .error e
      | .ok done => addStatements source done items

/-- The statements that items make up. An item is a statement, or a list where expressions were
separated by commas. -/
def statementCalls (source : Option Source) (items : List Material) : Except Error (List Expr) :=
  (addStatements source [] items).map List.reverse

end Manifest.Build
