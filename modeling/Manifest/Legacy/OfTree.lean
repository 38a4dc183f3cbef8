import Manifest.Legacy.Problem
import Manifest.Legacy.Tree
import Manifest.Tree.Program
import Manifest.Unicode.Lowercase

/-!
# The legacy form of trees

Most variants have one legacy form. Beyond that:

* numbers are names, written in their radix;
* keys of a hash that are equal are merged: the last value counts, at the place of the first;
* resources, types and templates have no legacy form.

A tree stems from the place of its expression, found in the source that the expression refers to:
that of the excerpt below an excerpt. An error is placed at the innermost expression around it
that has a range.

* `Expr.toLegacy` is the legacy form of an expression.
* `Expr.toLegacyQuery` reads an expression as the query of a collect expression.
* `Expr.toLegacyHost` reads one as the name of a host.
-/

namespace Manifest

open Text (Range Source SourcePosition place)

namespace Legacy

/-- File, line and column of a position. -/
def Location.ofPosition (p : SourcePosition) : Location := ⟨p.file, p.line, p.column⟩

/-- A tree that stems from a range. -/
def stamp (source : Option Source) (range : Option Range) (t : Tree) : Tree :=
  t.orAt ((place source range).map .ofPosition)

/-- A tree or an error that stems from a range. -/
def settle (source : Option Source) (range : Option Range) :
    Except Error Tree → Except Error Tree
  | .ok t => .ok (stamp source range t)
  | .error e => .error (e.orAt (place source range))

/-- An error of unknown place. -/
def refuse {α : Type} (p : Problem) : Except Error α := .error (.plain p)

/-- An error at a range. -/
def refuseAt {α : Type} (source : Option Source) (range : Option Range) (p : Problem) :
    Except Error α :=
  .error ((Error.plain p).orAt (place source range))

/-- The values of results in a row; the first error counts. -/
def firstError {α : Type} : List (Except Error α) → Except Error (List α)
  | [] => .ok []
  | r :: rs => do
      let a ← r
      let as ← firstError rs
      return a :: as

/-! ## Leaves -/

/-- The text of an integer in its radix. -/
def integerText (value : Int64) (radix : Radix) : String :=
  String.ofList (Number.renderInteger value radix)

/-- The legacy form of a leaf. -/
def ofLeaf : Manifest.Leaf → Except Error Tree
  | .nop => .ok .nop
  | .undef => .ok (.ofLeaf .undef)
  | .default => .ok (.ofLeaf .default)
  | .string s => .ok (.ofLeaf (.string s))
  | .integer value radix => .ok (.ofLeaf (.name (integerText value radix)))
  | .float x => .ok (.ofLeaf (.name x.toText))
  | .boolean b => .ok (.ofLeaf (.boolean b))
  | .regex pattern => .ok (.ofLeaf (.regex pattern))
  | .name s => .ok (.ofLeaf (.name s))
  | .reference s => .ok (.ofLeaf (.type s))
  | .reserved word _ => .ok (.ofLeaf (.string word))
  | .renderString s => refuse (.noLegacyForm (Manifest.Leaf.renderString s).label)

/-- The name of the variable `$e`: a name, or a number in decimal. -/
def variableName? (e : Expr) : Option String :=
  match e.node with
  | .leaf (.name s) => some s
  | .leaf (.integer value _) => some (textOfInt64 value)
  | _ => none

/-- The legacy form of `$e`. -/
def ofDollar (e : Expr) : Except Error Tree :=
  match variableName? e with
  | some s => .ok (.ofLeaf (.dollar s))
  | none => refuse (.noLegacyForm Manifest.UnaryOp.dollar.label)

/-! ## Names of hosts -/

/-- The leaf for the name of a host. -/
def hostLeaf? (e : Expr) : Option Leaf :=
  match e.node with
  | .leaf (.name s) | .leaf (.string s) => some (.host s false)
  | .leaf (.integer value radix) => some (.host (integerText value radix) false)
  | .leaf .default => some (.host "default" false)
  | .leaf (.regex pattern) => some (.host pattern true)
  | _ => none

/-- The legacy form of the name of a host. -/
def ofHost (source : Option Source) (e : Expr) : Except Error Tree :=
  match hostLeaf? e with
  | some l => .ok (stamp source e.range (.ofLeaf l))
  | none => refuseAt source e.range (.illegalHostName e.label)

/-! ## Operators -/

/-- The legacy form of an operator; assignments and dots have forms of their own. -/
def operator? : Manifest.BinaryOp → Option BinaryOp
  | .arithmetic op => some (.arithmetic op)
  | .comparison op => some (.comparison op)
  | .matching op => some (.matching op)
  | .relationship op => some (.relationship op)
  | .membership => some .membership
  | .conjunction => some .conjunction
  | .disjunction => some .disjunction
  | .assignment _ | .dot => none

/-- What an operator asks in a query. -/
def testOp : Manifest.BinaryOp → Except Error TestOp
  | .comparison .eq => .ok .eq
  | .comparison .ne => .ok .ne
  | .comparison op => refuse (.illegalQuery op.symbol)
  | .conjunction => .ok .conjunction
  | .disjunction => .ok .disjunction
  | op => refuse (.illegalQuery op.label)

/-- A query in parentheses; values stay. -/
def inParens (t : Tree) : Tree :=
  match t.node with
  | .test op left right _ => { t with node := .test op left right true }
  | _ => t

/-! ## Accesses and assignments -/

/-- The legacy form of `left[keys]`: resources of a type, or the element of a variable under the
first key. -/
def access (left : Expr) (target : Except Error Tree) (keys : List (Except Error Tree)) :
    Except Error Tree :=
  match left.node with
  | .leaf (.name type) | .leaf (.reference type) => do
      return .ofNode (.reference type (← firstError keys))
  | .unary .dollar _ | .access _ _ => do
      let target ← target
      let key ← keys.headD (.ok .nop)
      return .ofNode (.access target key)
  | _ => refuse (.noLegacyForm left.label)

/-- The left-hand side of an assignment: the name of a variable, or an element, whose legacy form
is given. -/
def target (source : Option Source) (left : Expr) (element : Except Error Tree) :
    Except Error Tree :=
  match left.node with
  | .unary .dollar e =>
      match variableName? e with
      | some name => .ok (stamp source left.range (.ofLeaf (.name name)))
      | none => refuseAt source left.range (.notAssignable e.label)
  | .access _ _ => element
  | _ => refuseAt source left.range (.notAssignable left.label)

/-! ## Hashes -/

/-- The key of an entry, whose legacy form is given. A bare name is a key by its text. -/
def hashKey (source : Option Source) (key : Expr) (text : Except Error Tree) :
    Except Error Tree :=
  match key.node with
  | .leaf (.name s) => .ok (stamp source key.range (.ofLeaf (.string s)))
  | .leaf (.string _) | .items .concatenation _ => text
  | _ => refuseAt source key.range (.illegalHashKey key.label)

/-- Entries with one more: an entry with an equal key takes its value. -/
def merge (key value : Tree) : List (Pair Tree) → List (Pair Tree)
  | [] => [⟨key, value⟩]
  | p :: ps =>
      if sameNode p.key.node key.node then ⟨p.key, value⟩ :: ps else p :: merge key value ps

/-- Entries with equal keys merged, from left to right. -/
def mergeAll (ps : List (Pair Tree)) : List (Pair Tree) :=
  ps.foldl (fun merged p => merge p.key p.value merged) []

/-! ## Selectors -/

/-- What a selector can choose by. -/
def isSelectable (e : Expr) : Bool :=
  match e.node with
  | .call .named _ _ _ _ | .access _ _ | .unary .dollar _ | .items .concatenation _ => true
  | .leaf .nop | .leaf (.reserved _ _) | .leaf (.renderString _) => false
  | .leaf _ => true
  | _ => false

/-- The reference's text in small letters. -/
def typeName? (e : Expr) : Option String :=
  match e.node with
  | .leaf (.reference s) => some (Unicode.lowercase s)
  | _ => none

end Legacy

open Legacy in
mutual

/-- The legacy form of an expression; `source` is what its range refers to. -/
def Expr.toLegacy (source : Option Source) : Expr → Except Legacy.Error Legacy.Tree
  | ⟨n, range⟩ => settle source range (Node.toLegacy source n)

/-- The legacy form of a node. -/
def Node.toLegacy (source : Option Source) : Node Expr → Except Legacy.Error Legacy.Tree
  | .leaf l => ofLeaf l
  | .binary (.assignment .delete) _ _ => refuse (.noLegacyForm "Assignment(-=)")
  | .binary (.assignment op) left right => do
      let target ← target source left (left.toLegacy source)
      let value ← right.toLegacy source
      return .ofNode (.assignment target value (op = .append))
  | .binary op left right =>
      match operator? op with
      | some o => do
          let left ← left.toLegacy source
          let right ← right.toLegacy source
          return .ofNode (.binary o left right)
      | none => refuse (.noLegacyForm op.label)
  | .unary .negation e => do return .ofNode (.unary .negation (← e.toLegacy source))
  | .unary .minus e => do return .ofNode (.unary .minus (← e.toLegacy source))
  | .unary .parens e | .unary .text e => e.toLegacy source
  | .unary .dollar e => ofDollar e
  | .unary op _ => refuse (.noLegacyForm op.label)
  | .items sequence es => do return .ofNode (.items sequence (← firstError (legacyEach source es)))
  | .access left keys => access left (left.toLegacy source) (legacyEach source keys)
  | .hereDoc _ text => text.toLegacy source
  | .located excerpt e => e.toLegacy (some (.excerpt excerpt))
  | .hash entries => do return .ofNode (.hash (mergeAll (← hashLegacy source entries)))
  | .branch .ifTrue test thenBody elseBody => do
      let test ← test.toLegacy source
      let thenBody ← thenBody.toLegacy source
      if elseBody.isNop then return .ofNode (.branch test thenBody none)
      else
        let elseBody ← elseBody.toLegacy source
        return .ofNode (.branch test thenBody (some elseBody))
  | .branch .unlessTrue test thenBody elseBody =>
      if elseBody.isNop then do
        let negated ← test.toLegacy source
        let negated := stamp source test.range (.ofNode (.unary .negation negated))
        let thenBody ← thenBody.toLegacy source
        return .ofNode (.branch negated thenBody none)
      else refuse .unlessWithElse
  | .cases test options => do
      let test ← test.toLegacy source
      let choices ← choicesLegacy source options
      return .ofNode (.cases test choices)
  | .selector left entries =>
      if isSelectable left then do
        let entries ← pairsLegacy source entries
        let left ← left.toLegacy source
        return .ofNode (.selector left entries)
      else refuse (.noLegacyForm left.label)
  | .call .named valueRequired functor args block =>
      match functor.node with
      | .leaf (.name name) => do
          let args ← firstError (legacyEach source args)
          let block ← legacy? source block
          return .ofNode (.call name args valueRequired block)
      | _ => refuse (.unacceptableName "function" functor.label)
  | .call .method _ functor args block =>
      match functor with
      | ⟨.binary .dot receiver right, _⟩ =>
          match right.node with
          | .leaf (.name name) => do
              let receiver ← receiver.toLegacy source
              let args ← firstError (legacyEach source args)
              let block ← legacy? source block
              return .ofNode (.method receiver name args block)
          | _ => refuse (.unacceptableName "method" right.label)
      | _ => refuse (.unacceptableName "method call" functor.label)
  | .call .value _ _ _ _ => refuse (.noLegacyForm CallForm.value.label)
  | .lambda params returns body =>
      match returns with
      | some type => refuseAt source type.range (.noLegacyForm "Lambda return type")
      | none => do
          let params ← argumentsLegacy source params
          let body ← bodyLegacy source body
          return .ofNode (.lambda params body)
  | .definition (.hostClass parent) name params body => do
      let params ← argumentsLegacy source params
      let body ← bodyLegacy source body
      return .ofNode (.hostClass name params parent body)
  | .definition .resourceType name params body => do
      let params ← argumentsLegacy source params
      let body ← bodyLegacy source body
      return .ofNode (.definition name params body)
  | .host names parent body => do
      let names ← firstError (names.map (ofHost source))
      let parent ← legacy? source parent
      let body ← bodyLegacy source body
      return .ofNode (.hosts names parent body)
  | .collect type query operations =>
      match typeName? type with
      | some name => do
          let test ← queryLegacy source query
          let settings ← settingsLegacy source operations
          return .ofNode (.collection name query.kind test settings)
      | none => refuse (.unacceptableName "collection type" type.label)
  | .resource form type bodies =>
      refuse (.unsupportedResource (Node.resource form type bodies).label)
  | .settings what _ _ _ => refuse (.unsupportedResource what.label)
  | n => refuse (.noLegacyForm n.label)

/-- The legacy form of each of some expressions. -/
def legacyEach (source : Option Source) : List Expr → List (Except Legacy.Error Legacy.Tree)
  | [] => []
  | e :: es => e.toLegacy source :: legacyEach source es

/-- The legacy form of an expression that may be missing. -/
def legacy? (source : Option Source) : Option Expr → Except Legacy.Error (Option Legacy.Tree)
  | none => .ok none
  | some e => do return some (← e.toLegacy source)

/-- The legacy form of a body; a missing one does nothing. -/
def bodyLegacy (source : Option Source) : Option Expr → Except Legacy.Error Legacy.Tree
  | none => .ok .nop
  | some e => e.toLegacy source

/-- The entries of a hash. -/
def hashLegacy (source : Option Source) :
    List (Entry Expr) → Except Legacy.Error (List (Legacy.Pair Legacy.Tree))
  | [] => .ok []
  | ⟨key, value, _⟩ :: entries => do
      let k ← hashKey source key (key.toLegacy source)
      let v ← value.toLegacy source
      let pairs ← hashLegacy source entries
      return ⟨k, v⟩ :: pairs

/-- The entries of a selector. -/
def pairsLegacy (source : Option Source) :
    List (Entry Expr) → Except Legacy.Error (List (Legacy.Pair Legacy.Tree))
  | [] => .ok []
  | ⟨key, value, _⟩ :: entries => do
      let k ← key.toLegacy source
      let v ← value.toLegacy source
      let pairs ← pairsLegacy source entries
      return ⟨k, v⟩ :: pairs

/-- The options of a case expression. -/
def choicesLegacy (source : Option Source) :
    List (CaseOption Expr) → Except Legacy.Error (List (Legacy.Choice Legacy.Tree))
  | [] => .ok []
  | ⟨values, body, _⟩ :: options => do
      let values ← firstError (legacyEach source values)
      let body ← body.toLegacy source
      let choices ← choicesLegacy source options
      return ⟨values, body⟩ :: choices

/-- Parameters: those with a type, or that take all further arguments, have no legacy form. -/
def argumentsLegacy (source : Option Source) :
    List (Parameter Expr) → Except Legacy.Error (List (Legacy.Argument Legacy.Tree))
  | [] => .ok []
  | ⟨name, value, type, capturesRest, _⟩ :: params =>
      if capturesRest || type.isSome then
        refuse (.noLegacyForm "typed or captures-rest Parameter")
      else do
        let value ← legacy? source value
        let params ← argumentsLegacy source params
        return ⟨name, value⟩ :: params

/-- The attributes that a collect expression sets. -/
def settingsLegacy (source : Option Source) :
    List (Operation Expr) → Except Legacy.Error (List (Legacy.Setting Legacy.Tree))
  | [] => .ok []
  | .attribute name op value _ :: operations => do
      let value ← value.toLegacy source
      let settings ← settingsLegacy source operations
      return ⟨name, op, value⟩ :: settings
  | .attributes values _ :: _ =>
      refuseAt source values.range (.noLegacyForm "AttributesOperation")

/-- The query of a collect expression; one that does nothing is missing. -/
def queryLegacy (source : Option Source) :
    Query Expr → Except Legacy.Error (Option Legacy.Tree)
  | ⟨_, none, _⟩ => .ok none
  | ⟨_, some e, _⟩ =>
      if e.isNop then .ok none else do return some (← e.toLegacyQuery source)

/-- The legacy form of an expression as a query. -/
def Expr.toLegacyQuery (source : Option Source) : Expr → Except Legacy.Error Legacy.Tree
  | ⟨n, range⟩ => settle source range (Node.toLegacyQuery source n)

/-- The legacy form of a node as a query: values are compared and comparisons are joined. -/
def Node.toLegacyQuery (source : Option Source) : Node Expr → Except Legacy.Error Legacy.Tree
  | .binary op left right => do
      let op ← testOp op
      let left ← left.toLegacyQuery source
      let right ← right.toLegacyQuery source
      return .ofNode (.test op left right false)
  | .unary .parens e => do return inParens (← e.toLegacyQuery source)
  | .unary .dollar e => ofDollar e
  | .leaf (.name s) => ofLeaf (.name s)
  | .leaf (.string s) => ofLeaf (.string s)
  | .leaf (.integer value radix) => ofLeaf (.integer value radix)
  | .items .concatenation es => do
      return .ofNode (.items .concatenation (← firstError (legacyEach source es)))
  | n => refuse (.illegalQuery n.label)

end

/-- A leaf has a legacy form of its own. -/
theorem Expr.toLegacy_leaf (source : Option Source) (l : Leaf) (range : Option Range) :
    Expr.toLegacy source ⟨.leaf l, range⟩ = Legacy.settle source range (Legacy.ofLeaf l) := by
  rw [Expr.toLegacy, Node.toLegacy]

/-- The legacy form of the name of a host. -/
def Expr.toLegacyHost (source : Option Source) (e : Expr) : Except Legacy.Error Legacy.Tree :=
  Legacy.ofHost source e

/-- The legacy form of a program; its document is what ranges refer to. -/
def Program.toLegacy (p : Program) : Except Legacy.Error Legacy.Tree :=
  p.body.toLegacy (some (.document p.document))

end Manifest
