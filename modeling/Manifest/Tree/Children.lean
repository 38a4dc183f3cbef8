import Manifest.Tree.Basic

/-!
# Sub-expressions

* `Node.children` lists the sub-expressions of a node, in the order of the source.
* `Node.map` puts other expressions in their places.
* `Node.head` is what is left of a node without them.
-/

namespace Manifest

/-- The type of a parameter and its default. -/
def Parameter.children {ε : Type} (p : Parameter ε) : List ε := p.type.toList ++ p.value.toList

/-- The values of an option and its body. -/
def CaseOption.children {ε : Type} (o : CaseOption ε) : List ε := o.values ++ [o.body]

/-- The title of a body and the values of its operations. -/
def ResourceBody.children {ε : Type} (b : ResourceBody ε) : List ε :=
  b.title.toList ++ b.operations.map Operation.value

/-- The key of an entry and its value. -/
def Entry.children {ε : Type} (e : Entry ε) : List ε := [e.key, e.value]

/-- The sub-expressions of a node, in the order of the source. -/
def Node.children {ε : Type} : Node ε → List ε
  | leaf _ => []
  | binary _ left right => [left, right]
  | unary _ e => [e]
  | items _ es => es
  | access left keys => left :: keys
  | hereDoc _ text => [text]
  | located _ e => [e]
  | hash entries => entries.flatMap Entry.children
  | branch _ test thenBody elseBody => [test, thenBody, elseBody]
  | cases test options => test :: options.flatMap CaseOption.children
  | selector left entries => left :: entries.flatMap Entry.children
  | call _ _ functor args block => functor :: args ++ block.toList
  | lambda params returns body =>
      params.flatMap Parameter.children ++ returns.toList ++ body.toList
  | function _ params returns body =>
      params.flatMap Parameter.children ++ returns.toList ++ body.toList
  | definition _ _ params body => params.flatMap Parameter.children ++ body.toList
  | typeAlias _ type => [type]
  | typeMapping type mapping => [type, mapping]
  | typeDefinition _ _ body => body.toList
  | host names parent body => names ++ parent.toList ++ body.toList
  | site body => body.toList
  | capability _ component _ mappings => component :: mappings.map Operation.value
  | resource _ type bodies => type :: bodies.flatMap ResourceBody.children
  | settings _ _ target operations => target :: operations.map Operation.value
  | collect type query operations =>
      type :: query.expr.toList ++ operations.map Operation.value
  | template _ body => body.toList

/-- The sub-expressions of an expression. -/
def Expr.children (e : Expr) : List Expr := e.node.children

/-! ## Mapping the sub-expressions -/

/-- The entry with other expressions. -/
def Entry.map {ε δ : Type} (f : ε → δ) (e : Entry ε) : Entry δ := ⟨f e.key, f e.value, e.range⟩

/-- The option with other expressions. -/
def CaseOption.map {ε δ : Type} (f : ε → δ) (o : CaseOption ε) : CaseOption δ :=
  ⟨o.values.map f, f o.body, o.range⟩

/-- The query with another expression. -/
def Query.map {ε δ : Type} (f : ε → δ) (q : Query ε) : Query δ := ⟨q.kind, q.expr.map f, q.range⟩

/-- The parameter with other expressions. -/
def Parameter.map {ε δ : Type} (f : ε → δ) (p : Parameter ε) : Parameter δ :=
  ⟨p.name, p.value.map f, p.type.map f, p.capturesRest, p.range⟩

/-- The operation with another value. -/
def Operation.map {ε δ : Type} (f : ε → δ) : Operation ε → Operation δ
  | .attribute name op value range => .attribute name op (f value) range
  | .attributes values range => .attributes (f values) range

/-- The body with other expressions. -/
def ResourceBody.map {ε δ : Type} (f : ε → δ) (b : ResourceBody ε) : ResourceBody δ :=
  ⟨b.title.map f, b.operations.map (·.map f), b.range⟩

/-- The node with other sub-expressions. -/
def Node.map {ε δ : Type} (f : ε → δ) : Node ε → Node δ
  | leaf l => leaf l
  | binary op left right => binary op (f left) (f right)
  | unary op e => unary op (f e)
  | items sequence es => items sequence (es.map f)
  | access left keys => access (f left) (keys.map f)
  | hereDoc format text => hereDoc format (f text)
  | located source e => located source (f e)
  | hash entries => hash (entries.map (·.map f))
  | branch form test thenBody elseBody => branch form (f test) (f thenBody) (f elseBody)
  | cases test options => cases (f test) (options.map (·.map f))
  | selector left entries => selector (f left) (entries.map (·.map f))
  | call form valueRequired functor args block =>
      call form valueRequired (f functor) (args.map f) (block.map f)
  | lambda params returns body => lambda (params.map (·.map f)) (returns.map f) (body.map f)
  | function name params returns body =>
      function name (params.map (·.map f)) (returns.map f) (body.map f)
  | definition form name params body => definition form name (params.map (·.map f)) (body.map f)
  | typeAlias name type => typeAlias name (f type)
  | typeMapping type mapping => typeMapping (f type) (f mapping)
  | typeDefinition name parent body => typeDefinition name parent (body.map f)
  | host names parent body => host (names.map f) (parent.map f) (body.map f)
  | site body => site (body.map f)
  | capability verb component name mappings =>
      capability verb (f component) name (mappings.map (·.map f))
  | resource form type bodies => resource form (f type) (bodies.map (·.map f))
  | settings what form target operations =>
      settings what form (f target) (operations.map (·.map f))
  | collect type query operations => collect (f type) (query.map f) (operations.map (·.map f))
  | template specified body => template specified (body.map f)

/-- A node without its sub-expressions: their places are kept. -/
def Node.head {ε : Type} (n : Node ε) : Node Unit := n.map fun _ => ()

end Manifest
