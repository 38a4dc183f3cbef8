import Manifest.Proofs.Legacy.Places

/-!
# The steps of a conversion

The conversion of a node takes steps, one after the other: a rule refuses the node, a rule refuses a
part and hands it on for its place, or a part is converted. Which steps these are can be read off
the node alone. The first step that fails decides with which error the node has no legacy form.

* `Form` — what an expression is converted as: an expression, a query, or the name of a host.
* `steps` — the steps of a conversion, in their order.
* `errorOf?_convert` — an expression has a legacy form when no step fails, and otherwise fails as
  the first step does that fails.
-/

namespace Manifest.Legacy

open Text (Range Source SourcePosition place)

variable {α β : Type} {source : Option Source} {e : Expr} {es : List Expr} {x : Except Error α}
  {f : α → Except Error β}

/-! ## Forms -/

/-- What an expression is converted as. -/
inductive Form
  | value
  | query
  | host
  deriving DecidableEq

/-- The conversion of an expression. -/
def convert : Form → Option Source → Expr → Except Error Tree
  | .value, source, e => e.toLegacy source
  | .query, source, e => e.toLegacyQuery source
  | .host, source, e => e.toLegacyHost source

/-! ## Steps -/

/-- One step of a conversion. -/
inductive Step
  /-- a rule refuses the node -/
  | refuse (p : Problem)
  /-- a rule refuses a part of the node, and the error gets the place of the part -/
  | refusePart (part : Expr) (p : Problem)
  /-- a part is converted -/
  | convert (form : Form) (part : Expr)

/-- The error that a result is. -/
def errorOf? : Except Error α → Option Error
  | .ok _ => none
  | .error e => some e

/-- The error that a step fails with. -/
def Step.error? (source : Option Source) : Step → Option Error
  | .refuse p => some (.plain p)
  | .refusePart part p => some ((Error.plain p).orAt (place source part.range))
  | .convert form part => errorOf? (Legacy.convert form source part)

/-- Expressions in a row are converted. -/
def convertEach (es : List Expr) : List Step := es.map (.convert .value)

/-- The name of a variable. -/
def dollarSteps (e : Expr) : List Step :=
  match variableName? e with
  | some _ => []
  | none => [.refuse (.noLegacyForm Manifest.UnaryOp.dollar.label)]

/-- The left-hand side of an assignment. -/
def targetSteps (left : Expr) : List Step :=
  match left.node with
  | .unary .dollar e =>
      match variableName? e with
      | some _ => []
      | none => [.refusePart left (.notAssignable e.label)]
  | .access _ _ => [.convert .value left]
  | _ => [.refusePart left (.notAssignable left.label)]

/-- `left[keys]`, where keys behind the first one count for the resources of a type alone. -/
def accessSteps (left : Expr) (keys : List Expr) : List Step :=
  match left.node with
  | .leaf (.name _) | .leaf (.reference _) => convertEach keys
  | .unary .dollar _ | .access _ _ => convertEach (left :: keys.take 1)
  | _ => [.refuse (.noLegacyForm left.label)]

/-- The key of a hash. A bare name is not converted. -/
def keySteps (key : Expr) : List Step :=
  match key.node with
  | .leaf (.name _) => []
  | .leaf (.string _) | .items .concatenation _ => convertEach [key]
  | _ => [.refusePart key (.illegalHashKey key.label)]

/-- An entry of a hash. -/
def entrySteps (entry : Entry Expr) : List Step :=
  keySteps entry.key ++ convertEach [entry.value]

/-- A choice between two bodies; one that does nothing is not converted. -/
def branchSteps (form : BranchForm) (test thenBody elseBody : Expr) : List Step :=
  if elseBody.isNop then convertEach [test, thenBody]
  else
    match form with
    | .ifTrue => convertEach [test, thenBody, elseBody]
    | .unlessTrue => [.refuse .unlessWithElse]

/-- A selector: its entries come before what it chooses by. -/
def selectorSteps (left : Expr) (entries : List (Entry Expr)) : List Step :=
  if isSelectable left then convertEach (entries.flatMap Entry.children ++ [left])
  else [.refuse (.noLegacyForm left.label)]

/-- A call. The expression that names the function is not converted, nor is the dot between a
receiver and its method. -/
def callSteps (form : CallForm) (functor : Expr) (args : List Expr) (block : Option Expr) :
    List Step :=
  match form, functor.node with
  | .value, _ => [.refuse (.noLegacyForm CallForm.value.label)]
  | .named, .leaf (.name _) => convertEach (args ++ block.toList)
  | .named, _ => [.refuse (.unacceptableName "function" functor.label)]
  | .method, .binary .dot receiver right =>
      match right.node with
      | .leaf (.name _) => convertEach (receiver :: (args ++ block.toList))
      | _ => [.refuse (.unacceptableName "method" right.label)]
  | .method, _ => [.refuse (.unacceptableName "method call" functor.label)]

/-- A parameter: without a type, and not for all further arguments. -/
def parameterSteps (p : Parameter Expr) : List Step :=
  if p.capturesRest || p.type.isSome then
    [.refuse (.noLegacyForm "typed or captures-rest Parameter")]
  else convertEach p.value.toList

/-- Parameters and a body. -/
def bodySteps (params : List (Parameter Expr)) (body : Option Expr) : List Step :=
  params.flatMap parameterSteps ++ convertEach body.toList

/-- What a collect expression sets. -/
def operationStep : Operation Expr → Step
  | .attribute _ _ value _ => .convert .value value
  | .attributes values _ => .refusePart values (.noLegacyForm "AttributesOperation")

/-- What a collect expression asks; a query that does nothing is not converted. -/
def conditionSteps (query : Query Expr) : List Step :=
  match query.expr with
  | some e => if e.isNop then [] else [.convert .query e]
  | none => []

/-- A collect expression. -/
def collectSteps (type : Expr) (query : Query Expr) (operations : List (Operation Expr)) :
    List Step :=
  match typeName? type with
  | some _ => conditionSteps query ++ operations.map operationStep
  | none => [.refuse (.unacceptableName "collection type" type.label)]

/-- The steps of a node. -/
def valueSteps : Manifest.Node Expr → List Step
  | .leaf (.renderString s) => [.refuse (.noLegacyForm (Manifest.Leaf.renderString s).label)]
  | .leaf _ => []
  | .binary (.assignment .delete) _ _ => [.refuse (.noLegacyForm "Assignment(-=)")]
  | .binary (.assignment _) left right => targetSteps left ++ convertEach [right]
  | .binary .dot _ _ => [.refuse (.noLegacyForm Manifest.BinaryOp.dot.label)]
  | .binary _ left right => convertEach [left, right]
  | .unary .unfold _ => [.refuse (.noLegacyForm Manifest.UnaryOp.unfold.label)]
  | .unary .render _ => [.refuse (.noLegacyForm Manifest.UnaryOp.render.label)]
  | .unary .dollar e => dollarSteps e
  | .unary _ e => convertEach [e]
  | .items _ es => convertEach es
  | .access left keys => accessSteps left keys
  | .hereDoc _ text => convertEach [text]
  | .located _ e => convertEach [e]
  | .hash entries => entries.flatMap entrySteps
  | .branch form test thenBody elseBody => branchSteps form test thenBody elseBody
  | .cases test options => convertEach (test :: options.flatMap CaseOption.children)
  | .selector left entries => selectorSteps left entries
  | .call form _ functor args block => callSteps form functor args block
  | .lambda _ (some type) _ => [.refusePart type (.noLegacyForm "Lambda return type")]
  | .lambda params none body => bodySteps params body
  | .definition .application name params body =>
      [.refuse (.noLegacyForm (Manifest.Node.definition .application name params body).label)]
  | .definition _ _ params body => bodySteps params body
  | .host names parent body =>
      names.map (.convert .host) ++ convertEach (parent.toList ++ body.toList)
  | .collect type query operations => collectSteps type query operations
  | .resource form type bodies =>
      [.refuse (.unsupportedResource (Manifest.Node.resource form type bodies).label)]
  | .settings what _ _ _ => [.refuse (.unsupportedResource what.label)]
  | n => [.refuse (.noLegacyForm n.label)]

/-- The steps of a node of a query. -/
def querySteps : Manifest.Node Expr → List Step
  | .binary op left right =>
      match testOp op with
      | .ok _ => [.convert .query left, .convert .query right]
      | .error e => [.refuse e.problem]
  | .unary .parens e => [.convert .query e]
  | .unary .dollar e => dollarSteps e
  | .leaf (.name _) | .leaf (.string _) | .leaf (.integer _ _) => []
  | .items .concatenation es => convertEach es
  | n => [.refuse (.illegalQuery n.label)]

/-- The steps for the name of a host. -/
def hostSteps (e : Expr) : List Step :=
  match hostLeaf? e with
  | some _ => []
  | none => [.refuse (.illegalHostName e.label)]

/-- The steps of a conversion, in their order. -/
def steps : Form → Expr → List Step
  | .value, e => valueSteps e.node
  | .query, e => querySteps e.node
  | .host, e => hostSteps e

/-! ## Results that follow from steps -/

/-- A result is a success when all steps are, and otherwise fails as the first that fails. -/
def Follows (source : Option Source) (ss : List Step) (x : Except Error α) : Prop :=
  errorOf? x = ss.findSome? (Step.error? source)

theorem follows_ok (a : α) : Follows source [] (.ok a) := rfl

/-- Steps that follow one another. -/
theorem Follows.bind {ss ts : List Step} (hx : Follows source ss x)
    (hf : ∀ a, Follows source ts (f a)) : Follows source (ss ++ ts) (x >>= f) := by
  rw [Follows, List.findSome?_append, ← hx]
  cases x with
  | error e => rfl
  | ok a => exact hf a

/-- What is made of a value does not matter. -/
theorem Follows.map {ss : List Step} (hx : Follows source ss x) (g : α → β) :
    Follows source ss (do return g (← x)) := by
  rw [Follows, ← hx]
  cases x <;> rfl

/-- Refusing is one step, whatever would come behind it. -/
theorem follows_refuse (p : Problem) (ss : List Step) :
    Follows source (.refuse p :: ss) (refuse p : Except Error α) := rfl

theorem follows_refuseAt (part : Expr) (p : Problem) (ss : List Step) :
    Follows source (.refusePart part p :: ss) (refuseAt source part.range p : Except Error α) := rfl

/-- Converting a part is one step. -/
theorem follows_convert (form : Form) (part : Expr) :
    Follows source [.convert form part] (convert form source part) := by
  rw [Follows, List.findSome?_singleton]
  rfl

theorem follows_value (e : Expr) : Follows source (convertEach [e]) (e.toLegacy source) :=
  follows_convert .value e

/-- Parts that follow one another are converted one after the other. -/
theorem convertEach_append (es ds : List Expr) :
    convertEach (es ++ ds) = convertEach es ++ convertEach ds := List.map_append

/-- An expression is converted, and then other steps are taken. -/
theorem Follows.cons {g : Tree → Except Error α} {ss : List Step} (e : Expr)
    (hg : ∀ t, Follows source ss (g t)) :
    Follows source (.convert .value e :: ss) (e.toLegacy source >>= g) :=
  (follows_value e).bind hg

/-! ## Parts -/

/-- Expressions are converted from left to right. -/
theorem follows_each (es : List Expr) :
    Follows source (convertEach es) (firstError (legacyEach source es)) := by
  induction es with
  | nil =>
      rw [legacyEach]
      exact follows_ok []
  | cons e es ih =>
      rw [legacyEach, firstError]
      exact .cons e fun t => ih.map (t :: ·)

/-- An expression that may be missing is one step or none. -/
theorem follows_option (o : Option Expr) :
    Follows source (convertEach o.toList) (legacy? source o) := by
  cases o with
  | none =>
      rw [legacy?]
      exact follows_ok none
  | some e =>
      rw [legacy?]
      exact (follows_value e).map some

theorem follows_body (o : Option Expr) :
    Follows source (convertEach o.toList) (bodyLegacy source o) := by
  cases o with
  | none =>
      rw [bodyLegacy]
      exact follows_ok _
  | some e =>
      rw [bodyLegacy]
      exact follows_value e

/-- Hosts are converted from left to right. -/
theorem follows_hosts (es : List Expr) :
    Follows source (es.map (.convert .host)) (firstError (es.map (ofHost source))) := by
  induction es with
  | nil => exact follows_ok []
  | cons e es ih =>
      rw [List.map_cons, List.map_cons, firstError]
      exact (follows_convert .host e).bind fun t => ih.map (t :: ·)

/-- Entries are converted from left to right, each key before its value. -/
theorem follows_pairs (entries : List (Entry Expr)) :
    Follows source (convertEach (entries.flatMap Entry.children)) (pairsLegacy source entries) := by
  induction entries with
  | nil =>
      rw [pairsLegacy]
      exact follows_ok []
  | cons entry entries ih =>
      obtain ⟨key, value, range⟩ := entry
      rw [pairsLegacy, List.flatMap_cons, convertEach_append]
      exact .cons key fun k => .cons value fun v => ih.map (Pair.mk k v :: ·)

theorem follows_choices (options : List (CaseOption Expr)) :
    Follows source (convertEach (options.flatMap CaseOption.children))
      (choicesLegacy source options) := by
  induction options with
  | nil =>
      rw [choicesLegacy]
      exact follows_ok []
  | cons option options ih =>
      obtain ⟨values, body, range⟩ := option
      rw [choicesLegacy, List.flatMap_cons, CaseOption.children, List.append_assoc,
        convertEach_append, convertEach_append]
      exact (follows_each values).bind fun vs => .cons body fun b => ih.map (Choice.mk vs b :: ·)

/-- Parameters are converted from left to right, and one that cannot stand there is refused. -/
theorem follows_arguments (params : List (Parameter Expr)) :
    Follows source (params.flatMap parameterSteps) (argumentsLegacy source params) := by
  induction params with
  | nil =>
      rw [argumentsLegacy]
      exact follows_ok []
  | cons param params ih =>
      obtain ⟨name, value, type, capturesRest, range⟩ := param
      rw [argumentsLegacy, List.flatMap_cons, parameterSteps]
      split
      · exact follows_refuse _ _
      · exact (follows_option value).bind fun v => ih.map (Argument.mk name v :: ·)

/-- Operations are converted from left to right. -/
theorem follows_settings (operations : List (Operation Expr)) :
    Follows source (operations.map operationStep) (settingsLegacy source operations) := by
  induction operations with
  | nil =>
      rw [settingsLegacy]
      exact follows_ok []
  | cons operation operations ih =>
      cases operation with
      | «attribute» name op value range =>
          rw [settingsLegacy]
          exact .cons value fun v => ih.map (Setting.mk name op v :: ·)
      | attributes values range =>
          rw [settingsLegacy]
          exact follows_refuseAt values _ _

/-- The condition of a query is one step, if there is one. -/
theorem follows_condition (query : Query Expr) :
    Follows source (conditionSteps query) (queryLegacy source query) := by
  obtain ⟨kind, expr, range⟩ := query
  cases expr with
  | none =>
      rw [queryLegacy]
      exact follows_ok none
  | some e =>
      rw [queryLegacy, conditionSteps]
      dsimp only
      split
      · exact follows_ok none
      · exact (follows_convert .query e).map some

/-- A key is taken as it stands, converted or refused. -/
theorem follows_hashKey (key : Expr) :
    Follows source (keySteps key) (hashKey source key (key.toLegacy source)) := by
  unfold keySteps hashKey
  cases key.node with
  | leaf l =>
      cases l with
      | name s => exact follows_ok _
      | string s => exact follows_value key
      | _ => exact follows_refuseAt key _ _
  | items sequence es =>
      cases sequence with
      | concatenation => exact follows_value key
      | _ => exact follows_refuseAt key _ _
  | _ => exact follows_refuseAt key _ _

/-- The entries of a hash are converted from left to right, each key before its value. -/
theorem follows_hash (entries : List (Entry Expr)) :
    Follows source (entries.flatMap entrySteps) (hashLegacy source entries) := by
  induction entries with
  | nil =>
      rw [hashLegacy]
      exact follows_ok []
  | cons entry entries ih =>
      obtain ⟨key, value, range⟩ := entry
      rw [hashLegacy, List.flatMap_cons, entrySteps, List.append_assoc]
      exact (follows_hashKey key).bind fun k => .cons value fun v => ih.map (Pair.mk k v :: ·)

/-! ## Nodes -/

theorem follows_ofLeaf (l : Manifest.Leaf) : Follows source (valueSteps (.leaf l)) (ofLeaf l) := by
  cases l with
  | renderString s => exact follows_refuse _ _
  | _ => exact follows_ok _

/-- A dollar sign stands before a name or is refused. -/
theorem follows_ofDollar (e : Expr) : Follows source (dollarSteps e) (ofDollar e) := by
  unfold dollarSteps ofDollar
  cases variableName? e with
  | some s => exact follows_ok _
  | none => exact follows_refuse _ _

/-- The target of an assignment is a variable or is refused. -/
theorem follows_target (left : Expr) :
    Follows source (targetSteps left) (target source left (left.toLegacy source)) := by
  unfold targetSteps target
  cases left.node with
  | unary op e =>
      cases op with
      | dollar =>
          dsimp only
          cases variableName? e with
          | some s => exact follows_ok _
          | none => exact follows_refuseAt left _ _
      | _ => exact follows_refuseAt left _ _
  | access left' keys => exact follows_value left
  | _ => exact follows_refuseAt left _ _

/-- Of several keys the first one is converted. -/
theorem follows_headD (keys : List Expr) : Follows source (convertEach (keys.take 1))
    ((legacyEach source keys).headD (.ok .nop)) := by
  cases keys with
  | nil =>
      rw [legacyEach]
      exact follows_ok _
  | cons key keys =>
      rw [legacyEach]
      exact follows_value key

/-- What the left side of an access asks for. -/
theorem follows_access (left : Expr) (keys : List Expr) : Follows source (accessSteps left keys)
    (access left (left.toLegacy source) (legacyEach source keys)) := by
  have helement : Follows source (convertEach (left :: keys.take 1))
      (do
        let target ← left.toLegacy source
        let key ← (legacyEach source keys).headD (.ok .nop)
        return Tree.ofNode (.access target key)) :=
    .cons left fun t => (follows_headD keys).map _
  unfold accessSteps access
  cases left.node with
  | leaf l =>
      cases l with
      | name s => exact (follows_each keys).map _
      | reference s => exact (follows_each keys).map _
      | _ => exact follows_refuse _ _
  | unary op e =>
      cases op with
      | dollar => exact helement
      | _ => exact follows_refuse _ _
  | access left' keys' => exact helement
  | _ => exact follows_refuse _ _

/-- Both sides of an operator, or no legacy form of it. -/
theorem follows_binary (op : Manifest.BinaryOp) (left right : Expr) :
    Follows source (valueSteps (.binary op left right))
      (Node.toLegacy source (.binary op left right)) := by
  have htwo : ∀ o : BinaryOp, Follows source (convertEach [left, right])
      (do
        let left ← left.toLegacy source
        let right ← right.toLegacy source
        return Tree.ofNode (.binary o left right)) :=
    fun o => .cons left fun t => (follows_value right).map _
  have hassigned : ∀ appends : Bool, Follows source (targetSteps left ++ convertEach [right])
      (do
        let target ← target source left (left.toLegacy source)
        let value ← right.toLegacy source
        return Tree.ofNode (.assignment target value appends)) :=
    fun appends => (follows_target left).bind fun t => (follows_value right).map _
  cases op with
  | assignment op =>
      cases op with
      | delete =>
          rw [Node.toLegacy]
          exact follows_refuse _ _
      | _ =>
          simp only [Node.toLegacy]
          exact hassigned _
  | dot =>
      simp only [Node.toLegacy]
      exact follows_refuse _ _
  | _ =>
      simp only [Node.toLegacy]
      exact htwo _

theorem follows_unary (op : Manifest.UnaryOp) (e : Expr) :
    Follows source (valueSteps (.unary op e)) (Node.toLegacy source (.unary op e)) := by
  cases op with
  | negation =>
      rw [Node.toLegacy]
      exact (follows_value e).map _
  | minus =>
      rw [Node.toLegacy]
      exact (follows_value e).map _
  | parens =>
      rw [Node.toLegacy]
      exact follows_value e
  | text =>
      rw [Node.toLegacy]
      exact follows_value e
  | dollar =>
      rw [Node.toLegacy]
      exact follows_ofDollar e
  | unfold =>
      simp only [Node.toLegacy]
      exact follows_refuse _ _
  | render =>
      simp only [Node.toLegacy]
      exact follows_refuse _ _

/-- An `unless` with another branch is refused. -/
theorem follows_branch (form : BranchForm) (test thenBody elseBody : Expr) :
    Follows source (branchSteps form test thenBody elseBody)
      (Node.toLegacy source (.branch form test thenBody elseBody)) := by
  unfold branchSteps
  by_cases hnop : elseBody.isNop
  · rw [if_pos hnop]
    cases form with
    | ifTrue =>
        simp only [Node.toLegacy, if_pos hnop]
        exact .cons test fun t => (follows_value thenBody).map _
    | unlessTrue =>
        simp only [Node.toLegacy, if_pos hnop]
        exact .cons test fun t => (follows_value thenBody).map _
  · rw [if_neg hnop]
    cases form with
    | ifTrue =>
        simp only [Node.toLegacy, if_neg hnop]
        exact .cons test fun t => .cons thenBody fun u => (follows_value elseBody).map _
    | unlessTrue =>
        simp only [Node.toLegacy, if_neg hnop]
        exact follows_refuse _ _

/-- A method is called on what stands before its name. -/
theorem follows_method (valueRequired : Bool) (functor : Expr) (args : List Expr)
    (block : Option Expr) : Follows source (callSteps .method functor args block)
      (Node.toLegacy source (.call .method valueRequired functor args block)) := by
  obtain ⟨n, range⟩ := functor
  cases n with
  | binary op receiver right =>
      cases op with
      | dot =>
          rw [Node.toLegacy]
          unfold callSteps
          dsimp only
          cases right.node with
          | leaf l =>
              cases l with
              | name s =>
                  dsimp only
                  rw [convertEach, List.map_cons, ← convertEach, convertEach_append]
                  exact .cons receiver fun t => (follows_each args).bind fun ts =>
                    (follows_option block).map _
              | _ => exact follows_refuse _ _
          | _ => exact follows_refuse _ _
      | _ =>
          simp only [Node.toLegacy]
          exact follows_refuse _ _
  | _ =>
      simp only [Node.toLegacy]
      exact follows_refuse _ _

/-- What is called decides how a call is converted. -/
theorem follows_call (form : CallForm) (valueRequired : Bool) (functor : Expr) (args : List Expr)
    (block : Option Expr) : Follows source (callSteps form functor args block)
      (Node.toLegacy source (.call form valueRequired functor args block)) := by
  cases form with
  | value =>
      rw [Node.toLegacy]
      exact follows_refuse _ _
  | named =>
      rw [Node.toLegacy]
      unfold callSteps
      cases functor.node with
      | leaf l =>
          cases l with
          | name s =>
              dsimp only
              rw [convertEach_append]
              exact (follows_each args).bind fun ts => (follows_option block).map _
          | _ => exact follows_refuse _ _
      | _ => exact follows_refuse _ _
  | method => exact follows_method valueRequired functor args block

/-- Definitions are converted with their parameters and their body. -/
theorem follows_definition (form : DefinitionForm) (name : String) (params : List (Parameter Expr))
    (body : Option Expr) : Follows source (valueSteps (.definition form name params body))
      (Node.toLegacy source (.definition form name params body)) := by
  cases form with
  | application =>
      simp only [Node.toLegacy]
      exact follows_refuse _ _
  | resourceType =>
      rw [Node.toLegacy]
      exact (follows_arguments params).bind fun ps => (follows_body body).map _
  | hostClass parent =>
      rw [Node.toLegacy]
      exact (follows_arguments params).bind fun ps => (follows_body body).map _

/-- The steps of a node are those of its conversion. -/
theorem follows_node (n : Manifest.Node Expr) :
    Follows (sourceBelow source n) (valueSteps n) (Node.toLegacy source n) := by
  -- the steps are listed in the order in which the conversion binds them
  cases n with
  | leaf l =>
      rw [Node.toLegacy]
      exact follows_ofLeaf l
  | binary op left right => exact follows_binary op left right
  | unary op e => exact follows_unary op e
  | items sequence es =>
      rw [Node.toLegacy]
      exact (follows_each es).map _
  | access left keys =>
      rw [Node.toLegacy]
      exact follows_access left keys
  | hereDoc format text =>
      rw [Node.toLegacy]
      exact follows_value text
  | located excerpt e =>
      rw [Node.toLegacy]
      exact follows_value e
  | hash entries =>
      rw [Node.toLegacy]
      exact (follows_hash entries).map _
  | branch form test thenBody elseBody => exact follows_branch form test thenBody elseBody
  | cases test options =>
      rw [Node.toLegacy]
      exact .cons test fun t => (follows_choices options).map _
  | selector left entries =>
      rw [Node.toLegacy, valueSteps, selectorSteps]
      split
      · rw [convertEach_append]
        exact (follows_pairs entries).bind fun ps => (follows_value left).map _
      · exact follows_refuse _ _
  | call form valueRequired functor args block =>
      exact follows_call form valueRequired functor args block
  | lambda params returns body =>
      cases returns with
      | some type =>
          rw [Node.toLegacy]
          exact follows_refuseAt type _ _
      | none =>
          rw [Node.toLegacy]
          exact (follows_arguments params).bind fun ps => (follows_body body).map _
  | definition form name params body => exact follows_definition form name params body
  | host names parent body =>
      rw [Node.toLegacy, valueSteps, convertEach_append]
      exact (follows_hosts names).bind fun ts => (follows_option parent).bind fun o =>
        (follows_body body).map _
  | collect type query operations =>
      rw [Node.toLegacy, valueSteps, collectSteps]
      cases typeName? type with
      | some name =>
          exact (follows_condition query).bind fun o => (follows_settings operations).map _
      | none => exact follows_refuse _ _
  | _ =>
      simp only [Node.toLegacy]
      exact follows_refuse _ _

/-! ## Queries and hosts -/

theorem follows_test (op : Manifest.BinaryOp) (left right : Expr) :
    Follows source (querySteps (.binary op left right))
      (Node.toLegacyQuery source (.binary op left right)) := by
  have htests : ∀ o : TestOp, Follows source [.convert .query left, .convert .query right]
      (do
        let left ← left.toLegacyQuery source
        let right ← right.toLegacyQuery source
        return Tree.ofNode (.test o left right false)) := fun o =>
    (follows_convert .query left).bind fun t => (follows_convert .query right).map _
  rw [Node.toLegacyQuery]
  cases op with
  | comparison op =>
      cases op with
      | eq => exact htests _
      | ne => exact htests _
      | _ => exact follows_refuse _ _
  | conjunction => exact htests _
  | disjunction => exact htests _
  | _ => exact follows_refuse _ _

/-- The steps of a query are those of its conversion. -/
theorem follows_query (n : Manifest.Node Expr) :
    Follows (sourceBelow source n) (querySteps n) (Node.toLegacyQuery source n) := by
  cases n with
  | leaf l =>
      cases l with
      | name s => exact follows_ok _
      | string s => exact follows_ok _
      | integer value radix => exact follows_ok _
      | _ => exact follows_refuse _ _
  | binary op left right => exact follows_test op left right
  | unary op e =>
      cases op with
      | parens =>
          rw [Node.toLegacyQuery]
          exact (follows_convert .query e).map _
      | dollar =>
          rw [Node.toLegacyQuery]
          exact follows_ofDollar e
      | _ =>
          simp only [Node.toLegacyQuery]
          exact follows_refuse _ _
  | items sequence es =>
      cases sequence with
      | concatenation =>
          rw [Node.toLegacyQuery]
          exact (follows_each es).map _
      | _ =>
          simp only [Node.toLegacyQuery]
          exact follows_refuse _ _
  | _ =>
      simp only [Node.toLegacyQuery]
      exact follows_refuse _ _

/-- An error is given the place of the expression unless it has one. -/
theorem errorOf?_settle (range : Option Range) (x : Except Error Tree) :
    errorOf? (settle source range x) = (errorOf? x).map (·.orAt (place source range)) := by
  cases x <;> rfl

/-- A conversion fails as the first of its steps that fails, and its error gets the place of the
expression unless it has one. -/
theorem errorOf?_convert (form : Form) (source : Option Source) (e : Expr) :
    errorOf? (convert form source e) =
      ((steps form e).findSome? (Step.error? (sourceBelow source e.node))).map
        (·.orAt (place source e.range)) := by
  cases form with
  | value =>
      obtain ⟨n, range⟩ := e
      rw [convert, Expr.toLegacy, errorOf?_settle, follows_node]
      rfl
  | query =>
      obtain ⟨n, range⟩ := e
      rw [convert, Expr.toLegacyQuery, errorOf?_settle, follows_query]
      rfl
  | host =>
      rw [convert, Expr.toLegacyHost, ofHost, steps, hostSteps]
      cases hostLeaf? e with
      | some l => rfl
      | none => rfl

end Manifest.Legacy
