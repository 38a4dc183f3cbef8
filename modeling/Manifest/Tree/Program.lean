import Manifest.Tree.Walk

/-!
# Programs

A program is a finished tree with the document that it was read from and an index of its
definitions: classes, defined types, functions, nodes and so on, at any depth, in the order in
which they stand in the tree.
-/

namespace Manifest

open Text (Document Range SourcePosition)

/-- What is defined. -/
inductive DefinitionKind
  | hostClass
  | resourceType
  | function
  | node
  | site
  | application
  | typeAlias
  | typeMapping
  | typeDefinition
  | capabilityMapping
  deriving DecidableEq, Repr, Inhabited

/-- The name of a kind of definition. -/
def DefinitionKind.label : DefinitionKind → String
  | hostClass => "Class"
  | resourceType => "ResourceType"
  | function => "Function"
  | node => "Node"
  | site => "Site"
  | application => "Application"
  | typeAlias => "TypeAlias"
  | typeMapping => "TypeMapping"
  | typeDefinition => "TypeDefinition"
  | capabilityMapping => "CapabilityMapping"

/-- An entry of the index. -/
structure Definition where
  kind : DefinitionKind
  name : String
  range : Option Range
  deriving DecidableEq, Repr, Inhabited

/-- The kind of a definition with parameters and a body. -/
def DefinitionForm.kind : DefinitionForm → DefinitionKind
  | resourceType => .resourceType
  | application => .application
  | hostClass _ => .hostClass

/-- The names of a node's hosts; one without a text is called by its variant. -/
def hostNames (hosts : List Expr) : String :=
  String.intercalate "," (hosts.map fun h => h.nameText?.getD h.label)

/-- What a node defines, and under which name. -/
def Node.defines? : Node Expr → Option (DefinitionKind × String)
  | definition form name _ _ => some (form.kind, name)
  | function name _ _ _ => some (.function, name)
  | host names _ _ => some (.node, hostNames names)
  | site _ => some (.site, "site")
  | typeAlias name _ => some (.typeAlias, name)
  | typeDefinition name _ _ => some (.typeDefinition, name)
  | typeMapping type _ => some (.typeMapping, type.nameText?.getD "")
  | capability _ _ name _ => some (.capabilityMapping, name)
  | _ => none

/-- The entry of an expression that is a definition. -/
def Expr.definition? (e : Expr) : Option Definition :=
  e.node.defines?.map fun (kind, name) => ⟨kind, name, e.range⟩

/-- A finished tree, its definitions and the document that it was read from. -/
structure Program where
  body : Expr
  definitions : List Definition
  document : Document
  deriving Inhabited

/-- Equality up to the case of ASCII letters. -/
def sameName (a b : String) : Bool := a.toList.map Char.toLower == b.toList.map Char.toLower

namespace Program

/-- The program with a body; its definitions are found in the body. -/
def ofBody (body : Expr) (document : Document) : Program :=
  ⟨body, body.nodes.filterMap Expr.definition?, document⟩

/-- The position of an expression of the program. -/
def positionOf (p : Program) (e : Expr) : Option SourcePosition :=
  e.range.map (Text.Source.document p.document).position

/-- The definition with a name, up to the case of letters; of several the first. -/
def find? (p : Program) (name : String) : Option Expr :=
  match p.definitions.find? (sameName ·.name name) with
  | some d => p.body.nodes.find? (·.definition? == some d)
  | none => none

end Program

end Manifest
