import Manifest.Diagnostic.Basic

/-!
# Problems found while building

Each problem names its cause; its code and its wording follow from that. An error is a problem and
the place it was found at, when that is known.
-/

namespace Manifest.Build

open Text (SourcePosition)

/-- What can be wrong with the parts of a tree. -/
inductive Problem
  /-- an assignment to an expression of a variant that cannot be assigned to -/
  | illegalAssignment (label : String)
  /-- a call whose function is not given by name, but by an expression of a variant -/
  | functorNotName (label : String)
  /-- arguments that follow no statement call, but a name or something without one -/
  | argumentsWithoutCall (name : Option String)
  | unsupported (word : String)
  | notAnExpression (what : String)
  /-- the text of a number that breaks a rule -/
  | number (rule : Code) (literal : String)
  deriving DecidableEq, Repr

namespace Problem

/-- The code of a problem. -/
def code : Problem → Code
  | illegalAssignment _ => .illegalAssignment
  | functorNotName _ => .functorNotName
  | argumentsWithoutCall _ => .argumentsWithoutCall
  | unsupported _ => .unsupportedConstruct
  | notAnExpression _ => .notAnExpression
  | number rule _ => rule

/-- The wording of a problem. -/
def text : Problem → String
  | illegalAssignment label => "Illegal attempt to assign to '" ++ label ++ "'"
  | functorNotName label => "Expression of type " ++ label ++ " is not a function name"
  | argumentsWithoutCall (some name) =>
      "'" ++ name ++ "' is not a statement call; it cannot take an argument list"
  | argumentsWithoutCall none => "An argument list must follow the name of a statement call"
  | unsupported word => "The '" ++ word ++ "' construct is not supported"
  | notAnExpression what => what ++ " cannot be used as an expression"
  | number rule literal => rule.defaultText ++ ": '" ++ literal ++ "'"

end Problem

/-- A problem and its place. -/
structure Error where
  problem : Problem
  position : Option SourcePosition
  deriving DecidableEq, Repr

namespace Error

/-- The code of the problem. -/
def code (e : Error) : Code := e.problem.code

/-- The shown form of an error. -/
def display (e : Error) : String := located e.code e.problem.text e.position

end Error

end Manifest.Build
