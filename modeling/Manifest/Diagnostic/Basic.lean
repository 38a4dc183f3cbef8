import Manifest.Diagnostic.Code
import Manifest.Text.Position

/-!
# Diagnostics

A diagnostic has a code, a text and a severity, a position when it is known, and may carry a hint
and further places.
-/

namespace Manifest

open Text (SourcePosition)

/-- How grave a diagnostic is. -/
inductive Severity
  | error
  | warning
  | hint
  deriving DecidableEq, Repr, Inhabited

namespace Severity

/-- The name of a severity. -/
def name : Severity → String
  | .error => "error"
  | .warning => "warning"
  | .hint => "hint"

/-- The severity of a name. -/
def ofName? : String → Option Severity
  | "error" => some .error
  | "warning" => some .warning
  | "hint" => some .hint
  | _ => none

end Severity

/-- The shown form of a problem: place, code and text. -/
def located (code : Code) (text : String) : Option SourcePosition → String
  | some p => p.display ++ ": " ++ code.id ++ ": " ++ text
  | none => code.id ++ ": " ++ text ++ " (position unavailable)"

/-- A problem found while scanning. -/
structure Diagnostic where
  code : Code
  text : String
  severity : Severity
  position : Option SourcePosition
  hint : Option String
  related : List (String × SourcePosition)
  deriving DecidableEq, Repr, Inhabited

namespace Diagnostic

/-- An error with no hint and no further place; without a text, it says what its code says. -/
def make (code : Code) (text : Option String) (position : Option SourcePosition) : Diagnostic :=
  ⟨code, text.getD code.defaultText, .error, position, none, []⟩

/-- The severity is that of an error. -/
def isError (d : Diagnostic) : Bool := d.severity = .error

/-- The shown form: the problem, then its hint and its further places on lines of their own. -/
def display (d : Diagnostic) : String :=
  let hint := match d.hint with
    | some h => "\n  hint: " ++ h
    | none => ""
  d.related.foldl (fun text (what, p) => text ++ "\n  " ++ p.display ++ ": " ++ what)
    (located d.code d.text d.position ++ hint)

end Diagnostic

end Manifest
