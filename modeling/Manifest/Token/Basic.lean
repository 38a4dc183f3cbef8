import Manifest.Text.Source
import Manifest.Token.Kind

/-!
# Tokens

A token is a kind, a value, the range it was read from and the source that the range refers to.
-/

namespace Manifest

namespace Token

open Text (Excerpt)

/-- The lines of a here-doc after its margin was removed, and the excerpt they make up. -/
structure Body where
  lines : List String
  excerpt : Excerpt
  deriving DecidableEq, Repr, Inhabited

/-- What a token carries beside its kind. -/
inductive Value
  /-- nothing: the text follows from the kind -/
  | none
  | text (s : String)
  | boolean (b : Bool)
  | body (b : Body)
  deriving DecidableEq, Repr, Inhabited

end Token

/-- A token of a manifest. -/
structure Token where
  kind : Token.Kind
  value : Token.Value
  range : Text.Range
  source : Text.Source
  deriving DecidableEq, Repr, Inhabited

namespace Token

/-- The carried text, the boolean, or the spelling of the kind. -/
def text (t : Token) : String :=
  match t.value with
  | .text s => s
  | .boolean true => "true"
  | .boolean false => "false"
  | .none | .body _ => t.kind.spelling?.getD ""

/-- The text that the range covers. -/
def sourceText (t : Token) : String :=
  String.ofList (t.source.extract t.range.start t.range.length)

/-- File, line and column of the token. -/
def position (t : Token) : Text.SourcePosition := t.source.position t.range

end Token

end Manifest
