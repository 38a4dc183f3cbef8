import Manifest.Quote.Run
import Manifest.Scan.Problem
import Manifest.Template.Basic
import Manifest.Token.Basic
import Manifest.Unicode.WhiteSpace

/-!
# The state of a scan

A scan moves a cursor through a text. Beside the cursor it keeps what its rules look back to: the
kind of the last token, the depth of open braces, where the line began, where to resume after the
bodies of here-docs, and the template tag that is open.

A scan step may fail; the state it has reached is kept, since scanning may go on from there.
-/

namespace Manifest.Scan

open Text (Source byteLength dropBytes slice)

/-- What can be chosen. -/
structure Options where
  /-- `plan` is a keyword -/
  tasks : Bool
  /-- escapes without a meaning are reported -/
  warnUnknownEscapes : Bool
  deriving DecidableEq, Repr, Inhabited

/-- Tasks are off and warnings on unless chosen otherwise. -/
def Options.standard : Options := ⟨false, true⟩

/-- Where a scan is, and what it looks back to. -/
structure State where
  text : List Char
  source : Source
  options : Options
  /-- the offset of the cursor -/
  pos : Nat
  /-- the kind of the last token -/
  after : Option Token.Kind
  /-- how many braces are open, those of interpolations included -/
  braceDepth : Nat
  /-- where the tokens of the current line begin -/
  lineStart : Nat
  /-- where to go on after the next line feed, once here-doc bodies were read -/
  resume : Option Nat
  /-- the escapes of text without quotes -/
  escapes : Quote.EscapeSet
  /-- how text without quotes is collected -/
  mode : Quote.Mode
  /-- where a template is; a manifest is no template -/
  template : Option Template.Mode
  /-- the offset of the code tag that is open -/
  openTag : Option Nat
  diagnostics : List Diagnostic
  deriving Inhabited

/-- Why a scan stops: a problem, or a bound on the number of steps that was set too low. -/
inductive Stop
  | problem (d : Diagnostic)
  | exhausted
  deriving DecidableEq, Repr, Inhabited

/-- A scan: it moves on through the state, and stops with the state it has reached. -/
abbrev Scanner := EStateM Stop State

namespace State

/-- The start of a text. -/
def start (options : Options) (source : Source) (text : List Char) : State :=
  { text, source, options, pos := 0, after := none, braceDepth := 0, lineStart := 0, resume := none,
    escapes := .none, mode := .whole, template := none, openTag := none, diagnostics := [] }

/-- The length of the text in bytes. -/
def size (s : State) : Nat := byteLength s.text

/-- The text from the cursor on. -/
def rest (s : State) : List Char := dropBytes s.text s.pos

/-- Nothing is left to scan. -/
def atEnd (s : State) : Bool := s.size ≤ s.pos

/-- A token over a range of the text. -/
def token (s : State) (kind : Token.Kind) (value : Token.Value) (start stop : Nat) : Token :=
  ⟨kind, value, ⟨start, max stop start⟩, s.source⟩

/-- A token with a text of its own. -/
def textToken (s : State) (kind : Token.Kind) (text : List Char) (start stop : Nat) : Token :=
  s.token kind (.text (String.ofList text)) start stop

/-- The problem as a reason to stop. -/
def stop (s : State) (p : Problem) (offset : Nat) : Stop :=
  .problem (p.located (s.source.positionAt offset))

/-- The state with a further diagnostic. -/
def report (s : State) (p : Problem) (offset : Nat) : State :=
  { s with diagnostics := s.diagnostics ++ [p.located (s.source.positionAt offset)] }

end State

/-- How a character is shown in a text that quotes it. -/
def shown : Char → List Char
  | '\n' => ['\\', 'n']
  | '\r' => ['\\', 'r']
  | '\t' => ['\\', 't']
  | c => [c]

/-- Up to five characters, for a text that quotes what follows. -/
def preview (cs : List Char) : String :=
  if cs.isEmpty then "<eof>" else String.ofList ((cs.take 5).flatMap shown)

/-- White space that does not end a line. -/
def isBlank (c : Char) : Bool := c ≠ '\n' && Unicode.isWhiteSpace c

/-- The scan stops with a problem. -/
def fail {α : Type} (p : Problem) (offset : Nat) : Scanner α := fun s => .error (s.stop p offset) s

end Manifest.Scan
