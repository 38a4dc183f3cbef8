/-!
# Escapes

An escape is a backslash and one character. Which of them have a meaning depends on the kind of
text: an `EscapeSet` lists those that do.
-/

namespace Manifest.Quote

/-- What a backslash may precede. -/
inductive Escape
  | backslash
  | dollar
  | quote
  | doubleQuote
  | carriageReturn
  | lineFeed
  | tab
  | space
  | unicode
  | lineBreak
  deriving DecidableEq, Repr

/-- The escape that a character after a backslash stands for. -/
def Escape.ofChar? : Char → Option Escape
  | '\\' => some .backslash
  | '$' => some .dollar
  | '\'' => some .quote
  | '"' => some .doubleQuote
  | 'r' => some .carriageReturn
  | 'n' => some .lineFeed
  | 't' => some .tab
  | 's' => some .space
  | 'u' => some .unicode
  | '\n' => some .lineBreak
  | _ => none

/-- The escapes with a meaning. -/
structure EscapeSet where
  escapes : List Escape
  deriving DecidableEq, Repr, Inhabited

namespace EscapeSet

/-- No escape has a meaning. -/
def none : EscapeSet := ⟨[]⟩

/-- The escapes of text in single quotes. -/
def singleQuoted : EscapeSet := ⟨[.backslash, .quote]⟩

/-- The escapes of text without quotes. -/
def unquoted : EscapeSet :=
  ⟨[.backslash, .dollar, .carriageReturn, .lineFeed, .tab, .space, .unicode, .lineBreak]⟩

/-- The escapes of text in double quotes. -/
def doubleQuoted : EscapeSet := ⟨.quote :: .doubleQuote :: unquoted.escapes⟩

/-- All escapes that a here-doc can switch on. -/
def hereDoc : EscapeSet := unquoted

/-- A backslash before the character has a meaning. -/
def allows (set : EscapeSet) (c : Char) : Bool :=
  match Escape.ofChar? c with
  | some e => set.escapes.contains e
  | Option.none => false

/-- The set and the escape of the character; a character without an escape changes nothing. -/
def insert (set : EscapeSet) (c : Char) : EscapeSet :=
  match Escape.ofChar? c with
  | some e => if set.escapes.contains e then set else ⟨e :: set.escapes⟩
  | Option.none => set

/-- No escape has a meaning. -/
def isEmpty (set : EscapeSet) : Bool := set.escapes.isEmpty

/-- The character whose escape a here-doc flag switches on. -/
def ofFlag? : Char → Option Char
  | 'L' => some '\n'
  | c => if c ∈ ['t', 'r', 'n', 's', 'u', '$'] then some c else Option.none

/-- The set with a given name. -/
def ofName? : String → Option EscapeSet
  | "UNQUOTED" => some unquoted
  | "ALL_HEREDOC" => some hereDoc
  | "SINGLE_QUOTED" => some singleQuoted
  | "DOUBLE_QUOTED" => some doubleQuoted
  | _ => Option.none

end EscapeSet

/-- The character that an escape of one letter stands for. -/
def meaning : Char → Char
  | 'r' => '\r'
  | 'n' => '\n'
  | 't' => '\t'
  | 's' => ' '
  | c => c

end Manifest.Quote
