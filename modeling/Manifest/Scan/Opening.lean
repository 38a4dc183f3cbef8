import Manifest.Scan.State
import Manifest.Token.Shape
import Manifest.Unicode.IdentifierStart

/-!
# What begins at the cursor

The next characters decide which rule applies. Operators are tried from the longest to the
shortest, so that the longest one that is spelled there wins.
-/

namespace Manifest.Scan

open Token (Mark)

/-- The marks whose kind does not depend on what stands before them, longer spellings first. -/
def plainMarks : List Mark :=
  [.exportedStart, .exportedEnd,
    .append, .delete, .equal, .notEqual, .matches, .notMatches, .greaterEqual, .lessEqual, .arrow,
    .plusArrow, .shiftLeft, .shiftRight, .virtualStart, .virtualEnd, .before, .notify, .require,
    .subscribe, .doubleAt,
    .closeBracket, .closeParen, .comma, .semicolon, .colon, .dot, .question, .tilde, .at, .pipe,
    .assign, .greater, .less, .plus, .minus, .star, .percent, .bang]

/-- The spelling of a mark begins the text. -/
def Mark.begins (m : Mark) (cs : List Char) : Bool := m.spelling.toList.isPrefixOf cs

/-- The longest plain mark at the front. -/
def markAt? (cs : List Char) : Option Mark := plainMarks.find? (Mark.begins · cs)

/-- The rule that applies at the cursor. -/
inductive Opening
  | mark (m : Mark)
  | bracket
  | paren
  | brace
  | closeBrace
  /-- the end of a template tag, with or without a minus sign -/
  | tagEnd (trims : Bool)
  | hereDoc
  | doubleQuote
  | singleQuote
  | lineComment
  | blockComment
  | slash
  | dollar
  | number
  | word
  /-- a reference, and the code of one with a separator at its end -/
  | reference (dangling : Code)
  /-- a separator that begins no name -/
  | separator
  | newline
  | blank
  | foreignLetter (c : Char)
  | other (c : Char)
  deriving DecidableEq, Repr

/-- A character that begins a word. -/
def startsWord (c : Char) : Bool := c.isLower || c = '_'

/-- What follows a separator. -/
def openingAfterColons : List Char → Opening
  | c :: _ =>
      if startsWord c then .word
      else if c.isUpper then .reference .illegalQualifiedReference
      else .separator
  | [] => .separator

/-- The rule for a character that begins no mark. -/
def openingOfChar (c : Char) : Opening :=
  if c.isDigit then .number
  else if startsWord c then .word
  else if c.isUpper then .reference .illegalReference
  else if Unicode.isWhiteSpace c then .blank
  else if Unicode.isForeignLetter c then .foreignLetter c
  else .other c

/-- The end of a template tag at the front. -/
def tagEndAt? : List Char → Option Opening
  | '%' :: '>' :: _ => some (.tagEnd false)
  | '-' :: '%' :: '>' :: _ => some (.tagEnd true)
  | _ => none

/-- The rule for a mark or another character at the front. -/
def plainOpening (c : Char) (cs : List Char) : Opening :=
  match markAt? (c :: cs) with
  | some m => .mark m
  | none => openingOfChar c

/-- The rule that applies to a text; tags end only in a template. -/
def opening? (inTemplate : Bool) : List Char → Option Opening
  | [] => none
  | '[' :: _ => some .bracket
  | '(' :: _ => some .paren
  | '{' :: _ => some .brace
  | '}' :: _ => some .closeBrace
  | '"' :: _ => some .doubleQuote
  | '\'' :: _ => some .singleQuote
  | '#' :: _ => some .lineComment
  | '/' :: '*' :: _ => some .blockComment
  | '/' :: _ => some .slash
  | '$' :: _ => some .dollar
  | '\n' :: _ => some .newline
  | '@' :: '(' :: _ => some .hereDoc
  | ':' :: ':' :: cs => some (openingAfterColons cs)
  | c :: cs =>
      if inTemplate then some ((tagEndAt? (c :: cs)).getD (plainOpening c cs))
      else some (plainOpening c cs)

end Manifest.Scan
