import Manifest.Sexp.Basic
import Manifest.Text.Bytes
import Manifest.Unicode.WhiteSpace

/-!
# Lexemes of s-expressions

Spaces, tabs, line breaks and comments from a semicolon to the end of the line stand between
lexemes. A lexeme is a bracket, a string, a quoted symbol or keyword, or the longest run of other
characters, which is a literal, a keyword or a symbol by its spelling. White space beyond ASCII
separates nothing: it is unreadable, and a run that it cuts off is read by rules of its own.

* `lexemes` reads a text; what no rule reads is an `unreadable` lexeme, the last one.
* `isOne` tells whether a text reads as a single lexeme of some kinds.
-/

namespace Manifest.Sexp

open Text (byteLength)

/-- The kind of a lexeme. -/
inductive Lexeme.Kind
  | openParen
  | closeParen
  | openBracket
  | closeBracket
  | openBrace
  | closeBrace
  | string
  | float
  | int
  | bool (b : Bool)
  | nil
  | quotedSymbol
  | quotedKeyword
  | keyword
  | symbol
  | unreadable
  deriving DecidableEq, Repr, Inhabited

/-- How a kind is called. -/
def Lexeme.Kind.text : Lexeme.Kind → String
  | .openParen => "'('"
  | .closeParen => "')'"
  | .openBracket => "'['"
  | .closeBracket => "']'"
  | .openBrace => "'\x7b'"
  | .closeBrace => "'\x7d'"
  | .string => "string"
  | .float => "float"
  | .int => "integer"
  | .bool _ => "boolean"
  | .nil => "nil"
  | .keyword | .quotedKeyword => "keyword"
  | .symbol | .quotedSymbol => "symbol"
  | .unreadable => "character"

/-- A lexeme: its kind, its spelling and its offset. -/
structure Lexeme where
  kind : Lexeme.Kind
  text : List Char
  offset : Nat
  deriving DecidableEq, Repr, Inhabited

/-- A character of a run without quotes. -/
def isBare (c : Char) : Bool :=
  !Unicode.isWhiteSpace c && !(['(', ')', '[', ']', '{', '}', '"', ';'].contains c)

/-- The characters after an opening quote as far as they belong to the quoted text, and whether a
closing quote follows them. A backslash takes the next character with it, unless that is a line
feed. -/
def quotedBody : List Char → List Char × Bool
  | [] => ([], false)
  | '"' :: _ => ([], true)
  | ['\\'] => ([], false)
  | '\\' :: c :: cs =>
      if c = '\n' then ([], false)
      else
        let (body, closed) := quotedBody cs
        ('\\' :: c :: body, closed)
  | c :: cs =>
      let (body, closed) := quotedBody cs
      (c :: body, closed)

/-- `0`, or digits of which the first is not zero. -/
def isNatural : List Char → Bool
  | ['0'] => true
  | c :: cs => c ≠ '0' && (c :: cs).all Char.isDigit
  | [] => false

/-- The text without a minus sign at its front. -/
def unsigned : List Char → List Char
  | '-' :: cs => cs
  | cs => cs

/-- The mark of an exponent, an optional sign and digits. -/
def isExponent : List Char → Bool
  | c :: cs => (c = 'e' || c = 'E') && Number.allDigits (Binary64.takeSign cs).2
  | [] => false

/-- Digits with a fraction, an exponent or both. -/
def isFloat (cs : List Char) : Bool :=
  let whole := cs.takeWhile Char.isDigit
  !whole.isEmpty && match cs.drop whole.length with
    | '.' :: cs =>
        let fraction := cs.takeWhile Char.isDigit
        let rest := cs.drop fraction.length
        !fraction.isEmpty && (rest.isEmpty || isExponent rest)
    | rest => isExponent rest

/-- The kind of a run. -/
def kindOfRun (run : List Char) : Lexeme.Kind :=
  if run = "true".toList then .bool true
  else if run = "false".toList then .bool false
  else if run = "nil".toList then .nil
  else if isNatural (unsigned run) then .int
  else if isFloat (unsigned run) then .float
  else match run with
    | ':' :: _ :: _ => .keyword
    | _ => .symbol

/-- Digits with a fraction and no exponent. -/
def isFraction (cs : List Char) : Bool :=
  let whole := cs.takeWhile Char.isDigit
  !whole.isEmpty && match cs.drop whole.length with
    | '.' :: cs => Number.allDigits cs
    | _ => false

/-- The run without the mark of an exponent at its end, if it has one. -/
def unmarked? (run : List Char) : Option (List Char) :=
  match run.getLast? with
  | some 'e' | some 'E' => some run.dropLast
  | _ => none

/-- The kind of a run that white space beyond ASCII cuts off. Words are symbols there, and so is
minus zero. A number counts as one up to the mark of an exponent, also without the exponent; it
has no value then. -/
def kindOfCutRun (run : List Char) : Lexeme.Kind :=
  match unmarked? run with
  | some number =>
      if number ≠ ['-', '0'] && isNatural (unsigned number) then .int
      else if isFraction (unsigned number) then .float
      else kindOfWord run
  | none => if run = ['-', '0'] then .symbol else kindOfWord run
where
  /-- A word that means something by itself is a symbol. -/
  kindOfWord (run : List Char) : Lexeme.Kind :=
    match kindOfRun run with
    | .bool _ => .symbol
    | .nil => .symbol
    | kind => kind

/-- White space beyond ASCII stands at the front. -/
def isCut : List Char → Bool
  | c :: _ => 128 ≤ c.toNat && Unicode.isWhiteSpace c
  | [] => false

/-- A lexeme of some kind in quotes, after its opening. -/
def quoted (kind : Lexeme.Kind) (opening cs : List Char) : Lexeme.Kind × List Char :=
  match quotedBody cs with
  | (body, true) => (kind, opening ++ body ++ ['"'])
  | (body, false) => (.unreadable, opening ++ body)

/-- The kind and the spelling of the lexeme that begins with a character. -/
def lexemeAt (c : Char) (cs : List Char) : Lexeme.Kind × List Char :=
  match c, cs with
  | '(', _ => (.openParen, ['('])
  | ')', _ => (.closeParen, [')'])
  | '[', _ => (.openBracket, ['['])
  | ']', _ => (.closeBracket, [']'])
  | '{', _ => (.openBrace, ['{'])
  | '}', _ => (.closeBrace, ['}'])
  | '"', cs => quoted .string ['"'] cs
  | '#', '"' :: cs => quoted .quotedSymbol ['#', '"'] cs
  | ':', '"' :: cs => quoted .quotedKeyword [':', '"'] cs
  | c, cs =>
      if isBare c then
        let run := c :: cs.takeWhile isBare
        (if isCut (cs.dropWhile isBare) then kindOfCutRun run else kindOfRun run, run)
      else (.unreadable, [c])

/-- White space that may stand between lexemes. -/
def isSeparator (c : Char) : Bool := c = ' ' || c = '\t' || c = '\r' || c = '\n'

/-- The lexemes of a text that begins at an offset. -/
def lexemesFrom (offset : Nat) : List Char → List Lexeme
  | [] => []
  | c :: cs =>
      if isSeparator c then lexemesFrom (offset + 1) cs
      else if c = ';' then
        let comment := cs.takeWhile (· ≠ '\n')
        lexemesFrom (offset + 1 + byteLength comment) (cs.drop comment.length)
      else
        let (kind, text) := lexemeAt c cs
        ⟨kind, text, offset⟩ ::
          if kind = .unreadable then []
          else lexemesFrom (offset + byteLength text) (cs.drop (text.length - 1))
termination_by cs => cs.length
decreasing_by all_goals simp +arith [List.length_drop]

/-- The lexemes of a text. -/
def lexemes (cs : List Char) : List Lexeme := lexemesFrom 0 cs

/-- The first lexeme of the text is of one of the kinds and reaches to the end. -/
def isOne (kinds : List Lexeme.Kind) (cs : List Char) : Bool :=
  match lexemes cs with
  | l :: _ => kinds.contains l.kind && l.offset + byteLength l.text == byteLength cs
  | [] => false

end Manifest.Sexp
