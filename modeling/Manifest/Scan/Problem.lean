import Manifest.Diagnostic.Basic

/-!
# Problems found while scanning

Each problem names its cause; its code, its wording and its severity follow from that.
-/

namespace Manifest.Scan

open Text (SourcePosition)

/-- What can be wrong with a text. -/
inductive Problem
  /-- a quote that is not closed, and what follows it -/
  | unclosedQuote (quote : Char) (following : String)
  | unclosedComment
  /-- a number of the wrong shape, by the rule that it breaks -/
  | number (rule : Code) (literal : String)
  | noWord
  /-- a letter that starts no word -/
  | foreignLetter (letter : Char)
  /-- a name or a word with a separator at its end -/
  | danglingName (name : String)
  /-- a reference with a separator at its end -/
  | danglingReference (rule : Code) (name : String)
  | unicodeEscape
  /-- an escape without a meaning -/
  | unknownEscape (letter : Char)
  | byteOrderMark (name bytes : String)
  /-- bytes that are no text, by the number of bytes before them -/
  | invalidUtf8 (valid : Nat)
  /-- a here-doc header that is not closed, and what follows its parenthesis -/
  | unclosedHeader (following : String)
  | header (rule : Code)
  | noHereDocLines
  /-- no end line of the tag, for a here-doc that starts at the position -/
  | noEndLine (tag : String) (start : SourcePosition)
  | emptyFormatSegment
  /-- a problem with a template tag -/
  | template (rule : Code)
  deriving DecidableEq, Repr

namespace Problem

/-- The code of a problem. -/
def code : Problem → Code
  | unclosedQuote _ _ => .unclosedQuote
  | unclosedComment => .unclosedComment
  | number rule _ => rule
  | noWord => .illegalName
  | foreignLetter _ => .illegalName
  | danglingName _ => .illegalQualifiedName
  | danglingReference rule _ => rule
  | unicodeEscape => .unicodeEscape
  | unknownEscape _ => .unknownEscape
  | byteOrderMark _ _ => .byteOrderMark
  | invalidUtf8 _ => .invalidUtf8
  | unclosedHeader _ => .unclosedHeader
  | header rule => rule
  | noHereDocLines => .noHereDocLines
  | noEndLine _ _ => .noEndLine
  | emptyFormatSegment => .emptyFormatSegment
  | template rule => rule

/-- What is said of a number that breaks a rule. -/
def numberText (literal : String) : Code → String
  | .illegalHex => "Not a valid hex number " ++ literal
  | .illegalOctal => "Not a valid octal number " ++ literal
  | .illegalDecimal => "Not a valid decimal number " ++ literal
  | _ => "Illegal number '" ++ literal ++ "'"

/-- The wording of a problem, where its code does not say it all. -/
def text? : Problem → Option String
  | unclosedQuote quote following =>
      some ("Unclosed quote after \"" ++ quote.toString ++ "\" followed by '" ++ following ++ "'")
  | number rule literal => some (numberText literal rule)
  | foreignLetter letter => some ("Illegal name '" ++ letter.toString ++ "'")
  | danglingName name => some ("Illegal fully qualified name '" ++ name ++ "::'")
  | danglingReference _ name =>
      some ("Illegal fully qualified class reference '" ++ name ++ "::'")
  | unknownEscape letter =>
      some ("Unrecognized escape sequence '\\" ++ letter.toString ++ "'")
  | byteOrderMark name bytes =>
      some ("Illegal " ++ name ++ " Byte Order mark at beginning of input: [" ++ bytes
        ++ "] - remove these from the puppet source")
  | invalidUtf8 valid => some ("Input is not valid UTF-8 after byte " ++ toString valid)
  | unclosedHeader following =>
      some ("Unclosed parenthesis after '@(' followed by '" ++ following ++ "'")
  | noEndLine tag _ => some ("Heredoc without end-tagged line, expected '" ++ tag ++ "'")
  | _ => none

/-- How a problem may be mended. -/
def hint? : Problem → Option String
  | foreignLetter _ => some "names must start with an ASCII letter or underscore"
  | _ => none

/-- Two problems do not stop a scan. -/
def severity : Problem → Severity
  | unknownEscape _ | emptyFormatSegment => .warning
  | _ => .error

/-- Further places that a problem points to. -/
def related : Problem → List (String × SourcePosition)
  | noEndLine _ start => [("here-doc started here", start)]
  | _ => []

/-- The diagnostic of a problem at a position. -/
def located (p : Problem) (position : SourcePosition) : Diagnostic :=
  ⟨p.code, p.text?.getD p.code.defaultText, p.severity, some position, p.hint?, p.related⟩

end Problem

end Manifest.Scan
