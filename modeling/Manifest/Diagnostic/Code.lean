/-!
# Codes of diagnostics

Every kind of problem has a code `Exxxx`, whose second digit tells the part of the front end that
reports it, and a default text.
-/

namespace Manifest

/-- The part of the front end that reports a problem. -/
inductive Code.Category
  | lexical
  | hereDoc
  | template
  | build
  | transformation
  | sexp
  | internal
  deriving DecidableEq, Repr

/-- How a category is called. -/
def Code.Category.text : Code.Category → String
  | .lexical => "lexical error"
  | .hereDoc => "heredoc error"
  | .template => "template error"
  | .build => "build error"
  | .transformation => "transformation error"
  | .sexp => "s-expression error"
  | .internal => "internal error"

/-- The kinds of problems. -/
inductive Code
  | unclosedQuote
  | unclosedComment
  | illegalNumber
  | illegalHex
  | illegalOctal
  | illegalDecimal
  | illegalName
  | illegalQualifiedName
  | illegalReference
  | illegalQualifiedReference
  | unicodeEscape
  | unknownEscape
  | byteOrderMark
  | invalidUtf8
  | unclosedHeader
  | malformedHeader
  | emptyTag
  | illegalEscapeFlag
  | repeatedEscapeFlag
  | noHereDocLines
  | noEndLine
  | emptyFormatSegment
  | openTag
  | openComment
  | danglingTag
  | illegalAssignment
  | functorNotName
  | argumentsWithoutCall
  | unsupportedConstruct
  | notAnExpression
  | unsupportedResource
  | noLegacyForm
  | illegalQuery
  | illegalHostName
  | illegalHashKey
  | notAssignable
  | unlessWithElse
  | unacceptableName
  | unexpectedCharacter
  | unexpectedToken
  | unexpectedEnd
  | invalidEscape
  | numberOutOfRange
  | internalError
  deriving DecidableEq, Repr, Inhabited

namespace Code

/-- Every code. -/
def all : List Code :=
  [.unclosedQuote, .unclosedComment, .illegalNumber, .illegalHex, .illegalOctal, .illegalDecimal,
    .illegalName, .illegalQualifiedName, .illegalReference, .illegalQualifiedReference,
    .unicodeEscape, .unknownEscape, .byteOrderMark, .invalidUtf8, .unclosedHeader,
    .malformedHeader, .emptyTag, .illegalEscapeFlag, .repeatedEscapeFlag, .noHereDocLines,
    .noEndLine, .emptyFormatSegment, .openTag, .openComment, .danglingTag, .illegalAssignment,
    .functorNotName, .argumentsWithoutCall, .unsupportedConstruct, .notAnExpression,
    .unsupportedResource, .noLegacyForm, .illegalQuery, .illegalHostName, .illegalHashKey,
    .notAssignable, .unlessWithElse, .unacceptableName, .unexpectedCharacter, .unexpectedToken,
    .unexpectedEnd, .invalidEscape, .numberOutOfRange, .internalError]

/-- The category and the two digits that follow it. -/
def number : Code → Category × String
  | .unclosedQuote => (.lexical, "01")
  | .unclosedComment => (.lexical, "02")
  | .illegalNumber => (.lexical, "03")
  | .illegalHex => (.lexical, "04")
  | .illegalOctal => (.lexical, "05")
  | .illegalDecimal => (.lexical, "06")
  | .illegalName => (.lexical, "07")
  | .illegalQualifiedName => (.lexical, "08")
  | .illegalReference => (.lexical, "09")
  | .illegalQualifiedReference => (.lexical, "10")
  | .unicodeEscape => (.lexical, "11")
  | .unknownEscape => (.lexical, "12")
  | .byteOrderMark => (.lexical, "13")
  | .invalidUtf8 => (.lexical, "14")
  | .unclosedHeader => (.hereDoc, "01")
  | .malformedHeader => (.hereDoc, "02")
  | .emptyTag => (.hereDoc, "03")
  | .illegalEscapeFlag => (.hereDoc, "04")
  | .repeatedEscapeFlag => (.hereDoc, "05")
  | .noHereDocLines => (.hereDoc, "06")
  | .noEndLine => (.hereDoc, "07")
  | .emptyFormatSegment => (.hereDoc, "08")
  | .openTag => (.template, "01")
  | .openComment => (.template, "02")
  | .danglingTag => (.template, "03")
  | .illegalAssignment => (.build, "01")
  | .functorNotName => (.build, "02")
  | .argumentsWithoutCall => (.build, "03")
  | .unsupportedConstruct => (.build, "04")
  | .notAnExpression => (.build, "05")
  | .unsupportedResource => (.transformation, "01")
  | .noLegacyForm => (.transformation, "02")
  | .illegalQuery => (.transformation, "03")
  | .illegalHostName => (.transformation, "04")
  | .illegalHashKey => (.transformation, "05")
  | .notAssignable => (.transformation, "06")
  | .unlessWithElse => (.transformation, "07")
  | .unacceptableName => (.transformation, "08")
  | .unexpectedCharacter => (.sexp, "01")
  | .unexpectedToken => (.sexp, "02")
  | .unexpectedEnd => (.sexp, "03")
  | .invalidEscape => (.sexp, "04")
  | .numberOutOfRange => (.sexp, "05")
  | .internalError => (.internal, "99")

/-- The category of a code. -/
def category (c : Code) : Category := c.number.1

/-- The first two digits of the codes of a category. -/
def Category.digits : Category → String
  | .lexical => "01"
  | .hereDoc => "02"
  | .template => "03"
  | .build => "04"
  | .transformation => "05"
  | .sexp => "06"
  | .internal => "09"

/-- The code as it is shown. -/
def id (c : Code) : String := "E" ++ c.category.digits ++ c.number.2

/-- The code shown as the text, if there is one. -/
def ofId? (s : String) : Option Code := all.find? (·.id == s)

/-- What is said when a report gives no text of its own. -/
def defaultText : Code → String
  | .unclosedQuote => "Unclosed quote"
  | .unclosedComment => "Unclosed multiline comment"
  | .illegalNumber => "Illegal number"
  | .illegalHex => "Not a valid hex number"
  | .illegalOctal => "Not a valid octal number"
  | .illegalDecimal => "Not a valid decimal number"
  | .illegalName => "Illegal name or bare word"
  | .illegalQualifiedName => "Illegal fully qualified name"
  | .illegalReference => "Illegal class reference"
  | .illegalQualifiedReference => "Illegal fully qualified class reference"
  | .unicodeEscape => "Unicode escape '\\u' was not followed by 4 hex digits or 1-6 hex digits in \x7b\x7d or was > 10ffff"
  | .unknownEscape => "Unrecognized escape sequence"
  | .byteOrderMark => "Illegal Byte Order mark at beginning of input"
  | .invalidUtf8 => "Input is not valid UTF-8"
  | .unclosedHeader => "Unclosed parenthesis after '@('"
  | .malformedHeader => "Invalid syntax in heredoc expected @(endtag[:syntax][/escapes])"
  | .emptyTag => "Heredoc with an empty endtag"
  | .illegalEscapeFlag => "Invalid heredoc escape char. Only t, r, n, s, u, L, $ allowed"
  | .repeatedEscapeFlag => "An escape char for @() may only appear once"
  | .noHereDocLines => "Heredoc without any following lines of text"
  | .noEndLine => "Heredoc without end-tagged line"
  | .emptyFormatSegment => "Heredoc syntax specification has empty segment between '+'"
  | .openTag => "Unbalanced epp tag, reached <eof> without closing tag."
  | .openComment => "Reaching end after opening <%# without seeing %>"
  | .danglingTag => "Unbalanced embedded expression - opening <% and reaching end of input"
  | .illegalAssignment => "Illegal left-hand side of assignment"
  | .functorNotName => "Functor of a call must be a name"
  | .argumentsWithoutCall => "Arguments given to a name that is not a call"
  | .unsupportedConstruct => "Unsupported construct"
  | .notAnExpression => "Value cannot be used as an expression"
  | .unsupportedResource => "Resource constructs are unsupported; use the current evaluator"
  | .noLegacyForm => "Expression has no legacy form"
  | .illegalQuery => "Not a valid expression in a collection query"
  | .illegalHostName => "Illegal expression - unacceptable as a node name"
  | .illegalHashKey => "Illegal hash key expression"
  | .notAssignable => "LHS is not an expression that can be assigned to"
  | .unlessWithElse => "Unsupported syntax, unless can not have an else clause"
  | .unacceptableName => "Unacceptable name"
  | .unexpectedCharacter => "unexpected character"
  | .unexpectedToken => "unexpected token"
  | .unexpectedEnd => "unexpected end of input"
  | .invalidEscape => "invalid escape"
  | .numberOutOfRange => "number out of range"
  | .internalError => "internal error"

/-- Reported while scanning: words, here-docs and templates. -/
def isLexical (c : Code) : Bool :=
  match c.category with
  | .lexical | .hereDoc | .template => true
  | _ => false

/-- Only ever reported as a warning. -/
def isWarning : Code → Bool
  | .unknownEscape | .emptyFormatSegment => true
  | _ => false

end Code

end Manifest
