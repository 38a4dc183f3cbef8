/-!
# Kinds of tokens

Marks are punctuation and operators: each has one spelling, and some spellings belong to two marks
that are told apart by what stands before them. Keywords have one spelling too, and their shown
name is that spelling in capitals.
-/

namespace Manifest.Token

/-- Reserved words with a kind of their own. -/
inductive Keyword
  | caseWord
  | classWord
  | defaultWord
  | defineWord
  | ifWord
  | elsifWord
  | elseWord
  | inheritsWord
  | nodeWord
  | andWord
  | orWord
  | undefWord
  | inWord
  | unlessWord
  | functionWord
  | typeWord
  | attrWord
  | privateWord
  | applicationWord
  | consumesWord
  | producesWord
  | siteWord
  | planWord
  deriving DecidableEq, Repr, Inhabited

namespace Keyword

/-- Every keyword. -/
def all : List Keyword :=
  [.caseWord, .classWord, .defaultWord, .defineWord, .ifWord, .elsifWord, .elseWord,
    .inheritsWord, .nodeWord, .andWord, .orWord, .undefWord, .inWord, .unlessWord, .functionWord,
    .typeWord, .attrWord, .privateWord, .applicationWord, .consumesWord, .producesWord,
    .siteWord, .planWord]

/-- The spelling of a keyword. -/
def spelling : Keyword → String
  | .caseWord => "case"
  | .classWord => "class"
  | .defaultWord => "default"
  | .defineWord => "define"
  | .ifWord => "if"
  | .elsifWord => "elsif"
  | .elseWord => "else"
  | .inheritsWord => "inherits"
  | .nodeWord => "node"
  | .andWord => "and"
  | .orWord => "or"
  | .undefWord => "undef"
  | .inWord => "in"
  | .unlessWord => "unless"
  | .functionWord => "function"
  | .typeWord => "type"
  | .attrWord => "attr"
  | .privateWord => "private"
  | .applicationWord => "application"
  | .consumesWord => "consumes"
  | .producesWord => "produces"
  | .siteWord => "site"
  | .planWord => "plan"

end Keyword

/-- Punctuation and operators. -/
inductive Mark
  | openBracket
  | listStart
  | closeBracket
  | openBrace
  | selectorBrace
  | closeBrace
  | openParen
  | lineParen
  | closeParen
  | comma
  | semicolon
  | colon
  | dot
  | question
  | tilde
  | at
  | doubleAt
  | pipe
  | assign
  | append
  | delete
  | equal
  | notEqual
  | matches
  | notMatches
  | greaterEqual
  | greater
  | lessEqual
  | less
  | arrow
  | plusArrow
  | shiftLeft
  | shiftRight
  | exportedStart
  | virtualStart
  | exportedEnd
  | virtualEnd
  | plus
  | minus
  | slash
  | star
  | percent
  | bang
  | before
  | notify
  | require
  | subscribe
  | tagEnd
  | trimmingTagEnd
  deriving DecidableEq, Repr, Inhabited

namespace Mark

/-- Every mark. -/
def all : List Mark :=
  [.openBracket, .listStart, .closeBracket, .openBrace, .selectorBrace, .closeBrace, .openParen,
    .lineParen, .closeParen, .comma, .semicolon, .colon, .dot, .question, .tilde, .at, .doubleAt,
    .pipe, .assign, .append, .delete, .equal, .notEqual, .matches, .notMatches, .greaterEqual,
    .greater, .lessEqual, .less, .arrow, .plusArrow, .shiftLeft, .shiftRight, .exportedStart,
    .virtualStart, .exportedEnd, .virtualEnd, .plus, .minus, .slash, .star, .percent, .bang,
    .before, .notify, .require, .subscribe, .tagEnd, .trimmingTagEnd]

/-- The spelling of a mark. -/
def spelling : Mark → String
  | .openBracket => "["
  | .listStart => "["
  | .closeBracket => "]"
  | .openBrace => "\x7b"
  | .selectorBrace => "\x7b"
  | .closeBrace => "\x7d"
  | .openParen => "("
  | .lineParen => "("
  | .closeParen => ")"
  | .comma => ","
  | .semicolon => ";"
  | .colon => ":"
  | .dot => "."
  | .question => "?"
  | .tilde => "~"
  | .at => "@"
  | .doubleAt => "@@"
  | .pipe => "|"
  | .assign => "="
  | .append => "+="
  | .delete => "-="
  | .equal => "=="
  | .notEqual => "!="
  | .matches => "=~"
  | .notMatches => "!~"
  | .greaterEqual => ">="
  | .greater => ">"
  | .lessEqual => "<="
  | .less => "<"
  | .arrow => "=>"
  | .plusArrow => "+>"
  | .shiftLeft => "<<"
  | .shiftRight => ">>"
  | .exportedStart => "<<|"
  | .virtualStart => "<|"
  | .exportedEnd => "|>>"
  | .virtualEnd => "|>"
  | .plus => "+"
  | .minus => "-"
  | .slash => "/"
  | .star => "*"
  | .percent => "%"
  | .bang => "!"
  | .before => "->"
  | .notify => "~>"
  | .require => "<-"
  | .subscribe => "<~"
  | .tagEnd => "%>"
  | .trimmingTagEnd => "-%>"

/-- The shown name of a mark. -/
def label : Mark → String
  | .openBracket => "LBRACK"
  | .listStart => "LISTSTART"
  | .closeBracket => "RBRACK"
  | .openBrace => "LBRACE"
  | .selectorBrace => "SELBRACE"
  | .closeBrace => "RBRACE"
  | .openParen => "LPAREN"
  | .lineParen => "WSLPAREN"
  | .closeParen => "RPAREN"
  | .comma => "COMMA"
  | .semicolon => "SEMIC"
  | .colon => "COLON"
  | .dot => "DOT"
  | .question => "QMARK"
  | .tilde => "TILDE"
  | .at => "AT"
  | .doubleAt => "ATAT"
  | .pipe => "PIPE"
  | .assign => "EQUALS"
  | .append => "APPENDS"
  | .delete => "DELETES"
  | .equal => "ISEQUAL"
  | .notEqual => "NOTEQUAL"
  | .matches => "MATCH"
  | .notMatches => "NOMATCH"
  | .greaterEqual => "GREATEREQUAL"
  | .greater => "GREATERTHAN"
  | .lessEqual => "LESSEQUAL"
  | .less => "LESSTHAN"
  | .arrow => "FARROW"
  | .plusArrow => "PARROW"
  | .shiftLeft => "LSHIFT"
  | .shiftRight => "RSHIFT"
  | .exportedStart => "LLCOLLECT"
  | .virtualStart => "LCOLLECT"
  | .exportedEnd => "RRCOLLECT"
  | .virtualEnd => "RCOLLECT"
  | .plus => "PLUS"
  | .minus => "MINUS"
  | .slash => "DIV"
  | .star => "TIMES"
  | .percent => "MODULO"
  | .bang => "NOT"
  | .before => "IN_EDGE"
  | .notify => "IN_EDGE_SUB"
  | .require => "OUT_EDGE"
  | .subscribe => "OUT_EDGE_SUB"
  | .tagEnd => "EPP_END"
  | .trimmingTagEnd => "EPP_END_TRIM"

end Mark

/-- The kind of a token. -/
inductive Kind
  | mark (m : Mark)
  | keyword (w : Keyword)
  | name
  | word
  | reference
  | number
  | variable
  | string
  | stringStart
  | stringMiddle
  | stringEnd
  | regex
  | boolean
  | hereDoc
  | hereDocBody
  | other
  | templateStart
  | renderString
  | renderExpression
  | endOfText
  deriving DecidableEq, Repr, Inhabited

namespace Kind

/-- The kinds with no fixed spelling. -/
def others : List Kind :=
  [.name, .word, .reference, .number, .variable, .string, .stringStart, .stringMiddle,
    .stringEnd, .regex, .boolean, .hereDoc, .hereDocBody, .other, .templateStart, .renderString,
    .renderExpression, .endOfText]

/-- Every kind. -/
def all : List Kind := Mark.all.map .mark ++ Keyword.all.map .keyword ++ others

/-- The shown name of a kind. -/
def label : Kind → String
  | .mark m => m.label
  | .keyword w => w.spelling.map Char.toUpper
  | .name => "NAME"
  | .word => "WORD"
  | .reference => "CLASSREF"
  | .number => "NUMBER"
  | .variable => "VARIABLE"
  | .string => "STRING"
  | .stringStart => "DQPRE"
  | .stringMiddle => "DQMID"
  | .stringEnd => "DQPOST"
  | .regex => "REGEX"
  | .boolean => "BOOLEAN"
  | .hereDoc => "HEREDOC"
  | .hereDocBody => "SUBLOCATE"
  | .other => "OTHER"
  | .templateStart => "EPP_START"
  | .renderString => "RENDER_STRING"
  | .renderExpression => "RENDER_EXPR"
  | .endOfText => "EOF"

/-- The kind with a shown name. -/
def ofLabel? (s : String) : Option Kind := all.find? (·.label == s)

/-- The fixed spelling of marks and keywords. -/
def spelling? : Kind → Option String
  | .mark m => some m.spelling
  | .keyword w => some w.spelling
  | _ => none

/-- Reserved words, `true` and `false` included. -/
def isKeyword : Kind → Bool
  | .keyword _ | .boolean => true
  | _ => false

/-- A slash after this token may open a regular expression; after a value it divides. -/
def allowsRegexAfter : Kind → Bool
  | .mark .closeParen | .mark .closeBracket | .mark .exportedEnd | .mark .virtualEnd
  | .name | .reference | .number | .string | .boolean | .stringStart | .stringMiddle
  | .stringEnd | .hereDoc | .regex | .variable | .word => false
  | _ => true

end Kind

/-- The kind of a reserved word; `plan` is one only where tasks are allowed. -/
def reserved? (tasks : Bool) (word : String) : Option Kind :=
  if word == "true" || word == "false" then some .boolean
  else
    match Keyword.all.find? (·.spelling == word) with
    | some .planWord => if tasks then some (.keyword .planWord) else none
    | some w => some (.keyword w)
    | none => none

/-- A word that is reserved with or without tasks. -/
def isReserved (word : String) : Bool := (reserved? true word).isSome

end Manifest.Token
