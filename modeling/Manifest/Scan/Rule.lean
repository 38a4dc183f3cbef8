import Manifest.HereDoc.Body
import Manifest.HereDoc.Header
import Manifest.Scan.Opening

/-!
# Scan rules that stand alone

One rule for each kind of opening that does not lead back into code: each reads what begins at
the cursor, moves the cursor behind it and gives the tokens, of which there are none for blanks
and comments.
-/

namespace Manifest.Scan

open Text (byteLength)
open Token (Mark)

/-- A mark of the given kind at the cursor. -/
def takeMark (m : Mark) : Scanner (List Token) :=
  modifyGet fun s =>
    let stop := s.pos + byteLength m.spelling.toList
    ([s.token (.mark m) .none s.pos stop], { s with pos := stop })

/-- An opening bracket: it begins a list at the start of the text and after white space. -/
def takeBracket : Scanner (List Token) := do
  let s ← get
  let before := (Text.slice s.text 0 s.pos).getLast?
  takeMark (if before.all Unicode.isWhiteSpace then .listStart else .openBracket)

/-- An opening parenthesis, with or without something before it on its line. -/
def takeParen : Scanner (List Token) := do
  let s ← get
  let line := Text.slice s.text (min s.lineStart s.pos) s.pos
  takeMark (if line.all isBlank then .lineParen else .openParen)

/-- An opening brace; after a question mark it opens a selector. -/
def takeBrace : Scanner (List Token) := do
  let s ← get
  set { s with braceDepth := s.braceDepth + 1 }
  takeMark (if s.after = some (.mark .question) then .selectorBrace else .openBrace)

/-- A closing brace. -/
def takeCloseBrace : Scanner (List Token) := do
  modify fun s => { s with braceDepth := s.braceDepth - 1 }
  takeMark .closeBrace

/-- Characters that make up a token with a text of its own. -/
def takeText (kind : Token.Kind) (spelling text : List Char) : Scanner (List Token) :=
  modifyGet fun s =>
    let stop := s.pos + byteLength spelling
    ([s.textToken kind text s.pos stop], { s with pos := stop })

/-- Characters that make up no token. -/
def skip (spelling : List Char) : Scanner (List Token) :=
  modifyGet fun s => ([], { s with pos := s.pos + byteLength spelling })

/-- A comment between `/*` and `*/`. -/
def takeComment : Scanner (List Token) := do
  let s ← get
  match Text.findOffset (['*', '/'].isPrefixOf ·) (s.pos + 2) (s.rest.drop 2) with
  | some offset =>
      set { s with pos := offset + 2 }
      return []
  | none => fail .unclosedComment s.pos

/-- A regular expression, where one may stand, or a division. -/
def takeSlash : Scanner (List Token) := do
  let s ← get
  let body := if s.after.all Token.Kind.allowsRegexAfter then Token.regex? (s.rest.drop 1) else none
  match body with
  | some body => takeText .regex ('/' :: body ++ ['/']) (Token.regexPattern body)
  | none => takeMark .slash

/-- A variable, whose name may be empty. -/
def takeVariable : Scanner (List Token) := do
  let s ← get
  let name := (Token.variableName? (s.rest.drop 1)).getD []
  takeText .variable ('$' :: name) name

/-- A number of a valid shape. -/
def takeNumber : Scanner (List Token) := do
  let s ← get
  let literal := Token.number s.rest
  match Number.fault? literal with
  | some rule => fail (.number rule (String.ofList literal)) s.pos
  | none => takeText .number literal literal

/-- The token of a word: a keyword, a name, or a word of another shape. -/
def wordToken (s : State) (word : List Char) (start stop : Nat) : Token :=
  let spelling := String.ofList word
  match Token.reserved? s.options.tasks spelling with
  | some .boolean => s.token .boolean (.boolean (spelling == "true")) start stop
  | some kind => s.token kind .none start stop
  | none => s.textToken (if Token.isName word then .name else .word) word start stop

/-- A word. -/
def takeWord : Scanner (List Token) := do
  let s ← get
  match Token.word? s.rest with
  | none => fail .noWord s.pos
  | some word =>
      let stop := s.pos + byteLength word
      set { s with pos := stop }
      if Token.colons (s.rest.drop word.length) = [] then return [wordToken s word s.pos stop]
      else fail (.danglingName (String.ofList word)) s.pos

/-- A reference to a class or a type. -/
def takeReference (dangling : Code) : Scanner (List Token) := do
  let s ← get
  match Token.reference? s.rest with
  | none => fail .noWord s.pos
  | some name =>
      let stop := s.pos + byteLength name
      set { s with pos := stop }
      if Token.colons (s.rest.drop name.length) = [] then
        return [s.textToken .reference name s.pos stop]
      else fail (.danglingReference dangling (String.ofList name)) s.pos

/-- A line feed: the scan goes on behind the bodies of here-docs, if there were any. -/
def takeNewline : Scanner (List Token) :=
  modifyGet fun s =>
    let next := s.resume.getD (s.pos + 1)
    ([], { s with pos := next, lineStart := next, resume := none })

/-- Text in single quotes. -/
def takeSingleQuoted : Scanner (List Token) := do
  let s ← get
  let start := s.pos + 1
  match (Quote.collect .single .singleQuoted start (s.rest.drop 1)).run with
  | .ok run =>
      set { s with pos := run.next }
      return [s.textToken .string run.text s.pos run.next]
  | .error _ =>
      set { s with pos := start }
      fail (.unclosedQuote '\'' (preview (s.rest.drop 1))) s.pos

/-! ## Templates -/

/-- Template text up to the next tag; the cursor is behind a tag or at the start. -/
def takeTemplateText (skipLeading : Bool) : Scanner (List Token) := do
  let s ← get
  match Template.stretch skipLeading s.pos s.rest with
  | .error (rule, tag) =>
      set { s with pos := tag + 2 }
      fail (.template rule) tag
  | .ok stretch =>
      let string := fun stop =>
        if stretch.text.isEmpty then [] else [s.textToken .renderString stretch.text s.pos stop]
      match stretch.ending with
      | .endOfText =>
          set { s with pos := stretch.next, template := some .text, openTag := none }
          return string stretch.next
      | .code tag =>
          set { s with pos := stretch.next, template := some .code, openTag := some tag }
          return string tag
      | .render tag =>
          set { s with pos := stretch.next, template := some .render, openTag := some tag }
          return string tag ++ [s.token .renderExpression .none stretch.next stretch.next]

/-- The end of a tag, and the template text after it. A token marks the end of a rendered
expression. -/
def takeTagEnd (trims : Bool) : Scanner (List Token) := do
  let s ← get
  let m : Mark := if trims then .trimmingTagEnd else .tagEnd
  let stop := s.pos + byteLength m.spelling.toList
  set { s with pos := stop, template := some .text }
  let ended := if s.template = some .render then [s.token (.mark m) .none s.pos stop] else []
  let text ← takeTemplateText trims
  return ended ++ text

/-! ## Here-docs -/

/-- A here-doc whose body was found. -/
structure OpenHereDoc where
  header : HereDoc.Header
  /-- the offset behind the header -/
  next : Nat
  /-- where the body begins, where its end line begins, and where that ends -/
  bodyStart : Nat
  endLine : Nat
  bodyStop : Nat
  body : Token.Body
  deriving Inhabited

/-- The header at the cursor, and the offset behind it. -/
def takeHeader : Scanner (HereDoc.Header × Nat) := do
  let s ← get
  let rest := s.rest.drop 2
  let spelling := rest.takeWhile (· ≠ ')')
  if spelling.length = rest.length then
    set { s with pos := s.pos + 2 }
    fail (.unclosedHeader (preview rest)) s.pos
  else
    match HereDoc.Header.parse spelling with
    | .error rule => fail (.header rule) s.pos
    | .ok header =>
        if header.hasEmptySegment then set (s.report .emptyFormatSegment s.pos)
        return (header, s.pos + 3 + byteLength spelling)

/-- Where the body of a here-doc begins: behind the last one, or on the next line. -/
def bodyStart? (s : State) (next : Nat) : Option Nat :=
  match s.resume with
  | some offset => some offset
  | none => (Text.findOffset (['\n'].isPrefixOf ·) next (Text.dropBytes s.text next)).map (· + 1)

/-- The header at the cursor and its body. -/
def takeHereDoc : Scanner OpenHereDoc := do
  let (header, next) ← takeHeader
  let s ← get
  match bodyStart? s next with
  | none => fail .noHereDocLines s.pos
  | some start =>
      match HereDoc.takeBody header.tag (HereDoc.linesOf (Text.dropBytes s.text start)) with
      | none =>
          fail (.noEndLine (String.ofList header.tag) (s.source.positionAt s.pos)) s.size
      | some (raw, ending, length) =>
          let endLine := start + byteLength raw.flatten
          let lines := HereDoc.shapeBody ending raw
          let excerpt := Text.Excerpt.ofText lines.flatten s.source.file
            (s.source.line start - 1) (s.source.charOffset start) ending.margin
          return { header, next, bodyStart := start, endLine, bodyStop := endLine + length,
                   body := ⟨lines.map String.ofList, excerpt⟩ }

/-- The tokens of a here-doc before those of its body. -/
def OpenHereDoc.tokens (h : OpenHereDoc) (s : State) : List Token :=
  [s.textToken .hereDoc h.header.format s.pos h.next,
    s.token .hereDocBody (.body h.body) h.bodyStart h.endLine]

/-- How text without quotes is collected. -/
def textMode (interpolates : Bool) (escapes : Quote.EscapeSet) : Quote.Mode :=
  if !interpolates then .whole else if escapes.allows '$' then .text else .rawText

/-- The start of a scan of the body. -/
def OpenHereDoc.bodyState (h : OpenHereDoc) (s : State) : State :=
  let excerpt := h.body.excerpt
  { State.start s.options (.excerpt excerpt) excerpt.body.text with
    escapes := h.header.escapes, mode := textMode h.header.interpolates h.header.escapes }

/-! ## All of them -/

/-- The rule of an opening that does not lead back into code. -/
def takePlain : Opening → Scanner (List Token)
  | .mark m => takeMark m
  | .bracket => takeBracket
  | .paren => takeParen
  | .brace => takeBrace
  | .closeBrace => takeCloseBrace
  | .tagEnd trims => takeTagEnd trims
  | .singleQuote => takeSingleQuoted
  | .lineComment => do skip ((← get).rest.takeWhile (· ≠ '\n'))
  | .blockComment => takeComment
  | .slash => takeSlash
  | .dollar => takeVariable
  | .number => takeNumber
  | .word => takeWord
  | .reference dangling => takeReference dangling
  | .separator => takeText .other [':', ':'] [':', ':']
  | .newline => takeNewline
  | .blank => do skip ((← get).rest.takeWhile isBlank)
  | .foreignLetter c => do fail (.foreignLetter c) (← get).pos
  | .other c => takeText .other [c] [c]
  | .hereDoc | .doubleQuote => return []

end Manifest.Scan
