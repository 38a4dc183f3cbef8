import Manifest.Diagnostic.Code
import Manifest.Sexp.Lexeme

/-!
# Reading s-expressions

The reader takes one lexeme after the other and keeps the forms that are open, the innermost
first. A lexeme opens a form, closes the innermost one, or completes a value, which becomes an
element of it. The text has to hold one value and nothing else.
-/

namespace Manifest.Sexp

/-- What is wrong with a text. -/
inductive Problem
  /-- characters that begin no lexeme -/
  | unreadable (text : String)
  | unexpected (kind : Lexeme.Kind)
  /-- the text ends in a value or a form -/
  | ended (inside : String)
  | escape (spelling : String)
  | range (literal : String)
  deriving DecidableEq, Repr

namespace Problem

/-- The code of a problem. -/
def code : Problem → Code
  | unreadable _ => .unexpectedCharacter
  | unexpected _ => .unexpectedToken
  | ended _ => .unexpectedEnd
  | escape _ => .invalidEscape
  | range _ => .numberOutOfRange

/-- What a problem is about. -/
def detail : Problem → String
  | unreadable text => "'" ++ text ++ "'"
  | unexpected kind => kind.text
  | ended inside => "in " ++ inside
  | escape spelling => "'" ++ spelling ++ "'"
  | range literal => literal

end Problem

/-- A problem and its offset. -/
structure Error where
  problem : Problem
  offset : Nat
  deriving DecidableEq, Repr

namespace Error

/-- The code of the problem. -/
def code (e : Error) : Code := e.problem.code

/-- The wording of the problem. -/
def text (e : Error) : String := e.code.defaultText ++ " " ++ e.problem.detail

/-- The shown form of the problem. -/
def display (e : Error) : String :=
  e.code.id ++ ": " ++ e.text ++ " at offset " ++ toString e.offset

end Error

/-! ## Scalars -/

/-- The text that characters in quotes spell; the first of them is at the offset. -/
def unescape (offset : Nat) : List Char → Except Error (List Char)
  | [] => .ok []
  | ['\\'] => .ok []
  | '\\' :: 'o' :: cs =>
      match cs with
      | a :: b :: c :: cs =>
          if [a, b, c].all Number.isOctalDigit then
            (unescape (offset + 5) cs).map (Char.ofNat (Number.positional 8 [a, b, c]) :: ·)
          else .error ⟨.escape (String.ofList ('\\' :: 'o' :: [a, b, c])), offset⟩
      | digits => .error ⟨.escape (String.ofList ('\\' :: 'o' :: digits)), offset⟩
  | '\\' :: c :: cs =>
      let decoded : Option Char := match c with
        | '\\' => some '\\'
        | '"' => some '"'
        | 'n' => some '\n'
        | 't' => some '\t'
        | 'r' => some '\r'
        | _ => none
      match decoded with
      | some d => (unescape (offset + 2) cs).map (d :: ·)
      | none => .error ⟨.escape (String.ofList ['\\', c]), offset⟩
  | c :: cs => (unescape (offset + c.utf8Size) cs).map (c :: ·)

/-- The text of a lexeme in quotes, after `skip` characters of its opening. -/
def quotedText (l : Lexeme) (skip : Nat) : Except Error String :=
  (unescape (l.offset + skip) (l.text.drop skip).dropLast).map String.ofList

/-- The lexeme is not valid where it stands. -/
def unexpected (l : Lexeme) : Error :=
  match l.kind with
  | .unreadable => ⟨.unreadable (String.ofList l.text), l.offset⟩
  | kind => ⟨.unexpected kind, l.offset⟩

/-- The text of a lexeme that is a symbol; keywords keep their colon. -/
def symbolText? (l : Lexeme) : Option (Except Error String) :=
  match l.kind with
  | .symbol | .keyword => some (.ok (String.ofList l.text))
  | .quotedSymbol => some (quotedText l 2)
  | .quotedKeyword => some ((quotedText l 2).map (":" ++ ·))
  | _ => none

/-- The key that a lexeme spells. -/
def keyText? (l : Lexeme) : Option (Except Error String) :=
  match l.kind with
  | .keyword => some (.ok (String.ofList (l.text.drop 1)))
  | .quotedKeyword => some (quotedText l 2)
  | _ => none

/-- The integer of a lexeme, if it has 64 bits. -/
def intValue (l : Lexeme) : Except Error Sexp :=
  match int64OfText? l.text with
  | some i => .ok (.int i)
  | none => .error ⟨.range (String.ofList l.text), l.offset⟩

/-- The float of a lexeme, if it is finite. -/
def floatValue (l : Lexeme) : Except Error Sexp :=
  let outside := Except.error ⟨.range (String.ofList l.text), l.offset⟩
  match Binary64.ofText? l.text with
  | some x => if x.isFinite then .ok (.float x) else outside
  | none => outside

/-- The value of a lexeme that is one by itself. -/
def scalar (l : Lexeme) : Except Error Sexp :=
  match l.kind with
  | .string => (quotedText l 1).map .str
  | .int => intValue l
  | .float => floatValue l
  | .bool b => .ok (.bool b)
  | .nil => .ok .nil
  | _ =>
      match symbolText? l with
      | some text => text.map .sym
      | none => .error (unexpected l)

/-! ## Forms -/

/-- A form that is open. -/
inductive Frame
  | list (items : List Sexp)
  /-- a call whose head is still to come -/
  | head
  | call (head : String) (args : List Sexp)
  | map (entries : List (String × Sexp))
  /-- a map with a key whose value is still to come -/
  | value (entries : List (String × Sexp)) (key : String)
  deriving Inhabited

/-- What is being read, when the text ends. -/
def context : List Frame → String
  | [] => "value"
  | .list _ :: _ => "list"
  | .head :: _ => "call"
  | .call _ _ :: _ => "call"
  | .map _ :: _ => "map"
  | .value _ _ :: _ => "value"

/-- What the reader has: forms that are open, or the value that was read. -/
inductive Progress
  | within (frames : List Frame)
  | complete (v : Sexp)
  deriving Inhabited

/-- A value is complete: an element of the innermost form, or all there is to read. -/
def Progress.add (v : Sexp) : List Frame → Progress
  | [] => .complete v
  | .list items :: frames => .within (.list (items ++ [v]) :: frames)
  | .call head args :: frames => .within (.call head (args ++ [v]) :: frames)
  | .value entries key :: frames => .within (.map (put key v entries) :: frames)
  | frames => .within frames

/-- A lexeme where a value may begin. -/
def openValue (frames : List Frame) (l : Lexeme) : Except Error Progress :=
  match l.kind with
  | .openParen => .ok (.within (.head :: frames))
  | .openBracket => .ok (.within (.list [] :: frames))
  | .openBrace => .ok (.within (.map [] :: frames))
  | _ => (scalar l).map (Progress.add · frames)

/-- One lexeme is taken. -/
def take (frames : List Frame) (l : Lexeme) : Except Error Progress :=
  match frames with
  | .list items :: outer =>
      if l.kind = .closeBracket then .ok (.add (.list items) outer) else openValue frames l
  | .call head args :: outer =>
      if l.kind = .closeParen then .ok (.add (.call head args) outer) else openValue frames l
  | .head :: outer =>
      match symbolText? l with
      | some text => text.map fun head => .within (.call head [] :: outer)
      | none => .error (unexpected l)
  | .map entries :: outer =>
      if l.kind = .closeBrace then .ok (.add (.map entries) outer)
      else
        match keyText? l with
        | some text => text.map fun key => .within (.value entries key :: outer)
        | none => .error (unexpected l)
  | _ => openValue frames l

/-- The value that the lexemes spell, when forms are open; the text ends at `stop`. -/
def readFrom (stop : Nat) (frames : List Frame) : List Lexeme → Except Error Sexp
  | [] => .error ⟨.ended (context frames), stop⟩
  | l :: ls =>
      match take frames l with
      | .error e => .error e
      | .ok (.within frames) => readFrom stop frames ls
      | .ok (.complete v) =>
          match ls with
          | [] => .ok v
          | extra :: _ => .error (unexpected extra)

/-- The value that a text spells. -/
def parse (cs : List Char) : Except Error Sexp :=
  readFrom (Text.byteLength cs) [] (lexemes cs)

/-- The canonical text of a value reads back as an equal value. -/
def readsBack (v : Sexp) (text : List Char) : Bool :=
  match parse text with
  | .ok w => v.same w
  | .error _ => false

end Manifest.Sexp
