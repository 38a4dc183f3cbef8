import Manifest.Scan.Step
import Manifest.Text.Utf8

/-!
# Token streams

A token stream scans a text and hands out its tokens one by one. A scan step may give several
tokens, which wait in a queue, or none; after a problem the stream goes on from where the step
stopped.

* `TokenStream.start` turns to a new text: a manifest, a template, bytes, or text without quotes.
* `next` pulls a token, and the end of the text again and again; `fullscan` pulls all of them.
* `iterate` pulls until the end was given once or a problem was met, and nothing after that.
* `tokenize` and `tokenizeTemplate` scan a whole text at once.
-/

namespace Manifest

open Scan (Options Problem State Stop)
open Text (Document Source)

/-- How the first tokens of a text are found. -/
inductive TokenStream.Entry
  | code
  | template
  | unquoted
  deriving DecidableEq, Repr, Inhabited

/-- A text that is being scanned, and the tokens that wait. -/
structure TokenStream where
  state : State
  queue : List Token
  entry : TokenStream.Entry
  started : Bool
  deriving Inhabited

namespace TokenStream

/-- A text to be scanned. -/
inductive Input
  | manifest (text : List Char) (file : String)
  | template (text : List Char) (file : String)
  | bytes (bytes : List UInt8) (file : String)
  /-- text without quotes; its offsets refer to `source` if one is given -/
  | unquoted (text : List Char) (source : Option Source) (escapes : Quote.EscapeSet)
      (interpolates : Bool)

/-- A stream over nothing. -/
def empty (options : Options) : TokenStream :=
  ⟨.start options (.document (.ofText [] "")) [], [], .code, false⟩

/-- The stream at the start of a text. -/
def reset (s : TokenStream) (text : List Char) (source : Source) (entry : Entry) : TokenStream :=
  ⟨.start s.state.options source text, [], entry, false⟩

/-! ## Starting -/

/-- Byte order marks and the encodings they belong to, longer marks first. -/
def byteOrderMarks : List (List UInt8 × String) :=
  [([0x00, 0x00, 0xFE, 0xFF], "UTF-32BE"),
    ([0xFF, 0xFE, 0x00, 0x00], "UTF-32LE"),
    ([0xDD, 0x73, 0x66, 0x73], "UTF-EBCDIC"),
    ([0x84, 0x31, 0x95, 0x33], "GB-18030"),
    ([0xEF, 0xBB, 0xBF], "UTF-8"),
    ([0xF7, 0x64, 0x4C], "UTF-1"),
    ([0x0E, 0xFE, 0xFF], "SCSU"),
    ([0xFB, 0xEE, 0x28], "BOCU"),
    ([0xFE, 0xFF], "UTF-16BE"),
    ([0xFF, 0xFE], "UTF-16LE")]

/-- A byte as two hexadecimal digits. -/
def hexByte (b : UInt8) : String :=
  let digits := Nat.toDigits 16 (b.toNat / 16) ++ Nat.toDigits 16 (b.toNat % 16)
  String.ofList (digits.map Char.toUpper)

/-- The problem with bytes that begin with a byte order mark. -/
def markProblem? (bytes : List UInt8) : Option Problem :=
  (byteOrderMarks.find? (·.1.isPrefixOf bytes)).map fun (mark, name) =>
    .byteOrderMark name (String.intercalate " " (mark.map hexByte))

/-- A stream that is ready, unless its bytes begin with a byte order mark. -/
def checked (s : TokenStream) (bytes : List UInt8) : Except Diagnostic Unit × TokenStream :=
  match markProblem? bytes with
  | some p => (.error (p.located (s.state.source.positionAt 0)), s)
  | none => (.ok (), s)

/-- The stream at the start of a manifest or a template. -/
def startText (s : TokenStream) (text : List Char) (file : String) (entry : Entry) :
    Except Diagnostic Unit × TokenStream :=
  (s.reset text (.document (.ofText text file)) entry).checked (Text.encodeUtf8 (text.take 1))

/-- The stream at the start of a new text, and the problem if it cannot be scanned. -/
def start (s : TokenStream) : Input → Except Diagnostic Unit × TokenStream
  | .manifest text file => s.startText text file .code
  | .template text file => s.startText text file .template
  | .bytes bytes file =>
      match (s.startText [] file .code).2.checked bytes with
      | (.error d, s) => (.error d, s)
      | (.ok (), s) =>
          match Text.decodeUtf8 bytes with
          | (text, true) => s.startText text file .code
          | (valid, false) =>
              let size := Text.byteLength valid
              let position := (Source.document (.ofText valid file)).positionAt size
              (.error ((Problem.invalidUtf8 size).located position), s)
  | .unquoted text source escapes interpolates =>
      let s := s.reset text (source.getD (.document (.ofText text ""))) .unquoted
      (.ok (), { s with state := { s.state with
        escapes, mode := Scan.textMode interpolates escapes } })

/-! ## Pulling -/

/-- What changes the stream and may stop. -/
abbrev Pull := EStateM Stop TokenStream

/-- A scan of the text of the stream. -/
def scanning {α : Type} (scan : Scan.Scanner α) : Pull α := fun s =>
  match scan s.state with
  | .ok a state => .ok a { s with state }
  | .error e state => .error e { s with state }

/-- The first tokens of a text. -/
def entryTokens (fuel : Nat) : Entry → Scan.Scanner (List Token)
  | .code => return []
  | .unquoted => Scan.unquotedText fuel
  | .template => do
      let s ← get
      set { s with template := some .text }
      let text ← Scan.takeTemplateText false
      return s.token .templateStart .none 0 0 :: text

/-- Tokens join the queue. -/
def enqueue (batch : List Token) : Pull Unit :=
  modify fun s => { s with queue := s.queue ++ batch }

/-- The token at the end of the text, unless a template tag is open there. -/
def endToken : Pull Token := fun s =>
  match s.state.openTag with
  | some tag => .error (s.state.stop (.template .openTag) tag) s
  | none => .ok (s.state.token .endOfText .none s.state.size s.state.size) s

/-- The first token that waits, or the first one of further steps. -/
def pull (stepFuel : Nat) : Nat → Pull Token
  | 0 => throw .exhausted
  | fuel + 1 => do
      let s ← get
      match s.queue with
      | t :: queue =>
          set { s with queue, state := { s.state with after := some t.kind } }
          return t
      | [] =>
          if s.state.atEnd then endToken
          else
            enqueue (← scanning (Scan.step stepFuel))
            pull stepFuel fuel

/-- The next token; at the end of the text, a token that marks it. -/
def next : Pull Token := do
  let s ← get
  let fuel := Scan.budget s.state.size
  unless s.started do
    set { s with started := true }
    enqueue (← scanning (entryTokens fuel s.entry))
  pull fuel fuel

/-- All tokens, up to the first problem. -/
def fullscanWithin : Nat → Pull (List Token)
  | 0 => throw .exhausted
  | fuel + 1 => do
      let t ← next
      if t.kind = .endOfText then return [t]
      return t :: (← fullscanWithin fuel)

/-- All tokens; the last one marks the end of the text. -/
def fullscan : Pull (List Token) := fun s => fullscanWithin (Scan.budget s.state.size) s

/-! ## Iterating -/

/-- The end was given, or a problem. -/
def isFinished (s : TokenStream) : Bool :=
  s.started && s.queue.isEmpty && s.state.atEnd && s.state.after = some .endOfText

/-- The stream once nothing more is to be had from it. -/
def finished (s : TokenStream) : TokenStream :=
  { s with queue := [], state := { s.state with
    pos := s.state.size, openTag := none, after := some .endOfText } }

/-- The next token or problem; nothing after the end or a problem. -/
def iterate (s : TokenStream) : Option (Except Stop Token) × TokenStream :=
  if s.isFinished then (none, s)
  else
    match next s with
    | .error e s => (some (.error e), s.finished)
    | .ok t s =>
        if t.kind = .endOfText then
          (some (.ok t), { s with state := { s.state with after := some .endOfText } })
        else (some (.ok t), s)

/-- What is left to iterate over. -/
def itemsWithin : Nat → TokenStream → List (Except Stop Token) × TokenStream
  | 0, s => ([], s)
  | fuel + 1, s =>
      match s.iterate with
      | (none, s) => ([], s)
      | (some item, s) =>
          let (items, s) := itemsWithin fuel s
          (item :: items, s)

/-- What is left to iterate over. -/
def items (s : TokenStream) : List (Except Stop Token) × TokenStream :=
  itemsWithin (Scan.budget s.state.size) s

end TokenStream

/-- All tokens of a text. -/
def scanAll (options : Options) (input : TokenStream.Input) : Except Stop (List Token) :=
  match (TokenStream.empty options).start input with
  | (.error d, _) => .error (.problem d)
  | (.ok (), s) =>
      match TokenStream.fullscan s with
      | .ok tokens _ => .ok tokens
      | .error e _ => .error e

/-- All tokens of a manifest. -/
def tokenize (text : List Char) (file : String) : Except Stop (List Token) :=
  scanAll .standard (.manifest text file)

/-- All tokens of a template. -/
def tokenizeTemplate (text : List Char) (file : String) : Except Stop (List Token) :=
  scanAll .standard (.template text file)

end Manifest
