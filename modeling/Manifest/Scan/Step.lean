import Manifest.Scan.Rule

/-!
# Scan steps

One step reads what begins at the cursor. Text in double quotes and the bodies of here-docs hold
code between `${` and `}`, and that code holds such text again: the rules for them call one
another. Each call spends one unit of fuel, and a scan that has none left is `exhausted`.

* `step` gives the tokens of one step.
* `fragments` reads text with interpolations: one `STRING`, or fragments with variables and code
  between them.
* `codeUntil` reads code up to the brace that closes it.
-/

namespace Manifest.Scan

/-- Text with interpolations that is being read. -/
structure Quoting where
  mode : Quote.Mode
  escapes : Quote.EscapeSet
  /-- report escapes without a meaning -/
  warns : Bool
  /-- the offset at which the text begins, its quote included -/
  start : Nat
  deriving Inhabited

/-- The next run of the text. -/
def takeRun (q : Quoting) : Scanner Quote.Run := do
  let s ← get
  let collected := Quote.collect q.mode q.escapes s.pos s.rest
  let s := if q.warns then
      collected.unknown.foldl (fun s (offset, c) => s.report (.unknownEscape c) offset) s
    else s
  match collected.run with
  | .ok run =>
      set { s with pos := run.next }
      return run
  | .error .unclosed =>
      set s
      fail (.unclosedQuote '"' (preview s.rest)) q.start
  | .error (.unicode offset) =>
      set { s with pos := offset + 1 }
      fail .unicodeEscape offset

/-- Numbers, names, words and keywords can stand for variables. -/
def namesVariable : Token.Kind → Bool
  | .number | .name | .word => true
  | kind => kind.isKeyword

/-- A token that can stand for a variable becomes that variable. -/
def toVariable (t : Token) : Token :=
  if namesVariable t.kind then { t with kind := .variable, value := .text t.sourceText } else t

/-- The code of an interpolation: when its first token stands alone, or is followed by a dot or a
bracket, it is the name of a variable. -/
def asVariable : List Token → List Token
  | [t] => [toVariable t]
  | t :: u :: ts =>
      if u.kind = .mark .dot || u.kind = .mark .openBracket then toVariable t :: u :: ts
      else t :: u :: ts
  | [] => []

/-- The brace that closes an interpolation, read when `depth` braces are open outside it. -/
def closes (depth : Nat) (batch : List Token) (s : State) : Bool :=
  match batch with
  | [t] => t.kind = .mark .closeBrace && s.braceDepth = depth
  | _ => false

/-- The state once tokens were passed on. -/
def State.passed (s : State) (batch : List Token) : State :=
  match batch.getLast? with
  | some t => { s with after := some t.kind }
  | none => s

/-- The kind of the fragment before an interpolation. -/
def fragmentKind (first : Bool) : Token.Kind := if first then .stringStart else .stringMiddle

mutual

/-- The tokens of what begins at the cursor. -/
def step : Nat → Scanner (List Token)
  | 0 => throw .exhausted
  | fuel + 1 => do
      let s ← get
      match opening? s.template.isSome s.rest with
      | none => return []
      | some .doubleQuote =>
          set { s with pos := s.pos + 1 }
          let q := ⟨.double, .doubleQuoted, s.options.warnUnknownEscapes, s.pos⟩
          fragments fuel q s.pos true []
      | some .hereDoc => hereDoc fuel
      | some o => takePlain o

/-- The rest of a text with interpolations: `start` is where its current fragment begins, `first`
tells that there was none before, and `pending` was read of it already. -/
def fragments : Nat → Quoting → Nat → Bool → List Char → Scanner (List Token)
  | 0, _, _, _, _ => throw .exhausted
  | fuel + 1, q, start, first, pending => do
      let run ← takeRun q
      let text := pending ++ run.text
      let s ← get
      match run.stop with
      | .quote | .endOfText =>
          return [s.textToken (if first then .string else .stringEnd) text start run.next]
      | .dollarBrace =>
          let fragment := s.textToken (fragmentKind first) text start run.next
          set { s with braceDepth := s.braceDepth + 1 }
          let code ← codeUntil fuel s.braceDepth []
          let rest ← fragments fuel q (← get).pos false []
          return fragment :: code ++ rest
      | .dollar =>
          match Token.variableName? s.rest with
          | some name =>
              let dollar := run.next - 1
              let stop := run.next + Text.byteLength name
              let fragment := s.textToken (fragmentKind first) text start dollar
              let reference := s.textToken .variable name dollar stop
              set { s with pos := stop }
              let rest ← fragments fuel q stop false []
              return fragment :: reference :: rest
          | none => fragments fuel q start first (text ++ ['$'])

/-- Code up to the brace that leaves `depth` of them open, after the tokens read so far. That
brace is not among the tokens; at the end of the text there is none. -/
def codeUntil : Nat → Nat → List Token → Scanner (List Token)
  | 0, _, _ => throw .exhausted
  | fuel + 1, depth, tokens => do
      if (← get).atEnd then return tokens
      let batch ← step fuel
      let s ← get
      if closes depth batch s then return asVariable tokens
      set (s.passed batch)
      codeUntil fuel depth (tokens ++ batch)

/-- A here-doc: its header, its body and the tokens of the body, which is scanned as a text of its
own. -/
def hereDoc : Nat → Scanner (List Token)
  | 0 => throw .exhausted
  | fuel + 1 => do
      let found ← takeHereDoc
      let s ← get
      let body := found.bodyState s
      match fragments fuel ⟨body.mode, body.escapes, false, 0⟩ 0 true [] body with
      | .ok tokens done =>
          set { s with pos := found.next, resume := some found.bodyStop,
                       diagnostics := s.diagnostics ++ done.diagnostics }
          return found.tokens s ++ tokens
      | .error stop _ => throw stop

end

/-- Text without quotes from the cursor on. -/
def unquotedText (fuel : Nat) : Scanner (List Token) := do
  let s ← get
  fragments fuel ⟨s.mode, s.escapes, false, s.pos⟩ s.pos true []

/-- As much fuel as any scan of a text of that size needs. -/
def budget (size : Nat) : Nat := Nat.pow (size + 2) 4

end Manifest.Scan
