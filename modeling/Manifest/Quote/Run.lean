import Manifest.Literal.Number
import Manifest.Quote.Escape

/-!
# Runs of text

A run is collected from the characters after a quote, or from text that has no quotes, up to what
stops it: the closing quote, a dollar sign that begins an interpolation, or the end. Escapes are
resolved on the way.

* `Mode` says what stops a run and whether a backslash can protect a dollar sign.
* `collect` gives the run, or why there is none; escapes without a meaning are kept as they stand
  and listed beside it.
-/

namespace Manifest.Quote

/-- What stops a run. -/
inductive Stop
  | quote
  | dollar
  | dollarBrace
  | endOfText
  deriving DecidableEq, Repr, Inhabited

/-- The kind of text that is collected. -/
inductive Mode
  /-- up to an unescaped single quote -/
  | single
  /-- up to an unescaped double quote or a dollar sign -/
  | double
  /-- up to a dollar sign that no backslash protects, or the end -/
  | text
  /-- up to any dollar sign, or the end -/
  | rawText
  /-- up to the end -/
  | whole
  deriving DecidableEq, Repr, Inhabited

namespace Mode

/-- The closing quote. -/
def quote? : Mode → Option Char
  | .single => some '\''
  | .double => some '"'
  | _ => none

/-- A dollar sign stops the run. -/
def stopsAtDollar : Mode → Bool
  | .single | .whole => false
  | _ => true

end Mode

/-- A run of text: what it says, what stopped it, and the offset after that. -/
structure Run where
  text : List Char
  stop : Stop
  next : Nat
  deriving DecidableEq, Repr, Inhabited

/-- Why there is no run. -/
inductive Fault
  /-- the closing quote is missing -/
  | unclosed
  /-- the escape at the offset names no character -/
  | unicode (offset : Nat)
  deriving DecidableEq, Repr

/-- The outcome of collecting: the escapes without a meaning, by offset, and the run. -/
structure Collected where
  unknown : List (Nat × Char)
  run : Except Fault Run

namespace Collected

/-- Characters come before the run. -/
def push (chars : List Char) (r : Collected) : Collected :=
  { r with run := r.run.map fun run => { run with text := chars ++ run.text } }

/-- An escape without a meaning comes before the others; a doubled backslash and a line break are
not worth noting. -/
def note (offset : Nat) (c : Char) (r : Collected) : Collected :=
  if c = '\\' || c = '\n' then r else { r with unknown := (offset, c) :: r.unknown }

/-- The run ends here. -/
def done (stop : Stop) (next : Nat) : Collected := ⟨[], .ok ⟨[], stop, next⟩⟩

/-- There is no run. -/
def fail (fault : Fault) : Collected := ⟨[], .error fault⟩

end Collected

/-- The character with a code point, surrogates excluded. -/
def charOfNat? (n : Nat) : Option Char := if n.isValidChar then some (Char.ofNat n) else none

/-- What follows `\u`: four hexadecimal digits, or one to six of them in braces. The character, and
how many characters spell it. -/
def unicodeEscape? : List Char → Option (Char × Nat)
  | '{' :: cs =>
      let ds := cs.takeWhile Number.isHexDigit
      if 1 ≤ ds.length && ds.length ≤ 6 && (cs.drop ds.length).head? == some '}' then
        (charOfNat? (Number.positional 16 ds)).map (·, ds.length + 2)
      else none
  | cs =>
      let ds := cs.take 4
      if ds.length = 4 && ds.all Number.isHexDigit then
        (charOfNat? (Number.positional 16 ds)).map (·, 4)
      else none

/-- The run that begins at an offset. -/
def collect (mode : Mode) (escapes : EscapeSet) (offset : Nat) : List Char → Collected
  | [] => if mode.quote?.isSome then .fail .unclosed else .done .endOfText offset
  | '\\' :: [] => (collect mode escapes (offset + 1) []).push ['\\']
  | '\\' :: '\r' :: '\n' :: cs =>
      if escapes.allows '\n' then collect mode escapes (offset + 3) cs
      else ((collect mode escapes (offset + 2) ('\n' :: cs)).push ['\\', '\r']).note offset '\r'
  | '\\' :: c :: cs =>
      if c = '$' && mode = .rawText then
        (collect mode escapes (offset + 1) (c :: cs)).push ['\\']
      else if !escapes.allows c then
        ((collect mode escapes (offset + 1 + c.utf8Size) cs).push ['\\', c]).note offset c
      else if c = 'u' then
        match unicodeEscape? cs with
        | some (decoded, n) => (collect mode escapes (offset + 2 + n) (cs.drop n)).push [decoded]
        | none => .fail (.unicode offset)
      else if c = '\n' then collect mode escapes (offset + 2) cs
      else (collect mode escapes (offset + 2) cs).push [meaning c]
  | c :: cs =>
      if mode.quote? = some c then .done .quote (offset + 1)
      else if c = '$' && mode.stopsAtDollar then
        if cs.head? = some '{' then .done .dollarBrace (offset + 2) else .done .dollar (offset + 1)
      else (collect mode escapes (offset + c.utf8Size) cs).push [c]
termination_by cs => cs.length
decreasing_by all_goals simp +arith [List.length_drop]

end Manifest.Quote
