import Manifest.Sexp.Lexeme

/-!
# Writing s-expressions

Elements are separated by single spaces. A symbol or a key that would not read back bare is
written in quotes after `#` or `:`.
-/

namespace Manifest.Sexp

/-- Three octal digits. -/
def octal3 (n : Nat) : List Char :=
  [n / 64 % 8, n / 8 % 8, n % 8].map Nat.digitChar

/-- A control character of ASCII. -/
def isControl (c : Char) : Bool := c.toNat < 32 || c.toNat = 127

/-- A character inside quotes. -/
def escapeChar : Char → List Char
  | '\\' => ['\\', '\\']
  | '"' => ['\\', '"']
  | '\n' => ['\\', 'n']
  | '\t' => ['\\', 't']
  | '\r' => ['\\', 'r']
  | c => if isControl c then '\\' :: 'o' :: octal3 c.toNat else [c]

/-- A text in quotes. -/
def renderQuoted (s : String) : List Char := '"' :: s.toList.flatMap escapeChar ++ ['"']

/-- A symbol, bare where it reads back so. -/
def renderSymbol (s : String) : List Char :=
  if isOne [.symbol, .keyword] s.toList then s.toList else '#' :: renderQuoted s

/-- A key, bare where it reads back so. -/
def renderKey (s : String) : List Char :=
  if isOne [.keyword] (':' :: s.toList) then ':' :: s.toList else ':' :: renderQuoted s

mutual

/-- The canonical text of a value. -/
def render : Sexp → List Char
  | .nil => ['n', 'i', 'l']
  | .bool true => ['t', 'r', 'u', 'e']
  | .bool false => ['f', 'a', 'l', 's', 'e']
  | .int i => Binary64.integerText i.toInt
  | .float x => x.render
  | .str s => renderQuoted s
  | .sym s => renderSymbol s
  | .list [] => ['[', ']']
  | .list (item :: items) => '[' :: render item ++ renderItems items ++ [']']
  | .map [] => ['{', '}']
  | .map ((key, value) :: entries) =>
      '{' :: renderKey key ++ ' ' :: render value ++ renderEntries entries ++ ['}']
  | .call head args => '(' :: renderSymbol head ++ renderItems args ++ [')']

/-- Values, each after a space. -/
def renderItems : List Sexp → List Char
  | [] => []
  | item :: items => ' ' :: render item ++ renderItems items

/-- Entries, each after a space. -/
def renderEntries : List (String × Sexp) → List Char
  | [] => []
  | (key, value) :: entries =>
      ' ' :: renderKey key ++ ' ' :: render value ++ renderEntries entries

end

/-- The canonical text of a value, as a string. -/
def toText (v : Sexp) : String := String.ofList v.render

end Manifest.Sexp
