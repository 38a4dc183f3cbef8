import Manifest.Text.Bytes

/-!
# Shapes of words

What a word, a name, a reference, a variable and a number look like, as functions that give the
longest spelling at the front of a text.

* `word?` reads `((::)?[a-z_]([\w-]*\w)?)+`.
* `reference?` reads `((::)?[A-Z]\w*)+`.
* `variableName?` reads `(::)?(\w+::)*\w+`.
* `isName` holds of `(::)?[a-z]\w*(::[a-z]\w*)*`.
* `number` reads word characters, a point before a digit, and a minus sign in an exponent.
* `regex?` reads up to the first slash on the line that no backslash protects.

Here `\w` is an ASCII letter, a digit or an underscore.
-/

namespace Manifest.Token

/-- An ASCII letter, a digit or an underscore. -/
def isWordChar (c : Char) : Bool := c.isAlphanum || c = '_'

/-- The separator of a qualified name, if it stands at the front. -/
def colons : List Char → List Char
  | ':' :: ':' :: _ => [':', ':']
  | _ => []

/-- As many pieces as follow one another at the front of a text. -/
def pieces (piece : List Char → List Char) (cs : List Char) : List Char :=
  if _ : piece cs = [] ∨ cs = [] then []
  else piece cs ++ pieces piece (cs.drop (piece cs).length)
termination_by cs.length
decreasing_by
  rename_i h
  have hp := List.length_pos_iff.2 (not_or.1 h).1
  have hc := List.length_pos_iff.2 (not_or.1 h).2
  simp only [List.length_drop]
  omega

/-- One part of a word: `(::)?[a-z_]([\w-]*\w)?`. -/
def wordPiece (cs : List Char) : List Char :=
  let lead := colons cs
  match cs.drop lead.length with
  | c :: rest =>
      if c.isLower || c = '_' then
        let run := rest.takeWhile fun c => isWordChar c || c = '-'
        lead ++ c :: Text.dropEndWhile (· == '-') run
      else []
  | [] => []

/-- One part of a reference: `(::)?[A-Z]\w*`. -/
def referencePiece (cs : List Char) : List Char :=
  let lead := colons cs
  match cs.drop lead.length with
  | c :: rest => if c.isUpper then lead ++ c :: rest.takeWhile isWordChar else []
  | [] => []

/-- A further part of a variable: `::\w+`. -/
def qualifiedPiece : List Char → List Char
  | ':' :: ':' :: rest =>
      let name := rest.takeWhile isWordChar
      if name.isEmpty then [] else ':' :: ':' :: name
  | _ => []

/-- A spelling, if it is not empty. -/
def nonempty? (cs : List Char) : Option (List Char) := if cs.isEmpty then none else some cs

/-- The word at the front. -/
def word? (cs : List Char) : Option (List Char) := nonempty? (pieces wordPiece cs)

/-- The reference at the front. -/
def reference? (cs : List Char) : Option (List Char) := nonempty? (pieces referencePiece cs)

/-- The name of the variable at the front. -/
def variableName? (cs : List Char) : Option (List Char) :=
  let lead := colons cs
  let first := (cs.drop lead.length).takeWhile isWordChar
  if first.isEmpty then none
  else
    let start := lead ++ first
    some (start ++ pieces qualifiedPiece (cs.drop start.length))

/-! ## Names -/

/-- The parts between the separators of a qualified name. -/
def splitColons : List Char → List (List Char)
  | [] => [[]]
  | ':' :: ':' :: cs => [] :: splitColons cs
  | c :: cs =>
      match splitColons cs with
      | [] => [[c]]
      | part :: parts => (c :: part) :: parts

/-- A part of a name: a small letter and word characters. -/
def isNamePart : List Char → Bool
  | c :: cs => c.isLower && cs.all isWordChar
  | [] => false

/-- The whole text is a name. -/
def isName (cs : List Char) : Bool := (splitColons (cs.drop (colons cs).length)).all isNamePart

/-! ## Numbers -/

/-- A digit stands at the front. -/
def startsWithDigit : List Char → Bool
  | c :: _ => c.isDigit
  | [] => false

/-- The characters of a number that follow the character `last`. -/
def numberTail (hex : Bool) (last : Char) : List Char → List Char
  | [] => []
  | c :: cs =>
      if isWordChar c || (!hex && c = '.' && startsWithDigit cs)
          || (!hex && c = '-' && (last = 'e' || last = 'E') && startsWithDigit cs) then
        c :: numberTail hex c cs
      else []

/-- The characters of the number that begins at the front with a digit. -/
def number (cs : List Char) : List Char :=
  match cs with
  | '0' :: 'x' :: _ | '0' :: 'X' :: _ => numberTail true ' ' cs
  | _ => numberTail false ' ' cs

/-! ## Regular expressions -/

/-- The characters up to the closing slash. A slash closes unless an odd number of backslashes
stands before it (`odd`), and it has to stand on the same line. -/
def regexFrom? (odd : Bool) : List Char → Option (List Char)
  | [] => none
  | c :: cs =>
      if c = '\n' then none
      else if c = '/' && !odd then some []
      else (regexFrom? (c = '\\' && !odd) cs).map (c :: ·)

/-- The characters between the opening slash and the closing one. -/
def regex? (cs : List Char) : Option (List Char) := regexFrom? false cs

/-- The pattern that those characters denote: a protected slash is a slash. -/
def regexPattern : List Char → List Char
  | '\\' :: '/' :: cs => '/' :: regexPattern cs
  | c :: cs => c :: regexPattern cs
  | [] => []

end Manifest.Token
