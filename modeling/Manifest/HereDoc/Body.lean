import Manifest.Text.Bytes

/-!
# Bodies of here-docs

The body of a here-doc is made of the lines before the first end line. An end line is
`[ \t]*(|[ \t]*)?(-[ \t]*)?TAG[ \t]*\r?`: the bar asks for a margin as wide as the blanks before
it, the minus sign for the last line break to be removed.
-/

namespace Manifest.HereDoc

open Text (isSpaceOrTab)

/-- What an end line asks for. -/
structure EndLine where
  margin : Nat
  trims : Bool
  deriving DecidableEq, Repr, Inhabited

/-- The text after a mark and the blanks that follow it, and whether the mark was there. -/
def skipMark (mark : Char) : List Char → List Char × Bool
  | c :: cs => if c = mark then (cs.dropWhile isSpaceOrTab, true) else (c :: cs, false)
  | [] => ([], false)

/-- A carriage return at the end of a line is removed. -/
def dropReturn (line : List Char) : List Char :=
  if line.getLast? = some '\r' then line.dropLast else line

/-- What the line asks for, if it is an end line of the tag; the line comes without its line
feed. -/
def EndLine.ofLine? (line tag : List Char) : Option EndLine :=
  let line := dropReturn line
  let indented := line.dropWhile isSpaceOrTab
  let (rest, bar) := skipMark '|' indented
  let (rest, trims) := skipMark '-' rest
  if tag.isPrefixOf rest && (rest.drop tag.length).all isSpaceOrTab then
    some ⟨if bar then line.length - indented.length else 0, trims⟩
  else none

/-- The lines of a text, each with its line feed. -/
def linesOf : List Char → List (List Char)
  | [] => []
  | c :: cs =>
      if c = '\n' then [c] :: linesOf cs
      else match linesOf cs with
        | [] => [[c]]
        | line :: lines => (c :: line) :: lines

/-- A line without its line feed. -/
def dropFeed (line : List Char) : List Char :=
  if line.getLast? = some '\n' then line.dropLast else line

/-- The lines before the first end line, what that line asks for, and its length in bytes. -/
def takeBody (tag : List Char) : List (List Char) → Option (List (List Char) × EndLine × Nat)
  | [] => none
  | line :: lines =>
      match EndLine.ofLine? (dropFeed line) tag with
      | some e => some ([], e, Text.byteLength line)
      | none => (takeBody tag lines).map fun (body, e, n) => (line :: body, e, n)

/-- Up to `margin` blanks at the front of a line are removed. -/
def stripMargin : Nat → List Char → List Char
  | margin + 1, c :: cs => if isSpaceOrTab c then stripMargin margin cs else c :: cs
  | _, cs => cs

/-- The line break of the last line is removed. -/
def trimLast : List (List Char) → List (List Char)
  | [] => []
  | [line] => [if line.getLast? = some '\n' then dropReturn line.dropLast else line]
  | line :: lines => line :: trimLast lines

/-- The lines of the body as the end line asks for them. -/
def shapeBody (e : EndLine) (lines : List (List Char)) : List (List Char) :=
  let stripped := lines.map (stripMargin e.margin)
  if e.trims then trimLast stripped else stripped

end Manifest.HereDoc
