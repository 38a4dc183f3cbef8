import Manifest.Diagnostic.Code
import Manifest.Quote.Escape
import Manifest.Text.Bytes
import Manifest.Unicode.WhiteSpace

/-!
# Headers of here-docs

What stands between `@(` and `)`: a tag, a format after a colon and flags after a slash. A tag in
double quotes asks for interpolation. Each flag switches on one escape, and no flag after the
slash switches on all of them.
-/

namespace Manifest.HereDoc

open Quote (EscapeSet)

/-- A header that was read. -/
structure Header where
  tag : List Char
  format : List Char
  escapes : EscapeSet
  interpolates : Bool
  deriving DecidableEq, Repr, Inhabited

/-- The text without the white space at its front. -/
def skipSpace (cs : List Char) : List Char := cs.dropWhile Unicode.isWhiteSpace

/-- A character that ends a tag without quotes. -/
def endsTag (c : Char) : Bool := c = ':' || c = '/' || c = '\r' || c = '\n'

/-- The tag, whether it asks for interpolation, and the rest. -/
def readTag : List Char → Except Code (List Char × Bool × List Char)
  | '"' :: cs =>
      let tag := cs.takeWhile (· ≠ '"')
      match cs.drop tag.length with
      | _ :: rest => .ok (tag, true, rest)
      | [] => .error .malformedHeader
  | cs =>
      let tag := cs.takeWhile (!endsTag ·)
      .ok (Text.dropEndWhile Unicode.isWhiteSpace tag, false, cs.drop tag.length)

/-- A character of a format after its first one. -/
def isFormatChar (c : Char) : Bool := c.isAlphanum || c = '_' || c = '+'

/-- The longest format at the front: a small letter, then letters, digits, `_` and `+`. -/
def formatAt : List Char → List Char
  | c :: cs => if c.isLower then c :: cs.takeWhile isFormatChar else []
  | [] => []

/-- The format, empty if none is given, and the rest. -/
def readFormat : List Char → Except Code (List Char × List Char)
  | ':' :: cs =>
      let cs := skipSpace cs
      let format := formatAt cs
      if format.length < 2 then .error .malformedHeader
      else .ok (format, skipSpace (cs.drop format.length))
  | cs => .ok ([], cs)

/-- The set with the escapes of further flags; `seen` holds the flags read before. -/
def addFlags (seen : List Char) (set : EscapeSet) : List Char → Except Code EscapeSet
  | [] => .ok set
  | f :: fs =>
      if seen.contains f then .error .repeatedEscapeFlag
      else match EscapeSet.ofFlag? f with
        | some c => addFlags (f :: seen) (set.insert c) fs
        | none => .error .illegalEscapeFlag

/-- The escapes that the flags switch on. -/
def escapesOfFlags (flags : List Char) : Except Code EscapeSet :=
  if flags.isEmpty then .ok .hereDoc else addFlags [] (EscapeSet.none.insert '\\') flags

/-- The escapes, none if there is no slash, and the rest. -/
def readFlags : List Char → Except Code (EscapeSet × List Char)
  | '/' :: cs =>
      let flags := cs.takeWhile (!Unicode.isWhiteSpace ·)
      (escapesOfFlags flags).map (·, skipSpace (cs.drop flags.length))
  | cs => .ok (.none, cs)

/-- The header that a text spells. -/
def Header.parse (cs : List Char) : Except Code Header := do
  let (tag, interpolates, rest) ← readTag cs
  if tag.isEmpty then throw .emptyTag
  let (format, rest) ← readFormat (skipSpace rest)
  let (escapes, rest) ← readFlags rest
  if rest.isEmpty then return ⟨tag, format, escapes, interpolates⟩ else throw .malformedHeader

/-- The segments of a format, which plus signs separate. -/
def segments : List Char → List (List Char)
  | [] => [[]]
  | c :: cs =>
      if c = '+' then [] :: segments cs
      else match segments cs with
        | [] => [[c]]
        | s :: ss => (c :: s) :: ss

/-- A segment of the format is empty; so is the only segment of an empty format. -/
def Header.hasEmptySegment (h : Header) : Bool := (segments h.format).any List.isEmpty

end Manifest.HereDoc
