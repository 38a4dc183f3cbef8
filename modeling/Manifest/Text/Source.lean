import Manifest.Text.LineTable
import Manifest.Text.Position

/-!
# Documents and excerpts

A document is a text with a name and a line table. An excerpt is a fragment lifted out of a larger
document: it is scanned as a text of its own, and its answers are shifted by the lines before it,
its offset and the margin that was removed from each of its lines. A `Source` is either.

Every question takes a byte offset, which may lie past the end or inside a character.
-/

namespace Manifest.Text

/-- A text, the name of its file and the offsets of its lines. -/
structure Document where
  text : List Char
  file : String
  lines : LineTable
  deriving DecidableEq, Repr, Inhabited

namespace Document

/-- A document whose lines are found by reading the text. -/
def ofText (text : List Char) (file : String) : Document := ⟨text, file, .ofText text⟩

/-- The length in bytes. -/
def size (d : Document) : Nat := byteLength d.text

/-- Characters between the start of a line and an offset on it, counted one by one. -/
def countedOnLine (d : Document) (slot offset : Nat) : Nat :=
  let start := d.lines.start slot
  let stop := max (min offset d.size) start
  charsBefore d.text stop - charsBefore d.text start

/-- Characters between the start of a line and an offset on it. In a text of one-byte characters
they are the bytes. -/
def charsOnLine (d : Document) (slot offset : Nat) : Nat :=
  if isAscii d.text then
    let start := d.lines.start slot
    max (min offset d.size) start - start
  else d.countedOnLine slot offset

/-- Characters before a line. -/
def charsBeforeLine (d : Document) (slot : Nat) : Nat :=
  charsBefore d.text (min (d.lines.start slot) d.size)

/-- Characters before an offset on a line: those before the line and those on it. -/
def countedOffset (d : Document) (slot offset : Nat) : Nat :=
  d.charsBeforeLine slot + d.countedOnLine slot offset

/-! The same questions once the line of the offset is known. -/

/-- The distance in bytes from the start of a line. -/
def distance (d : Document) (slot offset : Nat) : Nat := offset - d.lines.start slot

/-- The column of an offset on a line. -/
def columnOn (d : Document) (slot offset : Nat) : Nat := d.charsOnLine slot offset + 1

/-- The number of characters before an offset on a line. In a text of one-byte characters it is
the offset itself. -/
def charOffsetOn (d : Document) (slot offset : Nat) : Nat :=
  if isAscii d.text then offset else d.countedOffset slot offset

/-! The questions themselves. -/

/-- The line of an offset, from one. -/
def line (d : Document) (offset : Nat) : Nat := d.lines.slot offset + 1

/-- The distance of an offset from the start of its line, in bytes. -/
def offsetOnLine (d : Document) (offset : Nat) : Nat := d.distance (d.lines.slot offset) offset

/-- The column of an offset, in characters from one. -/
def column (d : Document) (offset : Nat) : Nat := d.columnOn (d.lines.slot offset) offset

/-- The index of the character at an offset. -/
def charOffset (d : Document) (offset : Nat) : Nat := d.charOffsetOn (d.lines.slot offset) offset

/-- The number of characters between two offsets. -/
def charLength (d : Document) (offset stop : Nat) : Nat := d.charOffset stop - d.charOffset offset

end Document

/-- A fragment of a larger document, and how far to shift what is asked of it. -/
structure Excerpt where
  body : Document
  leadingLines : Nat
  leadingOffset : Nat
  margin : Nat
  deriving DecidableEq, Repr, Inhabited

namespace Excerpt

/-- An excerpt whose lines are found by reading its text. -/
def ofText (text : List Char) (file : String) (leadingLines leadingOffset margin : Nat) : Excerpt :=
  ⟨.ofText text file, leadingLines, leadingOffset, margin⟩

/-- The line in the enclosing document. -/
def line (e : Excerpt) (offset : Nat) : Nat := e.body.line offset + e.leadingLines

/-- The distance from the start of the line, the margin included. -/
def offsetOnLine (e : Excerpt) (offset : Nat) : Nat := e.body.offsetOnLine offset + e.margin

/-- The column in the enclosing document. -/
def column (e : Excerpt) (offset : Nat) : Nat := e.body.column offset + e.margin

/-- The index of the character in the enclosing document, one margin for each line passed. -/
def charOffset (e : Excerpt) (offset : Nat) : Nat :=
  e.body.charOffset offset + (e.body.line offset - 1) * e.margin + e.leadingOffset

/-- The number of characters between two offsets, one margin for each line passed. -/
def charLength (e : Excerpt) (offset stop : Nat) : Nat :=
  e.body.charLength offset stop + (e.body.line stop - e.body.line offset) * e.margin

end Excerpt

/-- What offsets refer to. -/
inductive Source
  | document (d : Document)
  | excerpt (e : Excerpt)
  deriving DecidableEq, Repr, Inhabited

namespace Source

/-- The document without any shift. -/
def base : Source → Document
  | .document d => d
  | .excerpt e => e.body

/-- The text that offsets refer to. -/
def text (s : Source) : List Char := s.base.text

/-- The name of the file. -/
def file (s : Source) : String := s.base.file

/-- The line of an offset. -/
def line : Source → Nat → Nat
  | .document d => d.line
  | .excerpt e => e.line

/-- The distance of an offset from the start of its line. -/
def offsetOnLine : Source → Nat → Nat
  | .document d => d.offsetOnLine
  | .excerpt e => e.offsetOnLine

/-- The column of an offset. -/
def column : Source → Nat → Nat
  | .document d => d.column
  | .excerpt e => e.column

/-- The index of the character at an offset. -/
def charOffset : Source → Nat → Nat
  | .document d => d.charOffset
  | .excerpt e => e.charOffset

/-- The number of characters between two offsets. -/
def charLength : Source → Nat → Nat → Nat
  | .document d => d.charLength
  | .excerpt e => e.charLength

/-- The text from an offset on for a number of bytes, cut off at the end of the text; nothing when
a bound splits a character. -/
def extract (s : Source) (offset length : Nat) : List Char :=
  let size := s.base.size
  let start := min offset size
  slice s.text start (min (start + length) size)

/-- The position at which a range starts. -/
def position (s : Source) (r : Range) : SourcePosition :=
  ⟨s.file, s.line r.start, s.column r.start, r⟩

/-- The position of an offset. -/
def positionAt (s : Source) (offset : Nat) : SourcePosition := s.position (.point offset)

/-- Line and column of an offset. -/
def lineColumn (s : Source) (offset : Nat) : Position := ⟨s.line offset, s.column offset⟩

/-- Line and column of both ends of a range. -/
def span (s : Source) (r : Range) : Span := ⟨s.lineColumn r.start, s.lineColumn r.stop⟩

end Source

/-- The position of a range, when both the source and the range are known. -/
def place (source : Option Source) (range : Option Range) : Option SourcePosition :=
  source.bind fun s => range.map s.position

end Manifest.Text
