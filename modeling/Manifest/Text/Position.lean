/-!
# Positions and ranges

Lines and columns start at one and columns count characters. A range is a pair of byte offsets.
Positions are ordered by line, then by column, and a span holds its two ends.
-/

namespace Manifest.Text

/-- A line and a column. -/
structure Position where
  line : Nat
  column : Nat
  deriving DecidableEq, Repr, Inhabited

/-- Reading order: earlier line first, then earlier column. -/
def Position.le (p q : Position) : Bool :=
  p.line < q.line || (p.line == q.line && p.column ≤ q.column)

/-- `line:column`. -/
def Position.display (p : Position) : String := toString p.line ++ ":" ++ toString p.column

/-- Two positions, both inside. -/
structure Span where
  start : Position
  stop : Position
  deriving DecidableEq, Repr, Inhabited

/-- The position lies between the two ends. -/
def Span.contains (s : Span) (p : Position) : Bool := s.start.le p && p.le s.stop

/-- A stretch of text as byte offsets. -/
structure Range where
  start : Nat
  stop : Nat
  deriving DecidableEq, Repr, Inhabited

namespace Range

/-- The empty range at an offset. -/
def point (offset : Nat) : Range := ⟨offset, offset⟩

/-- The number of bytes covered. -/
def length (r : Range) : Nat := r.stop - r.start

end Range

/-- Where a diagnostic points: a file, a line and a column, and the range they came from. -/
structure SourcePosition where
  file : String
  line : Nat
  column : Nat
  range : Range
  deriving DecidableEq, Repr, Inhabited

/-- `file:line:column`, or `line:column` when the file has no name. -/
def SourcePosition.display (p : SourcePosition) : String :=
  let place := (Position.mk p.line p.column).display
  if p.file.isEmpty then place else p.file ++ ":" ++ place

end Manifest.Text
