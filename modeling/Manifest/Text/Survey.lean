import Manifest.Text.Source

/-!
# Series of questions

Questions put to one source, one after the other. The line found last is kept as a finger for the
next question; each answer is given with the finger it leaves behind.
-/

namespace Manifest.Text

/-- One question about a source. -/
inductive Question
  | line (offset : Nat)
  | offsetOnLine (offset : Nat)
  | column (offset : Nat)
  | charOffset (offset : Nat)
  | charLength (offset stop : Nat)
  /-- a question put to the document without any shift -/
  | base (q : Question)
  deriving DecidableEq, Repr

namespace Document

/-- The line of an offset, and the finger left behind. -/
def find (d : Document) (finger offset : Nat) : Nat × Nat :=
  let slot := d.lines.slotFrom finger offset
  (slot, slot)

/-- Characters before an offset; no line is looked up in a text of one-byte characters. -/
def charOffsetFrom (d : Document) (finger offset : Nat) : Nat × Nat :=
  if isAscii d.text then (offset, finger)
  else
    let slot := d.lines.slotFrom finger offset
    (d.countedOffset slot offset, slot)

/-- One answer, and the finger left behind. -/
def answerFrom (d : Document) (finger : Nat) : Question → Nat × Nat
  | .line o =>
      let (slot, finger) := d.find finger o
      (slot + 1, finger)
  | .offsetOnLine o =>
      let (slot, finger) := d.find finger o
      (d.distance slot o, finger)
  | .column o =>
      let (slot, finger) := d.find finger o
      (d.columnOn slot o, finger)
  | .charOffset o => d.charOffsetFrom finger o
  | .charLength o e =>
      let (last, finger) := d.charOffsetFrom finger e
      let (first, finger) := d.charOffsetFrom finger o
      (last - first, finger)
  | .base q => d.answerFrom finger q

end Document

namespace Excerpt

/-- One answer, shifted into the enclosing document, and the finger left behind. -/
def answerFrom (e : Excerpt) (finger : Nat) : Question → Nat × Nat
  | .line o =>
      let (line, finger) := e.body.answerFrom finger (.line o)
      (line + e.leadingLines, finger)
  | .offsetOnLine o =>
      let (distance, finger) := e.body.answerFrom finger (.offsetOnLine o)
      (distance + e.margin, finger)
  | .column o =>
      let (column, finger) := e.body.answerFrom finger (.column o)
      (column + e.margin, finger)
  | .charOffset o =>
      let (slot, finger) := e.body.find finger o
      let (offset, finger) := e.body.charOffsetFrom finger o
      (offset + slot * e.margin + e.leadingOffset, finger)
  | .charLength o stop =>
      let (last, finger) := e.body.find finger stop
      let (first, finger) := e.body.find finger o
      let (length, finger) := e.body.answerFrom finger (.charLength o stop)
      (length + (last - first) * e.margin, finger)
  | .base q => e.body.answerFrom finger q

end Excerpt

namespace Source

/-- One answer, and the finger left behind. -/
def answerFrom : Source → Nat → Question → Nat × Nat
  | .document d => d.answerFrom
  | .excerpt e => e.answerFrom

/-- The answers to a series of questions, each asked with the finger of the one before. -/
def answersFrom (s : Source) : Nat → List Question → List Nat
  | _, [] => []
  | finger, q :: qs =>
      let (answer, finger) := s.answerFrom finger q
      answer :: answersFrom s finger qs

/-- The answers of a source that was not asked before. -/
def answers (s : Source) (qs : List Question) : List Nat := s.answersFrom 0 qs

/-- The answer to a question that stands alone. -/
def answer (s : Source) : Question → Nat
  | .line o => s.line o
  | .offsetOnLine o => s.offsetOnLine o
  | .column o => s.column o
  | .charOffset o => s.charOffset o
  | .charLength o e => s.charLength o e
  | .base q => (Source.document s.base).answer q

end Source

end Manifest.Text
