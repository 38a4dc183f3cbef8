import Manifest.Proofs.Text.LineTable
import Manifest.Text.Survey
import Mathlib.Data.List.Forall2

/-!
# Answers to series of questions

A series of questions is answered as if each of them stood alone: the finger that one question
leaves to the next never changes an answer. And each answer is the one of the naive scan, whether
the text has multi-byte characters or not.

* `Document.answerFrom_fst` — an answer with any finger is the answer without one.
* `Naive` — what the naive scan answers.
* `answers_naive` — a series of questions about a text is answered by the naive scan.
-/

namespace Manifest.Text

variable {text : List Char} {file : String} {d : Document} {o e finger : Nat}

/-! ## Fingers -/

namespace Document

/-- The answer does not depend on the finger. -/
theorem charOffsetFrom_fst (hsorted : d.lines.Sorted) (finger o : Nat) :
    (d.charOffsetFrom finger o).1 = d.charOffset o := by
  rw [charOffsetFrom, charOffset, charOffsetOn]
  split
  · rfl
  · rw [LineTable.slotFrom_eq_slot hsorted]

/-- The finger of an earlier question makes no difference. -/
theorem answerFrom_fst (hsorted : d.lines.Sorted) (finger : Nat) (q : Question) :
    (d.answerFrom finger q).1 = (Source.document d).answer q := by
  induction q with
  | line o =>
      show d.lines.slotFrom finger o + 1 = d.lines.slot o + 1
      rw [LineTable.slotFrom_eq_slot hsorted]
  | offsetOnLine o =>
      show d.distance (d.lines.slotFrom finger o) o = d.distance (d.lines.slot o) o
      rw [LineTable.slotFrom_eq_slot hsorted]
  | column o =>
      show d.columnOn (d.lines.slotFrom finger o) o = d.columnOn (d.lines.slot o) o
      rw [LineTable.slotFrom_eq_slot hsorted]
  | charOffset o => exact charOffsetFrom_fst hsorted finger o
  | charLength o e =>
      show (d.charOffsetFrom finger e).1 - (d.charOffsetFrom (d.charOffsetFrom finger e).2 o).1
        = d.charOffset e - d.charOffset o
      rw [charOffsetFrom_fst hsorted, charOffsetFrom_fst hsorted]
  | base q ih => exact ih

end Document

/-- An excerpt shifts what its text answers, whichever the finger. -/
theorem Excerpt.answerFrom_fst {e : Excerpt} (hsorted : e.body.lines.Sorted) (finger : Nat)
    (q : Question) : (e.answerFrom finger q).1 = (Source.excerpt e).answer q := by
  have hslot : ∀ finger o, (e.body.find finger o).1 = e.body.lines.slot o := by
    intro finger o
    show e.body.lines.slotFrom finger o = _
    rw [LineTable.slotFrom_eq_slot hsorted]
  cases q with
  | line o =>
      show (e.body.answerFrom finger (.line o)).1 + e.leadingLines = _
      rw [Document.answerFrom_fst hsorted]
      rfl
  | offsetOnLine o =>
      show (e.body.answerFrom finger (.offsetOnLine o)).1 + e.margin = _
      rw [Document.answerFrom_fst hsorted]
      rfl
  | column o =>
      show (e.body.answerFrom finger (.column o)).1 + e.margin = _
      rw [Document.answerFrom_fst hsorted]
      rfl
  | charOffset o =>
      show (e.body.charOffsetFrom (e.body.find finger o).2 o).1
        + (e.body.find finger o).1 * e.margin + e.leadingOffset = _
      rw [Document.charOffsetFrom_fst hsorted, hslot]
      rfl
  | charLength o stop =>
      show (e.body.answerFrom _ (.charLength o stop)).1
        + ((e.body.find finger stop).1 - (e.body.find _ o).1) * e.margin
        = _ + (e.body.lines.slot stop + 1 - (e.body.lines.slot o + 1)) * e.margin
      rw [Document.answerFrom_fst hsorted, hslot, hslot, Nat.add_sub_add_right]
      rfl
  | base q => exact Document.answerFrom_fst hsorted finger q

/-- Each question of a series is answered as if it stood alone. -/
theorem answersFrom_eq {s : Source} (hsorted : s.base.lines.Sorted) (finger : Nat)
    (qs : List Question) : s.answersFrom finger qs = qs.map s.answer := by
  have hfirst : ∀ finger q, (s.answerFrom finger q).1 = s.answer q := by
    cases s with
    | document d => exact fun finger q => Document.answerFrom_fst hsorted finger q
    | excerpt e => exact fun finger q => Excerpt.answerFrom_fst hsorted finger q
  induction qs generalizing finger with
  | nil => rfl
  | cons q qs ih =>
      show (s.answerFrom finger q).1 :: s.answersFrom (s.answerFrom finger q).2 qs = _
      rw [hfirst, ih, List.map_cons]

/-! ## Single answers -/

/-- The slot of an offset is the number of line feeds before it. -/
theorem slot_ofText (text : List Char) (o : Nat) :
    (LineTable.ofText text).slot o = feedsBefore text o :=
  LineTable.slotFrom_ofText text 0 o

/-- The line of an offset is that of the naive scan. -/
theorem line_ofText (text : List Char) (file : String) (o : Nat) :
    (Document.ofText text file).line o = lineAt text o := by
  show (LineTable.ofText text).slot o + 1 = _
  rw [slot_ofText, lineAt, Nat.add_comm]

/-- The characters of a line before an offset on it, counted one by one. -/
theorem countedOnLine_ofText (text : List Char) (file : String) (o : Nat) :
    (Document.ofText text file).countedOnLine (feedsBefore text o) o
      = charsBetween text ((LineTable.ofText text).start (feedsBefore text o)) o := by
  have hstart := (LineTable.isSlot_ofText text o).start_le
  have hsize := LineTable.start_le text (feedsBefore text o)
  rw [← charsBefore_sub hstart, Document.countedOnLine]
  dsimp only [Document.ofText, Document.size]
  rw [Nat.max_eq_left (Nat.le_min.2 ⟨hstart, hsize⟩), charsBefore_min]

/-- The characters of a line before an offset on it, whichever way they are counted. -/
theorem charsOnLine_ofText (text : List Char) (file : String) (o : Nat) :
    (Document.ofText text file).charsOnLine (feedsBefore text o) o
      = charsBetween text ((LineTable.ofText text).start (feedsBefore text o)) o := by
  rw [Document.charsOnLine]
  split
  next hascii =>
    have hascii : isAscii text := hascii
    have hstart := (LineTable.isSlot_ofText text o).start_le
    have hsize := LineTable.start_le text (feedsBefore text o)
    dsimp only [Document.ofText, Document.size]
    rw [Nat.max_eq_left (Nat.le_min.2 ⟨hstart, hsize⟩), ← charsBefore_sub hstart,
      ← charsBefore_min text o, charsBefore_of_isAscii hascii (Nat.min_le_right _ _),
      charsBefore_of_isAscii hascii hsize]
  next => exact countedOnLine_ofText text file o

/-- The characters before an offset: those before its line, and those of the line. -/
theorem countedOffset_ofText (text : List Char) (file : String) (o : Nat) :
    (Document.ofText text file).countedOffset (feedsBefore text o) o = charsBefore text o := by
  have hstart := (LineTable.isSlot_ofText text o).start_le
  rw [Document.countedOffset, countedOnLine_ofText, ← charsBefore_sub hstart,
    Document.charsBeforeLine]
  show charsBefore text (min _ (byteLength text)) + _ = _
  rw [charsBefore_min]
  exact Nat.add_sub_cancel' (charsBefore_mono hstart)

/-- The column of an offset is that of the naive scan. -/
theorem column_ofText (text : List Char) (file : String) (o : Nat) :
    (Document.ofText text file).column o = columnAt text o := by
  show (Document.ofText text file).charsOnLine ((LineTable.ofText text).slot o) o + 1 = _
  rw [slot_ofText, charsOnLine_ofText, LineTable.columnAt_eq, Nat.add_comm]

/-- The position of an offset in a text is its line and its column, and covers no character. -/
theorem positionAt_ofText (text : List Char) (file : String) (o : Nat) :
    (Source.document (.ofText text file)).positionAt o
      = ⟨file, lineAt text o, columnAt text o, ⟨o, o⟩⟩ := by
  show (⟨file, (Document.ofText text file).line o, (Document.ofText text file).column o, ⟨o, o⟩⟩ :
    SourcePosition) = _
  rw [line_ofText, column_ofText]

/-- The index of a character, counted along the lines or taken from the offset itself. -/
theorem charOffset_ofText (file : String) (h : o ≤ byteLength text) :
    (Document.ofText text file).charOffset o = charsBefore text o := by
  show Document.charOffsetOn _ ((LineTable.ofText text).slot o) o = _
  rw [slot_ofText, Document.charOffsetOn]
  split
  next hascii => exact (charsBefore_of_isAscii hascii h).symm
  next => exact countedOffset_ofText text file o

/-- The number of characters in a range is that of the naive scan. -/
theorem charLength_ofText (file : String) (h : o ≤ e) (he : e ≤ byteLength text) :
    (Document.ofText text file).charLength o e = charsBetween text o e := by
  rw [Document.charLength, charOffset_ofText file he, charOffset_ofText file (Nat.le_trans h he),
    charsBefore_sub h]

/-! ## Series -/

/-- What the naive scan of a text answers. Lines, columns and distances are asked for at any offset,
characters are counted inside the text. -/
def Naive (text : List Char) : Question → Nat → Prop
  | .line o, answer => answer = lineAt text o
  | .column o, answer => answer = columnAt text o
  /- the line begins that many bytes before the offset -/
  | .offsetOnLine o, answer => answer ≤ o ∧ ∀ p ≤ o, o - answer ≤ p ↔ lineAt text p = lineAt text o
  | .charOffset o, answer => o ≤ byteLength text → answer = charsBetween text 0 o
  | .charLength o e, answer => o ≤ e → e ≤ byteLength text → answer = charsBetween text o e
  | .base q, answer => Naive text q answer

/-- A question about a text is answered by the naive scan. -/
theorem naive_answer (text : List Char) (file : String) (q : Question) :
    Naive text q ((Source.document (.ofText text file)).answer q) := by
  induction q with
  | line o => exact line_ofText text file o
  | offsetOnLine o =>
      have hdistance : (Document.ofText text file).offsetOnLine o
          = o - (LineTable.ofText text).start (feedsBefore text o) := by
        show o - (LineTable.ofText text).start ((LineTable.ofText text).slot o) = _
        rw [slot_ofText]
      have hstart := (LineTable.isSlot_ofText text o).start_le
      show (Document.ofText text file).offsetOnLine o ≤ o ∧ _
      rw [Source.answer, Source.offsetOnLine, hdistance, Nat.sub_sub_self hstart]
      exact ⟨Nat.sub_le _ _, fun p hp => LineTable.start_le_iff text hp⟩
  | column o => exact column_ofText text file o
  | charOffset o =>
      intro h
      rw [charsBetween_zero]
      exact charOffset_ofText file h
  | charLength o e =>
      intro h he
      exact charLength_ofText file h he
  | base q ih => exact ih

/-- Questions put to the source of a text one after another, in any order and at any offsets, are
answered by the naive scan of the text, and no answer depends on the questions before it. -/
theorem answers_naive (text : List Char) (file : String) (qs : List Question) :
    (Source.document (.ofText text file)).answers qs
        = qs.map (Source.document (.ofText text file)).answer ∧
      List.Forall₂ (Naive text) qs ((Source.document (.ofText text file)).answers qs) := by
  have hsorted : (Source.document (.ofText text file)).base.lines.Sorted :=
    LineTable.ofText_sorted text
  have hanswers : (Source.document (.ofText text file)).answers qs
      = qs.map (Source.document (.ofText text file)).answer := answersFrom_eq hsorted 0 qs
  refine ⟨hanswers, ?_⟩
  rw [hanswers, List.forall₂_map_right_iff]
  exact List.forall₂_same.2 fun q _ => naive_answer text file q

/-- Two lines, the second one with characters of two and three bytes, asked forwards and
backwards. -/
example : (Source.document (.ofText ['a', '\n', 'é', '€', 'b'] "")).answers
    [.column 5, .line 0, .charOffset 7, .line 4, .charLength 2 7] = [3, 1, 4, 2, 2] := by
  decide +kernel

end Manifest.Text
