import Manifest.Proofs.Text.Lines
import Manifest.Proofs.Text.Survey

/-!
# Characters counted along lines

A text with characters of several bytes is counted along its lines: the characters before a line
are looked up, and those of the line come on top. A text of one-byte characters is not counted at
all, since an offset is the number of characters before it. Inside the text the two ways agree.
Behind its end they do not: counting stops where the text ends, and so do columns and extracts, but
an offset goes on.

* `Document.tabledOffset`, `Document.tabledLength` — the count along the lines, of any text.
* `tabledOffset_eq`, `columnAt_min`, `extract_min` — what stops at the end of the text.
* `charOffset_agrees` — where the two ways agree.
-/

namespace Manifest.Text

variable {text : List Char} {file : String} {o e : Nat}

/-! ## Counting along lines -/

namespace Document

/-- The characters before an offset: those before its line, and those on it. -/
def tabledOffset (d : Document) (o : Nat) : Nat := d.countedOffset (d.lines.slot o) o

/-- The characters between two offsets, each counted along the lines. -/
def tabledLength (d : Document) (o e : Nat) : Nat := d.tabledOffset e - d.tabledOffset o

/-- Of a text with longer characters, every answer is counted along the lines. -/
theorem charOffset_of_not_isAscii {d : Document} (h : ¬ isAscii d.text) :
    d.charOffset = d.tabledOffset ∧ d.charLength = d.tabledLength := by
  have hoffset : d.charOffset = d.tabledOffset := by
    funext o
    rw [charOffset, charOffsetOn, if_neg h, tabledOffset]
  refine ⟨hoffset, ?_⟩
  funext o e
  rw [charLength, hoffset, tabledLength]

/-- Of a text of one-byte characters, every answer is the offset that was asked for. -/
theorem charOffset_of_isAscii {d : Document} (h : isAscii d.text) (o e : Nat) :
    d.charOffset o = o ∧ d.charLength o e = e - o := by
  have hoffset : ∀ o, d.charOffset o = o := by
    intro o
    rw [charOffset, charOffsetOn, if_pos h]
  refine ⟨hoffset o, ?_⟩
  rw [charLength, hoffset, hoffset]

end Document

/-! ## The end of the text -/

/-- Counting along the lines counts the characters before an offset. -/
theorem tabledOffset_eq (text : List Char) (file : String) (o : Nat) :
    (Document.ofText text file).tabledOffset o = charsBefore text o := by
  rw [Document.tabledOffset]
  show Document.countedOffset _ ((LineTable.ofText text).slot o) o = _
  rw [slot_ofText, countedOffset_ofText]

/-- In a text of one-byte characters, the count along the lines is the offset up to the end of the
text. -/
theorem tabledOffset_of_isAscii (h : isAscii text) (file : String) (o : Nat) :
    (Document.ofText text file).tabledOffset o = min o (byteLength text) := by
  rw [tabledOffset_eq, ← charsBefore_min, charsBefore_of_isAscii h (Nat.min_le_right _ _)]

/-- An offset behind the end of the text is on the line on which the text ends. -/
theorem feedsBefore_min (text : List Char) (o : Nat) :
    feedsBefore text (min o (byteLength text)) = feedsBefore text o := by
  refine List.countP_congr ?_
  intro place hplace
  have hlt := lt_of_mem_places hplace
  have hiff : place.1 < min o (byteLength text) ↔ place.1 < o := by omega
  simp only [hiff]

/-- And in the column in which it ends. -/
theorem columnAt_min (text : List Char) (o : Nat) :
    columnAt text (min o (byteLength text)) = columnAt text o := by
  rw [columnAt, columnAt, lineAt, lineAt, feedsBefore_min]
  refine congrArg (1 + ·) (List.countP_congr ?_)
  intro place hplace
  have hlt := lt_of_mem_places hplace
  have hiff : place.1 < min o (byteLength text) ↔ place.1 < o := by omega
  simp only [hiff]

/-- Nothing is extracted from behind the end of the text. -/
theorem extract_min (source : Source) (o length : Nat) :
    source.extract (min o source.base.size) length = source.extract o length := by
  rw [Source.extract, Source.extract, Nat.min_assoc, Nat.min_self]

/-! ## Both ways -/

/-- For a text of one-byte characters, the offset that is answered is the one that is counted along
the lines just when it does not lie behind the end of the text, and so it is with lengths, unless
they are zero anyway. Behind the end the count is that of the whole text, columns and extracts are
those of the end, and the answer is the offset. -/
theorem charOffset_agrees (h : isAscii text) (file : String) :
    (∀ o, (Document.ofText text file).charOffset o = o ∧
      (Document.ofText text file).tabledOffset o = min o (byteLength text) ∧
      ((Document.ofText text file).charOffset o = (Document.ofText text file).tabledOffset o ↔
        o ≤ byteLength text)) ∧
    (∀ o e, (Document.ofText text file).charLength o e = e - o ∧
      (Document.ofText text file).tabledLength o e
        = min e (byteLength text) - min o (byteLength text) ∧
      ((Document.ofText text file).charLength o e = (Document.ofText text file).tabledLength o e ↔
        e ≤ byteLength text ∨ e ≤ o)) ∧
    ∀ o, (Document.ofText text file).column o
        = (Document.ofText text file).column (min o (byteLength text)) ∧
      ∀ length, (Source.document (.ofText text file)).extract o length
        = (Source.document (.ofText text file)).extract (min o (byteLength text)) length := by
  have hanswers := Document.charOffset_of_isAscii (d := .ofText text file) h
  have htabled := tabledOffset_of_isAscii h file
  refine ⟨fun o => ?_, fun o e => ?_, fun o => ?_⟩
  · obtain ⟨hoffset, -⟩ := hanswers o o
    rw [hoffset, htabled]
    exact ⟨rfl, rfl, by omega⟩
  · obtain ⟨-, hlength⟩ := hanswers o e
    rw [hlength, Document.tabledLength, htabled, htabled]
    exact ⟨rfl, rfl, by omega⟩
  · rw [column_ofText, column_ofText, columnAt_min]
    exact ⟨rfl, fun length => (extract_min _ o length).symm⟩

/-- Two lines, asked at their end and behind it. -/
theorem charOffset_agrees_twoLines :
    isAscii ['a', '\n', 'b'] ∧ (Document.ofText ['a', '\n', 'b'] "").charOffset 3 = 3 ∧
      (Document.ofText ['a', '\n', 'b'] "").charOffset 3
        = (Document.ofText ['a', '\n', 'b'] "").tabledOffset 3 ∧
      (Document.ofText ['a', '\n', 'b'] "").charLength 1 4
        ≠ (Document.ofText ['a', '\n', 'b'] "").tabledLength 1 4 := by
  have h : isAscii ['a', '\n', 'b'] := by decide
  obtain ⟨hoffsets, hlengths, -⟩ := charOffset_agrees h ""
  obtain ⟨hoffset, -, hagrees⟩ := hoffsets 3
  obtain ⟨-, -, hlength⟩ := hlengths 1 4
  exact ⟨h, hoffset, hagrees.2 (by decide), fun heq => absurd (hlength.1 heq) (by decide)⟩

/-- Behind the end of a text of two letters, the offset goes on and the count stays. -/
theorem charOffset_behind_end :
    isAscii ['a', 'b'] ∧ (Document.ofText ['a', 'b'] "t.pp").charOffset 5 = 5 ∧
      (Document.ofText ['a', 'b'] "t.pp").tabledOffset 5 = 2 ∧
      (Document.ofText ['a', 'b'] "t.pp").charLength 1 5 = 4 ∧
      (Document.ofText ['a', 'b'] "t.pp").tabledLength 1 5 = 1 := by
  decide +kernel

end Manifest.Text
