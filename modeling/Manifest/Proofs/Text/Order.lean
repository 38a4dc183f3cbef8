import Manifest.Proofs.Text.Lines
import Manifest.Proofs.Text.Survey

/-!
# Reading order is the order of offsets

Of two boundaries of a text the earlier one has the earlier line, or the same line and the earlier
column. An excerpt adds the same number of lines to every line and the same margin to every column,
so that the order stays what it is. A span holds just the positions of the boundaries between its
ends, and no two boundaries share a position.

* `charsBefore_lt`, `columnAt_lt` — counts of characters at two boundaries.
* `lineColumn_le_iff` — the order of positions.
* `span_contains_iff` — what a span holds.
-/

namespace Manifest.Text

variable {text : List Char} {file : String} {source : Source} {o p : Nat}

/-! ## Positions in a text -/

/-- Positions are compared by their lines, and on one line by their columns. -/
theorem Position.le_iff {a b : Position} :
    a.le b ↔ a.line < b.line ∨ a.line = b.line ∧ a.column ≤ b.column := by
  simp [Position.le]

/-- Before the second of two texts stand the characters of the first. -/
theorem charsBefore_byteLength (cs ds : List Char) :
    charsBefore (cs ++ ds) (byteLength cs) = cs.length := by
  have h := charsBefore_append cs ds 0
  rwa [charsBefore, Nat.add_zero, Nat.add_zero] at h

/-- More characters begin before a later boundary. -/
theorem charsBefore_lt (ho : Boundary text o) (hp : Boundary text p) (h : o < p) :
    charsBefore text o < charsBefore text p := by
  obtain ⟨front, rest, htext, rfl⟩ := ho
  obtain ⟨front', rest', htext', rfl⟩ := hp
  have hfront : front <+: front' :=
    prefix_of_byteLength_le ⟨rest, htext.symm⟩ ⟨rest', htext'.symm⟩ (Nat.le_of_lt h)
  have hchars : charsBefore text (byteLength front) = front.length := by
    rw [htext, charsBefore_byteLength]
  have hchars' : charsBefore text (byteLength front') = front'.length := by
    rw [htext', charsBefore_byteLength]
  rw [hchars, hchars']
  refine Nat.lt_of_le_of_ne hfront.length_le ?_
  intro hlength
  rw [hfront.eq_of_length hlength] at h
  exact Nat.lt_irrefl _ h

/-- On one line, a later boundary has a later column. -/
theorem columnAt_lt (ho : Boundary text o) (hp : Boundary text p) (h : o < p)
    (hline : lineAt text o = lineAt text p) : columnAt text o < columnAt text p := by
  have hfeeds : feedsBefore text o = feedsBefore text p := Nat.add_left_cancel hline
  have hstart := (LineTable.isSlot_ofText text o).start_le
  have hchars := charsBefore_lt ho hp h
  have hmono : charsBefore text ((LineTable.ofText text).start (feedsBefore text o))
      ≤ charsBefore text o := charsBefore_mono hstart
  rw [LineTable.columnAt_eq, LineTable.columnAt_eq, ← hfeeds, ← charsBefore_sub hstart,
    ← charsBefore_sub (Nat.le_trans hstart (Nat.le_of_lt h))]
  omega

/-- Lines ascend with offsets. -/
theorem lineAt_mono (h : o ≤ p) : lineAt text o ≤ lineAt text p :=
  Nat.add_le_add_left (feedsBefore_mono h) 1

/-! ## Positions of a source -/

/-- A source over a text shifts all lines of the text alike, and all columns. -/
theorem exists_lineColumn (h : source.base = .ofText text file) :
    ∃ lines margin, ∀ o, source.lineColumn o =
      ⟨lineAt text o + lines, columnAt text o + margin⟩ := by
  cases source with
  | document d =>
      obtain rfl : d = .ofText text file := h
      refine ⟨0, 0, fun o => ?_⟩
      rw [← line_ofText text file, ← column_ofText text file]
      rfl
  | excerpt e =>
      obtain ⟨body, lines, offset, margin⟩ := e
      obtain rfl : body = .ofText text file := h
      refine ⟨lines, margin, fun o => ?_⟩
      rw [← line_ofText text file, ← column_ofText text file]
      rfl

/-- Boundaries and their positions are in the same order. -/
theorem lineColumn_le_iff (h : source.base = .ofText text file) (ho : Boundary text o)
    (hp : Boundary text p) : (source.lineColumn o).le (source.lineColumn p) ↔ o ≤ p := by
  obtain ⟨lines, margin, hposition⟩ := exists_lineColumn h
  rw [hposition, hposition, Position.le_iff]
  dsimp only
  rcases Nat.lt_trichotomy o p with hlt | rfl | hgt
  · refine iff_of_true ?_ (Nat.le_of_lt hlt)
    have hmono : lineAt text o ≤ lineAt text p := lineAt_mono (Nat.le_of_lt hlt)
    rcases Nat.lt_or_eq_of_le hmono with hline | hline
    · exact .inl (Nat.add_lt_add_right hline lines)
    · have hcolumn := columnAt_lt ho hp hlt hline
      exact .inr ⟨by rw [hline], Nat.add_le_add_right (Nat.le_of_lt hcolumn) margin⟩
  · exact iff_of_true (.inr ⟨rfl, Nat.le_refl _⟩) (Nat.le_refl o)
  · refine iff_of_false ?_ (Nat.not_le.2 hgt)
    have hmono : lineAt text p ≤ lineAt text o := lineAt_mono (Nat.le_of_lt hgt)
    rintro (hline | ⟨hline, hcolumn⟩)
    · omega
    · have hlt := columnAt_lt hp ho hgt (by omega)
      omega

/-- A span of a document or an excerpt holds the position of a boundary just when the boundary lies
between its ends, whatever was cut off before the text and from its lines. No two boundaries share a
position. Positions are answered line first and column second, and the line that was found for an
earlier question makes no difference to them. -/
theorem span_contains_iff (h : source.base = .ofText text file) :
    (∀ (r : Range) (o : Nat), Boundary text r.start → Boundary text r.stop → Boundary text o →
      ((source.span r).contains (source.lineColumn o) ↔ r.start ≤ o ∧ o ≤ r.stop)) ∧
    (∀ o p, Boundary text o → Boundary text p → source.lineColumn o = source.lineColumn p → o = p) ∧
    ∀ finger o, source.answersFrom finger [.line o, .column o]
      = [(source.lineColumn o).line, (source.lineColumn o).column] := by
  refine ⟨?_, ?_, ?_⟩
  · intro r o hstart hstop ho
    show ((source.lineColumn r.start).le (source.lineColumn o)
      && (source.lineColumn o).le (source.lineColumn r.stop)) = true ↔ _
    rw [Bool.and_eq_true, lineColumn_le_iff h hstart ho, lineColumn_le_iff h ho hstop]
  · intro o p ho hp heq
    have hrefl : ∀ q, Boundary text q → (source.lineColumn q).le (source.lineColumn q) :=
      fun q hq => (lineColumn_le_iff h hq hq).2 (Nat.le_refl q)
    refine Nat.le_antisymm ((lineColumn_le_iff h ho hp).1 ?_) ((lineColumn_le_iff h hp ho).1 ?_)
    · rw [← heq]
      exact hrefl o ho
    · rw [heq]
      exact hrefl p hp
  · intro finger o
    rw [answersFrom_eq (by rw [h]; exact LineTable.ofText_sorted text)]
    rfl

/-- Two lines with a character of two bytes on the second one, from the third line of a document on,
of which each line has lost two blanks. -/
def marginText : List Char := ['a', '\n', 'é', 'b']

/-- A span from the first line of the excerpt to its second. -/
theorem span_contains_iff_margin :
    Boundary marginText 1 ∧ Boundary marginText 2 ∧ Boundary marginText 4 ∧ Boundary marginText 5 ∧
      (Source.excerpt (.ofText marginText "" 2 7 2)).lineColumn 4 = ⟨4, 4⟩ ∧
      ((Source.excerpt (.ofText marginText "" 2 7 2)).span ⟨1, 4⟩).contains
        ((Source.excerpt (.ofText marginText "" 2 7 2)).lineColumn 2) ∧
      ¬ ((Source.excerpt (.ofText marginText "" 2 7 2)).span ⟨1, 4⟩).contains
        ((Source.excerpt (.ofText marginText "" 2 7 2)).lineColumn 5) := by
  have hone : Boundary marginText 1 := ⟨['a'], ['\n', 'é', 'b'], rfl, rfl⟩
  have htwo : Boundary marginText 2 := ⟨['a', '\n'], ['é', 'b'], rfl, rfl⟩
  have hfour : Boundary marginText 4 := ⟨['a', '\n', 'é'], ['b'], rfl, rfl⟩
  have hfive : Boundary marginText 5 := ⟨['a', '\n', 'é', 'b'], [], rfl, rfl⟩
  have hsource : (Source.excerpt (.ofText marginText "" 2 7 2)).base = .ofText marginText "" := rfl
  obtain ⟨hcontains, -, -⟩ := span_contains_iff hsource
  refine ⟨hone, htwo, hfour, hfive, by decide +kernel, ?_, ?_⟩
  · exact (hcontains ⟨1, 4⟩ 2 hone hfour htwo).2 (by decide)
  · intro hfalse
    exact absurd ((hcontains ⟨1, 4⟩ 5 hone hfour hfive).1 hfalse).2 (by decide)

end Manifest.Text
