import Manifest.Proofs.HereDoc.Lines
import Manifest.Proofs.Scan.Path
import Manifest.Proofs.Text.Survey

/-!
# Where the bytes of a body come from

The body of a here-doc is scanned as a text of its own, and that may hold here-docs again. Each of
its bytes was copied from a byte of the text around it, which was copied from a byte of the text
around that. Lines and columns are never asked of that outermost text: an excerpt shifts what its
own text answers. The answers agree all the same.

* `CopiedByte` — a byte of a body, and the byte of the text around it that it was copied from.
* `Lifted` — here-docs of a text at every depth, and where their bytes come from.
* `CopiedByte.Of.line_eq`, `CopiedByte.Of.column_eq` — what one excerpt answers.
* `lifted_positions` — lines at every depth, and columns in here-docs of the outermost text.
-/

namespace Manifest.Scan

open HereDoc (EndLine Shaped linesOf margin)
open Text (Document Ended LineStart OneLine Source StartsLine byteLength byteLength_append
  charsBefore columnAt isSpaceOrTab lineAt slice)
open scoped List

variable {s s₀ s₁ s' : State} {found : OpenHereDoc} {text line cs : List Char}
  {lines : List (List Char)} {ending : EndLine} {c : CopiedByte} {file : String}

/-! ## Copies -/

/-- The lines of the text that the body was made of. -/
def OpenHereDoc.rawLines (h : OpenHereDoc) (text : List Char) : List (List Char) :=
  linesOf (slice text h.bodyStart h.endLine)

/-- What was kept of them. -/
def OpenHereDoc.keptLines (h : OpenHereDoc) : List (List Char) := h.body.lines.map String.toList

/-- A byte of what was kept of a line, by the line and the lines before it, in the text and in the
body. -/
structure CopiedByte where
  before : List (List Char)
  raw : List Char
  keptBefore : List (List Char)
  kept : List Char
  offset : Nat

/-- The lines are those of the here-doc, and what was kept of the line stands on it behind its
margin. -/
structure CopiedByte.Of (c : CopiedByte) (h : OpenHereDoc) (text : List Char) : Prop where
  raw : c.before ++ [c.raw] <+: h.rawLines text
  kept : c.keptBefore ++ [c.kept] <+: h.keptLines
  length : c.keptBefore.length = c.before.length
  copied : margin h.body.excerpt.margin c.raw ++ c.kept <+: c.raw
  offset : c.offset < byteLength c.kept

instance (c : CopiedByte) (h : OpenHereDoc) (text : List Char) : Decidable (c.Of h text) :=
  decidable_of_iff (c.before ++ [c.raw] <+: h.rawLines text ∧
    c.keptBefore ++ [c.kept] <+: h.keptLines ∧
      c.keptBefore.length = c.before.length ∧
      margin h.body.excerpt.margin c.raw ++ c.kept <+: c.raw ∧ c.offset < byteLength c.kept)
    ⟨fun ⟨hraw, hkept, hlength, hcopied, hoffset⟩ => ⟨hraw, hkept, hlength, hcopied, hoffset⟩,
      fun hc => ⟨hc.raw, hc.kept, hc.length, hc.copied, hc.offset⟩⟩

/-- The offset of the byte in the body. -/
def CopiedByte.inBody (c : CopiedByte) : Nat := byteLength c.keptBefore.flatten + c.offset

/-- The offset in the text of the byte that it was copied from. -/
def CopiedByte.inText (c : CopiedByte) (h : OpenHereDoc) : Nat :=
  h.bodyStart + byteLength c.before.flatten
    + (byteLength (margin h.body.excerpt.margin c.raw) + c.offset)

/-- The byte at `o` of the body was copied from the byte at `p` of the text. -/
def OpenHereDoc.Copies (h : OpenHereDoc) (text : List Char) (o p : Nat) : Prop :=
  ∃ c : CopiedByte, c.Of h text ∧ o = c.inBody ∧ p = c.inText h

/-- Here-docs that are found in a text, or at some depth in the bodies of others, and where the
bytes of their bodies were copied from in the outermost text. -/
inductive Lifted (s₀ : State) : Nat → OpenHereDoc → (Nat → Nat → Prop) → Prop
  | direct {es : List Event} {s s₁ : State} {found : OpenHereDoc} (hpath : Path s₀ es s)
      (hopening : opening? s.template.isSome s.rest = some .hereDoc)
      (hfound : takeHereDoc s = .ok found s₁) : Lifted s₀ 0 found (found.Copies s₀.text)
  | nested {depth : Nat} {outer : OpenHereDoc} {origin : Nat → Nat → Prop} {es : List Event}
      {s s₁ : State} {found : OpenHereDoc} (houter : Lifted s₀ depth outer origin)
      (hpath : Path (outer.bodyState s₀) es s)
      (hopening : opening? s.template.isSome s.rest = some .hereDoc)
      (hfound : takeHereDoc s = .ok found s₁) :
      Lifted s₀ (depth + 1) found fun o p =>
        ∃ m, found.Copies outer.body.excerpt.body.text o m ∧ origin m p

/-! ## The lines of a here-doc -/

/-- The body of a here-doc stands at the front of what follows its start, and its lines end. -/
structure OpenHereDoc.Stands (h : OpenHereDoc) (text front : List Char) (lines : List (List Char))
    (line more : List Char) : Prop where
  split : text = front ++ (lines.flatten ++ (line ++ more))
  start : h.bodyStart = byteLength front
  stop : h.bodyStop = byteLength (front ++ lines.flatten ++ line)
  ended : ∀ other ∈ lines, Ended other
  raw : h.rawLines text = lines
  nonempty : lines.flatten ++ (line ++ more) ≠ []
  line_ended : more ≠ [] → Ended line

/-- What is read as a here-doc stands in the text, lines, end line and all. -/
theorem OpenHereDoc.ReadFrom.stands (h : found.ReadFrom s lines line ending) (hsound : s.Sound)
    (hat : s.At ('@' :: '(' :: cs)) : ∃ front more, found.Stands s.text front lines line more := by
  obtain ⟨front, more, htext, hstart, hlines⟩ := h.exists_split hsound hat
  have hended : ∀ other ∈ lines, Ended other := fun other hother =>
    HereDoc.linesOf_ended_of_mem hlines hother
  refine ⟨front, more.flatten, htext, hstart, ?_, hended, ?_, ?_, ?_⟩
  · rw [h.bodyStop, h.endLine, hstart, byteLength_append, byteLength_append]
  · rw [OpenHereDoc.rawLines, htext, ← List.append_assoc, h.endLine, hstart, Text.slice_byteLength,
      HereDoc.linesOf_flatten_of_ended hended]
  · intro hnil
    rw [hnil] at hlines
    exact List.append_ne_nil_of_right_ne_nil _ (List.cons_ne_nil _ _) hlines.symm
  · intro hmore
    cases more with
    | nil => exact absurd rfl hmore
    | cons next more => exact HereDoc.linesOf_ended hlines

/-- The body starts a line if a line starts where it does. -/
theorem OpenHereDoc.Stands.startsLine {front more : List Char}
    (h : found.Stands text front lines line more) (hstart : LineStart text found.bodyStart) :
    StartsLine front := hstart front _ h.split h.start.symm h.nonempty

/-- The lines that are kept are shaped as the end line asks. -/
theorem OpenHereDoc.ReadFrom.keptLines_shaped (h : found.ReadFrom s lines line ending) :
    Shaped ending lines found.keptLines := by
  rw [OpenHereDoc.keptLines, h.lines_eq]
  exact HereDoc.shapeBody_shaped ending lines

/-- The text of a body is what was kept of its lines. -/
theorem OpenHereDoc.ReadFrom.excerpt_eq (h : found.ReadFrom s lines line ending) :
    found.body.excerpt = .ofText found.keptLines.flatten s.source.file
      (s.source.line found.bodyStart - 1) (s.source.charOffset found.bodyStart) ending.margin := by
  rw [OpenHereDoc.keptLines, h.lines_eq]
  exact congrArg Token.Body.excerpt h.body

/-- The margin is the one that the end line asks for. -/
theorem OpenHereDoc.ReadFrom.margin_eq (h : found.ReadFrom s lines line ending) :
    found.body.excerpt.margin = ending.margin := by
  rw [h.excerpt_eq]
  rfl

/-- The body is a document of its own. -/
theorem OpenHereDoc.ReadFrom.document_eq (h : found.ReadFrom s lines line ending) :
    found.body.excerpt.body
      = .ofText found.body.excerpt.body.text found.body.excerpt.body.file := by
  rw [h.excerpt_eq]
  rfl

/-! ## A copied byte -/

/-- What was kept of the line of a copied byte in the body, with what was kept of the lines before
it. -/
theorem CopiedByte.Of.body_eq (hc : c.Of found text) :
    ∃ rest, found.keptLines.flatten = c.keptBefore.flatten ++ c.kept ++ rest := by
  obtain ⟨after, hafter⟩ := hc.kept
  refine ⟨after.flatten, ?_⟩
  rw [← hafter]
  simp only [List.flatten_append, List.flatten_singleton]

section

variable {front more : List Char} (hc : c.Of found text)
  (hstands : found.Stands text front lines line more)

include hc hstands

/-- The line of a copied byte in the text, with the lines before it. -/
theorem CopiedByte.Of.text_eq : ∃ rest, text = front ++ c.before.flatten ++ c.raw ++ rest := by
  obtain ⟨after, hafter⟩ := hc.raw
  rw [hstands.raw] at hafter
  refine ⟨after.flatten ++ (line ++ more), ?_⟩
  rw [hstands.split, ← hafter]
  simp only [List.flatten_append, List.flatten_singleton, List.append_assoc]

/-- Every line of a body ends with a line feed. -/
theorem CopiedByte.Of.ended : (∀ other ∈ c.before, Ended other) ∧ Ended c.raw := by
  obtain ⟨after, hafter⟩ := hc.raw
  rw [hstands.raw] at hafter
  have hmem : ∀ other ∈ c.before ++ [c.raw], Ended other := fun other hother =>
    hstands.ended other (hafter ▸ List.mem_append_left after hother)
  rw [List.forall_mem_append, List.forall_mem_singleton] at hmem
  exact hmem

/-- What was kept of the lines before a copied byte ends as they do. -/
theorem CopiedByte.Of.kept_ended (hshaped : Shaped ending lines found.keptLines) :
    (∀ other ∈ c.keptBefore, Ended other) ∧ OneLine c.kept := by
  obtain ⟨after, hafter⟩ := hc.kept
  rw [List.append_assoc] at hafter
  refine ⟨fun other hother => hshaped.ended_of_mem hstands.ended hafter.symm hother, ?_⟩
  have hmem : c.kept ∈ found.keptLines :=
    hafter ▸ List.mem_append_right _ (List.mem_append_left after List.mem_cons_self)
  obtain ⟨i, hi, hkept⟩ := List.getElem_of_mem hmem
  exact hkept ▸ hshaped.oneLine hstands.ended hi

/-- In the body, there is one line more for each line before. -/
theorem CopiedByte.Of.lineAt_inBody (hshaped : Shaped ending lines found.keptLines) :
    lineAt found.keptLines.flatten c.inBody = 1 + c.before.length := by
  obtain ⟨hkeptBefore, hkept⟩ := hc.kept_ended hstands hshaped
  obtain ⟨rest, hbody⟩ := hc.body_eq
  have hlines := Text.lineAt_lines [] hkeptBefore hkept hc.offset rest
  rw [List.nil_append, ← hbody, byteLength, Nat.zero_add, hc.length] at hlines
  exact hlines

end

/-- The offset on its line, which lies within the line. -/
theorem CopiedByte.Of.lt (hc : c.Of found text) :
    byteLength (margin found.body.excerpt.margin c.raw) + c.offset < byteLength c.raw := by
  obtain ⟨back, hback⟩ := hc.copied
  have hlength := congrArg byteLength hback
  rw [byteLength_append, byteLength_append] at hlength
  have hoffset := hc.offset
  omega

/-- On its line in the text, the characters of the margin come before those that were kept. -/
theorem CopiedByte.Of.charsBefore_raw (hc : c.Of found text) :
    charsBefore c.raw (byteLength (margin found.body.excerpt.margin c.raw) + c.offset)
      = (margin found.body.excerpt.margin c.raw).length + charsBefore c.kept c.offset := by
  obtain ⟨back, hback⟩ := hc.copied
  rw [List.append_assoc] at hback
  have hsplit := Text.charsBefore_append (margin found.body.excerpt.margin c.raw) (c.kept ++ back)
    c.offset
  rwa [hback, Text.charsBefore_append_left back (Nat.le_of_lt hc.offset)] at hsplit

/-- The byte that was copied is one of the text. -/
theorem CopiedByte.Of.inText_lt {front more : List Char} (hc : c.Of found text)
    (hstands : found.Stands text front lines line more) : c.inText found < byteLength text := by
  obtain ⟨rest, htext⟩ := hc.text_eq hstands
  have hlt := hc.lt
  rw [htext, CopiedByte.inText, hstands.start]
  simp only [byteLength_append]
  omega

/-- Every byte of a body was copied from one of the text. -/
theorem OpenHereDoc.ReadFrom.exists_copied (hread : found.ReadFrom s lines line ending)
    (hsound : s.Sound) (hat : s.At ('@' :: '(' :: cs)) {o : Nat}
    (ho : o < byteLength found.body.excerpt.body.text) :
    ∃ c : CopiedByte, c.Of found s.text ∧ o = c.inBody := by
  obtain ⟨front, more, hstands⟩ := hread.stands hsound hat
  have hshaped := hread.keptLines_shaped
  have ho' : o < byteLength found.keptLines.flatten := by rwa [hread.excerpt_eq] at ho
  obtain ⟨before, kept, after, j, hkept, hj, rfl⟩ := Text.exists_line_of_lt ho'
  have hi : before.length < found.keptLines.length := by
    rw [hkept, List.length_append, List.length_cons]
    omega
  have hi' : before.length < lines.length := hshaped.length ▸ hi
  refine ⟨⟨lines.take before.length, lines[before.length], before, kept, j⟩,
    ⟨?_, ?_, ?_, ?_, hj⟩, rfl⟩
  · rw [hstands.raw, ← List.take_succ_eq_append_getElem hi']
    exact List.take_prefix _ _
  · exact ⟨after, by rw [hkept, List.append_assoc]; rfl⟩
  · rw [List.length_take, Nat.min_eq_left (Nat.le_of_lt hi')]
  · have hline := hshaped.line before.length hi' hi
    have hsame : found.keptLines[before.length] = kept := by
      simp only [hkept, List.getElem_append_right (Nat.le_refl _), Nat.sub_self,
        List.getElem_cons_zero]
    rw [hsame] at hline
    rw [hread.margin_eq]
    exact ⟨_, hline.symm⟩

/-! ## What an excerpt answers -/

/-- What offsets refer to is the text, with its lines counted on from some line. -/
theorem line_of_base {source : Source} (h : source.base = .ofText text file) :
    ∃ k, ∀ o, source.line o = lineAt text o + k := by
  cases source with
  | document d =>
      obtain rfl : d = .ofText text file := h
      exact ⟨0, fun o => Text.line_ofText text file o⟩
  | excerpt e =>
      have hbody : e.body = .ofText text file := h
      refine ⟨e.leadingLines, fun o => ?_⟩
      show e.body.line o + e.leadingLines = _
      rw [hbody, Text.line_ofText]

/-- The line of a byte of the body is the line, in the text around it, of the byte that it was
copied from. -/
theorem CopiedByte.Of.line_eq (hc : c.Of found s.text) (hread : found.ReadFrom s lines line ending)
    (hsound : s.Sound) (hat : s.At ('@' :: '(' :: cs))
      (hbase : s.source.base = .ofText s.text file) :
    found.body.excerpt.line c.inBody = s.source.line (c.inText found) := by
  obtain ⟨front, more, hstands⟩ := hread.stands hsound hat
  obtain ⟨rest, htext⟩ := hc.text_eq hstands
  obtain ⟨hbefore, hraw⟩ := hc.ended hstands
  have hbody := hc.lineAt_inBody hstands hread.keptLines_shaped
  -- in the text too, from the line on which the body starts
  have hstart : lineAt s.text found.bodyStart = lineAt front (byteLength front) := by
    rw [hstands.split, hstands.start]
    exact Text.lineAt_append _ (Nat.le_refl _)
  have hown : lineAt s.text (c.inText found) = lineAt s.text found.bodyStart + c.before.length := by
    have hlines := Text.lineAt_lines front hbefore hraw.oneLine hc.lt rest
    rw [← htext, ← hstands.start] at hlines
    rw [hstart, ← hstands.start, ← hlines]
    rfl
  obtain ⟨k, hk⟩ := line_of_base hbase
  have hpos : 1 ≤ lineAt s.text found.bodyStart := Nat.le_add_right 1 _
  rw [hread.excerpt_eq]
  show (Document.ofText _ _).line c.inBody + (s.source.line found.bodyStart - 1) = _
  rw [Text.line_ofText, hbody, hk, hk, hown]
  omega

/-- The margin of a line that has enough blanks is as wide as the margin. -/
theorem length_margin {m : Nat} {raw : List Char} (h : m ≤ (raw.takeWhile isSpaceOrTab).length) :
    (margin m raw).length = m := by
  rw [margin, List.length_take, Nat.min_eq_left h]

/-- The column of a byte of the body, on a line with all of the margin, is the column in the text of
the byte that it was copied from. -/
theorem CopiedByte.Of.column_eq (hc : c.Of found s.text)
    (hread : found.ReadFrom s lines line ending)
    (hsound : s.Sound) (hat : s.At ('@' :: '(' :: cs)) (hstart : LineStart s.text found.bodyStart)
    (hmargin : found.body.excerpt.margin ≤ (c.raw.takeWhile isSpaceOrTab).length) :
    found.body.excerpt.column c.inBody = columnAt s.text (c.inText found) := by
  obtain ⟨front, more, hstands⟩ := hread.stands hsound hat
  obtain ⟨rest, htext⟩ := hc.text_eq hstands
  obtain ⟨hbefore, hraw⟩ := hc.ended hstands
  obtain ⟨hkeptBefore, hkept⟩ := hc.kept_ended hstands hread.keptLines_shaped
  have hbody : columnAt found.keptLines.flatten c.inBody = 1 + charsBefore c.kept c.offset := by
    obtain ⟨rest, hbody⟩ := hc.body_eq
    rw [hbody]
    exact Text.columnAt_line (Text.startsLine_nil.append_flatten hkeptBefore) hkept hc.offset rest
  have hown : columnAt s.text (c.inText found)
      = 1 + (found.body.excerpt.margin + charsBefore c.kept c.offset) := by
    have hline := Text.columnAt_line ((hstands.startsLine hstart).append_flatten hbefore)
      hraw.oneLine hc.lt rest
    have hchars := hc.charsBefore_raw
    rw [length_margin hmargin] at hchars
    rw [← htext, hchars, byteLength_append, ← hstands.start] at hline
    exact hline
  have hcolumn : found.body.excerpt.column c.inBody
      = columnAt found.keptLines.flatten c.inBody + found.body.excerpt.margin := by
    rw [hread.excerpt_eq]
    exact congrArg (· + ending.margin) (Text.column_ofText _ _ _)
  rw [hcolumn, hbody, hown]
  omega

/-! ## Where bodies start -/

/-- A line feed leads to the start of a line. -/
def State.LeadsToLine (s : State) : Prop := ∀ r ∈ s.resume, LineStart s.text r

/-- The body of a here-doc starts where a line does. -/
theorem OpenHereDoc.ReadFrom.lineStart (h : found.ReadFrom s lines line ending)
    (hat : s.At ('@' :: '(' :: cs)) (hleads : s.LeadsToLine) :
      LineStart s.text found.bodyStart := by
  cases hresume : s.resume with
  | some r =>
      rw [eq_of_bodyStart? hresume h.start]
      exact hleads r hresume
  | none =>
      obtain ⟨front, body, rest, htext, hbody, -, hstart⟩ :=
        nextLine_of_bodyStart? hresume (h.next_boundary hat).1 h.start
      have hsplit : s.text = front ++ (body ++ ['\n']) ++ rest := by
        rw [htext]
        simp only [List.append_assoc, List.cons_append, List.nil_append]
      rw [hsplit, hstart, List.append_assoc front body ['\n']]
      exact Text.lineStart_of_append fun _ => Ended.startsLine ⟨body, rfl, hbody⟩ front

/-- Scanning goes on at the start of a line, after each move. -/
theorem Move.leadsToLine {e : Option Event} (h : Move s e s') (hsound : s.Sound)
    (hleads : s.LeadsToLine) : s'.LeadsToLine := by
  cases e with
  | none =>
      have hsteady := h.steady hsound
      rw [State.LeadsToLine, hsteady.resume, hsteady.text]
      exact hleads
  | some e =>
      cases e with
      | newline =>
          rw [h.newline_eq]
          exact fun _ hr => nomatch hr
      | hereDoc ts =>
          obtain ⟨found, s₁, tokens, done, cs, hat, hfound, -, -, hlasts, -, hresume⟩ :=
            h.hereDoc_spec hsound
          obtain ⟨⟨lines, line, ending, hread⟩, -⟩ := takeHereDoc_read hfound
          obtain ⟨front, more, hstands⟩ := hread.stands hsound hat
          intro r hr
          rw [hresume] at hr
          obtain rfl := Option.some.inj hr
          rw [hlasts.text, hstands.stop, hstands.split, ← List.append_assoc, ← List.append_assoc]
          exact Text.lineStart_of_append fun hmore => (hstands.line_ended hmore).startsLine _

/-- Along a path, scanning goes on at the start of a line. -/
theorem Path.leadsToLine (h : Path s es s') (hsound : s.Sound) (hleads : s.LeadsToLine) :
    s'.LeadsToLine := by
  induction h with
  | nil => exact hleads
  | silent hmove _ ih => exact ih (hmove.lasts hsound).sound (hmove.leadsToLine hsound hleads)
  | event hmove _ ih => exact ih (hmove.lasts hsound).sound (hmove.leadsToLine hsound hleads)

/-! ## Every depth -/

/-- A here-doc that is found along a path, with all that it was read from. -/
theorem Path.exists_readFrom (hpath : Path s₀ es s) (hsound : s₀.Sound)
    (hopening : opening? s.template.isSome s.rest = some .hereDoc)
    (hfound : takeHereDoc s = .ok found s₁) :
    s₀.Lasts s ∧ (∃ cs, s.At ('@' :: '(' :: cs)) ∧
      ∃ lines line ending, found.ReadFrom s lines line ending := by
  have hlasts := hpath.lasts hsound
  obtain ⟨cs, hat, hopening⟩ := at_of_opening hlasts.sound hopening
  obtain ⟨rest, rfl⟩ := opening?_begins hopening
  exact ⟨hlasts, ⟨rest, hat⟩, (takeHereDoc_read hfound).1⟩

/-- Every byte of a body comes from one of the outermost text, and has the line of that. -/
theorem Lifted.line_eq {depth : Nat} {origin : Nat → Nat → Prop} (h : Lifted s₀ depth found origin)
    (hsound : s₀.Sound) (hbase : s₀.source = .document (.ofText s₀.text file)) :
    found.body.excerpt.body = .ofText found.body.excerpt.body.text found.body.excerpt.body.file ∧
      (∀ o, o < byteLength found.body.excerpt.body.text → ∃ p, p < byteLength s₀.text ∧
        origin o p) ∧
      ∀ o p, origin o p → found.body.excerpt.line o = lineAt s₀.text p := by
  induction h with
  | @direct es s s₁ found hpath hopening hfound =>
      obtain ⟨hlasts, ⟨cs, hat⟩, lines, line, ending, hread⟩ :=
        hpath.exists_readFrom hsound hopening hfound
      rw [← hlasts.text]
      have hbase' : s.source = .document (.ofText s.text file) := by
        rw [hlasts.source, hbase, hlasts.text]
      refine ⟨hread.document_eq, ?_, ?_⟩
      · intro o ho
        obtain ⟨c, hc, rfl⟩ := hread.exists_copied hlasts.sound hat ho
        obtain ⟨front, more, hstands⟩ := hread.stands hlasts.sound hat
        exact ⟨_, hc.inText_lt hstands, c, hc, rfl, rfl⟩
      · rintro o p ⟨c, hc, rfl, rfl⟩
        rw [hc.line_eq hread hlasts.sound hat (by rw [hbase']; rfl), hbase']
        exact Text.line_ofText _ _ _
  | @nested depth outer origin es s s₁ found houter hpath hopening hfound ih =>
      obtain ⟨hdocument, htotal, hline⟩ := ih
      have hsound' : (outer.bodyState s₀).Sound := State.sound_start _ rfl rfl
      obtain ⟨hlasts, ⟨cs, hat⟩, lines, line, ending, hread⟩ :=
        hpath.exists_readFrom hsound' hopening hfound
      have htext : s.text = outer.body.excerpt.body.text := hlasts.text
      have hsource : s.source = .excerpt outer.body.excerpt := hlasts.source
      refine ⟨hread.document_eq, ?_, ?_⟩
      · intro o ho
        obtain ⟨c, hc, rfl⟩ := hread.exists_copied hlasts.sound hat ho
        obtain ⟨front, more, hstands⟩ := hread.stands hlasts.sound hat
        have hm := hc.inText_lt hstands
        rw [htext] at hm hc
        obtain ⟨p, hp, horigin⟩ := htotal _ hm
        exact ⟨p, hp, _, ⟨c, hc, rfl, rfl⟩, horigin⟩
      -- a byte was copied from the body around it, and that one from further out
      · rintro o p ⟨m, ⟨c, hc, rfl, rfl⟩, horigin⟩
        rw [← htext] at hc
        have hbase' : s.source.base = .ofText s.text outer.body.excerpt.body.file := by
          rw [hsource, htext]
          exact hdocument
        rw [hc.line_eq hread hlasts.sound hat hbase', hsource]
        exact hline _ p horigin

/-- In every here-doc that is found in a text, at any depth, each byte of the body comes from a byte
of the text, and has its line. In a here-doc of the text itself it also has its column, if the line
of the text has all of the margin. -/
theorem lifted_positions {options : Options} {depth : Nat} {origin : Nat → Nat → Prop}
    (h : Lifted (.start options (.document (.ofText text file)) text) depth found origin) :
    (∀ o, o < byteLength found.body.excerpt.body.text → ∃ p, p < byteLength text ∧ origin o p) ∧
      (∀ o p, origin o p → found.body.excerpt.line o = lineAt text p) ∧
      (depth = 0 → ∀ c : CopiedByte, c.Of found text →
        origin c.inBody (c.inText found) ∧
          (found.body.excerpt.margin ≤ (c.raw.takeWhile isSpaceOrTab).length →
            found.body.excerpt.column c.inBody = columnAt text (c.inText found))) := by
  have hsound : State.Sound (.start options (.document (.ofText text file)) text) :=
    State.sound_start _ rfl rfl
  obtain ⟨-, htotal, hline⟩ := h.line_eq hsound rfl
  refine ⟨htotal, hline, ?_⟩
  intro hdepth c hc
  cases h with
  | nested => exact nomatch hdepth
  | direct hpath hopening hfound =>
      refine ⟨⟨c, hc, rfl, rfl⟩, ?_⟩
      intro hmargin
      obtain ⟨hlasts, ⟨cs, hat⟩, lines, line, ending, hread⟩ :=
        hpath.exists_readFrom hsound hopening hfound
      have hleads := hpath.leadsToLine hsound (fun _ hr => nomatch hr)
      have htext : _ = text := hlasts.text
      rw [← htext] at hc ⊢
      exact hc.column_eq hread hlasts.sound hat (hread.lineStart hat hleads) hmargin

/-- What a scanner gives, and the state that it leaves, unless it fails. -/
def outcome? {α : Type} (x : Scanner α) (s : State) : Option (α × State) :=
  match x s with
  | .ok a s' => some (a, s')
  | .error _ _ => none

theorem outcome?_eq_some {α : Type} {x : Scanner α} {r : α × State} :
    outcome? x s = some r ↔ x s = .ok r.1 r.2 := by
  rw [outcome?]
  split
  next a s' hx =>
    rw [hx, Option.some.injEq, EStateM.Result.ok.injEq, Prod.ext_iff]
  next hx => rw [hx]; exact ⟨nofun, nofun⟩

/-- A here-doc in an interpolation in the body of another one. -/
def nestedText : List Char :=
  ['@', '(', '"', 'A', '"', ')', '\n', ' ', 'ü', '$', '{', '@', '(', 'B', ')', '\n',
    ' ', 'x', '\n', ' ', 'B', '\n', ' ', '}', '\n', ' ', '|', 'A', '\n']

/-- The body of a here-doc in the body of another one. -/
theorem lifted_positions_nested : ∃ (found : OpenHereDoc) (origin : Nat → Nat → Prop) (p : Nat),
    Lifted (.start .standard (.document (.ofText nestedText "")) nestedText) 1 found origin ∧
      found.body.lines = ["x\n"] ∧ origin 0 p ∧ lineAt nestedText p = 3 := by
  generalize hs₀ : State.start .standard (.document (.ofText nestedText "")) nestedText = s₀
  -- the outer here-doc, the text before the interpolation in its body, and the inner one
  have hscan : (match takeHereDoc s₀ with
      | .ok outer _ => match takeRun ⟨.rawText, .none, false, 0⟩ (outer.bodyState s₀) with
        | .ok _ s => match takeHereDoc { s with braceDepth := s.braceDepth + 1 } with
          | .ok found _ => some (opening? s₀.template.isSome s₀.rest,
              opening? s.template.isSome s.rest, found.body.lines,
              byteLength found.body.excerpt.body.text, found.body.excerpt.line 0)
          | .error _ _ => none
        | .error _ _ => none
      | .error _ _ => none) = some (some .hereDoc, some .hereDoc, ["x\n"], 2, 3) := by
    rw [← hs₀]
    decide +kernel
  split at hscan
  next outer s₁ houter =>
    split at hscan
    next run s hrun =>
      split at hscan
      next found s₂ hfound =>
        simp only [Option.some.injEq, Prod.mk.injEq] at hscan
        obtain ⟨hopening, hopening', hlines, hsize, hthree⟩ := hscan
        have hpath : Path (outer.bodyState s₀) [] { s with braceDepth := s.braceDepth + 1 } :=
          .silent (.run hrun) (Move.brace.path)
        have hlifted := Lifted.nested (.direct (.nil s₀) hopening houter) hpath hopening' hfound
        subst hs₀
        obtain ⟨htotal, hline, -⟩ := lifted_positions hlifted
        obtain ⟨p, -, horigin⟩ := htotal 0 (by rw [hsize]; exact Nat.two_pos)
        exact ⟨found, _, p, hlifted, hlines, horigin, (hline 0 p horigin).symm.trans hthree⟩
      next => exact nomatch hscan
    next => exact nomatch hscan
  next => exact nomatch hscan

end Manifest.Scan
