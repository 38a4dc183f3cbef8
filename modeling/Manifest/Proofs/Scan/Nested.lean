import Manifest.Proofs.Scan.Origin

/-!
# Margins of enclosing here-docs

Each here-doc takes a margin from its lines, and a here-doc in its body is read from what is left of
them. A column in the innermost body and the margins of all these here-docs add up to the column in
the outermost text, on a line that begins with that many blanks. An excerpt adds one margin only,
that of its own here-doc.

* `lineOf`, `indentAt` — the line of an offset, and the blanks with which it begins.
* `Shifted` — an offset before and after a margin is taken; `Shifted.trans`.
* `Nested` — here-docs at every depth, with those around them.
* `nested_columns` — what columns in an enclosed here-doc fall short of.
-/

namespace Manifest.Scan

open HereDoc (Shaped linesOf linesOf_append linesOf_ended_of_startsLine linesOf_flatten
  linesOf_flatten_append margin takeWhile_headD_linesOf EndLine)
open Text (Document Ended Excerpt LineStart OneLine StartsLine byteLength byteLength_append columnAt
  feedsBefore isSpaceOrTab lineAt)

variable {s s₀ s₁ : State} {found outer : OpenHereDoc} {outers : List OpenHereDoc}
  {text mid body front line cs : List Char} {lines : List (List Char)} {ending : EndLine}
  {c : CopiedByte} {file : String} {origin : Nat → Nat → Prop} {depth m m' n o p j : Nat}

/-! ## The line of an offset -/

/-- The line of an offset of the text. -/
def lineOf (text : List Char) (o : Nat) : List Char := (linesOf text).getD (lineAt text o - 1) []

/-- The number of blanks with which the line of an offset begins. -/
def indentAt (text : List Char) (o : Nat) : Nat := ((lineOf text o).takeWhile isSpaceOrTab).length

/-- The line of an offset is the first one of what follows the front, if a line starts there. -/
theorem lineOf_append (hstart : StartsLine front) (hline : OneLine line) (hj : j < byteLength line)
    (rest : List Char) :
    lineOf (front ++ line ++ rest) (byteLength front + j) = (linesOf (line ++ rest)).headD [] := by
  have hended := linesOf_ended_of_startsLine hstart
  have hlines := linesOf_flatten_append hended (line ++ rest)
  have hcount := Text.feedsBefore_flatten hended
  rw [linesOf_flatten] at hlines hcount
  rw [lineOf, Text.lineAt_line front hline hj rest, lineAt, Nat.add_sub_cancel_left, hcount,
    List.append_assoc, hlines, List.getD_eq_getElem?_getD,
      List.getElem?_append_right (Nat.le_refl _),
    Nat.sub_self, ← List.head?_eq_getElem?, List.headD_eq_head?_getD]

/-- The indentation of a line is that of the text from its start on. -/
theorem indentAt_append (hstart : StartsLine front) (hline : OneLine line)
    (hj : j < byteLength line)
    (rest : List Char) :
    indentAt (front ++ line ++ rest) (byteLength front + j)
      = ((line ++ rest).takeWhile isSpaceOrTab).length := by
  rw [indentAt, lineOf_append hstart hline hj, takeWhile_headD_linesOf]

/-! ## Margins -/

/-- The byte at `o` of the body is that at `p` of the text, from whose line a margin of `m` blanks
was taken if it had as many, or less. -/
structure Shifted (text body : List Char) (m o p : Nat) : Prop where
  indent : indentAt text p ≤ indentAt body o + m
  column : m ≤ indentAt text p → columnAt body o + m = columnAt text p

/-- Margins that are taken one after the other add up. -/
theorem Shifted.trans (h : Shifted text mid m n p) (h' : Shifted mid body m' o n) :
    Shifted text body (m' + m) o p := by
  have hindent := h.indent
  have hindent' := h'.indent
  refine ⟨by omega, ?_⟩
  intro hle
  have hcolumn := h.column (by omega)
  have hcolumn' := h'.column (by omega)
  omega

/-- An excerpt adds its margin to the columns of its text. -/
theorem column_eq_of_body {e : Excerpt} (h : e.body = .ofText e.body.text e.body.file) (o : Nat) :
    e.column o = columnAt e.body.text o + e.margin := by
  rw [Excerpt.column, h]
  exact congrArg (· + e.margin) (Text.column_ofText _ _ _)

/-- Of the blanks of the line that a byte was copied from, those behind the margin were copied with
it. -/
theorem CopiedByte.Of.takeWhile_raw (hc : c.Of found text)
    (hshaped : Shaped ending (found.rawLines text) found.keptLines) :
    c.raw.takeWhile isSpaceOrTab
      = margin ending.margin c.raw ++ c.kept.takeWhile isSpaceOrTab := by
  obtain ⟨after, hafter⟩ := hc.raw
  obtain ⟨keptAfter, hkeptAfter⟩ := hc.kept
  rw [← hafter, ← hkeptAfter] at hshaped
  have htake := hshaped.takeWhile_eq (i := c.before.length) (by simp) (by simp [hc.length])
  simpa [hc.length] using htake

section

variable (hc : c.Of found s.text) (hread : found.ReadFrom s lines line ending) (hsound : s.Sound)
  (hat : s.At ('@' :: '(' :: cs)) (hstart : LineStart s.text found.bodyStart)

include hc hread hsound hat hstart

/-- The line of a byte that was copied is the one that it was copied from. -/
theorem CopiedByte.Of.lineOf_inText : lineOf s.text (c.inText found) = c.raw := by
  obtain ⟨front, more, hstands⟩ := hread.stands hsound hat
  obtain ⟨rest, htext⟩ := hc.text_eq hstands
  obtain ⟨hbefore, hraw⟩ := hc.ended hstands
  have hline := lineOf_append ((hstands.startsLine hstart).append_flatten hbefore) hraw.oneLine
    hc.lt
    rest
  rwa [← htext, linesOf_append hraw, byteLength_append, ← hstands.start] at hline

/-- The blanks of the line in the text are those of its margin and those of the line in the body. -/
theorem CopiedByte.Of.indentAt_le :
    indentAt s.text (c.inText found)
      ≤ indentAt found.body.excerpt.body.text c.inBody + found.body.excerpt.margin := by
  obtain ⟨front, more, hstands⟩ := hread.stands hsound hat
  have hshaped := hread.keptLines_shaped
  have htake := hc.takeWhile_raw (hstands.raw.symm ▸ hshaped)
  have hmargin : (margin ending.margin c.raw).length ≤ ending.margin := List.length_take_le _ _
  -- whatever follows the line in the body, its own blanks come first
  have hkept : (c.kept.takeWhile isSpaceOrTab).length
      ≤ indentAt found.body.excerpt.body.text c.inBody := by
    obtain ⟨hkeptBefore, hkept⟩ := hc.kept_ended hstands hshaped
    obtain ⟨rest, hbody⟩ := hc.body_eq
    have hindent := indentAt_append (Text.startsLine_nil.append_flatten hkeptBefore) hkept hc.offset
      rest
    rw [List.nil_append, ← hbody] at hindent
    rw [hread.excerpt_eq]
    show _ ≤ indentAt found.keptLines.flatten c.inBody
    rw [CopiedByte.inBody, hindent, List.takeWhile_append]
    split
    next hall => rw [hall, List.length_append]; exact Nat.le_add_right _ _
    next => exact Nat.le_refl _
  rw [indentAt, hc.lineOf_inText hread hsound hat hstart, htake, List.length_append,
    hread.margin_eq]
  omega

/-- One here-doc takes its margin. -/
theorem CopiedByte.Of.shifted :
    Shifted s.text found.body.excerpt.body.text found.body.excerpt.margin c.inBody
      (c.inText found) := by
  refine ⟨hc.indentAt_le hread hsound hat hstart, ?_⟩
  intro hle
  rw [indentAt, hc.lineOf_inText hread hsound hat hstart] at hle
  rw [← column_eq_of_body hread.document_eq]
  exact hc.column_eq hread hsound hat hstart hle

end

/-! ## Here-docs and those around them -/

/-- Here-docs that are found in a text, or in the bodies of others, with those that enclose them,
the innermost one first, and where the bytes of their bodies were copied from in the outermost
text. -/
inductive Nested (s₀ : State) : List OpenHereDoc → OpenHereDoc → (Nat → Nat → Prop) → Prop
  | direct {es : List Event} {s s₁ : State} {found : OpenHereDoc} (hpath : Path s₀ es s)
      (hopening : opening? s.template.isSome s.rest = some .hereDoc)
      (hfound : takeHereDoc s = .ok found s₁) : Nested s₀ [] found (found.Copies s₀.text)
  | within {outers : List OpenHereDoc} {outer : OpenHereDoc} {origin : Nat → Nat → Prop}
      {es : List Event} {s s₁ : State} {found : OpenHereDoc}
      (houter : Nested s₀ outers outer origin) (hpath : Path (outer.bodyState s₀) es s)
      (hopening : opening? s.template.isSome s.rest = some .hereDoc)
      (hfound : takeHereDoc s = .ok found s₁) :
      Nested s₀ (outer :: outers) found fun o p =>
        ∃ m, found.Copies outer.body.excerpt.body.text o m ∧ origin m p

/-- A here-doc within others is lifted as often as there are others. -/
theorem Nested.lifted (h : Nested s₀ outers found origin) :
    Lifted s₀ outers.length found origin := by
  induction h with
  | direct hpath hopening hfound => exact .direct hpath hopening hfound
  | within _ hpath hopening hfound ih => exact ih.nested hpath hopening hfound

/-- The margins of here-docs, all of them together. -/
def margins : List OpenHereDoc → Nat
  | [] => 0
  | h :: hs => h.body.excerpt.margin + margins hs

/-- An enclosed here-doc and those around it take their margins one after the other. -/
theorem Nested.shifted (h : Nested s₀ outers found origin) (hsound : s₀.Sound)
    (hleads : s₀.LeadsToLine) (horigin : origin o p) :
    Shifted s₀.text found.body.excerpt.body.text (margins (found :: outers)) o p := by
  induction h generalizing o with
  | @direct es s s₁ found hpath hopening hfound =>
      obtain ⟨hlasts, ⟨cs, hat⟩, lines, line, ending, hread⟩ :=
        hpath.exists_readFrom hsound hopening hfound
      obtain ⟨c, hc, rfl, rfl⟩ := horigin
      rw [← hlasts.text] at hc ⊢
      exact hc.shifted hread hlasts.sound hat
        (hread.lineStart hat (hpath.leadsToLine hsound hleads))
  | @within outers outer origin es s s₁ found houter hpath hopening hfound ih =>
      have hsound' : (outer.bodyState s₀).Sound := State.sound_start _ rfl rfl
      obtain ⟨hlasts, ⟨cs, hat⟩, lines, line, ending, hread⟩ :=
        hpath.exists_readFrom hsound' hopening hfound
      have htext : s.text = outer.body.excerpt.body.text := hlasts.text
      have hleads := hpath.leadsToLine hsound' fun _ hr => nomatch hr
      obtain ⟨m, ⟨c, hc, rfl, rfl⟩, horigin⟩ := horigin
      rw [← htext] at hc
      have hinner := hc.shifted hread hlasts.sound hat (hread.lineStart hat hleads)
      rw [htext] at hinner
      rw [margins]
      exact (ih horigin).trans hinner

/-- In every here-doc that is found in a text, at any depth, each byte of the body comes from a byte
of the text. If the line of that byte begins with as many blanks as the here-doc and those around it
take for their margins, then the column falls short of that in the text by the margins of those
around it: the two are the same just when these have no margin. -/
theorem nested_columns {options : Options}
    (h : Nested (.start options (.document (.ofText text file)) text) outers found origin) :
    (∀ o, o < byteLength found.body.excerpt.body.text → ∃ p, p < byteLength text ∧ origin o p) ∧
      ∀ o p, origin o p → margins (found :: outers) ≤ indentAt text p →
        found.body.excerpt.column o + margins outers = columnAt text p ∧
          (found.body.excerpt.column o = columnAt text p ↔ margins outers = 0) := by
  have hsound : State.Sound (.start options (.document (.ofText text file)) text) :=
    State.sound_start _ rfl rfl
  obtain ⟨hdocument, htotal, -⟩ := h.lifted.line_eq hsound rfl
  refine ⟨htotal, ?_⟩
  intro o p horigin hindent
  have hcolumn : columnAt found.body.excerpt.body.text o + margins (found :: outers)
      = columnAt text p := (h.shifted hsound (fun _ hr => nomatch hr) horigin).column hindent
  rw [margins] at hcolumn
  rw [column_eq_of_body hdocument]
  omega

/-- A here-doc with a margin of two, in an interpolation in the body of another one with as many. -/
def indentedText : List Char :=
  ['@', '(', '"', 'A', '"', ':', 't', 'x', 't', ')', '\n',
    ' ', ' ', '$', '{', '@', '(', 'B', ':', 't', 'x', 't', ')', '\n',
    ' ', ' ', ' ', ' ', 'x', '\n', ' ', ' ', ' ', ' ', '|', ' ', 'B', '\n', ' ', ' ', '}', '\n',
    ' ', ' ', '|', ' ', 'A', '\n']

/-- The letter of the inner body, in the body of the outer here-doc and in its own. -/
def indentedOuter : CopiedByte :=
  ⟨[[' ', ' ', '$', '{', '@', '(', 'B', ':', 't', 'x', 't', ')', '\n']],
    [' ', ' ', ' ', ' ', 'x', '\n'], [['$', '{', '@', '(', 'B', ':', 't', 'x', 't', ')', '\n']],
    [' ', ' ', 'x', '\n'], 2⟩

def indentedInner : CopiedByte := ⟨[], [' ', ' ', 'x', '\n'], [], ['x', '\n'], 0⟩

/-- A here-doc in the body of another one, each of them with a margin. -/
theorem exists_nested_indentedText : ∃ (outer found : OpenHereDoc) (origin : Nat → Nat → Prop),
    Nested (.start .standard (.document (.ofText indentedText "t.pp")) indentedText) [outer] found
        origin ∧
      origin 0 28 ∧ outer.body.excerpt.margin = 2 ∧ found.body.excerpt.margin = 2 ∧
      found.body.excerpt.column 0 = 3 := by
  generalize hs₀ : State.start .standard (.document (.ofText indentedText "t.pp")) indentedText = s₀
  -- the outer here-doc, the text before the interpolation in its body, and the inner one
  have hscan : ((outcome? takeHereDoc s₀).bind fun outer =>
      (outcome? (takeRun ⟨.rawText, .none, false, 0⟩) (outer.1.bodyState s₀)).bind fun run =>
        (outcome? takeHereDoc { run.2 with braceDepth := run.2.braceDepth + 1 }).map fun found =>
          decide ((opening? s₀.template.isSome s₀.rest = some .hereDoc ∧
            opening? run.2.template.isSome run.2.rest = some .hereDoc) ∧
            (indentedInner.Of found.1 outer.1.body.excerpt.body.text ∧
              indentedOuter.inBody = indentedInner.inText found.1) ∧
            (indentedOuter.Of outer.1 s₀.text ∧ 28 = indentedOuter.inText outer.1) ∧
            outer.1.body.excerpt.margin = 2 ∧ found.1.body.excerpt.margin = 2 ∧
            found.1.body.excerpt.column 0 = 3)) = some true := by
    rw [← hs₀]
    decide +kernel
  simp only [Option.bind_eq_some_iff, Option.map_eq_some_iff, outcome?_eq_some] at hscan
  obtain ⟨outer, houter, run, hrun, found, hfound, hscan⟩ := hscan
  obtain ⟨⟨hopening, hopening'⟩, ⟨hinner, hmid⟩, ⟨hcopied, htext⟩, hfacts⟩ :=
    of_decide_eq_true hscan
  have hpath : Path (outer.1.bodyState s₀) [] { run.2 with braceDepth := run.2.braceDepth + 1 } :=
    .silent (.run hrun) (Move.brace.path)
  refine ⟨outer.1, found.1, _, .within (.direct (.nil s₀) hopening houter) hpath hopening' hfound,
    ?_, hfacts⟩
  exact ⟨_, ⟨indentedInner, hinner, rfl, rfl⟩, indentedOuter, hcopied, hmid.symm, htext⟩

/-- The letter stands in the fifth column, and the margin of the outer here-doc is missing. -/
theorem nested_columns_indentedText : ∃ (outer found : OpenHereDoc) (origin : Nat → Nat → Prop),
    Nested (.start .standard (.document (.ofText indentedText "t.pp")) indentedText) [outer] found
        origin ∧
      origin 0 28 ∧ margins [found, outer] ≤ indentAt indentedText 28 ∧
      found.body.excerpt.column 0 + 2 = columnAt indentedText 28 := by
  obtain ⟨outer, found, origin, hnested, horigin, houter, hinner, -⟩ :=
    exists_nested_indentedText
  have hindent : margins [found, outer] ≤ indentAt indentedText 28 := by
    rw [margins, margins, margins, hinner, houter]
    decide +kernel
  obtain ⟨hcolumn, -⟩ := (nested_columns hnested).2 0 28 horigin hindent
  rw [margins, margins, houter] at hcolumn
  exact ⟨outer, found, origin, hnested, horigin, hindent, hcolumn⟩

/-- Its column is answered as the third. -/
theorem column_indentedText : ∃ (outer found : OpenHereDoc) (origin : Nat → Nat → Prop),
    Nested (.start .standard (.document (.ofText indentedText "t.pp")) indentedText) [outer] found
        origin ∧
      origin 0 28 ∧ margins [found, outer] = 4 ∧ indentAt indentedText 28 = 4 ∧
      found.body.excerpt.column 0 = 3 ∧ columnAt indentedText 28 = 5 := by
  obtain ⟨outer, found, origin, hnested, horigin, houter, hinner, hthree⟩ :=
    exists_nested_indentedText
  refine ⟨outer, found, origin, hnested, horigin, ?_, by decide +kernel, hthree, by decide +kernel⟩
  rw [margins, margins, margins, hinner, houter]

end Manifest.Scan
