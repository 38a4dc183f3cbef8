import Manifest.Proofs.Scan.Origin
import Manifest.Proofs.Text.Order

/-!
# Characters of a body

The index of a character of a body is the one in its own text, shifted by the index at which the
body begins and by a margin for each line above. Two things are missing from this: the margin of the
line itself, which stands before the character too, and the blanks that a line above lacked to its
margin, which were never there. Lengths are differences of such indices, so that the first cancels
out and the second counts for the lines between.

* `CopiedByte.Of.charOffset_eq` — the index of a copied byte, and that of the byte it was copied
  from.
* `CopiedByte.Of.inText_le` — copies are in the order of what they were copied from.
* `lifted_charOffset` — when indices and lengths are those of the text.
-/

namespace Manifest.Scan

open HereDoc (EndLine Shaped lacking lacking_append lacking_eq_zero_iff margin)
open Text (Document Excerpt byteLength byteLength_append charsBefore charsBetween
  isSpaceOrTab lineAt)
open scoped List

variable {s s₀ s₁ : State} {found : OpenHereDoc} {text line cs : List Char}
  {lines : List (List Char)} {ending : EndLine} {c d : CopiedByte} {file : String} {o p : Nat}

/-- The line has all of the margin. -/
def OpenHereDoc.Indented (h : OpenHereDoc) (line : List Char) : Prop :=
  h.body.excerpt.margin ≤ (line.takeWhile isSpaceOrTab).length

instance (h : OpenHereDoc) (line : List Char) : Decidable (h.Indented line) :=
  inferInstanceAs (Decidable (_ ≤ _))

/-! ## Lines before a copied byte -/

/-- The lines before a copied byte are the first ones of the body. -/
theorem CopiedByte.Of.before_eq (hc : c.Of found text) :
    c.before = (found.rawLines text).take c.before.length ∧
      c.before.length < (found.rawLines text).length := by
  obtain ⟨after, hafter⟩ := hc.raw
  rw [← hafter, List.append_assoc, List.take_left, List.length_append]
  refine ⟨rfl, Nat.lt_add_of_pos_right ?_⟩
  rw [List.length_append]
  exact Nat.lt_add_right _ Nat.one_pos

/-- What is kept of them are the first lines of what is kept. -/
theorem CopiedByte.Of.keptBefore_eq (hc : c.Of found text) :
    c.keptBefore = found.keptLines.take c.before.length := by
  obtain ⟨after, hafter⟩ := hc.kept
  rw [← hafter, ← hc.length, List.append_assoc, List.take_left]

/-- The lines before a copied byte, and what they lack, are what was kept of them and a margin for
each. -/
theorem CopiedByte.Of.length_before (hc : c.Of found text)
    (hshaped : Shaped ending (found.rawLines text) found.keptLines) :
    c.before.flatten.length + lacking ending.margin c.before
      = c.keptBefore.flatten.length + c.before.length * ending.margin := by
  obtain ⟨hbefore, hlt⟩ := hc.before_eq
  have hlength := hshaped.length_take hlt
  rwa [← hbefore, ← hc.keptBefore_eq] at hlength

/-! ## Order -/

/-- What a line further up was copied from stands before the lines above a line further down. -/
theorem CopiedByte.Of.prefix_before (hc : c.Of found text) (hd : d.Of found text)
    (h : c.before.length < d.before.length) :
    c.before ++ [c.raw] <+: d.before ∧ c.keptBefore ++ [c.kept] <+: d.keptBefore := by
  constructor
  · refine List.prefix_of_prefix_length_le hc.raw ((List.prefix_append _ _).trans hd.raw) ?_
    rwa [List.length_append]
  · refine List.prefix_of_prefix_length_le hc.kept ((List.prefix_append _ _).trans hd.kept) ?_
    rwa [List.length_append, hc.length, hd.length]

/-- A line and those before it fit into the lines that they begin. -/
theorem byteLength_flatten_le {before lines : List (List Char)} (h : before ++ [line] <+: lines) :
    byteLength before.flatten + byteLength line ≤ byteLength lines.flatten := by
  obtain ⟨after, rfl⟩ := h
  rw [List.flatten_append, List.flatten_append, List.flatten_singleton, byteLength_append,
    byteLength_append]
  exact Nat.le_add_right _ _

/-- A copied byte lies in the body. -/
theorem CopiedByte.Of.inBody_lt (hc : c.Of found text) :
    c.inBody < byteLength found.keptLines.flatten := by
  have hle := byteLength_flatten_le hc.kept
  have hoffset := hc.offset
  rw [CopiedByte.inBody]
  omega

/-- Copies that follow one another stand on lines that do. -/
theorem CopiedByte.Of.length_le (hc : c.Of found text) (hd : d.Of found text)
    (h : c.inBody ≤ d.inBody) : c.before.length ≤ d.before.length := by
  refine Nat.le_of_not_lt fun hlt => ?_
  have hle := byteLength_flatten_le (hd.prefix_before hc hlt).2
  have hoffset := hd.offset
  rw [CopiedByte.inBody, CopiedByte.inBody] at h
  omega

/-- And so do the bytes that they were copied from. -/
theorem CopiedByte.Of.inText_le (hc : c.Of found text) (hd : d.Of found text)
    (h : c.inBody ≤ d.inBody) : c.inText found ≤ d.inText found := by
  rw [CopiedByte.inText, CopiedByte.inText]
  rcases Nat.lt_or_eq_of_le (hc.length_le hd h) with hlt | heq
  · have hle := byteLength_flatten_le (hc.prefix_before hd hlt).1
    have hlt := hc.lt
    omega
  · -- both stand on one line
    have hbefore : c.before = d.before := by
      rw [hc.before_eq.1, hd.before_eq.1, heq]
    have hkeptBefore : c.keptBefore = d.keptBefore := by
      rw [hc.keptBefore_eq, hd.keptBefore_eq, heq]
    have hraw : c.raw = d.raw := by
      have hsame : c.before ++ [c.raw] = d.before ++ [d.raw] := by
        refine (List.prefix_of_prefix_length_le hc.raw hd.raw ?_).eq_of_length ?_
        · rw [List.length_append, List.length_append, heq]
          exact Nat.le_refl _
        · rw [List.length_append, List.length_append, heq]
          rfl
      rw [hbefore] at hsame
      exact List.singleton_inj.1 (List.append_cancel_left hsame)
    rw [CopiedByte.inBody, CopiedByte.inBody, hkeptBefore] at h
    rw [hbefore, hraw]
    omega

/-! ## Indices -/

/-- From one index of an excerpt to a later one, it is the length between them. -/
theorem charOffset_add_charLength {e : Excerpt} (hbody : e.body = .ofText text file) (h : o ≤ p)
    (hp : p ≤ byteLength text) : e.charOffset o + e.charLength o p = e.charOffset p := by
  have hchars : charsBefore text o ≤ charsBefore text p := Text.charsBefore_mono h
  have hlines : lineAt text o ≤ lineAt text p := Text.lineAt_mono h
  have hpos : 1 ≤ lineAt text o := Nat.le_add_right 1 _
  -- the lines up to the later one are those up to the earlier one and those between
  have hmargins : (lineAt text o - 1) * e.margin + (lineAt text p - lineAt text o) * e.margin
      = (lineAt text p - 1) * e.margin := by
    rw [← Nat.add_mul]
    congr 1
    omega
  rw [Excerpt.charOffset, Excerpt.charOffset, Excerpt.charLength, hbody, Text.line_ofText,
    Text.line_ofText, Text.charLength_ofText file h hp,
      Text.charOffset_ofText file (Nat.le_trans h hp),
    Text.charOffset_ofText file hp, ← Text.charsBefore_sub h, ← hmargins]
  omega

section

variable (hc : c.Of found s.text) (hread : found.ReadFrom s lines line ending) (hsound : s.Sound)
  (hat : s.At ('@' :: '(' :: cs))

include hc hread hsound hat

/-- The index of a copied byte is that of the byte it was copied from, but for what the lines above
lack and for the margin of the line itself. -/
theorem CopiedByte.Of.charOffset_eq (hsource : s.source = .document (.ofText s.text file)) :
    found.body.excerpt.charOffset c.inBody + (margin found.body.excerpt.margin c.raw).length
      = charsBefore s.text (c.inText found) + lacking found.body.excerpt.margin c.before := by
  obtain ⟨front, more, hstands⟩ := hread.stands hsound hat
  have hshaped := hread.keptLines_shaped
  obtain ⟨rest, htext⟩ := hc.text_eq hstands
  obtain ⟨more', hkept⟩ := hc.body_eq
  have hstart : s.source.charOffset found.bodyStart = front.length := by
    have hle : byteLength front ≤ byteLength s.text := by
      rw [hstands.split, byteLength_append]
      exact Nat.le_add_right _ _
    rw [hsource, hstands.start]
    refine (Text.charOffset_ofText file hle).trans ?_
    rw [hstands.split, Text.charsBefore_byteLength]
  have hbody : charsBefore found.keptLines.flatten c.inBody
      = c.keptBefore.flatten.length + charsBefore c.kept c.offset := by
    rw [hkept, List.append_assoc, CopiedByte.inBody, Text.charsBefore_append,
      Text.charsBefore_append_left more' (Nat.le_of_lt hc.offset)]
  have hown : charsBefore s.text (c.inText found) = front.length + c.before.flatten.length
      + ((margin found.body.excerpt.margin c.raw).length + charsBefore c.kept c.offset) := by
    rw [htext, CopiedByte.inText, hstands.start, ← byteLength_append, List.append_assoc _ c.raw,
      Text.charsBefore_append, Text.charsBefore_append_left rest (Nat.le_of_lt hc.lt),
      hc.charsBefore_raw, List.length_append]
  -- a locator adds one margin for each line before, whether or not the line had it
  have hindex : found.body.excerpt.charOffset c.inBody
      = charsBefore found.keptLines.flatten c.inBody + c.before.length * ending.margin
        + front.length := by
    rw [hread.excerpt_eq, ← hstart]
    show (Document.ofText _ _).charOffset c.inBody
      + ((Document.ofText _ _).line c.inBody - 1) * ending.margin + _ = _
    rw [Text.charOffset_ofText _ (Nat.le_of_lt hc.inBody_lt), Text.line_ofText,
      hc.lineAt_inBody hstands hshaped, Nat.add_sub_cancel_left]
    rfl
  have hbefore := hc.length_before (hstands.raw.symm ▸ hshaped)
  rw [← hread.margin_eq] at hbefore hindex
  omega

/-- The index of a copied byte on a line with all of the margin falls short of that of the byte that
it was copied from by the margin of the line, but for what the lines above lack. -/
theorem CopiedByte.Of.charOffset_add_margin
    (hsource : s.source = .document (.ofText s.text file)) (hindented : found.Indented c.raw) :
    found.body.excerpt.charOffset c.inBody + found.body.excerpt.margin
      = charsBefore s.text (c.inText found) + lacking found.body.excerpt.margin c.before := by
  have hoffset := hc.charOffset_eq hread hsound hat hsource
  rwa [length_margin hindented] at hoffset

/-- The number of characters from one copied byte to a later one is that of the text, but for what
the lines from the one to the other lack. -/
theorem CopiedByte.Of.charLength_eq (hd : d.Of found s.text)
    (hsource : s.source = .document (.ofText s.text file)) (hindented : found.Indented c.raw)
    (hindented' : found.Indented d.raw) (h : c.inBody ≤ d.inBody) :
    found.body.excerpt.charLength c.inBody d.inBody
      = charsBetween s.text (c.inText found) (d.inText found)
        + lacking found.body.excerpt.margin (d.before.drop c.before.length) := by
  have hoffset := hc.charOffset_add_margin hread hsound hat hsource hindented
  have hoffset' := hd.charOffset_add_margin hread hsound hat hsource hindented'
  have hle := hc.length_le hd h
  -- the lines above the one are the first of those above the other
  have hlacking : lacking found.body.excerpt.margin d.before
      = lacking found.body.excerpt.margin c.before
        + lacking found.body.excerpt.margin (d.before.drop c.before.length) := by
    have htake : d.before.take c.before.length = c.before := by
      rw [hd.before_eq.1, List.take_take, Nat.min_eq_left hle, ← hc.before_eq.1]
    rw [← lacking_append, ← htake, List.length_take, Nat.min_eq_left hle, List.take_append_drop]
  have hmono : charsBefore s.text (c.inText found) ≤ charsBefore s.text (d.inText found) :=
    Text.charsBefore_mono (hc.inText_le hd h)
  have hlength := charOffset_add_charLength (congrArg Excerpt.body hread.excerpt_eq) h
    (Nat.le_of_lt hd.inBody_lt)
  rw [← Text.charsBefore_sub (hc.inText_le hd h)]
  omega

end

/-! ## Here-docs of a text -/

/-- Every byte of the body of a here-doc of a text comes from a byte of the text. On a line that has
all of the margin, its index falls short of that of the byte it comes from by the margin of the
line, but for what the lines above lack: the two are the same just when the lines above lack as much
as that. The length between two such bytes is that of the text, but for what the lines between lack:
the two are the same just when these lines all have the margin. -/
theorem lifted_charOffset {options : Options} {origin : Nat → Nat → Prop}
    (h : Lifted (.start options (.document (.ofText text file)) text) 0 found origin) :
    (∀ o, o < byteLength found.body.excerpt.body.text →
      ∃ c : CopiedByte, c.Of found text ∧ o = c.inBody ∧ origin o (c.inText found)) ∧
    (∀ c : CopiedByte, c.Of found text → found.Indented c.raw →
      found.body.excerpt.charOffset c.inBody + found.body.excerpt.margin
          = (Document.ofText text file).charOffset (c.inText found)
            + lacking found.body.excerpt.margin c.before ∧
        (found.body.excerpt.charOffset c.inBody
            = (Document.ofText text file).charOffset (c.inText found) ↔
          lacking found.body.excerpt.margin c.before = found.body.excerpt.margin)) ∧
    ∀ c d : CopiedByte, c.Of found text → d.Of found text → found.Indented c.raw →
      found.Indented d.raw → c.inBody ≤ d.inBody →
        found.body.excerpt.charLength c.inBody d.inBody
            = charsBetween text (c.inText found) (d.inText found)
              + lacking found.body.excerpt.margin (d.before.drop c.before.length) ∧
          (found.body.excerpt.charLength c.inBody d.inBody
              = charsBetween text (c.inText found) (d.inText found) ↔
            ∀ line ∈ d.before.drop c.before.length, found.Indented line) := by
  have hsound : State.Sound (.start options (.document (.ofText text file)) text) :=
    State.sound_start _ rfl rfl
  cases h with
  | direct hpath hopening hfound =>
      obtain ⟨hlasts, ⟨cs, hat⟩, lines, line, ending, hread⟩ :=
        hpath.exists_readFrom hsound hopening hfound
      have htext : _ = text := hlasts.text
      subst htext
      have hsource := hlasts.source
      refine ⟨fun o ho => ?_, fun c hc hindented => ?_,
        fun c d hc hd hindented hindented' hle => ?_⟩
      · obtain ⟨c, hc, rfl⟩ := hread.exists_copied hlasts.sound hat ho
        exact ⟨c, hc, rfl, c, hc, rfl, rfl⟩
      · obtain ⟨front, more, hstands⟩ := hread.stands hlasts.sound hat
        rw [Text.charOffset_ofText file (Nat.le_of_lt (hc.inText_lt hstands))]
        have hoffset := hc.charOffset_add_margin hread hlasts.sound hat hsource hindented
        exact ⟨hoffset, by omega⟩
      · have hlength := hc.charLength_eq hread hlasts.sound hat hd hsource hindented hindented' hle
        rw [hlength]
        exact ⟨rfl, Nat.add_eq_left.trans lacking_eq_zero_iff⟩

/-- A here-doc with which a text begins is one of the text. -/
theorem exists_direct (s₀ : State) (P : OpenHereDoc → Prop) [DecidablePred P]
    (hopening : opening? s₀.template.isSome s₀.rest = some .hereDoc)
    (h : (outcome? takeHereDoc s₀).map (fun r => decide (P r.1)) = some true) :
    ∃ found : OpenHereDoc, Lifted s₀ 0 found (found.Copies s₀.text) ∧ P found := by
  obtain ⟨r, hfound, hP⟩ := Option.map_eq_some_iff.1 h
  exact ⟨r.1, .direct (.nil s₀) hopening (outcome?_eq_some.1 hfound), of_decide_eq_true hP⟩

/-- A here-doc with a margin of two, whose second line is empty. -/
def gappedText : List Char :=
  ['@', '(', 'A', ')', '\n', ' ', ' ', 'x', '\n', '\n', ' ', ' ', 'z', '\n', ' ', ' ', '|', 'A',
    '\n']

/-- The first letter of its body, and the last one. -/
def gappedFirst : CopiedByte := ⟨[], [' ', ' ', 'x', '\n'], [], ['x', '\n'], 0⟩

def gappedLast : CopiedByte :=
  ⟨[[' ', ' ', 'x', '\n'], ['\n']], [' ', ' ', 'z', '\n'], [['x', '\n'], ['\n']], ['z', '\n'], 0⟩

/-- The margin that the first line loses is missing from its offset; the empty line, which has none
to lose, makes up for that. -/
theorem lifted_charOffset_gapped : ∃ found : OpenHereDoc,
    Lifted (.start .standard (.document (.ofText gappedText "")) gappedText) 0 found
        (found.Copies gappedText) ∧
      (gappedFirst.Of found gappedText ∧ gappedLast.Of found gappedText ∧
        found.Indented gappedFirst.raw ∧ found.Indented gappedLast.raw) ∧
      found.body.excerpt.charOffset gappedFirst.inBody
        ≠ (Document.ofText gappedText "").charOffset (gappedFirst.inText found) ∧
      found.body.excerpt.charOffset gappedLast.inBody
        = (Document.ofText gappedText "").charOffset (gappedLast.inText found) ∧
      found.body.excerpt.charLength gappedFirst.inBody gappedLast.inBody
        ≠ charsBetween gappedText (gappedFirst.inText found) (gappedLast.inText found) := by
  obtain ⟨found, hlifted, hmargin, hfirst, hlast, hindented, hindented'⟩ :=
    exists_direct (.start .standard (.document (.ofText gappedText "")) gappedText)
      (fun found => found.body.excerpt.margin = 2 ∧ gappedFirst.Of found gappedText ∧
        gappedLast.Of found gappedText ∧ found.Indented gappedFirst.raw ∧
        found.Indented gappedLast.raw) (by decide +kernel) (by decide +kernel)
  obtain ⟨-, hoffset, hlength⟩ := lifted_charOffset hlifted
  refine ⟨found, hlifted, ⟨hfirst, hlast, hindented, hindented'⟩, ?_, ?_, ?_⟩
  · rw [Ne, (hoffset _ hfirst hindented).2, hmargin]
    decide
  · rw [(hoffset _ hlast hindented').2, hmargin]
    decide
  · rw [Ne, (hlength _ _ hfirst hlast hindented hindented' (by decide)).2]
    simp only [OpenHereDoc.Indented, hmargin]
    decide

/-- A here-doc with a margin of two and a single line. -/
def shiftedText : List Char :=
  ['@', '(', 'A', ':', 't', 'x', 't', ')', '\n', ' ', ' ', 'x', 'y', '\n', ' ', ' ', '|', '-', 'A',
    '\n']

/-- Its line has all of the margin, and no line stands above: the index of the first letter is that
of the blank with which its line begins. -/
theorem charOffset_shifted : ∃ found : OpenHereDoc,
    Lifted (.start .standard (.document (.ofText shiftedText "t.pp")) shiftedText) 0 found
        (found.Copies shiftedText) ∧
      ∃ c : CopiedByte, c.Of found shiftedText ∧ found.Indented c.raw ∧ c.inText found = 11 ∧
        found.body.excerpt.charOffset c.inBody = 9 ∧
        (Document.ofText shiftedText "t.pp").charOffset (c.inText found) = 11 := by
  obtain ⟨found, hlifted, hc⟩ :=
    exists_direct (.start .standard (.document (.ofText shiftedText "t.pp")) shiftedText)
      (fun found =>
        let c : CopiedByte := ⟨[], [' ', ' ', 'x', 'y', '\n'], [], ['x', 'y'], 0⟩
        c.Of found shiftedText ∧ found.Indented c.raw ∧ c.inText found = 11 ∧
          found.body.excerpt.charOffset c.inBody = 9 ∧
          (Document.ofText shiftedText "t.pp").charOffset (c.inText found) = 11)
      (by decide +kernel) (by decide +kernel)
  exact ⟨found, hlifted, _, hc⟩

end Manifest.Scan
