import Manifest.Proofs.HereDoc.Lines
import Manifest.Proofs.Scan.Path

/-!
# Here-docs of one line

The bodies of the here-docs that are introduced on one line follow one another from the next line
on, each with its end line, and scanning goes on behind the last one.

* `Parts`, `Parts.Occupies` — a here-doc with its tokens, and the text that its body takes up.
* `Stacked` — here-docs whose bodies follow one another.
* `Move.parts` — every here-doc that is scanned has its body where `bodyStart?` puts it.
* `hereDocs_partition` — the here-docs between two line feeds.
-/

namespace Manifest.Scan

open HereDoc (EndLine Header Shaped dropFeed linesOf)
open Text (Boundary Range byteLength byteLength_append slice)

variable {s s₀ s₁ s' : State} {ts : List Token} {docs : List (List Token)} {found : OpenHereDoc}
  {raw : List (List Char)} {line : List Char} {ending : EndLine} {start stop next : Nat}

/-- A here-doc: its introducer and what that spells, the lines of its body, its end line and what
that asks for, and its tokens. -/
structure Parts where
  introducer : Token
  spelling : List Char
  header : Header
  raw : List (List Char)
  endLine : List Char
  ending : EndLine
  sublocate : Token
  body : Token.Body
  content : List Token

/-- The tokens of a here-doc. -/
def Parts.tokens (p : Parts) : List Token := p.introducer :: p.sublocate :: p.content

/-- The body of a here-doc and its end line take up the text between two offsets. -/
structure Parts.Occupies (p : Parts) (text : List Char) (start stop : Nat) : Prop where
  introducer : p.introducer.kind = .hereDoc
  spelling : slice text p.introducer.range.start p.introducer.range.stop
    = '@' :: '(' :: p.spelling ++ [')']
  header : Header.parse p.spelling = .ok p.header
  /-- the body and the end line are the first lines from the offset on -/
  lines : ∃ front rest more, text = front ++ rest ∧ start = byteLength front ∧
    linesOf rest = p.raw ++ p.endLine :: more
  stop : stop = start + byteLength p.raw.flatten + byteLength p.endLine
  /-- the end line is the first one of the tag -/
  endLine : EndLine.ofLine? (dropFeed p.endLine) p.header.tag = some p.ending
  spells : p.ending.Spells p.header.tag (dropFeed p.endLine)
  body_lines : ∀ other ∈ p.raw, EndLine.ofLine? (dropFeed other) p.header.tag = none
  sublocate : p.sublocate.kind = .hereDocBody
  range : p.sublocate.range = ⟨start, start + byteLength p.raw.flatten⟩
  value : p.sublocate.value = .body p.body
  shaped : Shaped p.ending p.raw (p.body.lines.map String.toList)
  /-- without escapes and interpolation, the text of the here-doc is what is kept of its lines -/
  content : p.header.escapes = .none → p.header.interpolates = false →
    ∃ t, p.content = [t] ∧ t.kind = .string ∧ t.value = .text (String.join p.body.lines)

/-- Here-docs whose bodies follow one another, each with its end line. -/
inductive Stacked (text : List Char) : Nat → List Parts → Nat → Prop
  | nil (offset : Nat) : Stacked text offset [] offset
  | cons {start next stop : Nat} {p : Parts} {ps : List Parts} (hfirst : p.Occupies text start next)
      (hrest : Stacked text next ps stop) : Stacked text start (p :: ps) stop

/-! ## One here-doc -/

/-- Joined lines are the text that they make up. -/
theorem join_map_ofList (lines : List (List Char)) :
    String.join (lines.map String.ofList) = String.ofList lines.flatten := by
  refine String.toList_injective ?_
  rw [String.toList_join, List.flatMap_map, String.toList_ofList, ← List.flatMap_id']
  refine List.flatMap_congr ?_
  intro line _
  exact String.toList_ofList

/-- The header of a here-doc, from its opening to the parenthesis that closes it. -/
theorem slice_header {cs spelling rest : List Char} (hat : s.At ('@' :: '(' :: cs))
    (hrest : s.rest.drop 2 = spelling ++ ')' :: rest) :
    slice s.text s.pos (s.pos + 3 + byteLength spelling) = '@' :: '(' :: spelling ++ [')'] := by
  rw [hat.rest] at hrest
  obtain rfl : cs = spelling ++ ')' :: rest := hrest
  obtain ⟨front, htext, hpos⟩ := hat
  have hlength : s.pos + 3 + byteLength spelling
      = byteLength front + byteLength ('@' :: '(' :: spelling ++ [')']) := by
    rw [hpos, byteLength_append]
    show byteLength front + 3 + byteLength spelling
      = byteLength front + (1 + (1 + byteLength spelling) + 1)
    omega
  have hsplit : s.text = front ++ ('@' :: '(' :: spelling ++ [')']) ++ rest := by
    rw [htext]
    simp only [List.append_assoc, List.cons_append, List.nil_append]
  rw [hlength, hsplit, hpos, Text.slice_byteLength]

/-- A body in which nothing has a meaning of its own is one string. -/
theorem content_of_plain {tokens : List Token} {done : State}
    (hread : found.ReadFrom s raw line ending)
    (hbody : Runs (.fragments (found.quoting s) 0 true []) (found.bodyState s) tokens done)
    (hescapes : found.header.escapes = .none) (hinterpolates : found.header.interpolates = false) :
    ∃ t, tokens = [t] ∧ t.kind = .string ∧ t.value = .text (String.join found.body.lines) := by
  have hquoting : found.quoting s = ⟨.whole, .none, false, 0⟩ := by
    rw [OpenHereDoc.quoting, OpenHereDoc.bodyState, hescapes, hinterpolates]
    rfl
  rw [hquoting] at hbody
  -- all of the body is one run, and its end stops that
  have hrun : ∀ {run s₁}, takeRun ⟨.whole, .none, false, 0⟩ (found.bodyState s) = .ok run s₁ →
      run.text = found.body.excerpt.body.text ∧ run.stop = .endOfText := by
    intro run s₁ h
    obtain ⟨hcollect, -⟩ := takeRun_ok h
    rw [Quote.collect_whole] at hcollect
    obtain rfl := Except.ok.inj hcollect
    exact ⟨Text.dropBytes_byteLength [] _, rfl⟩
  cases hbody with
  | last h hstop =>
      refine ⟨_, rfl, rfl, ?_⟩
      show Token.Value.text (String.ofList ([] ++ _)) = _
      rw [(hrun h).1, hread.body, join_map_ofList]
      rfl
  | braces h hstop => exact nomatch (hrun h).2.symm.trans hstop
  | reference h hstop => exact nomatch (hrun h).2.symm.trans hstop
  | dollar h hstop => exact nomatch (hrun h).2.symm.trans hstop

/-- Every here-doc that is scanned takes up the text from where its body begins. -/
theorem Move.parts (h : Move s (some (.hereDoc ts)) s') (hsound : s.Sound) :
    ∃ (p : Parts) (start stop : Nat), ts = p.tokens ∧ p.Occupies s.text start stop ∧
      s'.resume = some stop ∧
      bodyStart? s p.introducer.range.stop = some start ∧
      Boundary s.text p.introducer.range.stop := by
  obtain ⟨found, s₁, tokens, done, cs, hat, hfound, rfl, hbody, -, -, hresume⟩ :=
    h.hereDoc_spec hsound
  obtain ⟨⟨raw, line, ending, hread⟩, -⟩ := takeHereDoc_read hfound
  obtain ⟨hnext, hle⟩ := hread.next_boundary hat
  obtain ⟨spelling, rest, hrest, hparse, hspelling⟩ := hread.header
  obtain ⟨front, more, htext, hstart, hlines⟩ := hread.exists_split hsound hat
  have hstop : max found.next s.pos = found.next := Nat.max_eq_left (by omega)
  have hend : max found.endLine found.bodyStart = found.bodyStart + byteLength raw.flatten := by
    rw [hread.endLine]
    exact Nat.max_eq_left (Nat.le_add_right _ _)
  refine ⟨⟨s.textToken .hereDoc found.header.format s.pos found.next, spelling, found.header, raw,
    line, ending, s.token .hereDocBody (.body found.body) found.bodyStart found.endLine, found.body,
    tokens⟩, found.bodyStart, found.bodyStop, rfl, ?_, hresume, ?_, ?_⟩
  · refine ⟨rfl, ?_, hparse, ⟨front, _, more, htext, hstart, hlines⟩, ?_, hread.end_line,
      HereDoc.ofLine?_spells hread.end_line, hread.body_lines, rfl, ?_, rfl, ?_,
        content_of_plain hread hbody⟩
    · show slice s.text s.pos (max found.next s.pos) = _
      rw [hstop, hspelling]
      exact slice_header hat hrest
    · rw [hread.bodyStop, hread.endLine]
    · show (⟨found.bodyStart, max found.endLine found.bodyStart⟩ : Range) = _
      rw [hend]
    · rw [hread.lines_eq]
      exact HereDoc.shapeBody_shaped ending raw
  · show bodyStart? s (max found.next s.pos) = _
    rw [hstop]
    exact hread.start
  · show Boundary s.text (max found.next s.pos)
    rw [hstop]
    exact hnext

/-! ## Here-docs of one line -/

/-- Once a body was read, the bodies of further here-docs stand behind it. -/
theorem Path.stacked {r : Nat} (h : Path s (docs.map .hereDoc) s') (hsound : s.Sound)
    (hresume : s.resume = some r) :
    ∃ (ps : List Parts) (stop : Nat), docs = ps.map Parts.tokens ∧ Stacked s.text r ps stop ∧
      s'.resume = some stop := by
  induction docs generalizing s r with
  | nil =>
      have hsteady := h.steady hsound
      exact ⟨[], r, rfl, .nil r, hsteady.resume.trans hresume⟩
  | cons ts docs ih =>
      obtain ⟨s₁, s₂, hfront, hmove, hback⟩ := Path.uncons h
      have hsteady := hfront.steady hsound
      obtain ⟨p, start, stop, rfl, hoccupies, hresume₂, hstart, -⟩ := hmove.parts hsteady.sound
      obtain rfl := eq_of_bodyStart? (hsteady.resume.trans hresume) hstart
      have hlasts := hmove.lasts hsteady.sound
      obtain ⟨ps, stop', rfl, hstacked, hresume'⟩ := ih hback hlasts.sound hresume₂
      rw [hlasts.text] at hstacked
      rw [hsteady.text] at hstacked hoccupies
      exact ⟨p :: ps, stop', rfl, .cons hoccupies hstacked, hresume'⟩

/-- A line feed that was reached in code leaves no body behind. -/
theorem Path.resume_eq_none {before : List Event} (h : Path s₀ before s) (hsound : s₀.Sound)
    (hresume : s₀.resume = none) (hbefore : ∀ e ∈ before.getLast?, e = .newline) :
    s.resume = none := by
  rcases List.eq_nil_or_concat' before with rfl | ⟨es, e, rfl⟩
  · exact (h.steady hsound).resume.trans hresume
  · obtain rfl : e = .newline := hbefore e (by rw [List.getLast?_concat]; rfl)
    obtain ⟨s₁, hfront, hback⟩ := h.cut
    obtain ⟨s₂, s₃, hsilent, hmove, hrest⟩ := hback.uncons
    have hsound₂ := (hsilent.lasts (hfront.lasts hsound).sound).sound
    have hsteady := hrest.steady (hmove.lasts hsound₂).sound
    rw [hsteady.resume, hmove.newline_eq]

/-- The here-docs between two line feeds that were reached in code, or between the start of the
text and the first one: their bodies begin on the line after the first introducer, follow one
another, each with its end line, and scanning goes on behind the last one. -/
theorem hereDocs_partition {before : List Event} (hpos : s₀.pos = 0) (hresume : s₀.resume = none)
    (hbefore : ∀ e ∈ before.getLast?, e = .newline) (hdocs : docs ≠ [])
    (hpath : Path s₀ (before ++ docs.map .hereDoc) s₁) (hnewline : Move s₁ (some .newline) s') :
    ∃ (p : Parts) (ps : List Parts) (start : Nat), docs = (p :: ps).map Parts.tokens ∧
      NextLine s₀.text p.introducer.range.stop start ∧ Stacked s₀.text start (p :: ps) s'.pos ∧
      s'.lineStart = s'.pos ∧ s'.resume = none := by
  have hsound₀ := s₀.sound_start hpos hresume
  obtain ⟨s, hfront, hline⟩ := hpath.cut
  have hlasts := hfront.lasts hsound₀
  obtain ⟨ts, docs, rfl⟩ := List.exists_cons_of_ne_nil hdocs
  obtain ⟨s₂, s₃, hsilent, hmove, hback⟩ := Path.uncons hline
  have hsteady := hsilent.steady hlasts.sound
  have htext : s₂.text = s₀.text := hsteady.text.trans hlasts.text
  obtain ⟨p, start, next, rfl, hoccupies, hresume₃, hstart, hnext⟩ := hmove.parts hsteady.sound
  -- the first body begins on the next line, and the others behind it
  have hnone := hsteady.resume.trans (hfront.resume_eq_none hsound₀ hresume hbefore)
  have hfirst := nextLine_of_bodyStart? hnone hnext hstart
  have hlasts₃ := hmove.lasts hsteady.sound
  obtain ⟨ps, stop, rfl, hstacked, hresume₁⟩ := hback.stacked hlasts₃.sound hresume₃
  rw [hlasts₃.text] at hstacked
  rw [htext] at hstacked hoccupies hfirst
  obtain rfl := hnewline.newline_eq
  rw [hresume₁]
  exact ⟨p, ps, start, rfl, hfirst, .cons hoccupies hstacked, rfl, rfl⟩

/-! Two here-docs on a line, the second one with a margin and a minus sign before its tag. -/

/-- A step over a here-doc is a move. -/
theorem Move.of_step {fuel : Nat} (h : step (fuel + 1) s = .ok ts s')
    (ho : opening? s.template.isSome s.rest = some .hereDoc) : Move s (some (.hereDoc ts)) s' := by
  rw [step_hereDoc ho] at h
  exact .hereDoc ho (runs_of_run (show Task.hereDoc.run fuel s = .ok ts s' from h))

theorem Move.of_step_newline {fuel : Nat} (h : step (fuel + 1) s = .ok ts s')
    (ho : opening? s.template.isSome s.rest = some .newline) : Move s (some .newline) s' := by
  rw [step_plain ho nofun nofun] at h
  exact .newline ho h

/-- What begins at the cursor, for some steps, and where the last one of them ends. -/
def openings : Nat → State → List (Option Opening) × Nat
  | 0, s => ([], s.pos)
  | n + 1, s =>
      match step 9 s with
      | .ok _ s' => (opening? s.template.isSome s.rest :: (openings n s').1, (openings n s').2)
      | .error _ s' => ([], s'.pos)

/-- The steps that lead over a here-doc or a line feed. -/
theorem openings_succ {n : Nat} {o : Opening} {os : List (Option Opening)} {stop : Nat}
    (h : openings (n + 1) s = (some o :: os, stop)) :
    ∃ ts s', step 9 s = .ok ts s' ∧ opening? s.template.isSome s.rest = some o ∧
      openings n s' = (os, stop) := by
  rw [openings] at h
  split at h
  next ts s' hstep =>
    obtain ⟨hos, hstop⟩ := Prod.mk.inj h
    obtain ⟨ho, hos⟩ := List.cons.inj hos
    exact ⟨ts, s', hstep, ho, Prod.ext hos hstop⟩
  next => exact nomatch h

/-- Two here-docs on a line, the second one with a margin and without its last line break. -/
def pairText : List Char :=
  ['@', '(', 'A', ')', '@', '(', 'B', ')', '\n', 'a', '\n', 'A', '\n', ' ', 'b', '\n',
    ' ', '|', '-', 'B', '\n']

/-- Two here-docs are opened on one line. -/
theorem hereDocs_partition_pair :
    ∃ (docs : List (List Token)) (s₁ s' : State) (p : Parts) (ps : List Parts) (start : Nat),
      docs.length = 2 ∧
        Path (.start .standard (.document (.ofText pairText "")) pairText) (docs.map .hereDoc) s₁ ∧
        Move s₁ (some .newline) s' ∧ s'.pos = 21 ∧ docs = (p :: ps).map Parts.tokens ∧
        NextLine pairText p.introducer.range.stop start ∧
        Stacked pairText start (p :: ps) s'.pos ∧ s'.lineStart = s'.pos ∧ s'.resume = none := by
  have hscan : openings 3 (.start .standard (.document (.ofText pairText "")) pairText)
      = ([some .hereDoc, some .hereDoc, some .newline], 21) := by decide +kernel
  obtain ⟨ts, s₁, hfirst, hopening, hscan⟩ := openings_succ hscan
  obtain ⟨us, s₂, hsecond, hopening₁, hscan⟩ := openings_succ hscan
  obtain ⟨_, s', hnewline, hopening₂, hscan⟩ := openings_succ hscan
  have hpath : Path _ ([] ++ [ts, us].map .hereDoc) s₂ :=
    .event (.of_step hfirst hopening) (.event (.of_step hsecond hopening₁) (.nil s₂))
  have hmove := Move.of_step_newline hnewline hopening₂
  have hbefore : ∀ e ∈ ([] : List Event).getLast?, e = .newline := nofun
  obtain ⟨p, ps, start, hpartition⟩ :=
    hereDocs_partition rfl rfl hbefore (List.cons_ne_nil ts [us]) hpath hmove
  exact ⟨[ts, us], s₂, s', p, ps, start, rfl, hpath, hmove, (Prod.mk.inj hscan).2, hpartition⟩

end Manifest.Scan
