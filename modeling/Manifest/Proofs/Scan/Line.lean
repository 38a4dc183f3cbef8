import Manifest.Proofs.Scan.Lookback
import Manifest.Proofs.Scan.Origin
import Manifest.Proofs.Scan.Slash

/-!
# The line of the cursor

A scan notes where a line begins only at the line feeds that it reaches in code. Others pass in
strings, comments, headers of here-docs and template text. What the scan has noted is the start of
an earlier line then, but all of these end with something that is not white space, so that it makes
no difference to what stands on the line of the cursor.

* `Marked` — text that leaves something on the line on which it ends.
* `takePlain_crosses`, `Move.crosses` — what the cursor moves over is marked.
* `Path.placed` — from the start of the line that was noted to the cursor stands such text.
-/

namespace Manifest.Scan

open Text (LineStart StartsLine byteLength byteLength_append)
open Token (Mark)

variable {s s' s₁ : State} {cs ds es rest : List Char} {ts : List Token} {c : Char} {m : Mark}
  {o : Opening} {events : List Event}

/-! ## Marked text -/

/-- Behind the last line feed of the text, if there is any, stands something that is not white
space. -/
def Marked (ds : List Char) : Prop := ∀ line, '\n' :: line <:+ ds → line.all isBlank = false

/-- A text without a line feed. -/
theorem marked_of_not_mem (h : '\n' ∉ ds) : Marked ds :=
  fun _ hline => absurd (hline.subset List.mem_cons_self) h

theorem marked_nil : Marked [] := marked_of_not_mem List.not_mem_nil

/-- A character that is not blank ends a marked text. -/
theorem marked_concat (hblank : isBlank c = false) (hfeed : c ≠ '\n') (ds : List Char) :
    Marked (ds ++ [c]) := by
  rintro line ⟨front, hfront⟩
  rcases List.eq_nil_or_concat' line with rfl | ⟨line, d, rfl⟩
  · have hlast := congrArg List.getLast? hfront
    rw [List.getLast?_concat, List.getLast?_concat] at hlast
    exact absurd (Option.some.inj hlast).symm hfeed
  · have hlast := congrArg List.getLast? hfront
    rw [← List.cons_append, ← List.append_assoc, List.getLast?_concat,
      List.getLast?_concat] at hlast
    rw [Option.some.inj hlast, List.all_append, List.all_cons, hblank, Bool.false_and,
      Bool.and_false]

/-- Marked texts in a row. -/
theorem Marked.append (h : Marked ds) (h' : Marked es) : Marked (ds ++ es) := by
  rintro line ⟨front, hfront⟩
  rcases List.append_eq_append_iff.1 hfront with ⟨more, hds, hline⟩ | ⟨more, -, hes⟩
  · cases more with
    | nil => exact h' line ⟨[], hline⟩
    | cons d more =>
        obtain rfl := (List.cons.inj hline).1
        have htail : line = more ++ es := (List.cons.inj hline).2
        rw [htail, List.all_append, h more ⟨front, hds.symm⟩, Bool.false_and]
  · exact h' line ⟨more, hes.symm⟩

/-- What stops a run is marked. -/
theorem stopsAt_marked {mode : Quote.Mode} {stop : Quote.Stop}
    (h : Quote.StopsAt mode stop ds rest) : Marked ds ∨ rest = [] := by
  cases h with
  | @quote body rest c h =>
      have hc : isBlank c = false ∧ c ≠ '\n' := by
        cases mode with
        | single => obtain rfl := Option.some.inj h; decide
        | double => obtain rfl := Option.some.inj h; decide
        | _ => exact nomatch h
      exact .inl (marked_concat hc.1 hc.2 body)
  | dollar body h hrest => exact .inl (marked_concat (by decide) (by decide) body)
  | dollarBrace body rest h =>
      rw [List.append_cons]
      exact .inl (marked_concat (by decide) (by decide) _)
  | endOfText body h => exact .inr rfl

/-! ## What rules move over -/

/-- The cursor moves over marked text, or to the end of the text, and keeps the line that was
noted. -/
structure State.Crosses (s : State) (cs : List Char) (s' : State) : Prop where
  text : s'.text = s.text
  lineStart : s'.lineStart = s.lineStart
  passes : ∃ ds rest, cs = ds ++ rest ∧ s'.pos = s.pos + byteLength ds ∧ (Marked ds ∨ rest = [])

/-- A marked text is crossed, wherever its line begins. -/
theorem crosses_over (ds rest : List Char) (hmarked : Marked ds) :
    s.Crosses (ds ++ rest) { s with pos := s.pos + byteLength ds } :=
  ⟨rfl, rfl, ds, rest, rfl, rfl, .inl hmarked⟩

/-- Nothing is crossed. -/
theorem State.crosses_nil (s : State) (cs : List Char) : s.Crosses cs s :=
  ⟨rfl, rfl, [], cs, rfl, rfl, .inl marked_nil⟩

/-- The longest part without line feeds. -/
theorem crosses_takeWhile {p : Char → Bool} (hp : p '\n' = false) (cs : List Char) :
    s.Crosses cs { s with pos := s.pos + byteLength (cs.takeWhile p) } := by
  have hcross := crosses_over (s := s) (cs.takeWhile p) (cs.dropWhile p)
    (marked_of_not_mem (Token.not_mem_takeWhile hp cs))
  rwa [List.takeWhile_append_dropWhile] at hcross

/-- No mark is spelled with a line feed. -/
theorem feed_not_mem_spelling (m : Mark) : '\n' ∉ m.spelling.toList := by
  cases m <;> decide

/-- A mark at the cursor; what is kept beside the cursor may have changed before. -/
theorem takeMark_crosses (hm : m.spelling.toList <+: cs) (h : takeMark m s₁ = .ok ts s')
    (hs₁ : s.Crosses [] s₁) : s.Crosses cs s' := by
  obtain ⟨-, rfl⟩ := EStateM.Result.ok.inj h
  obtain ⟨rest, rfl⟩ := hm
  obtain ⟨ds, rest', hnil, hpos, -⟩ := hs₁.passes
  obtain ⟨rfl, rfl⟩ := List.append_eq_nil_iff.1 hnil.symm
  refine ⟨hs₁.text, hs₁.lineStart, m.spelling.toList, rest, rfl, ?_, .inl ?_⟩
  · exact congrArg (· + byteLength m.spelling.toList) hpos
  · exact marked_of_not_mem (feed_not_mem_spelling m)

/-- A division or a regular expression stays on its line. -/
theorem takeSlash_crosses (hat : s.At ('/' :: cs)) (h : takeSlash s = .ok ts s') :
    s.Crosses ('/' :: cs) s' := by
  rw [takeSlash_eq hat] at h
  split at h
  next body hbody =>
    obtain ⟨-, rfl⟩ := EStateM.Result.ok.inj h
    obtain ⟨-, hregex⟩ := Option.ite_none_right_eq_some.1 hbody
    obtain ⟨rest, rfl⟩ := Token.regex?_spec hregex
    have hcross := crosses_over (s := s) ('/' :: body ++ ['/']) rest
      (marked_concat (by decide) (by decide) _)
    rw [byteLength_slashes, List.append_assoc] at hcross
    exact hcross
  next =>
    obtain ⟨-, rfl⟩ := EStateM.Result.ok.inj h
    exact crosses_over ['/'] cs (marked_of_not_mem (by decide))

/-- Text in single quotes ends with a quote, on whatever line. -/
theorem takeSingleQuoted_crosses (hat : s.At ('\'' :: cs)) (h : takeSingleQuoted s = .ok ts s') :
    s.Crosses ('\'' :: cs) s' := by
  obtain ⟨run, hrun, -, rfl⟩ := takeSingleQuoted_ok hat h
  obtain ⟨front, rest, rfl, hnext, hstop⟩ := Quote.collect_spec hrun
  have hquote : Marked ['\''] := marked_of_not_mem (by decide)
  refine ⟨rfl, rfl, '\'' :: front, rest, rfl, ?_, (stopsAt_marked hstop).imp_left hquote.append⟩
  show run.next = s.pos + (1 + byteLength front)
  rw [hnext, Nat.add_assoc]

/-- A comment ends with a slash, on whatever line. -/
theorem takeComment_crosses (hat : s.At ('/' :: '*' :: cs)) (h : takeComment s = .ok ts s') :
    s.Crosses ('/' :: '*' :: cs) s' := by
  obtain ⟨body, rest, rfl, -, -, rfl⟩ := takeComment_ok hat h
  have htext : '/' :: '*' :: (body ++ (['*', '/'] ++ rest))
      = '/' :: '*' :: body ++ ['*', '/'] ++ rest := by simp
  rw [htext]
  refine crosses_over _ rest ?_
  rw [List.append_cons]
  exact marked_concat (by decide) (by decide) _

theorem takeVariable_crosses (hat : s.At ('$' :: cs)) (h : takeVariable s = .ok ts s') :
    s.Crosses ('$' :: cs) s' := by
  rw [takeVariable, get_bind, hat.rest, List.drop_succ_cons, List.drop_zero] at h
  obtain ⟨-, rfl⟩ := EStateM.Result.ok.inj h
  have hname : (Token.variableName? cs).getD [] <+: cs ∧
      '\n' ∉ (Token.variableName? cs).getD [] := by
    cases hvariable : Token.variableName? cs with
    | none => exact ⟨List.nil_prefix, List.not_mem_nil⟩
    | some name =>
        have hbegins := (Token.variableName?_isPrefix hvariable).1
        exact ⟨hbegins, Token.feed_not_mem_variableName? hvariable⟩
  obtain ⟨⟨rest, hrest⟩, hline⟩ := hname
  generalize (Token.variableName? cs).getD [] = name at hrest hline
  rw [← hrest, ← List.cons_append]
  exact crosses_over ('$' :: name) rest
    (marked_of_not_mem (List.not_mem_cons_of_ne_of_not_mem (by decide) hline))

theorem takeNumber_crosses (hat : s.At cs) (h : takeNumber s = .ok ts s') : s.Crosses cs s' := by
  obtain ⟨-, h⟩ := takeNumber_ok hat h
  obtain ⟨-, rfl⟩ := EStateM.Result.ok.inj h
  obtain ⟨rest, hrest⟩ := Token.number_isPrefix cs
  have hcross := crosses_over (s := s) _ rest (marked_of_not_mem (Token.feed_not_mem_number cs))
  rwa [hrest] at hcross

theorem takeWord_crosses (hat : s.At cs) (h : takeWord s = .ok ts s') : s.Crosses cs s' := by
  obtain ⟨word, hword, -, rfl⟩ := takeWord_ok hat h
  obtain ⟨⟨rest, rfl⟩, -⟩ := Token.word?_isPrefix hword
  exact crosses_over word rest (marked_of_not_mem (Token.feed_not_mem_word? hword))

theorem takeReference_crosses {dangling : Manifest.Code} (hat : s.At cs)
    (h : takeReference dangling s = .ok ts s') : s.Crosses cs s' := by
  obtain ⟨name, hname, -, rfl⟩ := takeReference_ok hat h
  obtain ⟨⟨rest, rfl⟩, -⟩ := Token.reference?_isPrefix hname
  exact crosses_over name rest (marked_of_not_mem (Token.feed_not_mem_reference? hname))

/-- A stretch of template text ends behind the opening of a tag, or with the text. -/
theorem ReadsStretch.crosses {skipLeading : Bool} {found : Template.Stretch} (hat : s.At cs)
    (h : ReadsStretch s skipLeading found ts s') : s.Crosses cs s' := by
  have hstretch := h.stretch
  rw [hat.rest] at hstretch
  obtain ⟨front, rest, rfl, hnext, hend⟩ := Template.stretch_ends hstretch
  rw [h.state]
  refine ⟨rfl, rfl, front, rest, rfl, hnext, ?_⟩
  rcases hend with hrest | ⟨body, c, rfl, rfl | rfl | rfl⟩
  · exact .inr hrest
  · exact .inl (marked_concat (by decide) (by decide) body)
  · exact .inl (marked_concat (by decide) (by decide) body)
  · exact .inl (marked_concat (by decide) (by decide) body)

/-- The end of a tag crosses the text behind it. -/
theorem takeTagEnd_crosses {trims : Bool} (hat : s.At cs)
    (hbegins : (Opening.tagEnd trims).Begins cs) (h : takeTagEnd trims s = .ok ts s') :
    s.Crosses cs s' := by
  obtain ⟨text, found, -, hreads⟩ := takeTagEnd_ok h
  have hspelling : (endMark trims).spelling.toList <+: cs := by
    cases trims with
    | true => exact hbegins
    | false => exact hbegins
  obtain ⟨rest, rfl⟩ := hspelling
  have hat' : (s.behindTag trims).At rest := (s.moves_pos (endMark trims).spelling.toList).at hat
  obtain ⟨htext, hline, front, rest, rfl, hpos, hend⟩ := hreads.crosses hat'
  refine ⟨htext, hline, (endMark trims).spelling.toList ++ front, rest,
    (List.append_assoc _ _ _).symm, ?_, hend.imp_left ?_⟩
  · rw [hpos, byteLength_append, ← Nat.add_assoc]
    rfl
  · exact (marked_of_not_mem (feed_not_mem_spelling _)).append

/-- A rule that stands alone, but for the one for line feeds, moves over marked text. -/
theorem takePlain_crosses (hat : s.At cs) (ho : opening? s.template.isSome cs = some o)
    (hhereDoc : o ≠ .hereDoc) (hquote : o ≠ .doubleQuote) (hnewline : o ≠ .newline)
    (h : takePlain o s = .ok ts s') : s.Crosses cs s' := by
  have hbegins := opening?_begins ho
  have hself := s.crosses_nil []
  cases o with
  | mark m => exact takeMark_crosses hbegins.1 h hself
  -- a bracket, a parenthesis and a brace have two kinds each but one spelling
  | bracket =>
      obtain ⟨rest, rfl⟩ := hbegins
      rw [takePlain, takeBracket_eq] at h
      split at h
      · exact takeMark_crosses ⟨rest, rfl⟩ h hself
      · exact takeMark_crosses ⟨rest, rfl⟩ h hself
  | paren =>
      obtain ⟨rest, rfl⟩ := hbegins
      rw [takePlain, takeParen_eq] at h
      split at h
      · exact takeMark_crosses ⟨rest, rfl⟩ h hself
      · exact takeMark_crosses ⟨rest, rfl⟩ h hself
  | brace =>
      obtain ⟨rest, rfl⟩ := hbegins
      rw [takePlain, takeBrace_eq] at h
      have hdeeper : s.Crosses [] { s with braceDepth := s.braceDepth + 1 } :=
        ⟨rfl, rfl, [], [], rfl, rfl, .inr rfl⟩
      split at h
      · exact takeMark_crosses ⟨rest, rfl⟩ h hdeeper
      · exact takeMark_crosses ⟨rest, rfl⟩ h hdeeper
  | closeBrace =>
      obtain ⟨rest, rfl⟩ := hbegins
      rw [takePlain, takeCloseBrace_eq] at h
      exact takeMark_crosses ⟨rest, rfl⟩ h ⟨rfl, rfl, [], [], rfl, rfl, .inr rfl⟩
  | tagEnd trims => exact takeTagEnd_crosses hat hbegins h
  | hereDoc => exact absurd rfl hhereDoc
  | doubleQuote => exact absurd rfl hquote
  | singleQuote =>
      obtain ⟨rest, rfl⟩ := hbegins
      exact takeSingleQuoted_crosses hat h
  | lineComment =>
      rw [takePlain, get_bind, hat.rest] at h
      obtain ⟨-, rfl⟩ := EStateM.Result.ok.inj h
      exact crosses_takeWhile (by decide) _
  | blockComment =>
      obtain ⟨rest, rfl⟩ := hbegins
      exact takeComment_crosses hat h
  | slash =>
      obtain ⟨rest, rfl⟩ := hbegins
      exact takeSlash_crosses hat h
  | dollar =>
      obtain ⟨rest, rfl⟩ := hbegins
      exact takeVariable_crosses hat h
  | number => exact takeNumber_crosses hat h
  | word => exact takeWord_crosses hat h
  | reference dangling => exact takeReference_crosses hat h
  | separator =>
      obtain ⟨rest, rfl⟩ := hbegins
      obtain ⟨-, rfl⟩ := EStateM.Result.ok.inj h
      exact crosses_over [':', ':'] rest (marked_of_not_mem (by decide))
  | newline => exact absurd rfl hnewline
  | blank =>
      rw [takePlain, get_bind, hat.rest] at h
      obtain ⟨-, rfl⟩ := EStateM.Result.ok.inj h
      exact crosses_takeWhile (by decide) _
  | foreignLetter c => cases h
  | other c =>
      obtain ⟨rest, rfl⟩ := hbegins
      obtain ⟨-, rfl⟩ := EStateM.Result.ok.inj h
      refine crosses_over [c] rest (marked_of_not_mem fun hmem => ?_)
      obtain rfl := List.mem_singleton.1 hmem
      have hfeed : opening? s.template.isSome ('\n' :: rest) = some .newline := rfl
      cases hfeed.symm.trans ho

/-! ## What moves go over -/

/-- A move without an event goes over marked text, or to the end of the text. -/
theorem Move.crosses (h : Move s none s') (hat : s.At cs) : s.Crosses cs s' := by
  cases h with
  | plain h hhereDoc hquote hnewline htake =>
      rw [hat.rest] at h
      exact takePlain_crosses hat h hhereDoc hquote hnewline htake
  | quote h =>
      rw [hat.rest] at h
      obtain ⟨rest, rfl⟩ := opening?_begins h
      exact crosses_over ['"'] rest (marked_of_not_mem (by decide))
  | run h =>
      obtain ⟨front, rest, rfl, hmove, -, hstop⟩ := takeRun_spec hat h
      obtain ⟨-, ds, rfl⟩ := takeRun_ok h
      exact ⟨rfl, rfl, front, rest, rfl, hmove.pos, stopsAt_marked hstop⟩
  | @name name h =>
      rw [hat.rest] at h
      obtain ⟨⟨rest, rfl⟩, -⟩ := Token.variableName?_isPrefix h
      exact crosses_over name rest (marked_of_not_mem (Token.feed_not_mem_variableName? h))
  | brace => exact ⟨rfl, rfl, [], cs, rfl, rfl, .inl marked_nil⟩
  | passed kind => exact ⟨rfl, rfl, [], cs, rfl, rfl, .inl marked_nil⟩
  | template h =>
      have hat' : State.At { s with template := some .text } cs := hat
      obtain ⟨found, hreads⟩ := takeTemplateText_ok h
      obtain ⟨htext, hline, hover⟩ := hreads.crosses hat'
      exact ⟨htext, hline, hover⟩

/-- The header of a here-doc ends with a parenthesis. -/
theorem Move.hereDoc_crosses (h : Move s (some (.hereDoc ts)) s') (hat : s.At cs) :
    s.Crosses cs s' := by
  cases h with
  | hereDoc ho hrun =>
      rw [hat.rest] at ho
      obtain ⟨more, rfl⟩ := opening?_begins ho
      cases hrun with
      | @hereDoc _ s₁ done found tokens hfound hbody =>
          obtain ⟨⟨raw, line, ending, hread⟩, ds, rfl⟩ := takeHereDoc_read hfound
          obtain ⟨spelling, rest, hspelling, -, hnext⟩ := hread.header
          rw [hat.rest, List.drop_left' (by rfl)] at hspelling
          refine ⟨rfl, rfl, '@' :: '(' :: spelling ++ [')'], rest, by rw [hspelling]; simp, ?_,
            .inl (marked_concat (by decide) (by decide) _)⟩
          rw [byteLength_append]
          show found.next = s.pos + (1 + (1 + byteLength spelling) + 1)
          omega

/-! ## Where the line begins -/

/-- Unless nothing is left, the line that was noted begins where some line does, and marked text
stands from there to the cursor. -/
def State.Lined (s : State) : Prop :=
  s.atEnd ∨ ∃ before since rest, s.text = before ++ since ++ rest ∧ s.lineStart =
    byteLength before ∧
    s.pos = byteLength (before ++ since) ∧ StartsLine before ∧ Marked since

/-- What crosses text keeps track of its line. -/
theorem State.Crosses.lined (h : s.Crosses cs s') (hat : s.At cs) (hlined : s.Lined) :
    s'.Lined := by
  obtain ⟨htext, hline, ds, rest, rfl, hpos, hmarked⟩ := h
  have hat' : s'.At rest := by
    obtain ⟨front, hsplit, hfront⟩ := hat
    refine ⟨front ++ ds, ?_, ?_⟩
    · rw [htext, hsplit, List.append_assoc]
    · rw [hpos, hfront, byteLength_append]
  rcases hmarked with hmarked | rfl
  · rcases hlined with hend | ⟨before, since, more, hsplit, hbefore, hsince, hstart, hsolid⟩
    · obtain ⟨rfl, rfl⟩ := List.append_eq_nil_iff.1 (hat.atEnd_iff.1 hend)
      exact .inl (hat'.atEnd_iff.2 rfl)
    · have hmore : s.At more := ⟨before ++ since, hsplit, hsince⟩
      obtain rfl : more = ds ++ rest := hmore.rest.symm.trans hat.rest
      refine .inr ⟨before, since ++ ds, rest, ?_, hline.trans hbefore, ?_, hstart,
        hsolid.append hmarked⟩
      · rw [htext, hsplit]
        simp only [List.append_assoc]
      · rw [hpos, hsince, ← List.append_assoc, byteLength_append (before ++ since)]
  · exact .inl (hat'.atEnd_iff.2 rfl)

/-- A line feed that is reached in code leads to the start of a line. -/
theorem Move.newline_lined (h : Move s (some .newline) s') (hsound : s.Sound)
    (hleads : s.LeadsToLine) : s'.Lined := by
  obtain ⟨before, rest, htext, hpos⟩ := (h.lasts hsound).sound.cursor
  have hlands : LineStart s.text (s.resume.getD (s.pos + 1)) := by
    cases hresume : s.resume with
    | some r => exact hleads r hresume
    | none =>
        cases h with
        | newline ho htake =>
            obtain ⟨cs, ⟨front, hsplit, hfront⟩, ho⟩ := at_of_opening hsound ho
            obtain ⟨more, rfl⟩ := opening?_begins ho
            have hnext : s.pos + 1 = byteLength (front ++ ['\n']) := by
              rw [hfront, byteLength_append]
              rfl
            rw [Option.getD_none, hnext, hsplit, ← List.append_assoc]
            exact Text.lineStart_of_append fun _ => Text.startsLine_concat front
  obtain rfl := h.newline_eq
  cases rest with
  | nil => exact .inl ((State.At.atEnd_iff ⟨before, htext, hpos⟩).2 rfl)
  | cons c rest =>
      refine .inr ⟨before, [], c :: rest, ?_, hpos, ?_, ?_, marked_nil⟩
      · rw [List.append_nil, htext]
      · rw [List.append_nil, hpos]
      · exact hlands before (c :: rest) htext hpos.symm (List.cons_ne_nil _ _)

/-- What a scan keeps of the line of its cursor. -/
structure State.Placed (s : State) : Prop where
  sound : s.Sound
  leads : s.LeadsToLine
  lined : s.Lined

/-- A move keeps track of the line. -/
theorem Move.placed {e : Option Event} (h : Move s e s') (hplaced : s.Placed) : s'.Placed := by
  obtain ⟨cs, hat⟩ := s.at_of_boundary hplaced.sound.cursor
  refine ⟨(h.lasts hplaced.sound).sound, h.leadsToLine hplaced.sound hplaced.leads, ?_⟩
  cases e with
  | none => exact (h.crosses hat).lined hat hplaced.lined
  | some e =>
      cases e with
      | newline => exact h.newline_lined hplaced.sound hplaced.leads
      | hereDoc ts => exact (h.hereDoc_crosses hat).lined hat hplaced.lined

/-- A path keeps track of the line. -/
theorem Path.placed (h : Path s events s') (hplaced : s.Placed) : s'.Placed := by
  induction h with
  | nil => exact hplaced
  | silent hmove _ ih => exact ih (hmove.placed hplaced)
  | event hmove _ ih => exact ih (hmove.placed hplaced)

/-- A scan begins at the start of a line. -/
theorem State.placed_start (s : State) (hpos : s.pos = 0) (hline : s.lineStart = 0)
    (hresume : s.resume = none) : s.Placed := by
  refine ⟨s.sound_start hpos hresume, ?_,
    .inr ⟨[], [], s.text, rfl, hline, hpos, nofun, marked_nil⟩⟩
  intro r hr
  rw [hresume] at hr
  exact nomatch hr

end Manifest.Scan
