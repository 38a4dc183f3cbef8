import Manifest.Proofs.Scan.InCode
import Manifest.Proofs.Scan.Issue
import Manifest.Proofs.Scan.Quiet
import Manifest.Proofs.Scan.Retold

/-!
# What a scan of code reports

A scan reports at two places: at the header of a here-doc, when a segment of its format is empty or
there is no format, and at each run of a string in double quotes, for the escapes that it notes. The
text of a here-doc is scanned apart, and what is found there comes behind the report of the header.

* `Reading` — what was read of a fragment, and the escapes in it.
* `Reported` — what is reported of tokens.
* `Runs.reports` — a scan that succeeds reports the issues of its tokens, in their order.
-/

namespace Manifest

/-- The format of a here-doc that is reported: none is given, or it has an empty segment. -/
def HereDoc.isSuspect (format : List Char) : Bool := format.isEmpty || HereDoc.hasGap format

/-- A header is suspect just when its format has an empty segment. -/
theorem HereDoc.Header.isSuspect_format (h : HereDoc.Header) :
    HereDoc.isSuspect h.format = h.hasEmptySegment := by
  obtain ⟨tag, format, escapes, interpolates⟩ := h
  cases format with
  | nil => rfl
  | cons c cs => rfl

namespace Scan

open Text (Source byteLength byteLength_append)

variable {s s' s₁ : State} {ts us : List Token} {t : Token} {q : Quoting} {run : Quote.Run}
  {found : OpenHereDoc} {source : Source} {warns dq first : Bool} {c c' c₁ : Surroundings}
  {outer : List Bool} {task : Task} {start : Nat} {front cs : List Char}
  {already : List Diagnostic}

/-! ## Fragments -/

/-- How a string, or the text of a here-doc, is read: unknown escapes are reported in double quotes
only. -/
structure Quoting.Reads (q : Quoting) (dq warns : Bool) : Prop where
  warns : q.warns = (warns && dq)
  mode : dq → q.mode = .double ∧ q.escapes = .doubleQuoted

/-- What was read of a fragment that begins at an offset: the escapes in it were noted, and reported
after what was reported before it. -/
structure Reading (s : State) (already : List Diagnostic) (warns dq first : Bool) (start : Nat)
    (front : List Char) : Prop where
  place : ∃ before cs, s.text = before ++ front ++ cs ∧ start = byteLength before ∧
    s.pos = byteLength (before ++ front)
  quote : dq → first → front.head? = some '"'
  noted : ∃ known, (dq → ∀ more, Quote.unknownEscapes start (front ++ more)
      = known ++ Quote.unknownEscapes s.pos more) ∧
    s.diagnostics = already ++ if warns && dq then escapeIssues s.source known else []

/-- Where no fragment was begun. -/
theorem Reading.nil (hsound : s.Sound) (hquote : dq → first → False) :
    Reading s s.diagnostics warns dq first s.pos [] where
  place := by
    obtain ⟨before, cs, htext, hpos⟩ := hsound.cursor
    exact ⟨before, cs, by rw [List.append_nil, htext], hpos, by rw [List.append_nil, hpos]⟩
  quote hdq hfirst := absurd (hquote hdq hfirst) id
  noted := by
    refine ⟨[], fun _ _ => rfl, ?_⟩
    show s.diagnostics = s.diagnostics ++ if warns && dq then [] else []
    rw [ite_self, List.append_nil]

/-- Behind an opening quote. -/
theorem Reading.opening (hat : s.At ('"' :: cs)) :
    Reading { s with pos := s.pos + 1 } s.diagnostics warns true true s.pos ['"'] where
  place := by
    obtain ⟨before, htext, hpos⟩ := hat
    refine ⟨before, cs, by rw [List.append_assoc]; exact htext, hpos, ?_⟩
    rw [byteLength_append, ← hpos]
    rfl
  quote _ _ := rfl
  noted := by
    refine ⟨[], fun _ more => Quote.unknownEscapes_cons (by decide), ?_⟩
    show s.diagnostics = s.diagnostics ++ if warns && true then [] else []
    rw [ite_self, List.append_nil]

/-- A run adds what it takes to the fragment, and reports the escapes that it adds. -/
theorem Reading.extend (h : Reading s already warns dq first start front) (hq : q.Reads dq warns)
    (hrun : takeRun q s = .ok run s₁) : ∃ ds rest,
      Reading s₁ already warns dq first start (front ++ ds) ∧
      Quote.StopsAt q.mode run.stop ds rest ∧ s₁.pos = run.next := by
  obtain ⟨before, cs, htext, hstart, hpos⟩ := h.place
  obtain ⟨known, hknown, hdiagnostics⟩ := h.noted
  have hat : s.At cs := ⟨before ++ front, htext, hpos⟩
  obtain ⟨ds, rest, rfl, hmove, hnext, hstop⟩ := takeRun_spec hat hrun
  have hreport : s₁.diagnostics = s.diagnostics ++ if warns && dq then
      escapeIssues s.source (Quote.collect q.mode q.escapes s.pos (ds ++ rest)).unknown
        else [] := by
    rw [(takeRun_eq hrun).2, hat.rest, hq.warns]
  refine ⟨ds, rest, ⟨⟨before, rest, ?_, hstart, ?_⟩, ?_,
    known ++ (Quote.collect q.mode q.escapes s.pos (ds ++ rest)).unknown, ?_, ?_⟩, hstop, hnext⟩
  · rw [hmove.text, htext]
    simp only [List.append_assoc]
  · rw [hmove.pos, hpos, ← List.append_assoc, byteLength_append _ ds]
  · intro hdq hfirst
    obtain ⟨cs, rfl⟩ := List.head?_eq_some_iff.1 (h.quote hdq hfirst)
    rfl
  · intro hdq more
    obtain ⟨hmode, hescapes⟩ := hq.mode hdq
    have hcollect := (takeRun_ok hrun).1
    rw [hmode, hescapes, hat.rest] at hcollect
    obtain ⟨ds', rest', hsplit, -, hnext', hnotes⟩ := Quote.collect_notes hcollect
    -- both take as many bytes
    have hlength : byteLength ds = byteLength ds' := by
      have := hmove.pos
      omega
    obtain ⟨rfl, -⟩ := Text.eq_of_byteLength_eq hsplit hlength
    rw [hmode, hescapes, List.append_assoc, hknown hdq, hnotes, hnext, List.append_assoc]
  · rw [hreport, hdiagnostics, hmove.source, List.append_assoc]
    cases warns && dq with
    | true => exact congrArg (already ++ ·) List.map_append.symm
    | false => rfl

/-- The cursor stands behind what was read. -/
theorem Reading.pos_eq (h : Reading s already warns dq first start front) :
    s.pos = start + byteLength front := by
  obtain ⟨before, cs, -, hstart, hpos⟩ := h.place
  rw [hpos, hstart, byteLength_append]

/-- A token over what was read of a fragment, or over a part that has the same escapes. -/
theorem Reading.covered {ds tail : List Char} {stop : Nat}
    (h : Reading s already warns dq first start front) (hs : s.InCode source)
    (hfront : front = ds ++ tail) (hstop : stop = start + byteLength ds)
    (hsame : Quote.unknownEscapes start front = Quote.unknownEscapes start ds)
    (kind : Token.Kind) (text : List Char) :
    s.diagnostics = already ++ fragmentIssues (warns && dq) (s.textToken kind text start stop) ∧
      (s.textToken kind text start stop).sourceText = String.ofList ds := by
  obtain ⟨before, cs, htext, rfl, hpos⟩ := h.place
  obtain ⟨known, hknown, hdiagnostics⟩ := h.noted
  have hover : Over source (byteLength before) ds
      (s.textToken kind text (byteLength before) stop) := by
    rw [← hs.source_eq]
    exact over_token hstop
  have hplace : source.text = before ++ ds ++ (tail ++ cs) := by
    rw [← hs.text, htext, hfront]
    simp only [List.append_assoc]
  refine ⟨?_, hover.sourceText hplace⟩
  rw [hdiagnostics, hs.source_eq, fragmentIssues_eq hover hplace]
  intro hon
  have hdq := hknown (Bool.and_eq_true_iff.1 hon).2 []
  rw [List.append_nil] at hdq
  rw [← hsame, hdq]
  exact List.append_nil known

/-! ## Rules that stand alone -/

/-- What the rules give that stand alone has no issue. -/
theorem takePlain_dull {o : Opening} (hs : s.InCode source)
    (h : opening? s.template.isSome s.rest = some o) (hhereDoc : o ≠ .hereDoc)
    (hquote : o ≠ .doubleQuote) (htake : takePlain o s = .ok ts s') : ∀ t ∈ ts, Dull t := by
  obtain ⟨cs, hat, ho⟩ := at_of_opening hs.sound h
  have htook := takePlain_took hat ho hhereDoc hquote htake
  have hstrings := takePlain_stringRole h htake
  cases htook with
  | skipped => exact List.forall_mem_nil _
  | newline => exact List.forall_mem_nil _
  | @token ds rest kind value s' hne hmove hmode htoken hkind =>
      refine List.forall_mem_singleton.2
        ⟨hkind, hstrings _ (List.mem_singleton_self _), fun _ => ?_⟩
      -- what begins with a quote is read by another rule
      obtain ⟨before, htext, hpos⟩ := hat
      have hover : Over source (byteLength before) ds (s.token kind value s.pos s'.pos) := by
        rw [← hs.source_eq, ← hpos]
        exact over_token hmove.pos
      rw [hs.text, ← List.append_assoc] at htext
      rw [hover.sourceText htext, String.toList_ofList]
      intro hhead
      obtain ⟨ds, rfl⟩ := List.head?_eq_some_iff.1 hhead
      exact hquote (Option.some.inj ho).symm
  | template hmode =>
      rw [hs.template] at hmode
      exact nomatch hmode

/-! ## Tokens -/

/-- What is reported of tokens that lead from some surroundings to others: their issues, after what
was reported before them. -/
structure Reported (warns : Bool) (c : Surroundings) (already : List Diagnostic) (ts : List Token)
    (c' : Surroundings) (s : State) : Prop where
  behind : c.after ts = c'
  diagnostics : s.diagnostics = already ++ issuesFrom HereDoc.isSuspect warns c ts

/-- Reports of tokens in a row. -/
theorem Reported.append (h : Reported warns c already ts c₁ s₁)
    (h' : Reported warns c₁ s₁.diagnostics us c' s') :
    Reported warns c already (ts ++ us) c' s' where
  behind := by rw [Surroundings.after_append, h.behind, h'.behind]
  diagnostics := by
    rw [h'.diagnostics, h.diagnostics, issuesFrom_append, h.behind, List.append_assoc]

/-- Without tokens nothing is reported. -/
theorem reported_nil (h : s.diagnostics = already) : Reported warns c already [] c s :=
  ⟨rfl, by rw [h]; exact (List.append_nil _).symm⟩

/-- Tokens without issues, when nothing was reported. -/
theorem reported_dull (h : ∀ t ∈ ts, Dull t) (hc : c.lifted = false)
    (hs : s.diagnostics = already) : Reported warns c already ts c s where
  behind := after_dull h hc
  diagnostics := by rw [hs, issuesFrom_dull h hc, List.append_nil]

/-- The issues of a token that reports them. -/
theorem reported_singleton (hbehind : c.behind t = c')
    (hs : s.diagnostics = already ++ c.issues HereDoc.isSuspect warns t) :
    Reported warns c already [t] c' s :=
  ⟨hbehind, by rw [hs, issuesFrom, issuesFrom, List.append_nil]⟩

/-- A fragment before others, which covers a part with all escapes of what was read. -/
theorem Reading.fragment {ds tail : List Char} {stop : Nat}
    (h : Reading s already warns dq first start front) (hs : s.InCode source)
    (hfront : front = ds ++ tail) (hstop : stop = start + byteLength ds)
    (hsame : Quote.unknownEscapes start front = Quote.unknownEscapes start ds)
    (text : List Char) (outer : List Bool) :
    Reported warns (.inside dq first outer) already
      [s.textToken (fragmentKind first) text start stop] (.inside dq false outer) s := by
  obtain ⟨hreport, -⟩ := h.covered hs hfront hstop hsame (fragmentKind first) text
  refine reported_singleton (Surroundings.behind_fragment rfl) ?_
  rw [Surroundings.issues_fragment rfl]
  exact hreport

/-- The last fragment. -/
theorem Reading.last (h : Reading s already warns dq first start front) (hs : s.InCode source)
    (text : List Char) (outer : List Bool) : Reported warns (.inside dq first outer) already
      [s.textToken (if first then .string else .stringEnd) text start s.pos] ⟨false, outer⟩ s := by
  obtain ⟨hreport, htext⟩ := h.covered hs (List.append_nil front).symm h.pos_eq rfl
    (if first then .string else .stringEnd) text
  refine reported_singleton (Surroundings.behind_last rfl) ?_
  rw [Surroundings.issues_last rfl]
  · exact hreport
  · intro hdq hfirst
    rw [htext, String.toList_ofList]
    exact h.quote hdq hfirst

/-! ## Tasks -/

/-- A run of quoted text keeps the options. -/
theorem takeRun_options (h : takeRun q s = .ok run s') : s'.options = s.options := by
  obtain ⟨-, ds, rfl⟩ := takeRun_ok h
  rfl

/-- A task leaves the options alone. -/
theorem Runs.options (h : Runs task s ts s') (hsound : s.Sound) (hready : task.Ready s) :
    s'.options = s.options := by
  have hwalks := h.walks hsound hready
  cases h with
  | hereDoc hfound hbody =>
      obtain ⟨-, ds, rfl⟩ := takeHereDoc_read hfound
      rfl
  | _ =>
      obtain ⟨es, hpath, -⟩ := hwalks
      exact (hpath.lasts hsound).options

/-- What a task reports, its own tokens and those read before it. -/
def Task.Reports (warns : Bool) (s : State) (ts : List Token) (s' : State) : Task → Prop
  | .step | .hereDoc => ∀ c, c.lifted = false → Reported warns c s.diagnostics ts c s'
  | .fragments q start first _ => ∀ dq outer already front, q.Reads dq warns →
      Reading s already warns dq first start front →
        Reported warns (.inside dq first outer) already ts ⟨false, outer⟩ s'
  | .code _ tokens => ∀ c already, c.lifted = false → Reported warns c already tokens c s →
      Reported warns c already ts c s'

/-- The brace that closes an interpolation has no issue. -/
theorem dull_of_closes {depth : Nat} (h : closes depth ts s) : ∀ t ∈ ts, Dull t := by
  obtain ⟨t, rfl, hkind⟩ := exists_of_closes h
  refine List.forall_mem_singleton.2 ⟨?_, ?_, ?_⟩
  all_goals rw [hkind]
  · rfl
  · rfl
  · exact nofun

/-- The issues of a here-doc before those of its text. -/
theorem issuesFrom_hereDoc : issuesFrom HereDoc.isSuspect warns ⟨false, outer⟩ (found.tokens s)
    = if found.header.hasEmptySegment then
        [Problem.emptyFormatSegment.located (s.source.positionAt s.pos)]
      else [] := by
  have htext : (s.textToken .hereDoc found.header.format s.pos found.next).text.toList
      = found.header.format := String.toList_ofList
  rw [OpenHereDoc.tokens, issuesFrom, issuesFrom, issuesFrom, Surroundings.issues_hereDoc rfl,
    Surroundings.issues_body rfl, htext, HereDoc.Header.isSuspect_format, List.append_nil]
  exact List.append_nil _

/-- A here-doc reports its format, and then what its text reports. -/
theorem reports_hereDoc {done : State} {tokens : List Token} (hfound : takeHereDoc s = .ok found s₁)
    (hbody : (Task.fragments (found.quoting s₁) 0 true []).Reports warns (found.bodyState s₁)
      tokens done) :
    Task.hereDoc.Reports warns s (found.tokens s₁ ++ tokens)
      { s₁ with pos := found.next, resume := some found.bodyStop,
                diagnostics := s₁.diagnostics ++ done.diagnostics } := by
  rintro ⟨_, outer⟩ rfl
  have hreads : (found.quoting s₁).Reads false warns := ⟨(Bool.and_false _).symm, nofun⟩
  have htext := hbody false outer [] [] hreads (.nil (found.inCode s₁).sound nofun)
  have hheader : s₁.diagnostics = s.diagnostics
      ++ issuesFrom HereDoc.isSuspect warns ⟨false, outer⟩ (found.tokens s₁) := by
    rw [issuesFrom_hereDoc, (takeHereDoc_spec hfound).2, State.judging]
    cases found.header.hasEmptySegment with
    | true => rfl
    | false => exact (List.append_nil _).symm
  have hbehind : Surroundings.after ⟨false, outer⟩ (found.tokens s₁) = .inside false true outer :=
    rfl
  refine ⟨?_, ?_⟩
  · rw [Surroundings.after_append, hbehind, htext.behind]
  · show s₁.diagnostics ++ done.diagnostics = _
    rw [htext.diagnostics, hheader, issuesFrom_append, hbehind, List.append_assoc]
    rfl

/-- A task that succeeds reports the issues of its tokens, in their order. -/
theorem Runs.reports (h : Runs task s ts s') (hs : s.InCode source) (hready : task.Ready s)
    (hwarns : s.options.warnUnknownEscapes = warns) : task.Reports warns s ts s' := by
  induction h generalizing source with
  | nothing => exact fun c _ => reported_nil rfl
  | @quoted s s' ts h hrun ih =>
      rintro ⟨_, outer⟩ rfl
      obtain ⟨cs, hat, ho⟩ := at_of_opening hs.sound h
      obtain ⟨rest, rfl⟩ := opening?_begins ho
      have hreads : s.quoting.Reads true warns := by
        refine ⟨?_, fun _ => ⟨rfl, rfl⟩⟩
        rw [Bool.and_true, ← hwarns]
        rfl
      exact ih (hs.quote h) trivial hwarns true outer _ _ hreads (.opening hat)
  | documented h hrun ih =>
      obtain ⟨cs, hat, ho⟩ := at_of_opening hs.sound h
      obtain ⟨rest, rfl⟩ := opening?_begins ho
      exact ih hs ⟨rest, hat⟩ hwarns
  | plain h hhereDoc hquote htake =>
      intro c hc
      exact reported_dull (takePlain_dull hs h hhereDoc hquote htake) hc (takePlain_silent htake)
  | @last q start first pending s s' run hrun hstop =>
      intro dq outer already front hreads hreading
      obtain ⟨ds, rest, hreading', -, hpos⟩ := hreading.extend hreads hrun
      rw [← hpos]
      exact hreading'.last (hs.run hrun) (pending ++ run.text) outer
  | @braces q start first pending s s₁ s₂ s₃ run code rest hrun hstop hcode hrest ihcode ihrest =>
      intro dq outer already front hreads hreading
      obtain ⟨ds, after, hreading', -, hpos⟩ := hreading.extend hreads hrun
      have hs₁ := hs.run hrun
      have hdeeper : State.InCode { s₁ with braceDepth := s₁.braceDepth + 1 } source :=
        hs₁.congr rfl rfl rfl rfl rfl
      have hs₂ := (hcode.inCode hdeeper trivial (List.forall_mem_nil _)).1
      have hwarns₁ : s₁.options.warnUnknownEscapes = warns := by rw [takeRun_options hrun, hwarns]
      have hwarns₂ : s₂.options.warnUnknownEscapes = warns := by
        rw [hcode.options hdeeper.sound trivial]
        exact hwarns₁
      have hfragment := hreading'.fragment hs₁ (List.append_nil _).symm
        (hpos.symm.trans hreading'.pos_eq) rfl (pending ++ run.text) outer
      have hcode' := ihcode hdeeper trivial hwarns₁ (.inside dq false outer) s₁.diagnostics rfl
        (reported_nil rfl)
      have hrest' := ihrest hs₂ trivial hwarns₂ dq outer _ [] hreads (.nil hs₂.sound nofun)
      exact hfragment.append (hcode'.append hrest')
  | @reference q start first pending s s₁ s₂ run name rest hrun hstop hname hrest ih =>
      intro dq outer already front hreads hreading
      obtain ⟨ds, after, hreading', hstops, hpos⟩ := hreading.extend hreads hrun
      rw [hstop] at hstops
      cases hstops with
      | @dollar body _ hdollar hhead =>
          have hs₁ := hs.run hrun
          have hnamed : State.InCode { s₁ with pos := run.next + byteLength name } source := by
            rw [← hpos]
            exact hs₁.name hname
          have hwarns₁ : s₁.options.warnUnknownEscapes = warns := by
            rw [takeRun_options hrun, hwarns]
          -- the dollar sign is read, but it is the variable's
          have hstop' : run.next - 1 = start + byteLength (front ++ body) := by
            rw [← hpos, hreading'.pos_eq, ← List.append_assoc, byteLength_append]
            rfl
          have hsame : Quote.unknownEscapes start (front ++ (body ++ ['$']))
              = Quote.unknownEscapes start (front ++ body) := by
            rw [← List.append_assoc]
            exact Quote.unknownEscapes_dollar _ _
          have hfragment := hreading'.fragment hs₁ (List.append_assoc _ _ _).symm hstop' hsame
            (pending ++ run.text) outer
          have hvariable : Reported warns (.inside dq false outer) s₁.diagnostics
              [s₁.textToken .variable name (run.next - 1) (run.next + byteLength name)]
              (.inside dq false outer) s₁ :=
            reported_dull (List.forall_mem_singleton.2 ⟨rfl, rfl, nofun⟩) rfl rfl
          have hrest' := ih hnamed trivial hwarns₁ dq outer _ [] hreads (.nil hnamed.sound nofun)
          exact hfragment.append (hvariable.append hrest')
  | dollar hrun hstop hname hrest ih =>
      intro dq outer already front hreads hreading
      obtain ⟨ds, after, hreading', -, -⟩ := hreading.extend hreads hrun
      exact ih (hs.run hrun) trivial ((congrArg _ (takeRun_options hrun)).trans hwarns) dq outer
        already _ hreads hreading'
  | ended => exact fun c already _ h => h
  | @closed depth tokens batch s s' hend hstep hcloses ih =>
      intro c already hc htokens
      have hbrace := (ih hs trivial hwarns c hc).diagnostics
      rw [issuesFrom_dull (dull_of_closes hcloses) hc, List.append_nil] at hbrace
      refine ⟨(after_asVariable hc).trans htokens.behind, ?_⟩
      rw [hbrace, issuesFrom_asVariable hc, htokens.diagnostics]
  | @more depth tokens batch ts s s' s'' hend hstep hcloses hrest ihstep ihrest =>
      intro c already hc htokens
      obtain ⟨hs', -⟩ := hstep.inCode hs trivial (List.forall_mem_nil _)
      have hwarns' : s'.options.warnUnknownEscapes = warns := by
        rw [hstep.options hs.sound trivial, hwarns]
      have hbatch := htokens.append (ihstep hs trivial hwarns c hc)
      obtain ⟨k, hk⟩ := passed_eq s' batch
      rw [hk] at ihrest
      exact ihrest (hs'.congr rfl rfl rfl rfl rfl) trivial hwarns' c already hc
        ⟨hbatch.behind, hbatch.diagnostics⟩
  | @hereDoc s s₁ done found tokens hfound hbody ih =>
      refine reports_hereDoc hfound (ih (found.inCode s₁) trivial ?_)
      obtain ⟨-, ds, rfl⟩ := takeHereDoc_read hfound
      exact hwarns

end Scan

end Manifest
