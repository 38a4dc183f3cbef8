import Manifest.Proofs.HereDoc.Lines
import Manifest.Proofs.Scan.Footprint
import Manifest.Proofs.Scan.InCode
import Manifest.Proofs.Scan.Layout
import Manifest.Proofs.Scan.Path

/-!
# What a scan takes up

Whatever a scan of code reads, it takes up nothing twice, as long as its tokens and comments leave
the line feeds alone that the bodies of here-docs wait for.

* `Leads` — tokens lead from one place of a text to another and take up nothing twice.
* `Took.leads`, `hereDoc_leads` — rules, and here-docs.
* `Runs.leads` — every scan of code.
-/

namespace Manifest.Scan

open HereDoc (EndLine linesOf)
open Text (Boundary Document Range Source byteLength byteLength_append)

variable {s s' s₁ : State} {cs ds line rest : List Char} {ts us : List Token} {d : Document}
  {waited : Nat → Prop} {source : Source} {found : OpenHereDoc}

/-! ## Leading on -/

/-- Where a scan that gives the tokens goes on, nothing was taken up twice, if that is so where it
has begun and the tokens heed the line feeds that are waited for. -/
def Leads (d : Document) (waited : Nat → Prop) (s : State) (ts : List Token) (s' : State) : Prop :=
  (∀ t ∈ ts, Heeds d waited t) → ∀ used, Clear d.text waited used s.pos s.resume →
    Clear d.text waited (used ++ footprints d ts) s'.pos s'.resume

/-- Nothing is taken and the cursor stays. -/
theorem leads_nil (hpos : s'.pos = s.pos) (hresume : s'.resume = s.resume) :
    Leads d waited s [] s' := by
  intro _ used hclear
  rw [hpos, hresume]
  rwa [footprints_eq_nil (List.forall_mem_nil _), List.append_nil]

/-- What is taken in a row. -/
theorem Leads.trans (h : Leads d waited s ts s₁) (h' : Leads d waited s₁ us s') :
    Leads d waited s (ts ++ us) s' := by
  intro hheeds used hclear
  obtain ⟨hts, hus⟩ := List.forall_mem_append.1 hheeds
  rw [footprints_append, ← List.append_assoc]
  exact h' hus _ (h hts used hclear)

/-- Names that become variables. -/
theorem Leads.asVariable (h : Leads d waited s ts s') : Leads d waited s (asVariable ts) s' := by
  intro hheeds used hclear
  rw [footprints_asVariable]
  exact h (heeds_of_asVariable hheeds) used hclear

/-- No token is given for white space and comments. -/
theorem leads_skip (hpos : s.pos ≤ s'.pos) (hnext : Boundary d.text s'.pos)
    (hresume : s'.resume = s.resume) (hwithin : ∀ line, BeforeFeed d.text s.pos line →
      ¬ LeavesComment line → s'.pos ≤ s.pos + byteLength line) : Leads d waited s [] s' := by
  intro _ used hclear
  rw [footprints_eq_nil (List.forall_mem_nil _), List.append_nil, hresume]
  exact hclear.skip hpos hnext hwithin

/-- A token that is no body of a here-doc takes up what the cursor moves over. -/
theorem leads_token {kind : Token.Kind} {value : Token.Value} {start stop : Nat}
    (hsource : s₁.source = .document d) (hkind : kind ≠ .hereDocBody) (hstart : s.pos = start)
    (hstop : s'.pos = stop) (hle : start ≤ stop) (hnext : Boundary d.text stop)
    (hresume : s'.resume = s.resume) : Leads d waited s [s₁.token kind value start stop] s' := by
  intro hheeds used hclear
  have hreads := (List.forall_mem_singleton.1 hheeds).reads hsource hkind
  rw [s₁.token_range hle] at hreads
  rw [footprints_cons hsource, footprint_of_ne hkind, s₁.token_range hle,
    footprints_eq_nil (List.forall_mem_nil _), hresume, hstop]
  rw [hstart] at hclear
  exact hclear.read hle hnext hreads

/-- In code the cursor stands between characters of the document. -/
theorem State.InCode.boundary (h : s.InCode (.document d)) : Boundary d.text s.pos := by
  have hcursor := h.sound.cursor
  rwa [h.text] at hcursor

/-- A move goes forward. -/
theorem State.Moves.pos_le (h : s.Moves ds s') : s.pos ≤ s'.pos := by
  rw [h.pos]
  exact Nat.le_add_right _ _

/-- White space and comments end on their line, but for a comment that the line leaves open. -/
theorem Piece.within (h : Piece ds rest) (hne : ds ≠ ['\n'])
    (hline : ds ++ rest = line ++ '\n' :: cs) (hcomment : ¬ LeavesComment line) : ds <+: line := by
  cases h with
  | blanks hblank =>
      refine prefix_of_not_mem hline fun hmem => ?_
      have hfeed := List.all_eq_true.1 hblank _ hmem
      exact nomatch hfeed
  | newline => exact absurd rfl hne
  | lineComment hds =>
      refine prefix_of_not_mem hline fun hmem => ?_
      rcases List.mem_cons.1 hmem with hfeed | hmem
      · exact nomatch hfeed
      · exact hds _ hmem rfl
  | blockComment _ hbody => exact blockComment_within hbody hline hcomment

/-- A rule of code takes up nothing twice. -/
theorem Took.leads (h : Took s cs ts s') (hs : s.InCode (.document d)) (hat : s.At cs)
    (hne : ∀ rest, cs ≠ '\n' :: rest) : Leads d waited s ts s' := by
  have hs' := (h.inCode hs hat).1
  cases h with
  | @skipped ds rest _ hpiece hmove _ =>
      refine leads_skip hmove.pos_le hs'.boundary hmove.resume ?_
      intro line hline hcomment
      have hline' : BeforeFeed s.text s.pos line := by rwa [hs.text]
      obtain ⟨after, hrest, -⟩ := hline'.at hat
      have hfeed : ds ≠ ['\n'] := by
        rintro rfl
        exact hne rest rfl
      obtain ⟨back, rfl⟩ := hpiece.within hfeed hrest hcomment
      rw [hmove.pos, byteLength_append]
      omega
  | newline rest => exact absurd rfl (hne rest)
  | token _ hmove _ _ hkind =>
      exact leads_token hs.source_eq (ne_of_ofHereDoc hkind).2 rfl rfl hmove.pos_le hs'.boundary
        hmove.resume
  | template hmode =>
      rw [hs.template] at hmode
      exact nomatch hmode

/-! ## Here-docs -/

/-- The end line of a here-doc is the line behind its body. -/
theorem OpenHereDoc.ReadFrom.lineEnd_eq {raw : List (List Char)} {ending : EndLine}
    (h : found.ReadFrom s raw line ending) (hsound : s.Sound) (hat : s.At ('@' :: '(' :: cs)) :
    lineEnd s.text found.endLine = found.bodyStop := by
  obtain ⟨front, more, htext, hstart, hlines⟩ := h.exists_split hsound hat
  have hended : ∀ other ∈ raw, Text.Ended other := fun other hother =>
    HereDoc.linesOf_ended_of_mem hlines hother
  have hbehind : linesOf (line ++ more.flatten) = line :: more := by
    rwa [HereDoc.linesOf_flatten_append hended, List.append_cancel_left_eq] at hlines
  have hend : found.endLine = byteLength (front ++ raw.flatten) := by
    rw [h.endLine, hstart, byteLength_append]
  have hsplit : s.text = front ++ raw.flatten ++ (line ++ more.flatten) := by
    rw [htext, List.append_assoc]
  rw [lineEnd, hend, hsplit, Text.dropBytes_byteLength, hbehind, ← hend, h.bodyStop]
  rfl

/-- What the body takes up goes on to the end of the end line. -/
theorem OpenHereDoc.ReadFrom.footprint_body {raw : List (List Char)} {ending : EndLine}
    (h : found.ReadFrom s raw line ending) (hsound : s.Sound) (hat : s.At ('@' :: '(' :: cs)) :
    footprint s.text (s.token .hereDocBody (.body found.body) found.bodyStart found.endLine)
      = ⟨found.bodyStart, found.bodyStop⟩ := by
  have hle : found.bodyStart ≤ found.endLine := by
    rw [h.endLine]
    exact Nat.le_add_right _ _
  have hrange : (s.token .hereDocBody (.body found.body) found.bodyStart found.endLine).range
      = ⟨found.bodyStart, found.endLine⟩ := s.token_range hle
  rw [footprint_of_eq rfl, hrange, h.lineEnd_eq hsound hat]

/-- The tokens of a body refer to the body, and take up nothing of the text around it. -/
theorem Runs.footprints_excerpt {task : Task} {e : Text.Excerpt} (h : Runs task s ts s')
    (hs : s.InCode (.excerpt e)) (hready : task.Ready s) (hgiven : task.given = []) :
    footprints d ts = [] := by
  have hempty : ∀ t ∈ task.given, RefersTo (.excerpt e) t := by
    rw [hgiven]
    exact List.forall_mem_nil _
  refine footprints_eq_nil fun t ht hsource => ?_
  rcases (h.inCode hs hready hempty).2 t ht with heq | ⟨e', heq⟩
  · exact nomatch heq.symm.trans hsource
  · exact nomatch heq.symm.trans hsource

/-- A body begins behind the line feed that ends the line of its header, or behind the body
before. -/
theorem Clear.body {next start stop : Nat} {used : List Range}
    (h : Clear s.text waited used next s.resume) (hnext : Boundary s.text next)
    (hstart : bodyStart? s next = some start) (hwaited : waited (lineFeed s.text next))
    (hcomment : ¬ LeavesComment (restOfLine s.text next)) (hstop : start ≤ stop) :
    Clear s.text waited (used ++ [⟨start, stop⟩]) next (some stop) := by
  cases hresume : s.resume with
  | none =>
      rw [hresume] at h
      obtain ⟨front, line, rest, htext, hfeed, hfront, hbehind⟩ :=
        nextLine_of_bodyStart? hresume hnext hstart
      have hline : BeforeFeed s.text next line := by
        refine ⟨front, rest, ?_, hfeed, hfront⟩
        rw [htext, List.append_assoc]
      rw [hline.lineFeed_eq] at hwaited
      rw [hline.restOfLine_eq] at hcomment
      refine h.first hline hwaited hcomment ?_ hstop
      rw [hbehind, hfront, byteLength_append, byteLength_append]
      rfl
  | some r =>
      rw [hresume] at h
      obtain rfl := eq_of_bodyStart? hresume hstart
      exact h.further hstop

/-- A here-doc takes up its header, and its body with the end line. -/
theorem hereDoc_leads (h : opening? s.template.isSome s.rest = some .hereDoc)
    (hrun : Runs .hereDoc s ts s') (hs : s.InCode (.document d)) : Leads d waited s ts s' := by
  obtain ⟨found, s₁, tokens, done, cs, hat, hfound, rfl, hbody, -, hpos, hresume⟩ :=
    (Move.hereDoc h hrun).hereDoc_spec hs.sound
  obtain ⟨⟨raw, line, ending, hread⟩, -⟩ := takeHereDoc_read hfound
  have hfits := hread.fits hs.sound hat
  have hnext : s.pos ≤ found.next := Nat.le_of_add_right_le hfits.next_le
  have hstop : found.bodyStart ≤ found.bodyStop := Nat.le_of_add_right_le hfits.body_le
  have hrange : (s.textToken .hereDoc found.header.format s.pos found.next).range
      = ⟨s.pos, found.next⟩ := s.token_range hnext
  have htaken : footprints d (found.tokens s ++ tokens)
      = [⟨s.pos, found.next⟩, ⟨found.bodyStart, found.bodyStop⟩] := by
    have hheader : Token.Kind.hereDoc ≠ .hereDocBody := nofun
    rw [footprints_append, hbody.footprints_excerpt (found.inCode s) trivial rfl, List.append_nil,
      OpenHereDoc.tokens, footprints_cons hs.source_eq, footprints_cons hs.source_eq,
      footprints_eq_nil (List.forall_mem_nil _), footprint_of_ne hheader, hrange,
      ← show s.text = d.text from hs.text, hread.footprint_body hs.sound hat]
  intro hheeds used hclear
  obtain ⟨hheader, -⟩ := List.forall_mem_cons.1 hheeds
  have hreads := hheader.reads hs.source_eq nofun
  obtain ⟨hwaited, hcomment⟩ := hheader.waits hs.source_eq rfl
  rw [hrange] at hreads hwaited hcomment
  -- first the header is read, then the body is set aside until the end of the line
  rw [htaken, hpos, hresume, List.append_cons]
  rw [← show s.text = d.text from hs.text] at hclear hwaited hcomment ⊢
  exact (hclear.read hnext hfits.next hreads).body hfits.next hread.start hwaited hcomment hstop

/-! ## Strings -/

/-- A run of text moves the cursor on. -/
theorem State.InCode.run_pos {q : Quoting} {run : Quote.Run} (h : s.InCode source)
    (hrun : takeRun q s = .ok run s') : s.pos ≤ run.next ∧ s'.pos = run.next ∧
      s'.resume = s.resume := by
  obtain ⟨cs, hat⟩ := s.at_of_boundary h.sound.cursor
  obtain ⟨front, rest, rfl, hmove, hpos, -⟩ := takeRun_spec hat hrun
  exact ⟨hpos ▸ hmove.pos_le, hpos, hmove.resume⟩

/-- The dollar sign that stops a run is its last character. -/
theorem State.InCode.run_dollar {q : Quoting} {run : Quote.Run} (h : s.InCode (.document d))
    (hrun : takeRun q s = .ok run s') (hstop : run.stop = .dollar) :
    s.pos ≤ run.next - 1 ∧ Boundary d.text (run.next - 1) := by
  obtain ⟨cs, hat⟩ := s.at_of_boundary h.sound.cursor
  obtain ⟨front, rest, rfl, hmove, hpos, hstops⟩ := takeRun_spec hat hrun
  rw [hstop] at hstops
  cases hstops with
  | dollar body =>
      have hdollar : run.next - 1 = s.pos + byteLength body := by
        rw [← hpos, hmove.pos, byteLength_append]
        rfl
      obtain ⟨before, htext, hbefore⟩ := hat
      rw [hdollar]
      refine ⟨Nat.le_add_right _ _, before ++ body, ['$'] ++ rest, ?_, ?_⟩
      · rw [← show s.text = d.text from h.text, htext]
        simp only [List.append_assoc]
      · rw [hbefore, byteLength_append]

/-- A token takes up what was read of a string up to the end of a run. -/
theorem State.InCode.run_leads {q : Quoting} {run : Quote.Run} {kind : Token.Kind}
    {value : Token.Value} {start : Nat} (h : s.InCode (.document d))
      (hrun : takeRun q s = .ok run s₁)
    (hkind : kind ≠ .hereDocBody) (hstart : start ≤ s.pos) :
    Leads d waited { s with pos := start } [s₁.token kind value start run.next] s₁ := by
  obtain ⟨hpos, hnext, hresume⟩ := h.run_pos hrun
  have hboundary := (h.run hrun).boundary
  rw [hnext] at hboundary
  exact leads_token (h.run hrun).source_eq hkind rfl hnext
    (Nat.le_trans hstart hpos) hboundary hresume

/-- The text before a dollar sign, and the variable that the sign begins. -/
theorem State.InCode.reference_leads {q : Quoting} {run : Quote.Run} {kind : Token.Kind}
    {value : Token.Value} {start : Nat} {name : List Char} (h : s.InCode (.document d))
    (hrun : takeRun q s = .ok run s₁) (hstop : run.stop = .dollar)
    (hname : Token.variableName? s₁.rest = some name) (hkind : kind ≠ .hereDocBody)
    (hstart : start ≤ s.pos) : Leads d waited { s with pos := start }
      [s₁.token kind value start (run.next - 1),
        s₁.textToken .variable name (run.next - 1) (run.next + byteLength name)]
      { s₁ with pos := run.next + byteLength name } := by
  obtain ⟨hpos, hnext, hresume⟩ := h.run_pos hrun
  obtain ⟨hdollar, hboundary⟩ := h.run_dollar hrun hstop
  have hs₁ := h.run hrun
  have hnamed := (hs₁.name hname).boundary
  rw [hnext] at hnamed
  have hfragment : Leads d waited { s with pos := start }
      [s₁.token kind value start (run.next - 1)] { s₁ with pos := run.next - 1 } :=
    leads_token hs₁.source_eq hkind rfl rfl (Nat.le_trans hstart hdollar) hboundary hresume
  have hvariable : Leads d waited { s₁ with pos := run.next - 1 }
      [s₁.textToken .variable name (run.next - 1) (run.next + byteLength name)]
      { s₁ with pos := run.next + byteLength name } :=
    leads_token hs₁.source_eq nofun rfl rfl (by omega) hnamed rfl
  exact hfragment.trans hvariable

theorem fragmentKind_ne_mark (first : Bool) (m : Token.Mark) : fragmentKind first ≠ .mark m := by
  cases first <;> exact nofun

/-- A string does not begin with a mark. -/
theorem Runs.head_ne_mark {q : Quoting} {start : Nat} {first : Bool} {pending : List Char}
    (h : Runs (.fragments q start first pending) s ts s') :
    ∀ t ∈ ts.head?, ∀ m, t.kind ≠ .mark m := by
  generalize htask : Task.fragments q start first pending = task at h
  induction h generalizing q start first pending with
  | last =>
      intro t ht m
      obtain rfl := Option.some.inj ht
      show (if _ then Token.Kind.string else .stringEnd) ≠ .mark m
      split <;> exact nofun
  | braces =>
      intro t ht
      obtain rfl := Option.some.inj ht
      exact fragmentKind_ne_mark _
  | reference =>
      intro t ht
      obtain rfl := Option.some.inj ht
      exact fragmentKind_ne_mark _
  | dollar _ _ _ _ ih => exact ih rfl
  | _ => exact nomatch htask

/-! ## Code -/

/-- The step that closes an interpolation has read a brace. -/
theorem Runs.moves_closeBrace {depth : Nat} {batch : List Token} (h : Runs .step s batch s')
    (hs : s.InCode source) (hcloses : closes depth batch s') :
    ∃ rest, s.At ('}' :: rest) ∧ s.Moves ['}'] s' := by
  obtain ⟨t, rfl, ht⟩ := exists_of_closes hcloses
  cases h with
  | quoted h hrun => exact absurd ht (hrun.head_ne_mark t rfl _)
  | documented h hrun =>
      have hkind := hrun.introduced t rfl
      exact nomatch hkind.symm.trans ht
  | plain h hhereDoc hquote htake =>
      obtain ⟨cs, hat, ho⟩ := at_of_opening hs.sound h
      have htook := takePlain_took hat ho hhereDoc hquote htake
      generalize hts : [t] = ts at htook
      cases htook with
      | skipped => exact nomatch hts
      | newline => exact nomatch hts
      | @token ds rest _ _ _ _ hmove _ htoken _ =>
          obtain rfl := (List.cons.inj hts).1
          obtain rfl : ['}'] = ds := (htoken.longest .closeBrace ht).1
          exact ⟨rest, hat, hmove⟩
      | template hmode =>
          rw [hs.template] at hmode
          exact nomatch hmode

/-- No token is given for the brace that closes an interpolation. -/
theorem Runs.leads_closeBrace {depth : Nat} {batch : List Token} (h : Runs .step s batch s')
    (hs : s.InCode (.document d)) (hcloses : closes depth batch s') : Leads d waited s [] s' := by
  obtain ⟨rest, hat, hmove⟩ := h.moves_closeBrace hs hcloses
  have hs' := (h.inCode hs trivial (List.forall_mem_nil _)).1
  refine leads_skip hmove.pos_le hs'.boundary hmove.resume ?_
  intro line hline _
  have hline' : BeforeFeed s.text s.pos line := by rwa [hs.text]
  obtain ⟨after, hrest, -⟩ := hline'.at hat
  have hbrace : ['}'] ++ rest = line ++ '\n' :: after := hrest
  obtain ⟨back, rfl⟩ := prefix_of_not_mem hbrace (by decide)
  rw [hmove.pos, byteLength_append]
  omega

/-- A rule that is no here-doc and no string; a line feed leads behind the bodies that wait for
it. -/
theorem plain_leads {o : Opening} (hs : s.InCode (.document d))
    (h : opening? s.template.isSome s.rest = some o) (hhereDoc : o ≠ .hereDoc)
    (hquote : o ≠ .doubleQuote) (htake : takePlain o s = .ok ts s') : Leads d waited s ts s' := by
  obtain ⟨cs, hat, ho⟩ := at_of_opening hs.sound h
  by_cases hnewline : o = .newline
  · subst hnewline
    obtain ⟨rfl, rfl⟩ := EStateM.Result.ok.inj htake
    intro _ used hclear
    rw [footprints_eq_nil (List.forall_mem_nil _), List.append_nil]
    exact hclear.newline
  · refine (takePlain_took hat ho hhereDoc hquote htake).leads hs hat ?_
    rintro rest rfl
    exact hnewline (Option.some.inj ho).symm

/-- How a task leads on. A fragment takes up what was read of it before, and the tokens of code come
behind those that were read before. -/
def Task.Leads (d : Document) (waited : Nat → Prop) (s : State) (ts : List Token) (s' : State) :
    Task → Prop
  | .step => Scan.Leads d waited s ts s'
  | .fragments _ start _ _ => start ≤ s.pos → Scan.Leads d waited { s with pos := start } ts s'
  | .code _ tokens => ∃ more, (ts = tokens ++ more ∨ ts = asVariable (tokens ++ more)) ∧
      Scan.Leads d waited s more s'
  | .hereDoc => True

/-- A scan of code whose tokens heed the line feeds that are waited for takes up nothing twice. -/
theorem Runs.leads {task : Task} (h : Runs task s ts s') (hs : s.InCode (.document d))
    (hready : task.Ready s) : task.Leads d waited s ts s' := by
  induction h with
  | nothing => exact leads_nil rfl rfl
  | @quoted s s' ts h hrun ih => exact ih (hs.quote h) trivial (Nat.le_succ s.pos)
  | documented h hrun ih => exact hereDoc_leads h hrun hs
  | plain h hhereDoc hquote htake => exact plain_leads hs h hhereDoc hquote htake
  | @last q start first pending s s' run hrun hstop =>
      refine fun hstart => hs.run_leads hrun ?_ hstart
      cases first <;> exact nofun
  | @braces q start first pending s s₁ s₂ s₃ run code rest hrun hstop hcode hrest ihcode ihrest =>
      intro hstart
      have hs₁ := hs.run hrun
      have hdeeper : State.InCode { s₁ with braceDepth := s₁.braceDepth + 1 } (.document d) :=
        hs₁.congr rfl rfl rfl rfl rfl
      have hs₂ := (hcode.inCode hdeeper trivial (List.forall_mem_nil _)).1
      have hfragment : Leads d waited { s with pos := start }
          [s₁.textToken (fragmentKind first) (pending ++ run.text) start run.next] s₁ := by
        refine hs.run_leads hrun ?_ hstart
        cases first <;> exact nofun
      obtain ⟨more, hmore, hleads⟩ := ihcode hdeeper trivial
      have hinner : Leads d waited s₁ code s₂ := by
        rcases hmore with rfl | rfl
        · exact hleads
        · exact hleads.asVariable
      -- the fragment, the code in its braces and what follows lie one behind the other
      exact hfragment.trans (hinner.trans (ihrest hs₂ trivial (Nat.le_refl _)))
  | @reference q start first pending s s₁ s₂ run name rest hrun hstop hname hrest ih =>
      intro hstart
      have hnamed : State.InCode { s₁ with pos := run.next + byteLength name } (.document d) := by
        rw [← (hs.run_pos hrun).2.1]
        exact (hs.run hrun).name hname
      refine (hs.reference_leads hrun hstop hname ?_ hstart).trans
        (ih hnamed trivial (Nat.le_refl _))
      cases first <;> exact nofun
  | dollar hrun hstop hname hrest ih =>
      intro hstart
      obtain ⟨hpos, hnext, hresume⟩ := hs.run_pos hrun
      -- nothing is taken yet, so that the fragment still begins at `start`
      have hleads := ih (hs.run hrun) trivial (Nat.le_trans hstart (hnext ▸ hpos))
      intro hheeds used hclear
      refine hleads hheeds used ?_
      dsimp only at hclear ⊢
      rwa [hresume]
  | ended => exact ⟨[], .inl (List.append_nil _).symm, leads_nil rfl rfl⟩
  | closed hend hstep hcloses ih =>
      exact ⟨[], .inr (by rw [List.append_nil]), hstep.leads_closeBrace hs hcloses⟩
  | @more depth tokens batch ts s s' s'' hend hstep hcloses hrest ihstep ihrest =>
      have hs' := (hstep.inCode hs trivial (List.forall_mem_nil _)).1
      obtain ⟨k, hk⟩ := passed_eq s' batch
      rw [hk] at ihrest
      obtain ⟨more, hmore, hleads⟩ := ihrest (hs'.congr rfl rfl rfl rfl rfl) trivial
      refine ⟨batch ++ more, ?_, (ihstep hs trivial).trans hleads⟩
      rwa [List.append_assoc] at hmore
  | hereDoc => exact trivial

end Manifest.Scan
