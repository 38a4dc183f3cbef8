import Manifest.Proofs.Scan.Progress

/-!
# Paths of a scan

Rules call one another, so that the states a scan passes lie scattered over nested calls. A path
lists the moves between them one after another, whatever they are part of, and keeps two kinds of
events: line feeds that are reached in code, and here-docs. A path may stop anywhere, also where
the scan fails later on.

* `Move`, `Path` — single moves, and paths made up of them.
* `Runs.path` — a scan that succeeds has gone along a path; the tokens of its here-docs are among
  its own.
* `Path.keeps`, `Path.steady` — what lasts along a path, and along one without events.
-/

namespace Manifest.Scan

open Text (byteLength)
open scoped List

/-- What is told of a move. -/
inductive Event
  /-- a line feed that was reached in code -/
  | newline
  /-- a here-doc with all its tokens -/
  | hereDoc (tokens : List Token)

/-- A move of a scan that succeeds: a rule, or a part of the reading of text with interpolations. -/
inductive Move (s : State) : Option Event → State → Prop
  | plain {o : Opening} {ts : List Token} {s' : State}
      (h : opening? s.template.isSome s.rest = some o) (hhereDoc : o ≠ .hereDoc)
      (hquote : o ≠ .doubleQuote) (hnewline : o ≠ .newline) (htake : takePlain o s = .ok ts s') :
      Move s none s'
  | newline {ts : List Token} {s' : State} (h : opening? s.template.isSome s.rest = some .newline)
      (htake : takePlain .newline s = .ok ts s') : Move s (some .newline) s'
  | hereDoc {ts : List Token} {s' : State} (h : opening? s.template.isSome s.rest = some .hereDoc)
      (hrun : Runs .hereDoc s ts s') : Move s (some (.hereDoc ts)) s'
  /-- the quote before a text with interpolations -/
  | quote (h : opening? s.template.isSome s.rest = some .doubleQuote) :
      Move s none { s with pos := s.pos + 1 }
  /-- a run of such a text -/
  | run {q : Quoting} {run : Quote.Run} {s' : State} (h : takeRun q s = .ok run s') : Move s none s'
  /-- the name of a variable in such a text -/
  | name {name : List Char} (h : Token.variableName? s.rest = some name) :
      Move s none { s with pos := s.pos + byteLength name }
  /-- the code of an interpolation begins -/
  | brace : Move s none { s with braceDepth := s.braceDepth + 1 }
  /-- tokens were passed on -/
  | passed (kind : Option Token.Kind) : Move s none { s with after := kind }
  /-- the first text of a template -/
  | template {ts : List Token} {s' : State}
      (h : takeTemplateText false { s with template := some .text } = .ok ts s') : Move s none s'

/-- Moves one after another, and the events among them. -/
inductive Path : State → List Event → State → Prop
  | nil (s : State) : Path s [] s
  | silent {s s₁ s' : State} {es : List Event} (hmove : Move s none s₁) (hpath : Path s₁ es s') :
      Path s es s'
  | event {s s₁ s' : State} {e : Event} {es : List Event} (hmove : Move s (some e) s₁)
      (hpath : Path s₁ es s') : Path s (e :: es) s'

variable {s s' s₁ : State} {es fs : List Event} {e : Event} {ts us : List Token} {t : Token}

/-! ## Putting paths together -/

/-- A silent move is a path. -/
theorem Move.path (h : Move s none s') : Path s [] s' := .silent h (.nil s')

/-- Paths follow one another. -/
theorem Path.trans (h : Path s es s₁) (h' : Path s₁ fs s') : Path s (es ++ fs) s' := by
  induction h with
  | nil => exact h'
  | silent hmove _ ih => exact .silent hmove (ih h')
  | event hmove _ ih => exact .event hmove (ih h')

/-- A path can be cut between two of its events. -/
theorem Path.cut (h : Path s (es ++ fs) s') : ∃ s₁, Path s es s₁ ∧ Path s₁ fs s' := by
  generalize hall : es ++ fs = all at h
  induction h generalizing es with
  | nil s =>
      obtain ⟨rfl, rfl⟩ := List.append_eq_nil_iff.1 hall
      exact ⟨s, .nil s, .nil s⟩
  | silent hmove _ ih =>
      obtain ⟨s₁, hfront, hback⟩ := ih hall
      exact ⟨s₁, .silent hmove hfront, hback⟩
  | @event s s₂ s' e more hmove hpath ih =>
      cases es with
      | nil =>
          obtain rfl : fs = e :: more := hall
          exact ⟨s, .nil s, .event hmove hpath⟩
      | cons d es =>
          obtain ⟨rfl, htail⟩ := List.cons.inj hall
          obtain ⟨s₁, hfront, hback⟩ := ih htail
          exact ⟨s₁, .event hmove hfront, hback⟩

/-- The first event of a path, with the silent moves before it. -/
theorem Path.uncons (h : Path s (e :: es) s') :
    ∃ s₁ s₂, Path s [] s₁ ∧ Move s₁ (some e) s₂ ∧ Path s₂ es s' := by
  generalize hall : e :: es = all at h
  induction h with
  | nil => exact nomatch hall
  | silent hmove _ ih =>
      obtain ⟨s₁, s₂, hfront, hevent, hback⟩ := ih hall
      exact ⟨s₁, s₂, .silent hmove hfront, hevent, hback⟩
  | @event s s₂ s' e' es' hmove hpath ih =>
      obtain ⟨rfl, rfl⟩ := List.cons.inj hall
      exact ⟨s, s₂, .nil s, hmove, hpath⟩

/-! ## What lasts -/

/-- A scan goes on over the same text, from a cursor that is sound. -/
structure State.Lasts (s s' : State) : Prop where
  sound : s'.Sound
  text : s'.text = s.text
  source : s'.source = s.source
  options : s'.options = s.options

/-- Also the place that a line feed leads to stays what it is. -/
structure State.Steady (s s' : State) : Prop extends s.Lasts s' where
  resume : s'.resume = s.resume

theorem State.Sound.steady (h : s.Sound) : s.Steady s := ⟨⟨h, rfl, rfl, rfl⟩, rfl⟩

/-- What lasts over two moves. -/
theorem State.Lasts.trans (h : s.Lasts s₁) (h' : s₁.Lasts s') : s.Lasts s' :=
  ⟨h'.sound, h'.text.trans h.text, h'.source.trans h.source, h'.options.trans h.options⟩

theorem State.Steady.trans (h : s.Steady s₁) (h' : s₁.Steady s') : s.Steady s' :=
  ⟨h.toLasts.trans h'.toLasts, h'.resume.trans h.resume⟩

/-- A move over text is steady. -/
theorem State.Moves.steady {ds cs : List Char} (h : s.Moves ds s') (hsound : s.Sound)
    (hat : s.At (ds ++ cs)) : s.Steady s' :=
  ⟨⟨h.sound hsound hat, h.text, h.source, h.options⟩, h.resume⟩

/-- Only line feeds that are reached in code, and here-docs, change where a line feed leads. -/
theorem Move.steady (h : Move s none s') (hsound : s.Sound) : s.Steady s' := by
  obtain ⟨cs, hat⟩ := s.at_of_boundary hsound.cursor
  cases h with
  | @plain o ts s' h hhereDoc hquote hnewline htake =>
      rw [hat.rest] at h
      have htook := takePlain_took hat h hhereDoc hquote htake
      cases htook with
      | skipped _ hmove _ => exact hmove.steady hsound hat
      | newline rest => exact absurd (Option.some.inj h.symm) hnewline
      | token _ hmove _ _ => exact hmove.steady hsound hat
      | template _ _ hmove _ _ => exact hmove.steady hsound hat
  | quote h =>
      rw [hat.rest] at h
      obtain ⟨rest, rfl⟩ := opening?_begins h
      exact (s.moves_pos ['"']).steady hsound hat
  | run h =>
      obtain ⟨front, rest, rfl, hmove, -, -⟩ := takeRun_spec hat h
      exact hmove.steady hsound hat
  | name h =>
      rw [hat.rest] at h
      obtain ⟨⟨rest, rfl⟩, -⟩ := Token.variableName?_isPrefix h
      exact (s.moves_pos _).steady hsound hat
  | brace => exact ⟨⟨hsound.congr rfl rfl rfl, rfl, rfl, rfl⟩, rfl⟩
  | passed kind => exact ⟨⟨hsound.congr rfl rfl rfl, rfl, rfl, rfl⟩, rfl⟩
  | template h =>
      have hat' : State.At { s with template := some .text } cs := hat
      obtain ⟨ds, rest, rfl, hmove, -, -⟩ := takeTemplateText_spec hat' h
      have hsteady := hmove.steady (hsound.congr rfl rfl rfl) hat'
      exact ⟨⟨hsteady.sound, hsteady.text, hsteady.source, hsteady.options⟩, hsteady.resume⟩

/-- A line feed that is reached in code leads behind the bodies of here-docs, if there are any. -/
theorem Move.newline_eq (h : Move s (some .newline) s') :
    s' = { s with pos := s.resume.getD (s.pos + 1), lineStart := s.resume.getD (s.pos + 1),
                  resume := none } := by
  cases h with
  | newline h htake =>
      obtain ⟨-, rfl⟩ := EStateM.Result.ok.inj htake
      rfl

/-- What a here-doc does to the state. -/
theorem Move.hereDoc_spec (h : Move s (some (.hereDoc ts)) s') (hsound : s.Sound) :
    ∃ found s₁ tokens done cs, s.At ('@' :: '(' :: cs) ∧ takeHereDoc s = .ok found s₁ ∧
      ts = found.tokens s ++ tokens ∧
      Runs (.fragments (found.quoting s) 0 true []) (found.bodyState s) tokens done ∧
      s.Lasts s' ∧ s'.pos = found.next ∧ s'.resume = some found.bodyStop := by
  cases h with
  | hereDoc h hrun =>
      obtain ⟨cs, hat, h⟩ := at_of_opening hsound h
      obtain ⟨rest, rfl⟩ := opening?_begins h
      cases hrun with
      | @hereDoc _ s₁ done found tokens hfound hbody =>
          obtain ⟨hfits, ds, rfl⟩ := takeHereDoc_ok hsound hat hfound
          refine ⟨found, _, tokens, done, rest, hat, hfound, rfl, hbody,
            ⟨⟨hfits.next, ?_⟩, rfl, rfl, rfl⟩, rfl, rfl⟩
          intro r hr
          obtain rfl := Option.some.inj hr
          exact hfits.bodyStop

/-- The text stays what it is, and so does the soundness of the cursor. -/
theorem Move.lasts {e : Option Event} (h : Move s e s') (hsound : s.Sound) : s.Lasts s' := by
  cases e with
  | none => exact (h.steady hsound).toLasts
  | some e =>
      cases e with
      | newline =>
          obtain rfl := h.newline_eq
          cases h with
          | newline h htake =>
              obtain ⟨cs, hat, h⟩ := at_of_opening hsound h
              obtain ⟨rest, rfl⟩ := opening?_begins h
              exact ⟨(newline_progress hsound hat rfl).1, rfl, rfl, rfl⟩
      | hereDoc ts =>
          obtain ⟨_, _, _, _, _, _, _, _, _, hlasts, _, _⟩ := h.hereDoc_spec hsound
          exact hlasts

/-- A path keeps the text and the options. -/
theorem Path.lasts (h : Path s es s') (hsound : s.Sound) : s.Lasts s' := by
  induction h with
  | nil => exact hsound.steady.toLasts
  | silent hmove _ ih =>
      have hlasts := hmove.lasts hsound
      exact hlasts.trans (ih hlasts.sound)
  | event hmove _ ih =>
      have hlasts := hmove.lasts hsound
      exact hlasts.trans (ih hlasts.sound)

/-- Without an event, a line feed leads where it has led before. -/
theorem Path.steady (h : Path s [] s') (hsound : s.Sound) : s.Steady s' := by
  generalize hes : ([] : List Event) = es at h
  induction h with
  | nil => exact hsound.steady
  | silent hmove _ ih =>
      have hsteady := hmove.steady hsound
      exact hsteady.trans (ih hsteady.sound hes)
  | event => exact nomatch hes

/-! ## Runs go along paths -/

/-- The tokens of the here-docs among events. -/
def hereDocTokens : List Event → List Token
  | [] => []
  | .newline :: es => hereDocTokens es
  | .hereDoc ts :: es => ts ++ hereDocTokens es

/-- The here-docs of a path are those of its parts. -/
theorem hereDocTokens_append (es fs : List Event) :
    hereDocTokens (es ++ fs) = hereDocTokens es ++ hereDocTokens fs := by
  induction es with
  | nil => rfl
  | cons e es ih =>
      cases e with
      | newline => exact ih
      | hereDoc ts => rw [List.cons_append, hereDocTokens, ih, hereDocTokens, List.append_assoc]

/-- The first one of these tokens introduces a here-doc. -/
def Introduced (ts : List Token) : Prop := ∀ t ∈ ts.head?, t.kind = .hereDoc

theorem introduced_nil : Introduced [] := fun _ h => nomatch h

/-- Tokens in a row. -/
theorem Introduced.append (h : Introduced ts) (h' : Introduced us) : Introduced (ts ++ us) := by
  cases ts with
  | nil => exact h'
  | cons => exact h

/-- The tokens of a here-doc are introduced by its header. -/
theorem Runs.introduced (h : Runs .hereDoc s ts s') : Introduced ts := by
  cases h with
  | hereDoc hfound hbody =>
      intro t ht
      obtain rfl := Option.some.inj ht
      rfl

/-- The here-docs on a path are introduced by their headers. -/
theorem Path.introduced (h : Path s es s') : Introduced (hereDocTokens es) := by
  induction h with
  | nil => exact introduced_nil
  | silent _ _ ih => exact ih
  | event hmove _ ih =>
      cases hmove with
      | newline => exact ih
      | hereDoc _ hrun => exact hrun.introduced.append ih

/-- Tokens that do not begin with the first one of a list are in the rest of it. -/
theorem sublist_of_cons {p : Token → Prop} (h : ts <+ t :: us) (hts : ∀ t ∈ ts.head?, p t)
    (ht : ¬ p t) :
    ts <+ us := by
  cases h with
  | cons _ h => exact h
  | cons_cons _ h => exact absurd (hts t rfl) ht

/-- The first token of an interpolation may become a variable, but no here-doc does. -/
theorem Introduced.asVariable (h : Introduced ts) (hsub : ts <+ us) : ts <+ asVariable us := by
  have hhead : ∀ u us, ts <+ u :: us → ts <+ toVariable u :: us := by
    intro u us hsub
    unfold toVariable
    split
    next hname =>
      refine (sublist_of_cons hsub h ?_).cons _
      intro hkind
      rw [hkind] at hname
      exact Bool.noConfusion hname
    next => exact hsub
  rcases asVariable_cases us with heq | ⟨u, us, rfl, heq⟩
  · rwa [heq]
  · rw [heq]
    exact hhead u us hsub

/-- The path of a task, with its here-docs among the tokens. -/
def Task.Walks (s : State) (ts : List Token) (s' : State) : Task → Prop
  | .step | .fragments .. => ∃ es, Path s es s' ∧ hereDocTokens es <+ ts
  | .code _ tokens => ∃ es, Path s es s' ∧
      ∀ given, Introduced given → given <+ tokens → given ++ hereDocTokens es <+ ts
  | .hereDoc => Runs .hereDoc s ts s'

/-- A task that succeeds has gone along a path. -/
theorem Runs.walks {task : Task} (h : Runs task s ts s') (hsound : s.Sound)
    (hready : task.Ready s) : task.Walks s ts s' := by
  induction h with
  | nothing h => exact ⟨[], .nil _, List.Sublist.refl _⟩
  | quoted h hrun ih =>
      obtain ⟨es, hpath, hsub⟩ := ih (quote_advances hsound h).1.sound trivial
      exact ⟨es, .silent (.quote h) hpath, hsub⟩
  | @documented s s' ts h hrun ih =>
      have hown : hereDocTokens [.hereDoc ts] = ts := List.append_nil ts
      refine ⟨[.hereDoc ts], .event (.hereDoc h hrun) (.nil _), ?_⟩
      simp only [hown, List.Sublist.refl]
  | @plain s s' ts o h hhereDoc hquote htake =>
      by_cases hnewline : o = .newline
      · subst hnewline
        exact ⟨[.newline], .event (.newline h htake) (.nil _), List.nil_sublist _⟩
      · exact ⟨[], (Move.plain h hhereDoc hquote hnewline htake).path, List.nil_sublist _⟩
  | last hrun hstop => exact ⟨[], (Move.run hrun).path, List.nil_sublist _⟩
  | @braces q start first pending s s₁ s₂ s₃ run code rest hrun hstop hcode hrest ihcode ihrest =>
      have hsound₁ := ((Move.run hrun).steady hsound).sound
      have hsound' := (Move.brace.steady hsound₁).sound
      obtain ⟨es, hpath, hsub⟩ := ihcode hsound' trivial
      obtain ⟨fs, hpath', hsub'⟩ := ihrest (hcode.advances hsound' trivial).1.sound trivial
      refine ⟨es ++ fs, .silent (.run hrun) (.silent .brace (hpath.trans hpath')), ?_⟩
      rw [hereDocTokens_append, List.cons_append]
      exact ((hsub [] introduced_nil (List.nil_sublist _)).append hsub').cons _
  | @reference q start first pending s s₁ s₂ run name rest hrun hstop hname hrest ih =>
      have hsound₁ := ((Move.run hrun).steady hsound).sound
      have hpos : run.next = s₁.pos := by
        obtain ⟨-, ds, rfl⟩ := takeRun_ok hrun
        rfl
      rw [hpos] at ih
      obtain ⟨es, hpath, hsub⟩ := ih ((Move.name hname).steady hsound₁).sound trivial
      exact ⟨es, .silent (.run hrun) (.silent (.name hname) hpath), (hsub.cons _).cons _⟩
  | dollar hrun hstop hname hrest ih =>
      obtain ⟨es, hpath, hsub⟩ := ih ((Move.run hrun).steady hsound).sound trivial
      exact ⟨es, .silent (.run hrun) hpath, hsub⟩
  | ended hend =>
      refine ⟨[], .nil _, ?_⟩
      intro given _ hgiven
      rwa [hereDocTokens, List.append_nil]
  | @closed depth tokens batch s s' hend hstep hcloses ih =>
      obtain ⟨es, hpath, hsub⟩ := ih hsound trivial
      refine ⟨es, hpath, ?_⟩
      intro given hintroduced hgiven
      -- the brace that closes the code introduces no here-doc
      have hnone : hereDocTokens es = [] := by
        unfold closes at hcloses
        split at hcloses
        next t =>
          rw [Bool.and_eq_true, decide_eq_true_iff] at hcloses
          refine List.sublist_nil.1 (sublist_of_cons hsub hpath.introduced ?_)
          rw [hcloses.1]
          exact nofun
        next => exact nomatch hcloses
      rw [hnone, List.append_nil]
      exact hintroduced.asVariable hgiven
  | @more depth tokens batch ts s s' s'' hend hstep hcloses hrest ihstep ihrest =>
      obtain ⟨es, hpath, hsub⟩ := ihstep hsound trivial
      obtain ⟨k, hk⟩ := passed_eq s' batch
      rw [hk] at ihrest
      have hsound' := (hpath.lasts hsound).sound
      obtain ⟨fs, hpath', hsub'⟩ := ihrest ((Move.passed k).steady hsound').sound trivial
      refine ⟨es ++ fs, hpath.trans (.silent (.passed k) hpath'), ?_⟩
      intro given hintroduced hgiven
      rw [hereDocTokens_append, ← List.append_assoc]
      exact hsub' _ (hintroduced.append hpath.introduced) (hgiven.append hsub)
  | hereDoc hfound hbody ih => exact .hereDoc hfound hbody

/-- A scan step that succeeds has gone along a path; its here-docs are among its tokens. -/
theorem Runs.path (h : Runs .step s ts s') (hsound : s.Sound) :
    ∃ es, Path s es s' ∧ hereDocTokens es <+ ts :=
  h.walks hsound trivial

end Manifest.Scan
