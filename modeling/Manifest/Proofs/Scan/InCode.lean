import Manifest.Proofs.Scan.Progress

/-!
# Where tokens refer to

A scan of code stays in code, and the tokens that it gives refer to the text that is scanned. Those
of the bodies of here-docs are the exception: a body is scanned as a text of its own, and its tokens
refer to that, at every depth.

* `State.InCode` — a scan of code over the text of a source.
* `Runs.inCode` — the tokens of such a scan refer to the source, or to the body of a here-doc.
-/

namespace Manifest.Scan

open Text (Source byteLength)

variable {s s' : State} {cs ds rest : List Char} {ts : List Token} {t : Token} {source : Source}

/-- A scan of code over the text of a source. -/
structure State.InCode (s : State) (source : Source) : Prop where
  sound : s.Sound
  text : s.text = source.text
  source_eq : s.source = source
  template : s.template = none

/-- The token refers to the source, or to the body of a here-doc. -/
def RefersTo (source : Source) (t : Token) : Prop := t.source = source ∨ ∃ e, t.source = .excerpt e

/-- Tokens in code refer to the source. -/
theorem State.InCode.refersTo (h : s.InCode source) {kind : Token.Kind} {value : Token.Value}
    {start stop : Nat} : RefersTo source (s.token kind value start stop) := .inl h.source_eq

/-- A move over code stays in code. -/
theorem State.InCode.moves (h : s.InCode source) (hmove : s.Moves ds s') (hat : s.At (ds ++ rest))
    (htemplate : s'.template = s.template) : s'.InCode source :=
  ⟨hmove.sound h.sound hat, hmove.text.trans h.text, hmove.source.trans h.source_eq,
    htemplate.trans h.template⟩

/-- Names that become variables refer to the same source. -/
theorem refersTo_asVariable (h : ∀ t ∈ ts, RefersTo source t) :
    ∀ t ∈ asVariable ts, RefersTo source t := by
  rcases asVariable_changes ts with heq | ⟨t, us, value, rfl, -, heq⟩
  · rwa [heq]
  · obtain ⟨ht, hus⟩ := List.forall_mem_cons.1 h
    rw [heq]
    exact List.forall_mem_cons.2 ⟨ht, hus⟩

/-- Being in code depends on the text, the cursor and the source alone. -/
theorem State.InCode.congr (h : s.InCode source) (htext : s'.text = s.text) (hpos : s'.pos = s.pos)
    (hresume : s'.resume = s.resume) (hsource : s'.source = s.source)
    (htemplate : s'.template = s.template) : s'.InCode source :=
  ⟨h.sound.congr htext hpos hresume, htext.trans h.text, hsource.trans h.source_eq,
    htemplate.trans h.template⟩

/-- A quote before text with interpolations. -/
theorem State.InCode.quote (h : s.InCode source)
    (hopening : opening? s.template.isSome s.rest = some .doubleQuote) :
    State.InCode { s with pos := s.pos + 1 } source :=
  ⟨(quote_advances h.sound hopening).1.sound, h.text, h.source_eq, h.template⟩

/-- The name of a variable in such a text. -/
theorem State.InCode.name {name : List Char} (h : s.InCode source)
    (hname : Token.variableName? s.rest = some name) :
    State.InCode { s with pos := s.pos + byteLength name } source :=
  ⟨(name_advances h.sound hname).1.sound, h.text, h.source_eq, h.template⟩

/-- The body of a here-doc is scanned as code over its own text. -/
theorem OpenHereDoc.inCode (found : OpenHereDoc) (s : State) :
    (found.bodyState s).InCode (.excerpt found.body.excerpt) :=
  ⟨State.sound_start _ rfl rfl, rfl, rfl, rfl⟩

/-- A run of quoted text stays in code. -/
theorem State.InCode.run {q : Quoting} {run : Quote.Run} (h : s.InCode source)
    (hrun : takeRun q s = .ok run s') : s'.InCode source := by
  obtain ⟨cs, hat⟩ := s.at_of_boundary h.sound.cursor
  obtain ⟨front, rest, rfl, hmove, -, -⟩ := takeRun_spec hat hrun
  obtain ⟨-, ds, rfl⟩ := takeRun_ok hrun
  exact h.moves hmove hat rfl

/-- What a rule takes stays in code, and its tokens refer to the source. -/
theorem Took.inCode (h : Took s cs ts s') (hs : s.InCode source) (hat : s.At cs) :
    s'.InCode source ∧ ∀ t ∈ ts, RefersTo source t := by
  cases h with
  | skipped _ hmove hmode => exact ⟨hs.moves hmove hat hmode, List.forall_mem_nil _⟩
  | newline rest =>
      exact ⟨⟨(newline_progress hs.sound hat rfl).1, hs.text, hs.source_eq, hs.template⟩,
        List.forall_mem_nil _⟩
  | token _ hmove hmode => exact ⟨hs.moves hmove hat hmode, List.forall_mem_singleton.2 hs.refersTo⟩
  | template hmode =>
      rw [hs.template] at hmode
      exact nomatch hmode

/-- A scan of code stays in code. Its tokens refer to its text, and to the bodies of here-docs. -/
theorem Runs.inCode {task : Task} (h : Runs task s ts s') (hs : s.InCode source)
    (hready : task.Ready s) (hgiven : ∀ t ∈ task.given, RefersTo source t) :
    s'.InCode source ∧ ∀ t ∈ ts, RefersTo source t := by
  induction h generalizing source with
  | nothing => exact ⟨hs, List.forall_mem_nil _⟩
  | quoted h hrun ih => exact ih (hs.quote h) trivial (List.forall_mem_nil _)
  | documented h hrun ih =>
      obtain ⟨cs, hat, ho⟩ := at_of_opening hs.sound h
      obtain ⟨rest, rfl⟩ := opening?_begins ho
      exact ih hs ⟨rest, hat⟩ (List.forall_mem_nil _)
  | plain h hhereDoc hquote htake =>
      obtain ⟨cs, hat, ho⟩ := at_of_opening hs.sound h
      exact (takePlain_took hat ho hhereDoc hquote htake).inCode hs hat
  | last hrun hstop =>
      have hs' := hs.run hrun
      exact ⟨hs', List.forall_mem_singleton.2 hs'.refersTo⟩
  | @braces q start first pending s s₁ s₂ s₃ run code rest hrun hstop hcode hrest ihcode ihrest =>
      have hs₁ := hs.run hrun
      have hdeeper : State.InCode { s₁ with braceDepth := s₁.braceDepth + 1 } source :=
        hs₁.congr rfl rfl rfl rfl rfl
      obtain ⟨hs₂, hcode⟩ := ihcode hdeeper trivial (List.forall_mem_nil _)
      obtain ⟨hs₃, hrest⟩ := ihrest hs₂ trivial (List.forall_mem_nil _)
      refine ⟨hs₃, List.forall_mem_cons.2 ⟨hs₁.refersTo, ?_⟩⟩
      exact List.forall_mem_append.2 ⟨hcode, hrest⟩
  | @reference q start first pending s s₁ s₂ run name rest hrun hstop hname hrest ih =>
      have hs₁ := hs.run hrun
      have hpos : run.next = s₁.pos := by
        obtain ⟨-, ds, rfl⟩ := takeRun_ok hrun
        rfl
      have hnamed : State.InCode { s₁ with pos := run.next + byteLength name } source := by
        rw [hpos]
        exact hs₁.name hname
      obtain ⟨hs₂, hrest⟩ := ih hnamed trivial (List.forall_mem_nil _)
      refine ⟨hs₂, List.forall_mem_cons.2 ⟨hs₁.refersTo, ?_⟩⟩
      exact List.forall_mem_cons.2 ⟨hs₁.refersTo, hrest⟩
  | dollar hrun hstop hname hrest ih => exact ih (hs.run hrun) trivial (List.forall_mem_nil _)
  | ended => exact ⟨hs, hgiven⟩
  | closed hend hstep hcloses ih =>
      exact ⟨(ih hs trivial (List.forall_mem_nil _)).1, refersTo_asVariable hgiven⟩
  | @more depth tokens batch ts s s' s'' hend hstep hcloses hrest ihstep ihrest =>
      obtain ⟨hs', hbatch⟩ := ihstep hs trivial (List.forall_mem_nil _)
      obtain ⟨k, hk⟩ := passed_eq s' batch
      rw [hk] at ihrest
      refine ihrest (hs'.congr rfl rfl rfl rfl rfl) trivial ?_
      exact List.forall_mem_append.2 ⟨hgiven, hbatch⟩
  | @hereDoc s s₁ done found tokens hfound hbody ih =>
      obtain ⟨cs, hat⟩ := hready
      obtain ⟨hfits, ds, rfl⟩ := takeHereDoc_ok hs.sound hat hfound
      obtain ⟨-, htokens⟩ := ih (found.inCode s) trivial (List.forall_mem_nil _)
      have hsound' := ((Runs.hereDoc hfound hbody).advances hs.sound ⟨cs, hat⟩).1.sound
      refine ⟨⟨hsound', hs.text, hs.source_eq, hs.template⟩, ?_⟩
      rw [List.forall_mem_append]
      refine ⟨List.forall_mem_cons.2 ⟨hs.refersTo, List.forall_mem_singleton.2 hs.refersTo⟩, ?_⟩
      intro t ht
      rcases htokens t ht with heq | hexcerpt
      · exact .inr ⟨_, heq⟩
      · exact .inr hexcerpt

end Manifest.Scan
