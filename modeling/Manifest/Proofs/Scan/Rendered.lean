import Manifest.Proofs.Scan.Lookback
import Manifest.Proofs.Scan.Path

/-!
# Values and tags of a template

A tag whose value is rendered has a token at its start and one at its end, and nothing but code
between them. Whether such a tag is open is part of the state, so that what a scan gives can be
followed through every interpolation; the bodies of here-docs are texts of their own and hold code
alone.

* `Renders`, `Rendered` — tokens from one state to another, and those of a whole template.
* `Runs.code_of_template` — outside of templates there is nothing but code.
* `Runs.renders` — what a scan of a template gives.
* `Tour` — the stretches of text that a scan reads, one after the other; `Tour.behind` — the last
  one tells which tag is open.
-/

namespace Manifest.Scan

open Token (Kind Mark)

variable {s s' s₁ : State} {ts us : List Token} {t : Token} {task : Task} {b b' b₁ : Bool}
  {kind : Kind} {endings : List Template.Ending} {es : List Event} {e : Option Event}

/-! ## Grammar -/

/-- The kinds that end a value. -/
def endsValue : Kind → Bool
  | .mark .tagEnd | .mark .trimmingTagEnd => true
  | _ => false

/-- None of the tokens is one that only templates have. -/
def Code (ts : List Token) : Prop := ∀ t ∈ ts, t.kind.isTemplate = false

/-- The tokens of a template, from a place where a value is open or not to another. -/
inductive Renders : Bool → List Token → Bool → Prop
  | nil (b : Bool) : Renders b [] b
  | code {b b' : Bool} {t : Token} {ts : List Token} : t.kind.isTemplate = false →
      Renders b ts b' → Renders b (t :: ts) b'
  | text {b' : Bool} {t : Token} {ts : List Token} : t.kind = .renderString →
      Renders false ts b' → Renders false (t :: ts) b'
  | opens {b' : Bool} {t : Token} {ts : List Token} : t.kind = .renderExpression →
      Renders true ts b' → Renders false (t :: ts) b'
  | closes {b' : Bool} {t : Token} {ts : List Token} : endsValue t.kind →
      Renders false ts b' → Renders true (t :: ts) b'

/-- Code, text and values; a value goes from the token that renders it to the one that ends its tag,
with code between them. -/
inductive Rendered : List Token → Prop
  | nil : Rendered []
  | code {t : Token} {ts : List Token} : t.kind.isTemplate = false → Rendered ts →
    Rendered (t :: ts)
  | text {t : Token} {ts : List Token} : t.kind = .renderString → Rendered ts → Rendered (t :: ts)
  | value {t u : Token} {inside ts : List Token} : t.kind = .renderExpression → Code inside →
      endsValue u.kind → Rendered ts → Rendered (t :: inside ++ u :: ts)

theorem Renders.eq_of_nil (h : Renders b [] b') : b' = b := by
  cases h
  rfl

/-- Tokens in a row. -/
theorem Renders.append (h : Renders b ts b₁) (h' : Renders b₁ us b') : Renders b (ts ++ us) b' := by
  induction h with
  | nil => exact h'
  | code hkind _ ih => exact .code hkind (ih h')
  | text hkind _ ih => exact .text hkind (ih h')
  | opens hkind _ ih => exact .opens hkind (ih h')
  | closes hkind _ ih => exact .closes hkind (ih h')

/-- Code leaves text and values as they are. -/
theorem Code.renders (h : Code ts) (b : Bool) : Renders b ts b := by
  induction ts with
  | nil => exact .nil b
  | cons t ts ih =>
      obtain ⟨ht, hts⟩ := List.forall_mem_cons.1 h
      exact .code ht (ih hts)

/-- Texts stand outside of values. -/
theorem renders_texts (h : ∀ t ∈ ts, t.kind = .renderString) : Renders false ts false := by
  induction ts with
  | nil => exact .nil false
  | cons t ts ih =>
      obtain ⟨ht, hts⟩ := List.forall_mem_cons.1 h
      exact .text ht (ih hts)

/-- A token of code does not matter for values. -/
theorem Renders.of_code (h : Renders b (t :: ts) b') (ht : t.kind.isTemplate = false) :
    Renders b ts b' := by
  cases h with
  | code _ hts => exact hts
  | text hkind => rw [hkind] at ht; exact nomatch ht
  | opens hkind => rw [hkind] at ht; exact nomatch ht
  | closes hkind =>
      unfold endsValue at hkind
      split at hkind
      next heq => rw [heq] at ht; exact nomatch ht
      next heq => rw [heq] at ht; exact nomatch ht
      next => exact nomatch hkind

/-- Tokens that leave no value open are rendered; where one is open, code and its end come first. -/
theorem Renders.rendered (h : Renders b ts b') (hclosed : b' = false) :
    if b then ∃ inside u rest, ts = inside ++ u :: rest ∧ Code inside ∧ endsValue u.kind ∧
      Rendered rest
    else Rendered ts := by
  induction h with
  | nil b =>
      subst hclosed
      exact Rendered.nil
  | @code b b' t ts hkind _ ih =>
      cases b with
      | false => exact .code hkind (ih hclosed)
      | true =>
          obtain ⟨inside, u, rest, rfl, hinside, hu, hrest⟩ := ih hclosed
          exact ⟨t :: inside, u, rest, rfl, List.forall_mem_cons.2 ⟨hkind, hinside⟩, hu, hrest⟩
  | text hkind _ ih => exact .text hkind (ih hclosed)
  | opens hkind _ ih =>
      obtain ⟨inside, u, rest, rfl, hinside, hu, hrest⟩ := ih hclosed
      exact .value hkind hinside hu hrest
  | @closes b' t ts hkind _ ih => exact ⟨[], t, ts, rfl, List.forall_mem_nil _, hkind, ih hclosed⟩

/-! ## Code of interpolations -/

/-- What stands for a variable is a token of code. -/
theorem isTemplate_of_namesVariable (h : namesVariable kind) : kind.isTemplate = false := by
  cases kind with
  | mark m => exact nomatch h
  | templateStart => exact nomatch h
  | renderString => exact nomatch h
  | renderExpression => exact nomatch h
  | _ => rfl

/-- A token that becomes a variable is one of code, and so is the variable. -/
theorem asVariable_code (ts : List Token) : asVariable ts = ts ∨
    ∃ t u us, ts = t :: us ∧ asVariable ts = u :: us ∧ t.kind.isTemplate = false ∧
      u.kind.isTemplate = false := by
  rcases asVariable_changes ts with heq | ⟨t, us, value, hts, hnames, heq⟩
  · exact .inl heq
  · exact .inr ⟨t, _, us, hts, heq, isTemplate_of_namesVariable hnames, rfl⟩

/-- Names that become variables. -/
theorem Renders.asVariable (h : Renders b ts b') : Renders b (asVariable ts) b' := by
  rcases asVariable_code ts with heq | ⟨t, u, us, rfl, heq, ht, hu⟩
  · rwa [heq]
  · rw [heq]
    exact .code hu (h.of_code ht)

theorem Code.asVariable (h : Code ts) : Code (asVariable ts) := by
  rcases asVariable_code ts with heq | ⟨t, u, us, rfl, heq, -, hu⟩
  · rwa [heq]
  · rw [heq]
    exact List.forall_mem_cons.2 ⟨hu, (List.forall_mem_cons.1 h).2⟩

/-- A token on its own is code. -/
theorem Lone.code {k : Option Kind} (h : Lone k ts) : Code ts := by
  rcases h with rfl | ⟨t, rfl, ht, -⟩
  · exact List.forall_mem_nil _
  · exact List.forall_mem_singleton.2 ht

/-- Fragments of strings are code. -/
theorem isTemplate_fragmentKind (first : Bool) : (fragmentKind first).isTemplate = false := by
  cases first with
  | true => rfl
  | false => rfl

theorem isTemplate_lastKind (first : Bool) :
    (if first then Kind.string else .stringEnd).isTemplate = false := by
  cases first with
  | true => rfl
  | false => rfl

/-- The tokens of a here-doc are code. -/
theorem OpenHereDoc.code_tokens (found : OpenHereDoc) (s : State) : Code (found.tokens s) :=
  List.forall_mem_cons.2 ⟨rfl, List.forall_mem_singleton.2 rfl⟩

/-- A batch of tokens leaves the template as it is. -/
theorem passed_template (s : State) (batch : List Token) :
    (s.passed batch).template = s.template := by
  obtain ⟨k, hk⟩ := passed_eq s batch
  rw [hk]

/-! ## Runs -/

/-- Outside of templates there is nothing but code. -/
theorem Runs.code_of_template (h : Runs task s ts s') (hnone : s.template = none)
    (hgiven : Code task.given) : s'.template = none ∧ Code ts := by
  induction h with
  | nothing => exact ⟨hnone, List.forall_mem_nil _⟩
  | quoted h hrun ih => exact ih hnone (List.forall_mem_nil _)
  | documented h hrun ih => exact ih hnone (List.forall_mem_nil _)
  | @plain s s' ts o h hhereDoc hquote htake =>
      -- outside of templates no tag ends
      have htag : ∀ trims, o ≠ .tagEnd trims := by
        rintro trims rfl
        have htemplate := isSome_of_tagEnd h
        rw [hnone] at htemplate
        exact nomatch htemplate
      obtain ⟨hremembers, hlone⟩ := takePlain_lone h htag htake
      exact ⟨hremembers.template.trans hnone, hlone.code⟩
  | @last q start first pending s s' run hrun hstop =>
      exact ⟨(takeRun_remembers hrun).template.trans hnone,
        List.forall_mem_singleton.2 (isTemplate_lastKind first)⟩
  | @braces q start first pending s s₁ s₂ s₃ run code rest hrun hstop hcode hrest ihcode ihrest =>
      obtain ⟨hnone₂, hcode⟩ := ihcode ((takeRun_remembers hrun).template.trans hnone) hgiven
      obtain ⟨hnone₃, hrest⟩ := ihrest hnone₂ hgiven
      refine ⟨hnone₃, List.forall_mem_cons.2 ⟨isTemplate_fragmentKind first, ?_⟩⟩
      exact List.forall_mem_append.2 ⟨hcode, hrest⟩
  | @reference q start first pending s s₁ s₂ run name rest hrun hstop hname hrest ih =>
      obtain ⟨hnone', hrest⟩ := ih ((takeRun_remembers hrun).template.trans hnone) hgiven
      exact ⟨hnone', List.forall_mem_cons.2 ⟨isTemplate_fragmentKind first,
        List.forall_mem_cons.2 ⟨rfl, hrest⟩⟩⟩
  | dollar hrun hstop hname hrest ih =>
      exact ih ((takeRun_remembers hrun).template.trans hnone) hgiven
  | ended => exact ⟨hnone, hgiven⟩
  | closed hend hstep hcloses ih =>
      exact ⟨(ih hnone (List.forall_mem_nil _)).1, Code.asVariable hgiven⟩
  | more hend hstep hcloses hrest ihstep ihrest =>
      obtain ⟨hnone', hbatch⟩ := ihstep hnone (List.forall_mem_nil _)
      exact ihrest ((passed_template _ _).trans hnone')
        (List.forall_mem_append.2 ⟨hgiven, hbatch⟩)
  | @hereDoc s s₁ done found tokens hfound hbody ih =>
      obtain ⟨-, htokens⟩ := ih rfl (List.forall_mem_nil _)
      exact ⟨(takeHereDoc_remembers hfound).template.trans hnone,
        List.forall_mem_append.2 ⟨found.code_tokens s₁, htokens⟩⟩

/-- A value of a template is open. -/
def State.inValue (s : State) : Bool := s.template = some .render

/-- What remembers the state is in a value where the state is. -/
theorem State.Remembers.inValue (h : s.Remembers s') : s'.inValue = s.inValue := by
  rw [State.inValue, State.inValue, h.template]

/-- A template stays one, and the tokens lead from one state to the other; those of code do so with
the tokens that were given before. -/
def Task.Renders (s : State) (ts : List Token) (s' : State) : Task → Prop
  | .step | .fragments .. | .hereDoc => s'.template.isSome ∧ Scan.Renders s.inValue ts s'.inValue
  | .code _ tokens => s'.template.isSome ∧
      ∀ b, Scan.Renders b tokens s.inValue → Scan.Renders b ts s'.inValue

/-- Behind a stretch of text a value begins, or code. -/
theorem ReadsStretch.inValue {skipLeading : Bool} {found : Template.Stretch}
    (h : ReadsStretch s skipLeading found ts s') :
    s'.template.isSome ∧ Renders false ts s'.inValue := by
  obtain ⟨text, htext, rfl⟩ := h.tokens
  obtain rfl := h.state
  refine ⟨rfl, (renders_texts htext).append ?_⟩
  unfold State.valueStart State.inValue
  cases found.ending with
  | endOfText => exact .nil false
  | code tag => exact .nil false
  | render tag => exact .opens rfl (.nil true)

/-- What closes a value closes one that is open. -/
theorem renders_valueEnd (s : State) (trims : Bool) :
    Renders s.inValue (s.valueEnd trims) false := by
  unfold State.inValue State.valueEnd
  by_cases hrender : s.template = some .render
  · rw [if_pos hrender, decide_eq_true hrender]
    refine .closes ?_ (.nil false)
    cases trims <;> rfl
  · rw [if_neg hrender, decide_eq_false hrender]
    exact .nil false

/-- What a scan of a template gives leads from where the template was to where it is. -/
theorem Runs.renders (h : Runs task s ts s') (hsome : s.template.isSome) :
    task.Renders s ts s' := by
  induction h with
  | nothing => exact ⟨hsome, .nil _⟩
  | quoted h hrun ih => exact ih hsome
  | documented h hrun ih => exact ih hsome
  | @plain s s' ts o h hhereDoc hquote htake =>
      by_cases htag : ∃ trims, o = .tagEnd trims
      · obtain ⟨trims, rfl⟩ := htag
        obtain ⟨text, found, rfl, hreads⟩ := takeTagEnd_ok htake
        obtain ⟨hsome', htext⟩ := hreads.inValue
        exact ⟨hsome', (renders_valueEnd s trims).append htext⟩
      · obtain ⟨hremembers, hlone⟩ := takePlain_lone h (fun trims heq => htag ⟨trims, heq⟩) htake
        refine ⟨hremembers.template ▸ hsome, ?_⟩
        rw [hremembers.inValue]
        exact hlone.code.renders _
  | @last q start first pending s s' run hrun hstop =>
      have hremembers := takeRun_remembers hrun
      refine ⟨hremembers.template ▸ hsome, ?_⟩
      rw [hremembers.inValue]
      exact .code (isTemplate_lastKind first) (.nil _)
  | @braces q start first pending s s₁ s₂ s₃ run code rest hrun hstop hcode hrest ihcode ihrest =>
      have hremembers := takeRun_remembers hrun
      obtain ⟨hsome₂, hrenders⟩ := ihcode (hremembers.template ▸ hsome)
      obtain ⟨hsome₃, hrenders'⟩ := ihrest hsome₂
      refine ⟨hsome₃, .code (isTemplate_fragmentKind first) ?_⟩
      rw [← hremembers.inValue]
      exact (hrenders _ (.nil _)).append hrenders'
  | @reference q start first pending s s₁ s₂ run name rest hrun hstop hname hrest ih =>
      have hremembers := takeRun_remembers hrun
      obtain ⟨hsome', hrenders⟩ := ih (hremembers.template ▸ hsome)
      refine ⟨hsome', .code (isTemplate_fragmentKind first) (.code rfl ?_)⟩
      rw [← hremembers.inValue]
      exact hrenders
  | dollar hrun hstop hname hrest ih =>
      have hremembers := takeRun_remembers hrun
      obtain ⟨hsome', hrenders⟩ := ih (hremembers.template ▸ hsome)
      rw [hremembers.inValue] at hrenders
      exact ⟨hsome', hrenders⟩
  | ended => exact ⟨hsome, fun _ => id⟩
  | @closed depth tokens batch s s' hend hstep hcloses ih =>
      obtain ⟨hsome', hrenders⟩ := ih hsome
      refine ⟨hsome', ?_⟩
      intro b htokens
      -- the brace that closes the code is a token of code
      have hclose : s'.inValue = s.inValue := by
        unfold closes at hcloses
        split at hcloses
        next u =>
          rw [Bool.and_eq_true, decide_eq_true_iff] at hcloses
          exact (hrenders.of_code (by rw [hcloses.1]; rfl)).eq_of_nil
        next => exact nomatch hcloses
      rw [hclose]
      exact htokens.asVariable
  | @more depth tokens batch ts s s' s'' hend hstep hcloses hrest ihstep ihrest =>
      obtain ⟨hsome', hbatch⟩ := ihstep hsome
      obtain ⟨hsome'', hrenders⟩ := ihrest (passed_template s' batch ▸ hsome')
      have hpassed : (s'.passed batch).inValue = s'.inValue := by
        rw [State.inValue, passed_template, State.inValue]
      rw [hpassed] at hrenders
      exact ⟨hsome'', fun b htokens => hrenders b (htokens.append hbatch)⟩
  | @hereDoc s s₁ done found tokens hfound hbody ih =>
      have hremembers := takeHereDoc_remembers hfound
      -- the body is a text of its own, and no template
      obtain ⟨-, htokens⟩ := hbody.code_of_template rfl (List.forall_mem_nil _)
      refine ⟨hremembers.template ▸ hsome, ?_⟩
      show Renders s.inValue _ s₁.inValue
      rw [hremembers.inValue]
      exact Code.renders (List.forall_mem_append.2 ⟨found.code_tokens s₁, htokens⟩) _

/-! ## Stretches of text -/

/-- The stretches of template text that a scan reads on its way, by what ends them. The first one
begins the template, and every other one stands behind the end of a tag. -/
inductive Tour : State → List Template.Ending → State → Prop
  | nil (s : State) : Tour s [] s
  | code {s s₁ s' : State} {e : Option Event} {endings : List Template.Ending}
      (hmove : Move s e s₁) (htemplate : s₁.template = s.template)
      (hopenTag : s₁.openTag = s.openTag) (htour : Tour s₁ endings s') : Tour s endings s'
  | start {s s₁ s' : State} {found : Template.Stretch} {ts : List Token}
      {endings : List Template.Ending}
      (hreads : ReadsStretch { s with template := some .text } false found ts s₁)
      (htour : Tour s₁ endings s') : Tour s (found.ending :: endings) s'
  | tagEnd {s s₁ s' : State} {trims : Bool} {found : Template.Stretch} {ts : List Token}
      {endings : List Template.Ending}
      (hopening : opening? s.template.isSome s.rest = some (.tagEnd trims))
      (hreads : ReadsStretch (s.behindTag trims) trims found ts s₁)
      (htour : Tour s₁ endings s') : Tour s (found.ending :: endings) s'

/-- A move reads a stretch of text, or leaves the tags as they are. -/
theorem Move.tour (h : Move s e s₁) (htour : Tour s₁ endings s') :
    ∃ endings, Tour s endings s' := by
  have hremembers : s.Remembers s₁ → ∃ endings, Tour s endings s' :=
    fun hsame => ⟨endings, .code h hsame.template hsame.openTag htour⟩
  cases h with
  | @plain o ts s₁ hopening hhereDoc hquote hnewline htake =>
      by_cases htag : ∃ trims, o = .tagEnd trims
      · obtain ⟨trims, rfl⟩ := htag
        obtain ⟨text, found, -, hreads⟩ := takeTagEnd_ok htake
        exact ⟨found.ending :: endings, .tagEnd hopening hreads htour⟩
      · exact hremembers (takePlain_lone hopening (fun trims heq => htag ⟨trims, heq⟩) htake).1
  | newline hopening htake => exact hremembers (takePlain_lone hopening (fun _ => nofun) htake).1
  | hereDoc hopening hrun =>
      cases hrun with
      | hereDoc hfound hbody =>
          have hsame := takeHereDoc_remembers hfound
          exact hremembers ⟨hsame.after, hsame.template, hsame.openTag⟩
  | quote => exact hremembers ⟨rfl, rfl, rfl⟩
  | run hrun => exact hremembers (takeRun_remembers hrun)
  | name => exact hremembers ⟨rfl, rfl, rfl⟩
  | brace => exact hremembers ⟨rfl, rfl, rfl⟩
  | passed kind => exact ⟨endings, .code (.passed kind) rfl rfl htour⟩
  | template htext =>
      obtain ⟨found, hreads⟩ := takeTemplateText_ok htext
      exact ⟨found.ending :: endings, .start hreads htour⟩

/-- A path of a template is a tour. -/
theorem Path.tour (h : Path s es s') : ∃ endings, Tour s endings s' := by
  induction h with
  | nil s => exact ⟨[], .nil s⟩
  | silent hmove _ ih =>
      obtain ⟨endings, htour⟩ := ih
      exact hmove.tour htour
  | event hmove _ ih =>
      obtain ⟨endings, htour⟩ := ih
      exact hmove.tour htour

/-- The template is where the last stretch of text left it, or where it was if there is none. -/
def LeftBy (s : State) (endings : List Template.Ending) (s' : State) : Prop :=
  (endings = [] ∧ s'.template = s.template ∧ s'.openTag = s.openTag) ∨
    ∃ ending ∈ endings.getLast?, s'.template = some (modeBehind ending) ∧
      s'.openTag = tagBehind? ending

/-- A stretch of text leaves the template to those behind it. -/
theorem ReadsStretch.leftBy {s₀ : State} {skipLeading : Bool} {found : Template.Stretch}
    (h : ReadsStretch s skipLeading found ts s₁) (hleft : LeftBy s₁ endings s') :
    LeftBy s₀ (found.ending :: endings) s' := by
  obtain rfl := h.state
  rcases hleft with ⟨rfl, hbehind⟩ | ⟨ending, hlast, hbehind⟩
  · exact .inr ⟨found.ending, rfl, hbehind⟩
  · refine .inr ⟨ending, ?_, hbehind⟩
    rw [List.getLast?_cons, Option.mem_def.1 hlast]
    rfl

/-- The tag that is open is the one that ended the last stretch of text. -/
theorem Tour.behind (h : Tour s endings s') : LeftBy s endings s' := by
  induction h with
  | nil => exact .inl ⟨rfl, rfl, rfl⟩
  | code _ htemplate hopenTag _ ih =>
      rcases ih with ⟨rfl, htemplate', hopenTag'⟩ | hbehind
      · exact .inl ⟨rfl, htemplate'.trans htemplate, hopenTag'.trans hopenTag⟩
      · exact .inr hbehind
  | start hreads _ ih => exact hreads.leftBy ih
  | tagEnd _ hreads _ ih => exact hreads.leftBy ih

/-- In a template in which no tag is open, the last stretch of text ended with the text, and no
value is open. -/
theorem Tour.closed (h : Tour s endings s') (hstart : s.template = none)
    (htemplate : s'.template.isSome) (hopenTag : s'.openTag = none) :
    endings.getLast? = some .endOfText ∧ s'.inValue = false := by
  obtain ⟨-, hsame, -⟩ | ⟨ending, hlast, hmode, htag⟩ := h.behind
  · rw [hsame, hstart] at htemplate
    exact nomatch htemplate
  · cases ending with
    | endOfText =>
        refine ⟨hlast, ?_⟩
        rw [State.inValue, hmode]
        rfl
    | code tag => exact nomatch hopenTag.symm.trans htag
    | render tag => exact nomatch hopenTag.symm.trans htag

end Manifest.Scan
