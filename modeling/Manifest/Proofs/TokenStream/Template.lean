import Manifest.Proofs.Scan.Rendered
import Manifest.Proofs.TokenStream.Path

/-!
# Templates

A template begins with a token of its own. Behind it, the tokens that begin and end rendered values
alternate, with nothing but code between the two; and when the scan succeeds, the last stretch of
template text goes up to the end of the template, so that no tag is left open.

* `Given.renders` — the tokens that were given and those that wait follow the state of the template.
* `scanAll_template` — all tokens of a template.
-/

namespace Manifest.TokenStream

open Scan (ReadsStretch Renders Rendered State Tour)
open Text (Source)

variable {s₀ s s' : TokenStream} {state state' : State} {given batch ts : List Token} {fuel : Nat}
  {options : Scan.Options} {text : List Char} {file : String}

/-! ## From the first text on -/

/-- The first text of a template is read as one stretch, behind the token of the template. -/
theorem entryTokens_template (h : entryTokens fuel .template state = .ok batch state') :
    ∃ found text, batch = state.token .templateStart .none 0 0 :: text ∧
      ReadsStretch { state with template := some .text } false found text state' := by
  obtain ⟨text, htext, rfl⟩ := entryTokens_template_ok h
  obtain ⟨found, hreads⟩ := Scan.takeTemplateText_ok htext
  exact ⟨found, text, rfl, hreads⟩

/-- Once its first tokens were read, a template stays one, and what it gives leads from where it was
to where it is. -/
theorem Given.renders (h : Given s₀ given s) (hstarted : s₀.started)
    (htemplate : s₀.state.template.isSome) : s.state.template.isSome ∧
      ∃ more, given ++ s.queue = s₀.queue ++ more ∧
        Renders s₀.state.inValue more s.state.inValue := by
  induction h with
  | start => exact ⟨htemplate, [], (List.append_nil _).symm, .nil _⟩
  | entry hgiven hunstarted _ ih =>
      exact absurd (hunstarted.symm.trans (hgiven.started hstarted)) Bool.false_ne_true
  | @step given batch s state _ hqueue _ hruns ih =>
      obtain ⟨htemplate', more, hmore, hrenders⟩ := ih
      obtain ⟨htemplate'', hbatch⟩ := hruns.renders htemplate'
      rw [hqueue, List.append_nil] at hmore
      refine ⟨htemplate'', more ++ batch, ?_, hrenders.append hbatch⟩
      rw [hmore, List.append_assoc]
  | token _ hqueue ih =>
      rw [hqueue, List.append_cons] at ih
      exact ih

/-! ## Whole templates -/

/-- The stream at the start of a template. -/
def ofTemplate (options : Scan.Options) (text : List Char) (file : String) : TokenStream :=
  (empty options).reset text (.document (.ofText text file)) .template

/-- The tokens of a template are its own token, and then code, text and values, each value with its
end behind it. And no tag is left open: however the scan is followed to its end, the last stretch of
text goes up to the end of the template. -/
theorem scanAll_template (h : scanAll options (.template text file) = .ok ts) :
    (∃ t rest, ts = t :: rest ∧ t.kind = .templateStart ∧ Rendered rest) ∧
    ∃ s', fullscan (ofTemplate options text file) = .ok ts s' ∧ s'.state.openTag = none ∧
      (∃ endings, Tour (ofTemplate options text file).state endings s'.state) ∧
      ∀ endings, Tour (ofTemplate options text file).state endings s'.state →
        endings.getLast? = some .endOfText := by
  obtain ⟨s', hscan⟩ := fullscan_of_scanAll h
  rw [start, startText_snd] at hscan
  have hsound : (ofTemplate options text file).Sound := reset_sound _ _ _ _
  obtain ⟨batch, state, hentry, hsound', hentered⟩ := fullscan_entered hsound rfl hscan
  obtain ⟨body, rfl, hgiven, hqueue, -, hopenTag⟩ := fullscan_given hsound' hentered
  obtain ⟨found, text₁, rfl, hreads⟩ := entryTokens_template hentry
  obtain ⟨htemplate, htext⟩ := hreads.inValue
  obtain ⟨htemplate', more, hmore, hmoves⟩ := hgiven.renders rfl htemplate
  -- the first stretch begins the template, and all others are on the way from there
  obtain ⟨es, hpath, -⟩ := hgiven.path hsound'
  obtain ⟨endings, htour⟩ := hpath.tour
  have htour' : Tour (ofTemplate options text file).state (found.ending :: endings) s'.state :=
    .start hreads htour
  refine ⟨?_, s', hscan, hopenTag, ⟨_, htour'⟩,
    fun _ htour => (htour.closed rfl htemplate' hopenTag).1⟩
  rw [hqueue, List.append_nil] at hmore
  subst hmore
  have hend : Renders s'.state.inValue [endOf s'.state.source s'.state.text] s'.state.inValue :=
    .code rfl (.nil _)
  have hclosed := (htour'.closed rfl htemplate' hopenTag).2
  exact ⟨_, _, rfl, rfl, ((htext.append hmoves).append hend).rendered hclosed⟩

/-- A rendered string with an interpolation in which the tag ends and another one begins. -/
def renderedText : List Char :=
  ['a', '<', '%', '=', '"', '$', '{', 'x', '%', '>', ' ', '<', '%', '=', 'y', '}', '"', '%', '>']

/-- The value goes on behind the text in the interpolation. -/
theorem scanAll_template_rendered : ∃ t rest, t.kind = .templateStart ∧ Rendered rest ∧
    scanAll .standard (.template renderedText "") = .ok (t :: rest) ∧
    rest.map (·.kind) = [.renderString, .renderExpression, .stringStart, .name, .mark .tagEnd,
      .renderString, .renderExpression, .name, .stringEnd, .mark .tagEnd, .endOfText] := by
  have hscan : (scanAll .standard (.template renderedText "")).toOption.any
      (fun ts => decide (ts.tail.map (·.kind) = [.renderString, .renderExpression, .stringStart,
        .name, .mark .tagEnd, .renderString, .renderExpression, .name, .stringEnd, .mark .tagEnd,
        .endOfText])) := by
    decide +kernel
  obtain ⟨ts, h, hkinds⟩ := exists_ok_of_any hscan
  obtain ⟨⟨t, rest, rfl, hkind, hrendered⟩, -⟩ := scanAll_template h
  exact ⟨t, rest, hkind, hrendered, h, of_decide_eq_true hkinds⟩

end Manifest.TokenStream
