import Manifest.Proofs.Scan.Lifted
import Manifest.Proofs.TokenStream.Given

/-!
# Paths of whole scans

A scan of a whole text goes along a path from its start, in every mode. The tokens of the here-docs
on that path are among its tokens, and every body among these is one of a here-doc that is found
along the path, or at some depth in the bodies. What is true of paths is true of whole scans.

* `Given.path`, `Given.holds` — a stream that has given some tokens.
* `fullscan_path`, `fullscan_holds` — a scan of a whole text.
* `fullscan_bodiesLifted` — the bodies among its tokens.
-/

namespace Manifest.TokenStream

open Scan (BodiesLifted State Path TokenInvariant hereDocTokens)
open scoped List

variable {s₀ s s' : TokenStream} {state state' : State} {given batch ts : List Token} {fuel : Nat}
  {P : State → List Token → Prop}

/-- The first tokens of a template are its own token and those of its first text. -/
theorem entryTokens_template_ok (h : entryTokens fuel .template state = .ok batch state') :
    ∃ text, Scan.takeTemplateText false { state with template := some .text } = .ok text state' ∧
      batch = state.token .templateStart .none 0 0 :: text := by
  rw [entryTokens_template_eq] at h
  obtain ⟨text, state₁, htext, h⟩ := Scan.bind_eq_ok h
  obtain ⟨rfl, rfl⟩ := EStateM.Result.ok.inj h
  exact ⟨text, htext, rfl⟩

/-- The first tokens of a text are none, those of text without quotes, or those of the first text of
a template. -/
theorem entryTokens_ok {entry : Entry} (h : entryTokens fuel entry state = .ok batch state') :
    (batch = [] ∧ state' = state) ∨
      (∃ q, Scan.Runs (.fragments q state.pos true []) state batch state') ∨
      ∃ text, Scan.takeTemplateText false { state with template := some .text } = .ok text state' ∧
        batch = state.token .templateStart .none 0 0 :: text := by
  cases entry with
  | code =>
      obtain ⟨rfl, rfl⟩ := EStateM.Result.ok.inj h
      exact .inl ⟨rfl, rfl⟩
  | unquoted => exact .inr (.inl (entryTokens_unquoted h))
  | template => exact .inr (.inr (entryTokens_template_ok h))

/-- The scan for the first tokens of a text goes along a path. -/
theorem entryTokens_path {entry : Entry} (hsound : state.Sound)
    (h : entryTokens fuel entry state = .ok batch state') :
    ∃ es, Path state es state' ∧ hereDocTokens es <+ batch := by
  rcases entryTokens_ok h with ⟨rfl, rfl⟩ | ⟨q, hruns⟩ | ⟨text, htext, rfl⟩
  · exact ⟨[], .nil _, List.nil_sublist _⟩
  · exact hruns.walks hsound trivial
  · exact ⟨[], (Scan.Move.template htext).path, List.nil_sublist _⟩

/-- A stream has gone along a path, and the tokens of its here-docs were given or wait. -/
theorem Given.path (h : Given s₀ given s) (hsound : s₀.Sound) :
    ∃ es, Path s₀.state es s.state ∧ hereDocTokens es <+ given ++ s.queue := by
  induction h with
  | start => exact ⟨[], .nil _, List.nil_sublist _⟩
  | entry hgiven hstarted hentry ih =>
      obtain ⟨es, hpath, hsub⟩ := ih
      obtain ⟨fs, hpath', hsub'⟩ := entryTokens_path (hgiven.sound hsound).state hentry
      refine ⟨es ++ fs, hpath.trans hpath', ?_⟩
      rw [Scan.hereDocTokens_append, ← List.append_assoc]
      exact hsub.append hsub'
  | step hgiven hqueue hend hruns ih =>
      obtain ⟨es, hpath, hsub⟩ := ih
      obtain ⟨fs, hpath', hsub'⟩ := hruns.path (hgiven.sound hsound).state
      refine ⟨es ++ fs, hpath.trans hpath', ?_⟩
      rw [hqueue, List.append_nil] at hsub
      rw [Scan.hereDocTokens_append]
      exact hsub.append hsub'
  | token hgiven hqueue ih =>
      obtain ⟨es, hpath, hsub⟩ := ih
      rw [hqueue, List.append_cons] at hsub
      refine ⟨es ++ [], hpath.trans (Scan.Move.passed _).path, ?_⟩
      rwa [List.append_nil]

/-- What holds of all scans holds of the first tokens of a text. -/
theorem entryTokens_holds (hP : TokenInvariant P) {entry : Entry} {start : State}
    {es : List Scan.Event} (hsound : start.Sound) (hpath : Path start es state)
    (h : entryTokens fuel entry state = .ok batch state') : P start batch := by
  rcases entryTokens_ok h with ⟨rfl, -⟩ | ⟨q, hruns⟩ | ⟨text, htext, rfl⟩
  · exact hP.nil
  · exact hruns.holds hP hsound hpath trivial hP.nil
  · obtain ⟨found, hreads⟩ := Scan.takeTemplateText_ok htext
    refine hP.cons rfl (hP.frames fun t ht => ?_)
    exact Scan.isFrame_of_isTemplate (hreads.isTemplate t ht)

/-- It holds of the tokens that a stream has given, together with those that wait. -/
theorem Given.holds (h : Given s₀ given s) (hP : TokenInvariant P) (hsound : s₀.Sound)
    (hqueue : P s₀.state s₀.queue) : P s₀.state (given ++ s.queue) := by
  induction h with
  | start => exact hqueue
  | entry hgiven hstarted hentry ih =>
      obtain ⟨es, hpath, -⟩ := hgiven.path hsound
      rw [← List.append_assoc]
      exact hP.append ih (entryTokens_holds hP hsound.state hpath hentry)
  | step hgiven hempty hend hruns ih =>
      obtain ⟨es, hpath, -⟩ := hgiven.path hsound
      rw [hempty, List.append_nil] at ih
      exact hP.append ih (hruns.holds hP hsound.state hpath trivial hP.nil)
  | token hgiven hnext ih =>
      rw [hnext, List.append_cons] at ih
      exact ih

/-- A scan of the rest of a text goes along a path, and the tokens of its here-docs are among its
own. -/
theorem fullscan_path (hsound : s.Sound) (h : fullscan s = .ok ts s') :
    ∃ es, Path s.state es s'.state ∧ hereDocTokens es <+ ts := by
  obtain ⟨body, rfl, hgiven, hqueue, -⟩ := fullscan_given hsound h
  obtain ⟨es, hpath, hsub⟩ := hgiven.path hsound
  rw [hqueue, List.append_nil] at hsub
  exact ⟨es, hpath, hsub.trans (List.sublist_append_left _ _)⟩

/-- What holds of all scans holds of the tokens of a whole text. -/
theorem fullscan_holds (hP : TokenInvariant P) (hsound : s.Sound) (hqueue : s.queue = [])
    (h : fullscan s = .ok ts s') : P s.state ts := by
  obtain ⟨body, rfl, hgiven, hempty, -⟩ := fullscan_given hsound h
  have hbody := hgiven.holds hP hsound (by rw [hqueue]; exact hP.nil)
  rw [hempty, List.append_nil] at hbody
  exact hP.append hbody (hP.frame rfl)

/-- The bodies among the tokens of a scan are those of here-docs in the text, at every depth. -/
theorem fullscan_bodiesLifted (hsound : s.Sound) (hqueue : s.queue = [])
    (h : fullscan s = .ok ts s') : BodiesLifted s.state ts :=
  fullscan_holds Scan.bodiesLifted_invariant hsound hqueue h

end Manifest.TokenStream
