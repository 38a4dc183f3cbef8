import Manifest.Proofs.Scan.Verbatim
import Manifest.Proofs.TokenStream.Written

/-!
# Texts without escapes

Without escapes, text without quotes is read as it stands. If it is not interpolated, it is one
string. If it is, its fragments are cut out of it, and each of them says what it covers.

* `fullscan_verbatim` — what a scan of a text without escapes gives.
-/

namespace Manifest.TokenStream

open Scan (State Verbatim)
open Text (Source)

variable {s s' : TokenStream} {ts : List Token}

/-- Where nothing is left of the text, a scan that succeeds gives what waits, and the end. -/
theorem eq_of_fullscan_drained (hsound : s.Sound) (hstarted : s.started) (hend : s.state.atEnd)
    (h : fullscan s = .ok ts s') : ts = s.queue ++ [endOf s.state.source s.state.text] := by
  obtain ⟨after, hdrain⟩ := fullscan_drain hsound hstarted hend
  rw [hdrain, EStateM.map] at h
  split at h
  next t s₁ htoken =>
    obtain ⟨rfl, -, -⟩ := endToken_ok htoken
    exact (EStateM.Result.ok.inj h).1.symm
  next => exact nomatch h

/-- The fragments of an interpolated text without escapes. -/
theorem verbatim_of_fullscan (s : TokenStream) {text : List Char} (source : Option Source)
    (h : fullscan (s.start (.unquoted text source .none true)).2 = .ok ts s') :
    ∃ body, ts = body ++ [endOf (source.getD (.document (.ofText text ""))) text] ∧
      Verbatim (source.getD (.document (.ofText text ""))) text true 0 body := by
  have hsound := s.start_sound (.unquoted text source .none true)
  obtain ⟨body, state, hentry, hsound', hscan⟩ := fullscan_entered hsound rfl h
  have hrun : (Scan.Task.fragments ⟨.rawText, .none, false, 0⟩ 0 true []).run
      (Scan.budget (s.start (.unquoted text source .none true)).2.state.size)
      (s.start (.unquoted text source .none true)).2.state = .ok body state := hentry
  have hruns := Scan.runs_of_run hrun
  obtain ⟨_, hpath, -⟩ := hruns.walks hsound.state trivial
  have hlasts := hpath.lasts hsound.state
  have hts := eq_of_fullscan_drained hsound' rfl (hruns.atEnd_of_unquoted hsound.state rfl) hscan
  refine ⟨body, ?_, ?_⟩
  · rw [hts]
    show body ++ [endOf state.source state.text] = _
    rw [hlasts.source, hlasts.text]
    rfl
  · have hat : State.At (s.start (.unquoted text source .none true)).2.state text := ⟨[], rfl, rfl⟩
    exact hruns.verbatim ⟨rfl, rfl⟩ text hsound.state (.nil hat) fun htext => ⟨rfl, rfl, htext⟩

/-- Text without quotes and escapes is verbatim. If it is not interpolated, it is one string, which
says all of it. If it is, and the scan succeeds, each of its fragments says what it covers, but for
the `${` at its end; the variable or the code behind a fragment begins where that ends. If there are
no here-docs in the text, the next fragment begins where the code and its brace end, and the last
one ends with the text. -/
theorem fullscan_verbatim (s : TokenStream) (text : List Char) (source : Option Source) :
    GivesString s (.unquoted text source .none false)
      (source.getD (.document (.ofText text ""))) text text ∧
    ∀ ts s', fullscan (s.start (.unquoted text source .none true)).2 = .ok ts s' →
      ∃ body, ts = body ++ [endOf (source.getD (.document (.ofText text ""))) text] ∧
        Verbatim (source.getD (.document (.ofText text ""))) text true 0 body := by
  refine ⟨givesString_unquoted s source ?_, fun ts s' => verbatim_of_fullscan s source⟩
  have hwhole := Quote.collect_whole text 0
  rwa [Nat.zero_add] at hwhole

/-- A lone dollar sign, a backslash before an interpolation, and a variable: `a$ \${b}$c`. -/
def rawText : List Char := ['a', '$', ' ', '\\', '$', '{', 'b', '}', '$', 'c']

/-- Text without escapes is given as it stands, around a variable. -/
theorem fullscan_verbatim_raw : ∃ (s' : TokenStream) (body : List Token),
    fullscan ((empty .standard).start (.unquoted rawText none .none true)).2
      = .ok (body ++ [endOf (.document (.ofText rawText "")) rawText]) s' ∧
    body.map (fun t => (t.kind, t.text)) = [(.stringStart, "a$ \\"), (.variable, "b"),
      (.stringMiddle, ""), (.variable, "c"), (.stringEnd, "")] ∧
    Verbatim (.document (.ofText rawText "")) rawText true 0 body := by
  have hscan : (scanAll .standard (.unquoted rawText none .none true)).toOption.any fun ts =>
      decide (ts.dropLast.map (fun t => (t.kind, t.text)) = [(.stringStart, "a$ \\"),
        (.variable, "b"), (.stringMiddle, ""), (.variable, "c"), (.stringEnd, "")]) := by
    decide +kernel
  obtain ⟨ts, h, hkinds⟩ := exists_ok_of_any hscan
  obtain ⟨s', hfullscan⟩ := fullscan_of_scanAll h
  obtain ⟨body, rfl, hverbatim⟩ :=
    (fullscan_verbatim (empty .standard) rawText none).2 ts s' hfullscan
  rw [List.dropLast_concat] at hkinds
  exact ⟨s', body, hfullscan, of_decide_eq_true hkinds, hverbatim⟩

end Manifest.TokenStream
