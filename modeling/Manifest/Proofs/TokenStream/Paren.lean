import Manifest.Proofs.Scan.Paren
import Manifest.Proofs.TokenStream.Nesting
import Manifest.Proofs.TokenStream.Path

/-!
# Parentheses of whole texts

A scan of a whole text tells the parentheses that open by their lines, whatever strings, comments
and here-docs hold line feeds before them.

* `start_placed` — a stream at the start of a text is at the start of a line.
* `fullscan_parens` — the kind of every parenthesis among the tokens.
-/

namespace Manifest.TokenStream

open Scan (ParenIn ReadIn State isParen)
open Token (Kind)

variable {s' : TokenStream} {ts : List Token}

/-- At the start the line is known. -/
theorem start_placed (s : TokenStream) (input : Input) : (s.start input).2.state.Placed := by
  obtain ⟨text, source, entry, escapes, mode, heq⟩ := s.start_eq_fresh input
  rw [heq]
  exact State.placed_start _ rfl rfl rfl

/-- Every parenthesis that opens is read in the text itself or in the body of a here-doc among the
tokens, and there it is the first of its line just where white space alone stands before it on that
line. -/
theorem fullscan_parens (s : TokenStream) (input : Input)
    (h : fullscan (s.start input).2 = .ok ts s') :
    ∀ t ∈ ts, isParen t.kind → ∃ scanned,
      ReadIn (s.start input).2.state.source (s.start input).2.state.text ts t scanned ∧
        ParenIn scanned t :=
  fullscan_holds Scan.parens_invariant (s.start_sound input) (s.start_queue input) h
    (s.start_placed input)

/-- A parenthesis behind a string on two lines, and one in the body of a here-doc, behind a line
feed in an interpolation. -/
def parenText : List Char :=
  ['"', '\n', '"', '(', '@', '(', '"', 'A', '"', ')', '\n', '$', '{', '\n', ' ', '(', '}', '\n',
    'A']

/-- Behind the first line feed stands a quote, behind the one in the interpolation only a blank. -/
theorem fullscan_parens_body : ∃ (ts : List Token) (s' : TokenStream),
    fullscan ((empty .standard).start (.manifest parenText "")).2 = .ok ts s' ∧
      (ts.map (·.kind)).filter isParen = [.mark .openParen, .mark .lineParen] ∧
      ∀ t ∈ ts, isParen t.kind → ∃ scanned,
        ReadIn ((empty .standard).start (.manifest parenText "")).2.state.source
          ((empty .standard).start (.manifest parenText "")).2.state.text ts t scanned ∧
          ParenIn scanned t := by
  have hscan : (scanAll .standard (.manifest parenText "")).toOption.any fun ts =>
      decide ((ts.map (·.kind)).filter isParen = [Kind.mark .openParen, .mark .lineParen]) := by
    decide +kernel
  obtain ⟨ts, hall, hkinds⟩ := exists_ok_of_any hscan
  obtain ⟨s', h⟩ := fullscan_of_scanAll hall
  exact ⟨ts, s', h, of_decide_eq_true hkinds, fullscan_parens _ _ h⟩

end Manifest.TokenStream
