import Manifest.Proofs.Scan.Spacing
import Manifest.Proofs.TokenStream.Given

/-!
# Tokens cover a manifest

The tokens that a stream has given, and those that wait in it, are the layout of the text before its
cursor. At the end of a manifest without here-docs they are the layout of all of it.

* `Covers` — what it means that tokens cover a text.
* `tokenize_covers` — the tokens of a manifest without here-docs cover it.
-/

namespace Manifest.TokenStream

open Scan (State Laid Runs)
open Text (Source byteLength byteLength_append)

variable {source : Source} {text : List Char} {given ts : List Token} {s s' : TokenStream}
  {t : Token}
  {fuel : Nat}

/-- The tokens that were given and those that wait are the layout of the text before the cursor. -/
structure Reading (source : Source) (text : List Char) (given : List Token) (s : TokenStream) :
    Prop where
  entry : s.entry = .code
  source_eq : s.state.source = source
  text_eq : s.state.text = text
  bare : s.state.Bare
  laid : ∃ front rest, text = front ++ rest ∧ s.state.pos = byteLength front ∧
    Laid source .code 0 front rest (given ++ s.queue)

/-- A token that waits is given. -/
theorem Reading.give {queue : List Token} (h : Reading source text given s)
    (hqueue : s.queue = t :: queue) : Reading source text (given ++ [t])
      { s with queue, state := { s.state with after := some t.kind } } := by
  obtain ⟨hentry, hsource, htext, hbare, front, rest, hfront, hpos, hlaid⟩ := h
  rw [hqueue, List.append_cons] at hlaid
  exact ⟨hentry, hsource, htext, hbare.congr rfl rfl rfl, front, rest, hfront, hpos, hlaid⟩

/-- The tokens of a step wait. -/
theorem Reading.step {batch : List Token} {state : State} (h : Reading source text given s)
    (hqueue : s.queue = []) (hend : s.state.atEnd = false)
      (hruns : Runs .step s.state batch state) :
    Reading source text given { s with state, queue := batch } := by
  obtain ⟨hentry, hsource, htext, hbare, front, rest, hfront, hpos, hlaid⟩ := h
  rw [hqueue, List.append_nil] at hlaid
  have hat : s.state.At rest := ⟨front, htext.trans hfront, hpos⟩
  obtain ⟨ds, rest, rfl, hpasses, helement⟩ := hruns.laid hbare _ hat (hat.ne_nil hend)
  rw [hsource, hpos, ← Nat.zero_add (byteLength front)] at helement
  refine ⟨hentry, hpasses.moves.source.trans hsource, hpasses.moves.text.trans htext,
    hpasses.bare hbare, front ++ ds, rest, ?_, ?_, .snoc hlaid helement⟩
  · rw [hfront, List.append_assoc]
  · rw [hpasses.moves.pos, hpos, byteLength_append]

/-- At the end of the text, the tokens that were given are its layout. -/
theorem Reading.laid_of_atEnd (h : Reading source text given s) (hqueue : s.queue = [])
    (hend : s.state.atEnd) : Laid source .code 0 text [] given := by
  obtain ⟨-, -, htext, -, front, rest, hfront, hpos, hlaid⟩ := h
  have hat : s.state.At rest := ⟨front, htext.trans hfront, hpos⟩
  obtain rfl := hat.atEnd_iff.1 hend
  rw [List.append_nil] at hfront
  rwa [hqueue, List.append_nil, ← hfront] at hlaid

/-- Nothing is scanned of a manifest before its first token is pulled. -/
theorem Reading.enter {batch : List Token} {state : State} (h : Reading source text given s)
    (hentry : entryTokens fuel s.entry s.state = .ok batch state) :
    Reading source text given { s with state, queue := s.queue ++ batch, started := true } := by
  rw [h.entry] at hentry
  obtain ⟨rfl, rfl⟩ := EStateM.Result.ok.inj hentry
  rw [List.append_nil]
  exact ⟨h.entry, h.source_eq, h.text_eq, h.bare, h.laid⟩

/-- The tokens that a manifest has given are the layout of the text before its cursor. -/
theorem Given.reading (h : Given s' given s) (hreading : Reading source text [] s') :
    Reading source text given s := by
  induction h with
  | start => exact hreading
  | entry _ _ hentry ih => exact ih.enter hentry
  | step _ hqueue hend hruns ih => exact ih.step hqueue hend hruns
  | token _ hqueue ih => exact ih.give hqueue

/-! ## Coverage -/

/-- The tokens of a manifest cover its text. -/
structure Covers (text : List Char) (tokens : List Token) : Prop where
  /-- The last token is the empty range at the end of the text, and the others are a layout of it:
  each brace that closes an interpolation is paired with the `${` of a fragment. -/
  laid : ∃ body source, tokens = body ++ [endOf source text] ∧ Laid source .code 0 text [] body
  /-- Ranges lie inside the text. -/
  inside : ∀ t ∈ tokens, t.range.start ≤ t.range.stop ∧ t.range.stop ≤ byteLength text
  /-- A token begins where the ones before it have ended. -/
  ordered : tokens.Pairwise fun t u => t.range.stop ≤ u.range.start
  /-- Before a token stand white space, comments and the brace that closes an interpolation. -/
  gaps : ∀ before t after, tokens = before ++ t :: after →
    Scan.Gap t (Text.slice text (Scan.stopOf 0 before) t.range.start)
      (Text.dropBytes text t.range.start)
  /-- Names, words, references, numbers, keywords and marks say what they were read from. -/
  spelled : ∀ t ∈ tokens, Scan.spelled t.kind → t.text = t.sourceText
  /-- Marks are the longest ones that are spelled where they begin. -/
  longest : ∀ t ∈ tokens, ∀ m, t.kind = .mark m →
    m.spelling.toList <+: Text.dropBytes text t.range.start ∧
      Scan.Longest m (Text.dropBytes text t.range.start)

/-- A layout of the whole text, with the token at its end, covers it. -/
theorem covers_of_laid {file : String} {body : List Token}
    (h : Laid (.document (.ofText text file)) .code 0 text [] body) :
    Covers text (body ++ [endOf (.document (.ofText text file)) text]) := by
  have hplaced : ∀ t ∈ body, ∃ front d after, text = front ++ d ++ after ∧
      Scan.Over (.document (.ofText text file)) (byteLength front) d t ∧
      Scan.Faithful d (d ++ after) t := by
    intro t ht
    obtain ⟨front, d, after, htext, hover, hfaithful⟩ := h.placed t ht
    rw [Nat.zero_add] at hover
    rw [List.append_nil] at hfaithful
    exact ⟨front, d, after, htext, hover, hfaithful⟩
  have hspaced : Scan.Spaced 0 text [] (body ++ [endOf (.document (.ofText text file)) text]) := by
    refine Scan.Spaced.concat h.spaced ?_
    rw [Nat.zero_add]
    rfl
  obtain ⟨hinside, hordered⟩ := hspaced.ordered
  rw [Nat.zero_add] at hinside
  refine ⟨⟨body, _, rfl, h⟩, fun t ht => (hinside t ht).2, hordered, ?_, ?_, ?_⟩
  · intro before t after hts
    have hzero : 0 = byteLength [] := rfl
    have hgap := hspaced.gap hzero hts
    rwa [List.append_nil] at hgap
  · intro t ht hspelled
    rcases List.mem_append.1 ht with ht | ht
    · obtain ⟨front, d, after, htext, hover, hfaithful⟩ := hplaced t ht
      rw [hfaithful.text hspelled, hover.sourceText htext]
    · rw [List.mem_singleton.1 ht] at hspelled
      exact nomatch hspelled
  · intro t ht m hm
    rcases List.mem_append.1 ht with ht | ht
    · obtain ⟨front, d, after, htext, hover, hfaithful⟩ := hplaced t ht
      obtain ⟨hd, hlongest⟩ := hfaithful.longest m hm
      rw [hover.range, htext, List.append_assoc, Text.dropBytes_byteLength]
      exact ⟨⟨after, by rw [hd]⟩, hlongest⟩
    · rw [List.mem_singleton.1 ht] at hm
      exact nomatch hm

/-- The tokens of a manifest without here-docs cover it. -/
theorem scanAll_covers {options : Scan.Options} {file : String} (hhereDoc : ¬ ['@', '('] <:+: text)
    (h : scanAll options (.manifest text file) = .ok ts) : Covers text ts := by
  obtain ⟨body, s, rfl, hgiven, hqueue, hend⟩ := scanAll_given h
  have hstart : Reading (.document (.ofText text file)) text [] (ofManifest options text file) :=
    ⟨rfl, rfl, rfl, ⟨rfl, rfl, hhereDoc⟩, [], text, rfl, rfl, .nil 0 text⟩
  have hreading := hgiven.reading hstart
  rw [hreading.source_eq, hreading.text_eq]
  exact covers_of_laid (hreading.laid_of_atEnd hqueue hend)

/-- The tokens of a manifest without here-docs cover it. -/
theorem tokenize_covers {file : String} (hhereDoc : ¬ ['@', '('] <:+: text)
    (h : tokenize text file = .ok ts) : Covers text ts :=
  scanAll_covers hhereDoc h

/-- Dollar sign and brace belong to the string, and a comment stands behind it. -/
theorem tokenize_covers_interpolation :
    ∃ ts, tokenize ['"', 'a', '$', '{', 'b', '}', '"', ' ', '#'] "" = .ok ts ∧
      ts.map (·.kind) = [.stringStart, .variable, .stringEnd, .endOfText] ∧
      Covers ['"', 'a', '$', '{', 'b', '}', '"', ' ', '#'] ts := by
  have hkinds : (tokenize ['"', 'a', '$', '{', 'b', '}', '"', ' ', '#'] "").toOption.map
      (·.map (·.kind)) = some [.stringStart, .variable, .stringEnd, .endOfText] := by
    decide +kernel
  cases h : tokenize ['"', 'a', '$', '{', 'b', '}', '"', ' ', '#'] "" with
  | error stop =>
      rw [h] at hkinds
      exact nomatch hkinds
  | ok ts =>
      rw [h] at hkinds
      exact ⟨ts, rfl, Option.some.inj hkinds, tokenize_covers (by decide) h⟩

end Manifest.TokenStream
