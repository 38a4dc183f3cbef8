import Manifest.Proofs.Scan.Preceding
import Manifest.Proofs.TokenStream.Nesting
import Manifest.Proofs.TokenStream.Template

/-!
# Braces and regular expressions in the stream

In the stream of a text, a brace opens a selector just where the token before it is a question mark,
and a regular expression does not follow a value. Only the first token of an interpolation may break
this: the fragment before it was not remembered.

* `Given.suited` — the tokens that were given and those that wait suit what stands before them.
* `fullscan_suited` — two tokens of a stream that follow one another.
* `tokenize_misreads` — interpolations in which a brace and a slash are misread.
-/

namespace Manifest.TokenStream

open Scan (Preceding State Suited fades opensInterpolation)
open Token (Kind)

variable {s₀ s s' : TokenStream} {state state' : State} {given batch ts before after : List Token}
  {t u : Token} {fuel : Nat} {entry : Entry}

/-! ## Tokens that were given -/

/-- The first tokens of a text, which may be none. -/
theorem entryTokens_suited (h : entryTokens fuel entry state = .ok batch state')
    (hstart : state.after = none) :
    Suited .start batch ∧ (batch = [] → state'.after = none) := by
  cases entry with
  | code =>
      obtain ⟨rfl, rfl⟩ := EStateM.Result.ok.inj h
      exact ⟨.nil _, fun _ => hstart⟩
  | unquoted =>
      obtain ⟨q, hruns⟩ := entryTokens_unquoted h
      obtain ⟨⟨t, us, rfl, -⟩, hsuited⟩ := hruns.suited
      rw [hstart] at hsuited
      exact ⟨hsuited _ Preceding.remembered_start.recent, fun h => nomatch h⟩
  | template =>
      obtain ⟨found, text, rfl, hreads⟩ := entryTokens_template h
      refine ⟨Scan.suited_of_not_isContextual (List.forall_mem_cons.2 ⟨rfl, ?_⟩) _,
        fun h => nomatch h⟩
      exact fun t ht => Scan.isContextual_of_isTemplate (hreads.isTemplate t ht)

/-- What was given and what waits suits what stands before it; when nothing waits, the kind of the
last token is remembered. -/
theorem Given.suited (h : Given s₀ given s) (hstarted : s₀.started)
    (hqueue : Suited .start s₀.queue) (hstart : s₀.queue = [] → s₀.state.after = none) :
    Suited .start (given ++ s.queue) ∧
      (s.queue = [] → (Preceding.start.after given).Remembered s.state.after) := by
  induction h with
  | start =>
      refine ⟨hqueue, fun hempty => ?_⟩
      rw [hstart hempty]
      exact Preceding.remembered_start
  | entry hgiven hunstarted _ ih =>
      exact absurd (hunstarted.symm.trans (hgiven.started hstarted)) Bool.false_ne_true
  | @step given batch s state _ hempty _ hruns ih =>
      obtain ⟨hgiven, hremembered⟩ := ih
      rw [hempty, List.append_nil] at hgiven
      obtain ⟨hafter, hbatch⟩ := hruns.suited
      refine ⟨hgiven.append (hbatch _ (hremembered hempty)), ?_⟩
      rintro rfl
      rw [hafter.resolve_right (by rintro ⟨t, us, h, -⟩; exact nomatch h)]
      exact hremembered hempty
  | @token given queue s t _ hqueued ih =>
      obtain ⟨hgiven, -⟩ := ih
      rw [hqueued, List.append_cons] at hgiven
      refine ⟨hgiven, fun _ => ?_⟩
      rw [Preceding.after_append]
      exact Preceding.remembered_behind _ t.kind

/-! ## Whole texts -/

/-- All tokens of a text suit what stands before them. -/
theorem suited_of_fullscan (s : TokenStream) (input : Input)
    (h : fullscan (s.start input).2 = .ok ts s') : Suited .start ts := by
  have hsound := s.start_sound input
  obtain ⟨text, source, entry, escapes, mode, hfresh⟩ := s.start_eq_fresh input
  rw [hfresh] at h hsound
  obtain ⟨batch, state, hentry, hsound', hentered⟩ := fullscan_entered hsound rfl h
  obtain ⟨body, rfl, hgiven, hqueue, -⟩ := fullscan_given hsound' hentered
  obtain ⟨hbatch, hafter⟩ := entryTokens_suited hentry rfl
  have hsuited := (hgiven.suited rfl hbatch hafter).1
  rw [hqueue, List.append_nil] at hsuited
  exact hsuited.append (Scan.suited_of_not_isContextual (List.forall_mem_singleton.2 rfl) _)

/-- Of two tokens that follow one another in the stream of a text, where no interpolation begins
between them: a brace opens a selector just where the token before it is a question mark, and a
regular expression does not follow a value. Where an interpolation begins between them, a brace
opens a selector only if the last token before it that is no variable and no fragment of a string is
a question mark. -/
theorem fullscan_suited (s : TokenStream) (input : Input)
    (h : fullscan (s.start input).2 = .ok ts s') (before after : List Token) (t u : Token)
    (hsplit : ts = before ++ t :: u :: after) :
    (opensInterpolation t.kind = false →
      (u.kind ∈ [Kind.mark .openBrace, .mark .selectorBrace] →
        (u.kind = .mark .selectorBrace ↔ t.kind = .mark .question)) ∧
      (u.kind = .regex → t.kind.allowsRegexAfter)) ∧
    (opensInterpolation t.kind → u.kind = .mark .selectorBrace →
      ∃ front question mid, before = front ++ question :: mid ∧
        question.kind = .mark .question ∧ ∀ v ∈ mid, fades v.kind) := by
  have hsuited := suited_of_fullscan s input h
  rw [hsplit] at hsuited
  cases hsuited.of_append with
  | cons _ hrest =>
      cases hrest with
      | cons hallows _ =>
          refine ⟨?_, ?_⟩
          -- a token that opens no interpolation is the one that is remembered
          · intro hdirect
            have hsuits := hallows.direct t.kind rfl hdirect
            refine ⟨?_, hsuits.regex⟩
            intro hbrace
            rcases List.mem_pair.1 hbrace with hopen | hselector
            · refine iff_of_false (by rw [hopen]; exact nofun) ?_
              intro hquestion
              exact hsuits.brace hopen (congrArg some hquestion)
            · exact iff_of_true hselector (Option.some.inj (hsuits.selector hselector))
          -- the start of an interpolation is not remembered, so what came before the string still
          -- counts
          · intro hinner hselector
            have hlasting := hallows.interpolated t.kind rfl hinner hselector
            have hfades : fades t.kind := by
              unfold opensInterpolation at hinner
              split at hinner
              next heq => rw [heq]; rfl
              next heq => rw [heq]; rfl
              next => exact nomatch hinner
            rw [Preceding.behind, if_pos hfades] at hlasting
            rcases Preceding.exists_lasting _ hlasting with ⟨hnone, -⟩ | hfound
            · exact absurd hnone.symm (Option.some_ne_none _)
            · exact hfound

/-- A question mark and a brace. -/
def selectorText : List Char := ['?', '{']

/-- A brace behind a question mark. -/
theorem fullscan_suited_selector : ∃ (s' : TokenStream) (t u : Token) (after : List Token),
    fullscan ((empty .standard).start (.manifest selectorText "")).2 = .ok (t :: u :: after) s' ∧
      u.kind ∈ [Kind.mark .openBrace, .mark .selectorBrace] ∧ t.kind = .mark .question ∧
      (u.kind = .mark .selectorBrace ↔ t.kind = .mark .question) := by
  have hscan : (scanAll .standard (.manifest selectorText "")).toOption.any fun ts =>
      decide (∃ t ∈ ts, ∃ u ∈ ts, ts = t :: u :: ts.drop 2 ∧ t.kind = .mark .question ∧
        u.kind ∈ [Kind.mark .openBrace, .mark .selectorBrace]) := by
    decide +kernel
  obtain ⟨ts, hall, hpair⟩ := exists_ok_of_any hscan
  obtain ⟨t, -, u, -, hsplit, ht, hu⟩ := of_decide_eq_true hpair
  obtain ⟨s', h⟩ := fullscan_of_scanAll hall
  generalize ts.drop 2 = after at hsplit
  subst hsplit
  have hdirect : opensInterpolation t.kind = false := by rw [ht]; rfl
  have hselector := ((fullscan_suited _ _ h [] after t u rfl).1 hdirect).1 hu
  exact ⟨s', t, u, after, h, hu, ht, hselector⟩

/-- A question mark and a string with two interpolations. -/
def misreadText : List Char :=
  ['?', '"', '$', '{', '{', '}', '}', '$', '{', '/', 'a', '/', '}', '"']

/-- At the start of an interpolation a brace is read by the question mark before the string, and a
slash by the brace before the fragment. -/
theorem tokenize_misreads :
    ¬ (∀ (text : List Char) (file : String) (before after : List Token) (t u : Token),
      tokenize text file = .ok (before ++ t :: u :: after) →
        u.kind ∈ [Kind.mark .openBrace, .mark .selectorBrace] →
        (u.kind = .mark .selectorBrace ↔ t.kind = .mark .question)) ∧
    ¬ (∀ (text : List Char) (file : String) (before after : List Token) (t u : Token),
      tokenize text file = .ok (before ++ t :: u :: after) →
        u.kind = .regex → t.kind.allowsRegexAfter) := by
  have hscan : (tokenize misreadText "").toOption.any (fun ts =>
      decide (∃ t ∈ ts, ∃ u ∈ ts, ts = ts.take 1 ++ t :: u :: ts.drop 3 ∧ t.kind = .stringStart ∧
        u.kind = .mark .selectorBrace) &&
      decide (∃ t ∈ ts, ∃ u ∈ ts, ts = ts.take 4 ++ t :: u :: ts.drop 6 ∧ t.kind = .stringMiddle ∧
        u.kind = .regex)) := by
    decide +kernel
  obtain ⟨ts, h, hpairs⟩ := exists_ok_of_any hscan
  obtain ⟨hbrace, hslash⟩ := Bool.and_eq_true_iff.1 hpairs
  obtain ⟨t, -, u, -, hsplit, ht, hu⟩ := of_decide_eq_true hbrace
  obtain ⟨t', -, u', -, hsplit', ht', hu'⟩ := of_decide_eq_true hslash
  constructor
  · intro hclaim
    have hselector := hclaim misreadText "" (ts.take 1) (ts.drop 3) t u (hsplit ▸ h)
      (by rw [hu]; decide)
    exact nomatch ht.symm.trans (hselector.1 hu)
  · intro hclaim
    have hallows := hclaim misreadText "" (ts.take 4) (ts.drop 6) t' u' (hsplit' ▸ h) hu'
    rw [ht'] at hallows
    exact nomatch hallows

end Manifest.TokenStream
