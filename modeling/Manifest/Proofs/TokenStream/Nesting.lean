import Manifest.Proofs.Scan.Nesting
import Manifest.Proofs.TokenStream.Given

/-!
# Strings of a whole text

The fragments of strings are balanced in the tokens of every text, whatever here-docs it holds. In
a text that can hold none, so are the braces between two fragments of a string that follow one
another. Text without quotes may end inside its code, and its last fragment is the exception.

* `Given.balanced`, `Given.leveled` — what holds of the tokens that a stream gave and those that
  wait.
* `fullscan_nested` — how the strings of a text nest.
-/

namespace Manifest.TokenStream

open Scan (Balanced Inert Quiet Runs State Undocumented opening?)
open Token (Adjoin Kind depthAfter levelsAfter)

variable {s s₀ s' : TokenStream} {state state' : State}
  {given ts batch before mid after : List Token}
  {t u : Token} {fuel : Nat} {entry : Entry} {outer : List Nat}

/-! ## First tokens -/

/-- The first tokens of a manifest or a template open and close nothing. -/
theorem quiet_entryTokens (h : entry ≠ .unquoted) :
    Quiet Inert (entryTokens fuel entry) state := by
  cases entry with
  | code => exact Scan.quiet_pure Scan.inert_nil
  | unquoted => exact absurd rfl h
  | template =>
      refine Scan.quiet_get (Scan.quiet_set rfl rfl ?_)
      refine Scan.quiet_bind Scan.quiet_takeTemplateText fun text s₁ htext => Scan.quiet_pure ?_
      exact List.forall_mem_cons.2 ⟨rfl, htext⟩

/-- The first tokens are balanced. -/
theorem entryTokens_balanced (h : entryTokens fuel entry state = .ok batch state') :
    state'.text = state.text ∧ Balanced Kind.stringRole batch := by
  by_cases hentry : entry = .unquoted
  · subst hentry
    obtain ⟨q, hruns⟩ := entryTokens_unquoted h
    exact ⟨hruns.text, hruns.balanced⟩
  · obtain ⟨htext, -, hinert⟩ := quiet_entryTokens hentry _ _ h
    exact ⟨htext, hinert.strings⟩

/-- The braces in strings are balanced, or the text has no quotes and its last fragment follows. -/
theorem entryTokens_leveled (h : entryTokens fuel entry state = .ok batch state')
    (hsound : state.Sound) (htext : Undocumented state.text) :
    levelsAfter [] batch = some [] ∨ entry = .unquoted ∧ state'.atEnd ∧ batch ≠ [] ∧
      ∃ ns, levelsAfter [] batch.dropLast = some ns := by
  by_cases hentry : entry = .unquoted
  · subst hentry
    obtain ⟨q, hruns⟩ := entryTokens_unquoted h
    obtain ⟨hquoted, hfront⟩ := hruns.leveled htext []
    cases hquote : q.mode.quote? with
    | some c => exact .inl (hquoted (by rw [hquote]; rfl))
    | none => exact .inr ⟨rfl, hruns.atEnd_of_unquoted hsound hquote, hruns.fragments_ne_nil,
      hfront⟩
  · exact .inl (Token.levelsAfter_inert (quiet_entryTokens hentry _ _ h).2.2)

/-! ## Tokens that were given -/

/-- A stream goes on with the same text, and the fragments of strings are balanced. -/
theorem Given.balanced (h : Given s₀ given s) (hqueue : s₀.queue = []) :
    s.state.text = s₀.state.text ∧ s.entry = s₀.entry ∧
      Balanced Kind.stringRole (given ++ s.queue) := by
  induction h with
  | start => exact ⟨rfl, rfl, by rw [hqueue]; exact Scan.balanced_nil⟩
  | entry _ _ hentry ih =>
      obtain ⟨htext, hbatch⟩ := entryTokens_balanced hentry
      refine ⟨htext.trans ih.1, ih.2.1, ?_⟩
      rw [← List.append_assoc]
      exact ih.2.2.append hbatch
  | step _ hempty _ hruns ih =>
      have hgiven := ih.2.2
      rw [hempty, List.append_nil] at hgiven
      exact ⟨hruns.text.trans ih.1, ih.2.1, hgiven.append hruns.balanced⟩
  | token _ hqueued ih =>
      have hgiven := ih.2.2
      rw [hqueued, List.append_cons] at hgiven
      exact ⟨ih.1, ih.2.1, hgiven⟩

/-- A step outside of strings. -/
theorem levelsAfter_step (h : Scan.Task.step.Levels state batch state') :
    levelsAfter [] batch = some [] := by
  rcases h with ⟨-, hlevels⟩ | hbraced
  · exact hlevels []
  · obtain ⟨t, rfl, ht⟩ := hbraced.stringRole
    rw [Token.levelsAfter_singleton]
    exact Token.levelsBehind_outside ht

/-- The braces in the strings among some tokens are balanced, but for text without quotes that was
read to the end, in which they may be open before its last fragment. -/
def Leveled (s : TokenStream) (ts : List Token) : Prop :=
  levelsAfter [] ts = some [] ∨ s.entry = .unquoted ∧ s.started ∧ s.state.atEnd ∧
    ∃ ns, levelsAfter [] ts.dropLast = some ns

/-- The braces in the strings of all that was given or waits are balanced in this way. -/
theorem Given.leveled (h : Given s₀ given s) (hsound : s₀.Sound) (hqueue : s₀.queue = [])
    (htext : Undocumented s₀.state.text) : Leveled s (given ++ s.queue) := by
  induction h with
  | start => exact .inl (by rw [hqueue]; rfl)
  | @entry given batch s state hgiven hstarted hentry ih =>
      rcases ih with hlevels | ⟨-, hstarted', -⟩
      · have hsame : Undocumented s.state.text := by rwa [(hgiven.balanced hqueue).1]
        rw [Leveled, ← List.append_assoc]
        rcases entryTokens_leveled hentry (hgiven.sound hsound).state hsame with
          hbatch | ⟨hunquoted, hend, hne, ns, hfront⟩
        · refine .inl ?_
          rw [Token.levelsAfter_append, hlevels]
          exact hbatch
        · refine .inr ⟨hunquoted, rfl, hend, ns, ?_⟩
          rw [List.dropLast_append_of_ne_nil hne, Token.levelsAfter_append, hlevels]
          exact hfront
      · rw [hstarted] at hstarted'
        exact absurd hstarted' Bool.false_ne_true
  | @step given batch s state hgiven hempty hend hruns ih =>
      rw [hempty, List.append_nil] at ih
      rcases ih with hlevels | ⟨-, -, hend', -⟩
      · have hsame : Undocumented s.state.text := by rwa [(hgiven.balanced hqueue).1]
        refine .inl ?_
        rw [Token.levelsAfter_append, hlevels]
        exact levelsAfter_step (hruns.leveled hsame)
      · rw [hend] at hend'
        exact absurd hend' Bool.false_ne_true
  | token _ hqueued ih =>
      rw [hqueued, List.append_cons] at ih
      exact ih

/-! ## Whole texts -/

theorem start_queue (s : TokenStream) (input : Input) : (s.start input).2.queue = [] := by
  obtain ⟨text, source, entry, escapes, mode, heq⟩ := s.start_eq_fresh input
  rw [heq]
  rfl

/-- The front of a list that ends before its last element. -/
theorem prefix_dropLast (h : ts = before ++ after) (hne : after ≠ []) : before <+: ts.dropLast := by
  rw [h, List.dropLast_append_of_ne_nil hne]
  exact List.prefix_append _ _

/-- Where the braces in strings are balanced, they are so between two fragments. -/
theorem braces_of_leveled (h : ∃ ns, levelsAfter [] ts = some ns)
    (hfront : before ++ t :: mid ++ [u] <+: ts) (hadjoin : Adjoin t mid u) :
    depthAfter Kind.braceRole 0 mid = some 0 := by
  obtain ⟨ns, h⟩ := h
  obtain ⟨rest, rfl⟩ := hfront
  obtain ⟨levels, h, -⟩ := Token.exists_levelsAfter_left h
  exact Token.braces_between h hadjoin

/-- The strings of a text nest. The fragments among its tokens are balanced: the last fragment of a
string closes what the first one opened, and the others stand in between. A string in double quotes
leaves the number of open braces as it was. In a text that can hold no here-doc, the braces between
a fragment of such a string and the next one are balanced; a text without quotes of its own may end
before they are. -/
theorem fullscan_nested (s : TokenStream) (input : Input)
    (h : fullscan (s.start input).2 = .ok ts s') :
    depthAfter Kind.stringRole 0 ts = some 0 ∧
    (∀ (fuel : Nat) (state state' : State) (batch : List Token),
      opening? state.template.isSome state.rest = some .doubleQuote →
        Scan.step fuel state = .ok batch state' → state'.braceDepth = state.braceDepth) ∧
    (¬ ['@', '('] <:+: (s.start input).2.state.text →
      ∀ (before mid after : List Token) (t u : Token), ts = before ++ t :: mid ++ u :: after →
        Adjoin t mid u → ((s.start input).2.entry = .unquoted → 2 ≤ after.length) →
          depthAfter Kind.braceRole 0 mid = some 0) := by
  have hsound := s.start_sound input
  have hqueue := s.start_queue input
  obtain ⟨body, rfl, hgiven, hempty, hend⟩ := fullscan_given hsound h
  have hlast : Inert [endOf s'.state.source s'.state.text] := .singleton rfl
  obtain ⟨-, hentry, hbalanced⟩ := hgiven.balanced hqueue
  rw [hempty, List.append_nil] at hbalanced
  refine ⟨hbalanced.append hlast.strings 0, ?_, ?_⟩
  · intro fuel state state' batch hopening hstep
    exact Scan.step_braceDepth hopening hstep
  · intro htext before mid after t u hsplit hadjoin hafter
    have hleveled := hgiven.leveled hsound hqueue htext
    rw [hempty, List.append_nil] at hleveled
    have hsplit' : body ++ [endOf s'.state.source s'.state.text]
        = (before ++ t :: mid ++ [u]) ++ after := by
      rw [hsplit, List.append_assoc _ [u], List.singleton_append]
    rcases hleveled with hlevels | ⟨hunquoted, -, -, hfront⟩
    · refine braces_of_leveled ?_ ⟨after, hsplit'.symm⟩ hadjoin
      refine ⟨[], ?_⟩
      rw [Token.levelsAfter_append, hlevels]
      exact Token.levelsAfter_inert hlast
    · -- the last fragment of the text is not among the two
      have htwo := hafter (hentry.symm.trans hunquoted)
      have hbody := congrArg List.dropLast hsplit'
      rw [List.dropLast_concat,
        List.dropLast_append_of_ne_nil (by rintro rfl; exact absurd htwo (by decide))] at hbody
      refine braces_of_leveled hfront (prefix_dropLast hbody ?_) hadjoin
      rw [← List.length_pos_iff, List.length_dropLast]
      omega

/-- A string with a brace in its code, and in the braces another string. -/
def nestedText : List Char :=
  ['"', 'a', '$', '{', '{', '"', 'b', '$', '{', 'c', '}', 'd', '"', '}', '}', 'e', '"']

/-- The braces between the outer fragments enclose a string of their own. -/
theorem fullscan_nested_braces : ∃ (s' : TokenStream) (mid after : List Token) (t u : Token),
    fullscan ((empty .standard).start (.manifest nestedText "")).2
        = .ok (t :: mid ++ u :: after) s' ∧
      mid.map (·.kind) = [.mark .openBrace, .stringStart, .variable, .stringEnd,
        .mark .closeBrace] ∧
      Adjoin t mid u ∧ depthAfter Kind.stringRole 0 (t :: mid ++ u :: after) = some 0 ∧
      depthAfter Kind.braceRole 0 mid = some 0 := by
  have hscan : (fullscan.run' ((empty .standard).start (.manifest nestedText "")).2).any fun ts =>
      decide (∃ t ∈ ts, ∃ u ∈ ts, ts = t :: (ts.drop 1).take 5 ++ u :: ts.drop 7 ∧
        Adjoin t ((ts.drop 1).take 5) u ∧ ((ts.drop 1).take 5).map (·.kind)
          = [.mark .openBrace, .stringStart, .variable, .stringEnd, .mark .closeBrace]) := by
    decide +kernel
  cases h : fullscan ((empty .standard).start (.manifest nestedText "")).2 with
  | error stop s' =>
      delta EStateM.run' EStateM.run at hscan
      rw [h] at hscan
      exact absurd hscan Bool.false_ne_true
  | ok ts s' =>
      delta EStateM.run' EStateM.run at hscan
      rw [h] at hscan
      obtain ⟨t, -, u, -, hsplit, hadjoin, hkinds⟩ := of_decide_eq_true hscan
      generalize (ts.drop 1).take 5 = mid at hsplit hadjoin hkinds
      generalize ts.drop 7 = after at hsplit
      subst hsplit
      obtain ⟨hstrings, -, hbraces⟩ := fullscan_nested _ _ h
      have hcode : ((empty .standard).start (.manifest nestedText "")).2.entry ≠ .unquoted := by
        decide +kernel
      have hmid := hbraces (by decide +kernel) [] mid after t u rfl hadjoin (absurd · hcode)
      exact ⟨s', mid, after, t, u, rfl, hkinds, hadjoin, hstrings, hmid⟩

end Manifest.TokenStream
