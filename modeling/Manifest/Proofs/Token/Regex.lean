import Manifest.Proofs.Quote.Closing
import Manifest.Token.Shape
import Mathlib.Data.List.Basic

/-!
# What regular expressions are

A regular expression goes up to the first slash behind an even number of backslashes, and that slash
stands on the line. Before it every slash is protected by a backslash, and in the pattern the slash
alone is left of the two; all other backslashes stay.

* `regex?_eq_some_iff` — the body of a regular expression.
* `regex?_isSome_iff` — where there is one.
* `regexPattern_eq` — the pattern of a body.
-/

namespace Manifest.Token

open Quote (Closes Passed Unclosed finalBackslashes passed_pair passed_single)

variable {cs ds body : List Char} {c : Char}

/-! ## The closing slash -/

/-- What is read of a regular expression at the front of a text: the body up to the slash that
closes it, or nothing, if every slash that could do so stands behind a line feed. -/
def Reads (cs : List Char) : Option (List Char) → Prop
  | some body => '\n' ∉ body ∧ ∃ rest, Closes '/' cs body rest
  | none =>
      ∀ before after, cs = before ++ '/' :: after → Even (finalBackslashes before) → '\n' ∈ before

/-- A part of the line without a closing slash stands before what is read. -/
theorem Reads.prepend {read : Option (List Char)} (h : Reads cs read) (hds : Passed '/' ds)
    (hline : '\n' ∉ ds) : Reads (ds ++ cs) (read.map (ds ++ ·)) := by
  cases read with
  | some body =>
      obtain ⟨hbody, rest, hcloses⟩ := h
      exact ⟨fun hmem => (List.mem_append.1 hmem).elim hline hbody, rest, hcloses.prepend hds⟩
  | none =>
      intro before after hsplit heven
      obtain ⟨more, rfl⟩ := hds.inner hsplit heven
      rw [List.append_assoc] at hsplit
      have hmore := h more after (List.append_cancel_left hsplit)
        ((Quote.finalBackslashes_append_of_even hds.even more).1 heven)
      exact List.mem_append_right _ hmore

/-- A line feed ends the search. -/
theorem reads_none (hds : Passed '/' ds) (hfeed : '\n' ∈ ds) (cs : List Char) :
    Reads (ds ++ cs) none := by
  intro before after hsplit heven
  obtain ⟨more, rfl⟩ := hds.inner hsplit heven
  exact List.mem_append_left _ hfeed

/-- If a backslash is left over (`odd`), it is read with the character behind it. -/
theorem regexFrom?_reads (odd : Bool) (cs : List Char) :
    if odd then Reads ('\\' :: cs) ((regexFrom? odd cs).map ('\\' :: ·))
    else Reads cs (regexFrom? odd cs) := by
  -- behind a backslash (`odd`) the statement is about the text with that backslash in front
  fun_induction regexFrom? odd cs with
  | case1 odd =>
      cases odd with
      | false =>
          intro before after h _
          exact absurd h.symm (List.append_ne_nil_of_right_ne_nil _ nofun)
      | true =>
          intro before after h _
          cases before with
          | nil => exact absurd (List.cons.inj h).1 (by decide)
          | cons d before =>
              exact absurd (List.cons.inj h).2.symm (List.append_ne_nil_of_right_ne_nil _ nofun)
  | case2 odd cs =>
      cases odd with
      | false =>
          exact reads_none (passed_single (c := '\n') (by decide) (by decide)) List.mem_cons_self cs
      | true =>
          exact reads_none (passed_pair (by decide) '\n')
            (List.mem_cons_of_mem _ List.mem_cons_self) cs
  | case3 odd c cs hfeed hslash =>
      rw [Bool.and_eq_true, decide_eq_true_iff, Bool.not_eq_true'] at hslash
      obtain ⟨rfl, rfl⟩ := hslash
      exact ⟨List.not_mem_nil, cs, Quote.closes_nil '/' cs⟩
  | case4 odd c cs hfeed hslash ih =>
      cases odd with
      | false =>
          by_cases hc : c = '\\'
          · subst hc
            exact ih
          · have hne : c ≠ '/' := by
              rintro rfl
              exact hslash rfl
            rw [decide_eq_false hc, Bool.false_and] at ih ⊢
            have hline : '\n' ∉ [c] :=
              List.not_mem_cons_of_ne_of_not_mem (Ne.symm hfeed) List.not_mem_nil
            exact ih.prepend (passed_single hc hne) hline
      | true =>
          rw [Bool.not_true, Bool.and_false] at ih ⊢
          rw [if_pos rfl, Option.map_map]
          have hline : '\n' ∉ ['\\', c] :=
            List.not_mem_cons_of_ne_of_not_mem (by decide)
              (List.not_mem_cons_of_ne_of_not_mem (Ne.symm hfeed) List.not_mem_nil)
          exact ih.prepend (passed_pair (by decide) c) hline

/-- What is found is a regular expression, and nothing is if there is none. -/
theorem regex?_reads (cs : List Char) : Reads cs (regex? cs) := regexFrom?_reads false cs

/-- The body of a regular expression ends at the first slash behind an even number of backslashes,
and holds no line feed. -/
theorem regex?_eq_some_iff :
    regex? cs = some body ↔ '\n' ∉ body ∧ ∃ rest, Closes '/' cs body rest := by
  have hreads := regex?_reads cs
  constructor
  · intro h
    rwa [h] at hreads
  · rintro ⟨hline, rest, hcloses⟩
    cases hread : regex? cs with
    | none =>
        rw [hread] at hreads
        exact absurd (hreads body rest hcloses.split hcloses.even) hline
    | some found =>
        rw [hread] at hreads
        obtain ⟨-, rest', hfound⟩ := hreads
        rw [(hfound.unique hcloses).1]

/-- There is a regular expression wherever some slash on the line stands behind an even number of
backslashes. -/
theorem regex?_isSome_iff : (regex? cs).isSome ↔
    ∃ before after, cs = before ++ '/' :: after ∧ '\n' ∉ before ∧
      Even (finalBackslashes before) := by
  have hreads := regex?_reads cs
  cases hread : regex? cs with
  | none =>
      rw [hread] at hreads
      refine iff_of_false Bool.false_ne_true ?_
      rintro ⟨before, after, hsplit, hline, heven⟩
      exact hline (hreads before after hsplit heven)
  | some body =>
      rw [hread] at hreads
      obtain ⟨hline, rest, hcloses⟩ := hreads
      exact iff_of_true rfl ⟨body, rest, hcloses.split, hline, hcloses.even⟩

/-! ## The pattern -/

/-- Only a backslash stands before a slash that is protected. -/
theorem getLast?_of_not_even (h : ¬ Even (finalBackslashes cs)) : cs.getLast? = some '\\' := by
  rcases List.eq_nil_or_concat' cs with rfl | ⟨front, c, rfl⟩
  · exact absurd Even.zero h
  · by_cases hc : c = '\\'
    · rw [List.getLast?_concat, hc]
    · refine absurd ?_ h
      rw [finalBackslashes, List.reverse_append, List.reverse_singleton, List.singleton_append,
        List.takeWhile_cons, if_neg (by simpa using hc)]
      exact Even.zero

theorem intercalate_cons_cons_head {α : Type} (sep : List α) (a : α) (piece : List α)
    (pieces : List (List α)) :
    sep.intercalate ((a :: piece) :: pieces) = a :: sep.intercalate (piece :: pieces) := by
  cases pieces with
  | nil => rw [List.intercalate_singleton, List.intercalate_singleton]
  | cons next pieces => rw [List.intercalate_cons_cons, List.intercalate_cons_cons]; rfl

/-- A text in which a backslash stands before each slash is made of pieces without slashes, joined
by a backslash and a slash each. Its pattern is made of the same pieces, joined by the slashes
alone. -/
theorem regexPattern_eq
    (h : ∀ before after, body = before ++ '/' :: after → before.getLast? = some '\\') :
    ∃ piece pieces, (∀ p ∈ piece :: pieces, '/' ∉ p) ∧
      body = ['\\', '/'].intercalate (piece :: pieces) ∧
      regexPattern body = ['/'].intercalate (piece :: pieces) := by
  fun_induction regexPattern body with
  | case1 cs ih =>
      have hprotected : ∀ before after, cs = before ++ '/' :: after → before.getLast? =
          some '\\' := by
        intro before after hsplit
        have hlast := h ('\\' :: '/' :: before) after (by rw [hsplit]; rfl)
        cases before with
        | nil => exact absurd hlast (by decide)
        | cons d before => rwa [List.getLast?_cons_cons, List.getLast?_cons_cons] at hlast
      obtain ⟨piece, pieces, hpieces, hcs, hpattern⟩ := ih hprotected
      -- a protected slash ends a piece
      refine ⟨[], piece :: pieces, List.forall_mem_cons.2 ⟨List.not_mem_nil, hpieces⟩, ?_, ?_⟩
      · rw [List.intercalate_cons_cons, ← hcs]
        rfl
      · rw [List.intercalate_cons_cons, ← hpattern]
        rfl
  | case2 c cs hpair ih =>
      have hc : '/' ≠ c := by
        rintro rfl
        exact nomatch h [] cs rfl
      have hprotected : ∀ before after, cs = before ++ '/' :: after → before.getLast? =
          some '\\' := by
        intro before after hsplit
        have hlast := h (c :: before) after (by rw [hsplit]; rfl)
        cases before with
        | nil => exact absurd hsplit (hpair after (Option.some.inj hlast))
        | cons d before => rwa [List.getLast?_cons_cons] at hlast
      obtain ⟨piece, pieces, hpieces, hcs, hpattern⟩ := ih hprotected
      obtain ⟨hpiece, hpieces⟩ := List.forall_mem_cons.1 hpieces
      refine ⟨c :: piece, pieces, List.forall_mem_cons.2 ⟨?_, hpieces⟩, ?_, ?_⟩
      · exact List.not_mem_cons_of_ne_of_not_mem hc hpiece
      · rw [intercalate_cons_cons_head, ← hcs]
      · rw [intercalate_cons_cons_head, ← hpattern]
  | case3 =>
      refine ⟨[], [], ?_, ?_, ?_⟩
      · exact List.forall_mem_singleton.2 List.not_mem_nil
      · rw [List.intercalate_singleton]
      · rw [List.intercalate_singleton]

end Manifest.Token
