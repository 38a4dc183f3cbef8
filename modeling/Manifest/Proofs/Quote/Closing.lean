import Manifest.Proofs.Quote.Run
import Manifest.Proofs.Quote.Single
import Mathlib.Algebra.Group.Nat.Even

/-!
# Where text in single quotes is closed

Whether a quote closes a text depends on the backslashes before it: read from the front, they make
pairs, and one that is left over protects the quote. So the first quote behind an even number of
backslashes closes the text. Before it, pairs of backslashes and protected quotes stand for one
character, and all others for themselves.

* `Closes` — the text goes up to the first quote that nothing protects.
* `Unclosed` — every quote in the text is protected.
* `collect_closes` — a run of text in single quotes, or why there is none.
-/

namespace Manifest.Quote

open Text (byteLength byteLength_append)

variable {q : Char} {cs ds body rest : List Char}

/-- How many backslashes a text ends with. -/
def finalBackslashes (cs : List Char) : Nat := (cs.reverse.takeWhile (· = '\\')).length

/-- The first quote behind an even number of backslashes stands between `body` and `rest`. -/
structure Closes (q : Char) (cs body rest : List Char) : Prop where
  split : cs = body ++ q :: rest
  even : Even (finalBackslashes body)
  first : ∀ before after, cs = before ++ q :: after → Even (finalBackslashes before) →
    body.length ≤ before.length

/-- No quote stands behind an even number of backslashes. -/
def Unclosed (q : Char) (cs : List Char) : Prop :=
  ∀ before after, cs = before ++ q :: after → ¬ Even (finalBackslashes before)

/-- What stands in single quotes, with a backslash for each pair of them and a quote for each that
is protected. -/
def unprotect : List Char → List Char
  | '\\' :: '\\' :: cs => '\\' :: unprotect cs
  | '\\' :: '\'' :: cs => '\'' :: unprotect cs
  | c :: cs => c :: unprotect cs
  | [] => []

/-! ## Parts that are read at once -/

/-- A text with a closing quote is not unclosed. -/
theorem Closes.not_unclosed (h : Closes q cs body rest) : ¬ Unclosed q cs :=
  fun hopen => hopen body rest h.split h.even

/-- There is one such quote at most. -/
theorem Closes.unique {body' rest' : List Char} (h : Closes q cs body rest)
    (h' : Closes q cs body' rest') : body = body' ∧ rest = rest' := by
  have hlength : body.length = body'.length :=
    Nat.le_antisymm (h.first _ _ h'.split h'.even) (h'.first _ _ h.split h.even)
  obtain ⟨hbody, hrest⟩ := List.append_inj (h.split.symm.trans h'.split) hlength
  exact ⟨hbody, (List.cons.inj hrest).2⟩

/-- Every quote in front of the one that closes the text is protected. -/
theorem Closes.unclosed (h : Closes q cs body rest) : Unclosed q body := by
  rintro before after rfl heven
  have hlength := h.first before (after ++ q :: rest)
    (by rw [h.split, List.append_assoc, List.cons_append]) heven
  rw [List.length_append, List.length_cons] at hlength
  omega

/-- An even number of backslashes in front changes nothing of the parity at the end. -/
theorem finalBackslashes_append_of_even (hds : Even (finalBackslashes ds)) (cs : List Char) :
    Even (finalBackslashes (ds ++ cs)) ↔ Even (finalBackslashes cs) := by
  unfold finalBackslashes at hds ⊢
  rw [List.reverse_append, List.takeWhile_append]
  split
  next hall =>
    -- the backslashes of both parts join
    rw [List.length_append, Nat.even_add, iff_true_right hds, ← hall]
  next => rfl

/-- No quote in the part closes the text, and whether later quotes do does not depend on it. -/
structure Passed (q : Char) (ds : List Char) : Prop where
  even : Even (finalBackslashes ds)
  inner : ∀ {cs before after}, ds ++ cs = before ++ q :: after → Even (finalBackslashes before) →
    ∃ more, before = ds ++ more

/-- A character that is neither a backslash nor the quote. -/
theorem passed_single {c : Char} (hbackslash : c ≠ '\\') (hquote : c ≠ q) : Passed q [c] := by
  constructor
  · rw [finalBackslashes, List.reverse_singleton, List.takeWhile_cons,
      if_neg (by simpa using hbackslash)]
    exact Even.zero
  · intro cs before after h _
    cases before with
    | nil => exact absurd (List.cons.inj h).1 hquote
    | cons d before =>
        obtain ⟨rfl, -⟩ := List.cons.inj h
        exact ⟨before, rfl⟩

/-- A backslash and the character behind it. -/
theorem passed_pair (hq : q ≠ '\\') (c : Char) : Passed q ['\\', c] := by
  constructor
  · by_cases hc : c = '\\'
    · subst hc
      decide
    · rw [finalBackslashes, show ['\\', c].reverse = [c, '\\'] from rfl, List.takeWhile_cons,
        if_neg (by simpa using hc)]
      exact Even.zero
  · intro cs before after h heven
    match before with
    | [] => exact absurd (List.cons.inj h).1.symm hq
    | [d] =>
        obtain ⟨rfl, -⟩ := List.cons.inj h
        exact absurd heven (by decide)
    | d :: e :: more =>
        obtain ⟨hd, h⟩ := List.cons.inj h
        obtain ⟨he, -⟩ := List.cons.inj h
        exact ⟨more, by rw [← hd, ← he]; rfl⟩

/-- Passed text in front moves the closing quote. -/
theorem Closes.prepend (h : Closes q cs body rest) (hds : Passed q ds) :
    Closes q (ds ++ cs) (ds ++ body) rest := by
  constructor
  · rw [h.split, List.append_assoc]
  · exact (finalBackslashes_append_of_even hds.even body).2 h.even
  · intro before after hsplit heven
    obtain ⟨more, rfl⟩ := hds.inner hsplit heven
    rw [List.append_assoc] at hsplit
    rw [List.length_append, List.length_append]
    exact Nat.add_le_add_left (h.first more after (List.append_cancel_left hsplit)
      ((finalBackslashes_append_of_even hds.even more).1 heven)) _

/-- Passed text in front does not close what is open. -/
theorem Unclosed.prepend (h : Unclosed q cs) (hds : Passed q ds) : Unclosed q (ds ++ cs) := by
  intro before after hsplit heven
  obtain ⟨more, rfl⟩ := hds.inner hsplit heven
  rw [List.append_assoc] at hsplit
  exact h more after (List.append_cancel_left hsplit)
    ((finalBackslashes_append_of_even hds.even more).1 heven)

theorem unclosed_nil (q : Char) : Unclosed q [] := by
  intro before after h
  exact nomatch List.nil_eq_append_iff.1 h

/-- A quote in front closes. -/
theorem closes_nil (q : Char) (rest : List Char) : Closes q (q :: rest) [] rest :=
  ⟨rfl, Even.zero, fun _ _ _ _ => Nat.zero_le _⟩

/-! ## Runs -/

/-- What a run of text in single quotes is, by where the text is closed. -/
def RunsTo (offset : Nat) (cs : List Char) (r : Collected) : Prop :=
  Unclosed '\'' cs ∧ r.run = .error .unclosed ∨
    ∃ body rest, Closes '\'' cs body rest ∧
      r.run = .ok ⟨unprotect body, .quote, offset + byteLength body + 1⟩

/-- A part that is passed stands before a run. -/
theorem RunsTo.push {offset size : Nat} {chars : List Char} {r : Collected} (hds : Passed '\'' ds)
    (hsize : byteLength ds = size)
      (hchars : ∀ body, unprotect (ds ++ body) = chars ++ unprotect body)
    (h : RunsTo (offset + size) cs r) : RunsTo offset (ds ++ cs) (r.push chars) := by
  rcases h with ⟨hopen, hrun⟩ | ⟨body, rest, hcloses, hrun⟩
  · refine .inl ⟨hopen.prepend hds, ?_⟩
    rw [Collected.push, hrun]
    rfl
  · refine .inr ⟨ds ++ body, rest, hcloses.prepend hds, ?_⟩
    rw [Collected.push, hrun, hchars, byteLength_append, hsize, ← Nat.add_assoc]
    rfl

/-- What is no backslash is kept. -/
theorem unprotect_cons {c : Char} (h : c ≠ '\\') (body : List Char) :
    unprotect (c :: body) = c :: unprotect body := by
  rw [unprotect]
  · exact fun _ hc => absurd hc h
  · exact fun _ hc => absurd hc h

/-- A backslash before a character that it does not protect stands for itself. -/
theorem unprotect_kept {c : Char} (hbackslash : c ≠ '\\') (hquote : c ≠ '\'') (body : List Char) :
    unprotect ('\\' :: c :: body) = '\\' :: c :: unprotect body := by
  rw [unprotect, unprotect_cons hbackslash]
  · exact fun _ _ h => absurd (List.cons.inj h).1 hbackslash
  · exact fun _ _ h => absurd (List.cons.inj h).1 hquote

/-- A backslash and what it protects stand for that. -/
theorem unprotect_protected {c : Char} (hc : c = '\\' ∨ c = '\'') (body : List Char) :
    unprotect ('\\' :: c :: body) = c :: unprotect body := by
  rcases hc with rfl | rfl
  · rw [unprotect]
  · rw [unprotect]

/-- A run of text in single quotes goes up to the first quote that nothing protects, and if there is
none the text is not closed. -/
theorem collect_closes (cs : List Char) (offset : Nat) :
    RunsTo offset cs (collect .single .singleQuoted offset cs) := by
  fun_induction collect .single .singleQuoted offset cs with
  | case1 offset => exact .inl ⟨unclosed_nil _, rfl⟩
  | case2 offset h => exact absurd rfl h
  -- a backslash at the end of the text
  | case3 offset ih =>
      refine .inl ⟨fun before after h => ?_, ?_⟩
      · cases before with
        | nil => exact absurd (List.cons.inj h).1 (by decide)
        | cons d before => simp at h
      · rw [collect]
        rfl
  | case4 offset cs h => exact absurd h (by decide)
  | case5 offset cs _ ih =>
      rw [RunsTo, Collected.note_run]
      exact RunsTo.push (passed_pair (by decide) '\r') rfl
        (unprotect_kept (by decide) (by decide)) ih
  | case6 offset c cs _ h => exact absurd (Bool.and_eq_true_iff.1 h).2 (by decide)
  | case7 offset c cs _ _ hallows ih =>
      have hc : ¬ (c = '\\' ∨ c = '\'') := by
        rw [← allows_singleQuoted_iff]
        simpa using hallows
      obtain ⟨hbackslash, hquote⟩ := not_or.1 hc
      rw [RunsTo, Collected.note_run]
      rw [Nat.add_assoc] at ih ⊢
      exact RunsTo.push (passed_pair (by decide) c) rfl (unprotect_kept hbackslash hquote) ih
  | case8 offset cs _ _ _ _ _ h => exact absurd h (by decide)
  | case9 offset cs _ _ _ h => exact absurd h (by decide)
  | case10 offset cs _ _ h => exact absurd h (by decide)
  | case11 offset c cs _ _ hallows _ _ ih =>
      have hc : EscapeSet.singleQuoted.allows c := by simpa using hallows
      have hsize : byteLength ['\\', c] = 2 := byteLength_escape hc
      rw [allows_singleQuoted_iff] at hc
      have hmeaning : meaning c = c := by rcases hc with rfl | rfl <;> rfl
      rw [hmeaning]
      exact RunsTo.push (passed_pair (by decide) c) hsize (unprotect_protected hc) ih
  | case12 offset c cs _ _ _ hquote =>
      obtain rfl := Option.some.inj hquote
      exact .inr ⟨[], cs, closes_nil _ _, rfl⟩
  | case13 offset c cs _ _ _ _ h => exact absurd (Bool.and_eq_true_iff.1 h).2 (by decide)
  | case14 offset c cs _ _ _ _ h => exact absurd (Bool.and_eq_true_iff.1 h).2 (by decide)
  | case15 offset c cs hlast _ hmore hquote _ ih =>
      have hbackslash : c ≠ '\\' := ne_backslash_of_not_escape hlast hmore
      have hne : c ≠ '\'' := by
        rintro rfl
        exact hquote rfl
      exact RunsTo.push (passed_single hbackslash hne) rfl (unprotect_cons hbackslash) ih

end Manifest.Quote
