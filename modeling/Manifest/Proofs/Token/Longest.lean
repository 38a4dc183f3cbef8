import Manifest.Proofs.Token.Pattern

/-!
# The longest spelling at the front

A word, a reference or a variable is read piece by piece, each piece as far as it goes. What is read
has the pattern of its shape, and nothing longer at the front of the text has it: a shorter piece
would leave nothing for a further one, since only a separator lets one begin, and no separator
stands where a piece goes on.

* `Longest` — the longest front of a text that has a pattern.
* `pieces_mem`, `Qualified.prefix_pieces` — pieces make up a text of the pattern, and the longest.
* `names_longest` — words, references, variables and names.
-/

namespace Manifest.Token

open scoped Computability

variable {cs ds es rest lead : List Char} {c : Char} {p : Char → Bool} {l : Language Char}

/-- The front of a text that has the pattern and than which no front with the pattern is longer, or
nothing if no front has it. -/
def Longest (l : Language Char) (cs : List Char) : Option (List Char) → Prop
  | some ds => ds <+: cs ∧ ds ∈ l ∧ ∀ es ∈ l, es <+: cs → es.length ≤ ds.length
  | none => ∀ es ∈ l, ¬ es <+: cs

/-- A front that begins with every front of the pattern is the longest, unless it is empty. -/
theorem longest_nonempty? (hne : [] ∉ l) (hfront : ds <+: cs) (hmem : ds ≠ [] → ds ∈ l)
    (hlongest : ∀ es ∈ l, es <+: cs → es <+: ds) : Longest l cs (nonempty? ds) := by
  rw [nonempty?]
  split
  next hnil =>
    intro es hes hinit
    obtain rfl := List.isEmpty_iff.1 hnil
    exact hne (List.prefix_nil.1 (hlongest es hes hinit) ▸ hes)
  next hds =>
    refine ⟨hfront, hmem fun hnil => hds (List.isEmpty_iff.2 hnil), ?_⟩
    exact fun es hes hinit => (hlongest es hes hinit).length_le

/-! ## Pieces -/

section Pieces

variable {piece : List Char → List Char} {part : Language Char} {start : Char → Bool}
  {Tail : List Char → Prop}

/-- Pieces that have a pattern make up a text of one piece and more. -/
theorem pieces_mem (hpiece : ∀ cs, piece cs ≠ [] → piece cs ∈ part) (h : pieces piece cs ≠ []) :
    pieces piece cs ∈ part * part∗ := by
  fun_induction pieces piece cs with
  | case1 cs _ => exact absurd rfl h
  | case2 cs hcs ih =>
      refine Language.append_mem_mul (hpiece cs (not_or.1 hcs).1) ?_
      by_cases hnil : pieces piece (cs.drop (piece cs).length) = []
      · rw [hnil]
        exact Language.nil_mem_kstar part
      · exact mul_kstar_le_kstar (a := part) (ih hnil)

/-- What the first piece begins with is what all of them begin with. -/
theorem prefix_pieces_of_piece (h : ds <+: piece (ds ++ rest)) :
    ds <+: pieces piece (ds ++ rest) := by
  by_cases hds : ds = []
  · rw [hds]
    exact List.nil_prefix
  · have hpiece : piece (ds ++ rest) ≠ [] := fun hnil => hds (List.prefix_nil.1 (hnil ▸ h))
    have htext : ds ++ rest ≠ [] := List.append_ne_nil_of_left_ne_nil hds rest
    rw [pieces, dif_neg (not_or.2 ⟨hpiece, htext⟩)]
    exact h.trans (List.prefix_append _ _)

/-- Pieces that go as far as they can reach behind any parts at the front. Before a separator there
is one way only to read a part. -/
theorem Qualified.prefix_pieces
    (hpiece : ∀ {lead c cs rest}, Lead lead → start c → Tail cs →
      lead ++ c :: cs <+: piece (lead ++ c :: cs ++ rest))
    (hstops : ∀ {lead c cs rest}, Lead lead → start c → Tail cs → Stops rest →
      piece (lead ++ c :: cs ++ rest) = lead ++ c :: cs)
    (h : Qualified start Tail cs) (rest : List Char) : cs <+: pieces piece (cs ++ rest) := by
  induction h with
  | last hlead hc hcs => exact prefix_pieces_of_piece (hpiece hlead hc hcs)
  | @more lead cs following c hlead hc hcs hfollowing ih =>
      have hne : lead ++ c :: cs ≠ [] := List.append_ne_nil_of_right_ne_nil _ (List.cons_ne_nil _ _)
      have hfirst := hstops hlead hc hcs (stops_separator (following ++ rest))
      rw [List.append_assoc (lead ++ c :: cs)]
      show _ <+: pieces piece (lead ++ c :: cs ++ ':' :: ':' :: (following ++ rest))
      rw [pieces_append hfirst hne]
      exact (List.prefix_append_right_inj _).2 ih

end Pieces

/-! ## Words -/

/-- What does not end with a character of a class stands before what is left of the characters of
the class at the end. -/
theorem prefix_dropEndWhile (h : ∀ c ∈ cs.getLast?, p c = false) (ds : List Char) :
    cs <+: Text.dropEndWhile p (cs ++ ds) := by
  rw [← List.reverse_suffix, Text.dropEndWhile, List.reverse_reverse, List.reverse_append,
    List.dropWhile_append]
  split
  · -- all that follows goes, and nothing of the text itself
    rw [← List.head?_reverse] at h
    cases hcs : cs.reverse with
    | nil => exact List.suffix_rfl
    | cons c back =>
        rw [hcs] at h
        rw [List.dropWhile_cons_of_neg (Bool.eq_false_iff.1 (h c rfl))]
  · exact List.suffix_append _ _

/-- No word ends with a dash. -/
theorem WordTail.getLast_ne (h : WordTail cs) : ∀ c ∈ cs.getLast?, (c == '-') = false := by
  intro c hc
  have hword := h.2 c hc
  rw [beq_eq_false_iff_ne]
  rintro rfl
  exact absurd hword (by decide)

/-- A part of a word at the front is read at least. -/
theorem prefix_wordPiece (hlead : Lead lead) (hc : startsBare c) (hcs : WordTail cs) :
    lead ++ c :: cs <+: wordPiece (lead ++ c :: cs ++ rest) := by
  rw [List.append_assoc, List.cons_append, wordPiece_eq hlead hc, List.prefix_append_right_inj,
    List.cons_prefix_cons, List.takeWhile_append_of_pos hcs.1]
  exact ⟨rfl, prefix_dropEndWhile hcs.getLast_ne _⟩

/-- What is left of a run without the dashes at its end follows the first letter of a word. -/
theorem wordTail_dropEndWhile (h : ∀ c ∈ cs, isDashed c) :
    WordTail (Text.dropEndWhile (· == '-') cs) := by
  have hdashed : ∀ c ∈ Text.dropEndWhile (· == '-') cs, isDashed c := fun c hc =>
    h c ((dropEndWhile_isPrefix _ cs).subset hc)
  refine ⟨hdashed, ?_⟩
  intro c hc
  have hne : Text.dropEndWhile (· == '-') cs ≠ [] := by
    intro hnil
    rw [hnil] at hc
    exact nomatch hc
  have hlast := List.rdropWhile_last_not (· == '-') cs hne
  have hdash := hdashed c (List.mem_of_getLast? hc)
  rw [List.getLast?_eq_getLast_of_ne_nil hne] at hc
  obtain rfl := Option.some.inj hc
  exact (Bool.or_eq_true_iff.1 hdash).resolve_right fun heq =>
    hlast (beq_iff_eq.2 (of_decide_eq_true heq))

/-- A part of a word is one of the pattern. -/
theorem mem_wordPiece (hlead : Lead lead) (hc : startsBare c) (hcs : WordTail cs) :
    lead ++ c :: cs ∈
      optional separator * (one startsBare * optional ((one isDashed)∗ * one isWordChar)) := by
  refine Language.append_mem_mul (mem_optional_separator.2 hlead) ?_
  refine mem_one_mul.2 ⟨c, cs, rfl, hc, mem_optional.2 ?_⟩
  rcases List.eq_nil_or_concat' cs with rfl | ⟨run, d, rfl⟩
  · exact .inl rfl
  · refine .inr (Language.append_mem_mul (mem_star_one.2 ?_) ⟨d, rfl, ?_⟩)
    · exact fun e he => hcs.1 e (List.mem_append_left _ he)
    · exact hcs.2 d (by rw [List.getLast?_concat]; rfl)

/-- What is read as a part of a word is one. -/
theorem wordPiece_mem (cs : List Char) (h : wordPiece cs ≠ []) : wordPiece cs ∈
    optional separator * (one startsBare * optional ((one isDashed)∗ * one isWordChar)) := by
  rw [wordPiece] at h ⊢
  dsimp only at h ⊢
  split at h
  next c rest heq =>
    split at h
    next hc =>
      rw [if_pos hc]
      exact mem_wordPiece (lead_colons cs) hc
        (wordTail_dropEndWhile fun _ => List.mem_takeWhile_imp)
    next => exact absurd rfl h
  next => exact absurd rfl h

/-- The word that is read is the longest at the front. -/
theorem word?_longest (cs : List Char) : Longest wordPattern cs (word? cs) := by
  refine longest_nonempty? ?_ (pieces_isPrefix wordPiece_isPrefix cs) (pieces_mem wordPiece_mem) ?_
  · exact fun hnil => (qualified_of_mem_wordPattern hnil).ne_nil rfl
  · rintro es hes ⟨rest, rfl⟩
    exact (qualified_of_mem_wordPattern hes).prefix_pieces prefix_wordPiece wordPiece_append rest

/-! ## References -/

/-- A part of a reference at the front is read at least. -/
theorem prefix_referencePiece (hlead : Lead lead) (hc : c.isUpper) (hcs : NameTail cs) :
    lead ++ c :: cs <+: referencePiece (lead ++ c :: cs ++ rest) := by
  rw [List.append_assoc, List.cons_append, referencePiece_eq hlead hc, List.prefix_append_right_inj,
    List.cons_prefix_cons, List.takeWhile_append_of_pos hcs]
  exact ⟨rfl, List.prefix_append _ _⟩

/-- What is read as a part of a reference is one. -/
theorem referencePiece_mem (cs : List Char) (h : referencePiece cs ≠ []) :
    referencePiece cs ∈ optional separator * (one Char.isUpper * (one isWordChar)∗) := by
  rw [referencePiece] at h ⊢
  split at h
  next c rest heq =>
    split at h
    next hc =>
      rw [if_pos hc]
      refine Language.append_mem_mul (mem_optional_separator.2 (lead_colons cs)) ?_
      exact mem_one_mul.2 ⟨c, _, rfl, hc, mem_star_one.2 fun _ => List.mem_takeWhile_imp⟩
    next => exact absurd rfl h
  next => exact absurd rfl h

/-- The reference that is read is the longest at the front. -/
theorem reference?_longest (cs : List Char) : Longest referencePattern cs (reference? cs) := by
  refine longest_nonempty? ?_ (pieces_isPrefix referencePiece_isPrefix cs)
    (pieces_mem referencePiece_mem) ?_
  · exact fun hnil => (qualified_of_mem_referencePattern hnil).ne_nil rfl
  · rintro es hes ⟨rest, rfl⟩
    exact (qualified_of_mem_referencePattern hes).prefix_pieces prefix_referencePiece
      referencePiece_append rest

/-! ## Variables -/

/-- Words behind separators are what further parts of a variable are read as. -/
theorem exists_pieces_eq_behind (cs : List Char) :
    ∃ words, pieces qualifiedPiece cs = behind words ∧ ∀ w ∈ words, Wordy w := by
  fun_induction pieces qualifiedPiece cs with
  | case1 => exact ⟨[], rfl, fun _ hw => absurd hw List.not_mem_nil⟩
  | case2 cs hcs ih =>
      obtain ⟨words, heq, hwords⟩ := ih
      obtain ⟨word, hpiece, hword⟩ : ∃ word, qualifiedPiece cs = ':' :: ':' :: word ∧
          Wordy word := by
        have hne := (not_or.1 hcs).1
        unfold qualifiedPiece at hne ⊢
        split at hne
        next rest =>
          dsimp only at hne ⊢
          split at hne
          next => exact absurd rfl hne
          next hname =>
            rw [if_neg hname]
            refine ⟨_, rfl, fun hnil => hname (List.isEmpty_iff.2 hnil), ?_⟩
            exact fun c => List.mem_takeWhile_imp
        next => exact absurd rfl hne
      refine ⟨word :: words, ?_, List.forall_mem_cons.2 ⟨hword, hwords⟩⟩
      rw [heq, hpiece, behind_cons]

theorem prefix_qualifiedPiece (hcs : Wordy cs) :
    ':' :: ':' :: cs <+: qualifiedPiece (':' :: ':' :: cs ++ rest) := by
  show _ <+: if ((cs ++ rest).takeWhile isWordChar).isEmpty then []
    else ':' :: ':' :: (cs ++ rest).takeWhile isWordChar
  have hne : cs ++ rest.takeWhile isWordChar ≠ [] := List.append_ne_nil_of_left_ne_nil hcs.1 _
  rw [List.takeWhile_append_of_pos hcs.2, if_neg (by rwa [List.isEmpty_iff]),
    List.cons_prefix_cons, List.cons_prefix_cons]
  exact ⟨rfl, rfl, List.prefix_append _ _⟩

/-- Words behind separators at the front are read at least. -/
theorem behind_prefix_pieces {words : List (List Char)} (hwords : ∀ w ∈ words, Wordy w)
    (rest : List Char) : behind words <+: pieces qualifiedPiece (behind words ++ rest) := by
  induction words with
  | nil => exact List.nil_prefix
  | cons word words ih =>
      obtain ⟨hword, hothers⟩ := List.forall_mem_cons.1 hwords
      cases words with
      | nil =>
          rw [behind_cons, show behind [] = [] from rfl, List.append_nil]
          exact prefix_pieces_of_piece (prefix_qualifiedPiece hword)
      | cons next words =>
          have hstops : Stops (behind (next :: words) ++ rest) := stops_separator _
          rw [behind_cons, List.append_assoc, pieces_append (qualifiedPiece_append hword hstops)
            (List.cons_ne_nil _ _), List.prefix_append_right_inj]
          exact ih hothers

/-- A part of a qualified name is one of the pattern. -/
theorem mem_word (h : Wordy cs) : cs ∈ one isWordChar * (one isWordChar)∗ := by
  obtain ⟨c, tail, rfl⟩ := List.exists_cons_of_ne_nil h.1
  obtain ⟨hc, htail⟩ := List.forall_mem_cons.1 h.2
  exact mem_one_mul.2 ⟨c, tail, rfl, hc, mem_star_one.2 htail⟩

/-- A word and more of them behind separators are a variable. -/
theorem mem_variablePattern {word : List Char} {words : List (List Char)} (hlead : Lead lead)
    (hword : Wordy word) (hwords : ∀ w ∈ words, Wordy w) :
    lead ++ (word ++ behind words) ∈ variablePattern := by
  refine Language.append_mem_mul (mem_optional_separator.2 hlead) ?_
  induction words generalizing word with
  | nil =>
      rw [show behind [] = [] from rfl, List.append_nil]
      exact Language.append_mem_mul (Language.nil_mem_kstar _) (mem_word hword)
  | cons next words ih =>
      obtain ⟨hnext, hothers⟩ := List.forall_mem_cons.1 hwords
      obtain ⟨front, hfront, last, hlast, heq⟩ := Language.mem_mul.1 (ih hnext hothers)
      have hsplit : word ++ behind (next :: words) = word ++ [':', ':'] ++ front ++ last := by
        rw [behind_cons, List.append_assoc _ front, heq, List.append_assoc]
        rfl
      rw [hsplit]
      refine Language.append_mem_mul ?_ hlast
      exact mul_kstar_le_kstar (a := one isWordChar * (one isWordChar)∗ * separator)
        (Language.append_mem_mul (Language.append_mem_mul (mem_word hword) rfl) hfront)

/-- What is read as a variable is one. -/
theorem variableName?_mem (h : variableName? cs = some ds) : ds ∈ variablePattern := by
  simp only [variableName?] at h
  split at h
  next => cases h
  next hne =>
    obtain ⟨words, heq, hwords⟩ := exists_pieces_eq_behind
      (cs.drop (colons cs ++ (cs.drop (colons cs).length).takeWhile isWordChar).length)
    rw [heq, List.append_assoc] at h
    rw [← Option.some.inj h]
    refine mem_variablePattern (lead_colons cs) ⟨?_, fun c => List.mem_takeWhile_imp⟩ hwords
    exact fun hnil => hne (List.isEmpty_iff.2 hnil)

/-- A variable at the front is read at least. -/
theorem exists_variableName? (h : es ∈ variablePattern) (rest : List Char) :
    ∃ ds, variableName? (es ++ rest) = some ds ∧ es <+: ds := by
  obtain ⟨lead, word, words, rfl, hlead, hword, hwords⟩ := exists_of_mem_variablePattern h
  obtain ⟨c, tail, rfl⟩ := List.exists_cons_of_ne_nil hword.1
  obtain ⟨hc, htail⟩ := List.forall_mem_cons.1 hword.2
  have hsplit : lead ++ (c :: tail ++ behind words) ++ rest
      = lead ++ c :: (tail ++ (behind words ++ rest)) := by
    simp only [List.append_assoc, List.cons_append]
  refine ⟨_, by rw [hsplit]; exact variableName?_eq hlead hc,
    (List.prefix_append_right_inj lead).2 ?_⟩
  cases words with
  | nil =>
      -- the last word may go on
      rw [show behind [] = [] from rfl, List.append_nil, List.nil_append,
        List.takeWhile_append_of_pos htail, ← List.cons_append, List.append_assoc]
      exact List.prefix_append _ _
  | cons next words =>
      have hstops : Stops (behind (next :: words) ++ rest) := stops_separator _
      rw [takeWhile_append_of_head htail hstops.not_isWordChar,
        dropWhile_append_of_head htail hstops.not_isWordChar]
      exact (List.prefix_append_right_inj _).2 (behind_prefix_pieces hwords rest)

/-- The name of a variable that is read is the longest at the front. -/
theorem variableName?_longest (cs : List Char) : Longest variablePattern cs (variableName? cs) := by
  cases h : variableName? cs with
  | none =>
      rintro es hes ⟨rest, rfl⟩
      obtain ⟨ds, hds, -⟩ := exists_variableName? hes rest
      rw [h] at hds
      exact nomatch hds
  | some ds =>
      refine ⟨(variableName?_isPrefix h).1, variableName?_mem h, ?_⟩
      rintro es hes ⟨rest, rfl⟩
      obtain ⟨ds', hds', hprefix⟩ := exists_variableName? hes rest
      rw [h] at hds'
      obtain rfl := Option.some.inj hds'
      exact hprefix.length_le

/-! ## All of them -/

/-- Words, references and variables are read up to the end of the longest front of a text that has
the pattern of their shape, and none is read just when no front has it. Names are the texts of
theirs. -/
theorem names_longest (cs : List Char) :
    Longest wordPattern cs (word? cs) ∧ Longest referencePattern cs (reference? cs) ∧
      Longest variablePattern cs (variableName? cs) ∧ (isName cs ↔ cs ∈ namePattern) :=
  ⟨word?_longest cs, reference?_longest cs, variableName?_longest cs, isName_iff⟩

/-- A dash at the end of a part is no part of a word, so that no separator can follow it. -/
example : word? ['a', '-', 'b', '-', ':', ':', 'c'] = some ['a', '-', 'b'] := by decide +kernel

end Manifest.Token
