import Manifest.Token.Shape
import Mathlib.Data.List.TakeWhile

/-!
# Spellings at the front of a text

Every function that reads a shape gives a front of the text it was given.

* `pieces_isPrefix` — pieces that are fronts make up a front.
* `word?_isPrefix`, `reference?_isPrefix`, `variableName?_isPrefix`, `number_isPrefix` — the shapes.
* `feed_not_mem_word?`, `feed_not_mem_reference?`, `feed_not_mem_variableName?`,
  `feed_not_mem_number` — each of them stands on one line.
* `regex?_spec` — a regular expression ends at a slash.
-/

namespace Manifest.Token

variable {cs ds : List Char} {c : Char}

/-! ## Word characters -/

/-- Word characters are letters, digits and the underscore. -/
theorem isWordChar_iff :
    isWordChar c ↔ ((c.isUpper ∨ c.isLower) ∨ c.isDigit) ∨ c = '_' := by
  show (((c.isUpper || c.isLower) || c.isDigit) || decide (c = '_')) = true ↔ _
  rw [Bool.or_eq_true, Bool.or_eq_true, Bool.or_eq_true, decide_eq_true_eq]

/-- Digits are characters of words. -/
theorem isWordChar_of_isDigit (h : c.isDigit) : isWordChar c := isWordChar_iff.2 (.inl (.inr h))

/-! ## Pieces -/

theorem dropEndWhile_isPrefix (p : Char → Bool) (cs : List Char) :
    Text.dropEndWhile p cs <+: cs := by
  have h := List.dropWhile_suffix p (l := cs.reverse)
  rw [← List.reverse_prefix, List.reverse_reverse] at h
  exact h

/-- A separator begins the text. -/
theorem colons_isPrefix (cs : List Char) : colons cs <+: cs := by
  unfold colons
  split
  next rest => exact ⟨rest, rfl⟩
  next => exact List.nil_prefix

/-- A front and a further front of what follows it make up a front. -/
theorem append_isPrefix (h : ds <+: cs) {es : List Char} (hes : es <+: cs.drop ds.length) :
    ds ++ es <+: cs := by
  obtain ⟨rest, rfl⟩ := h
  rw [List.drop_left] at hes
  exact (List.prefix_append_right_inj ds).2 hes

/-- Pieces begin the text. -/
theorem pieces_isPrefix {piece : List Char → List Char} (h : ∀ cs, piece cs <+: cs)
    (cs : List Char) : pieces piece cs <+: cs := by
  fun_induction pieces piece cs with
  | case1 cs _ => exact List.nil_prefix
  | case2 cs _ ih => exact append_isPrefix (h cs) ih

/-- A part of a word begins the text. -/
theorem wordPiece_isPrefix (cs : List Char) : wordPiece cs <+: cs := by
  simp only [wordPiece]
  split
  next c rest heq =>
    split
    next =>
      refine append_isPrefix (colons_isPrefix cs) ?_
      rw [heq, List.cons_prefix_cons]
      exact ⟨rfl, (dropEndWhile_isPrefix _ _).trans (List.takeWhile_prefix _)⟩
    next => exact List.nil_prefix
  next => exact List.nil_prefix

/-- A part of a reference begins the text. -/
theorem referencePiece_isPrefix (cs : List Char) : referencePiece cs <+: cs := by
  simp only [referencePiece]
  split
  next c rest heq =>
    split
    next =>
      refine append_isPrefix (colons_isPrefix cs) ?_
      rw [heq, List.cons_prefix_cons]
      exact ⟨rfl, List.takeWhile_prefix _⟩
    next => exact List.nil_prefix
  next => exact List.nil_prefix

/-- A part behind colons begins the text. -/
theorem qualifiedPiece_isPrefix (cs : List Char) : qualifiedPiece cs <+: cs := by
  unfold qualifiedPiece
  split
  next rest =>
    dsimp only
    split
    next => exact List.nil_prefix
    next =>
      rw [List.cons_prefix_cons, List.cons_prefix_cons]
      exact ⟨rfl, rfl, List.takeWhile_prefix _⟩
  next => exact List.nil_prefix

/-! ## Words, references and variables -/

theorem nonempty?_eq_some (h : nonempty? cs = some ds) : ds = cs ∧ cs ≠ [] := by
  rw [nonempty?] at h
  split at h
  next => exact nomatch h
  next hne => exact ⟨(Option.some.inj h).symm, fun heq => hne (List.isEmpty_iff.2 heq)⟩

/-- A word begins the text and is not empty. -/
theorem word?_isPrefix (h : word? cs = some ds) : ds <+: cs ∧ ds ≠ [] := by
  obtain ⟨rfl, hne⟩ := nonempty?_eq_some h
  exact ⟨pieces_isPrefix wordPiece_isPrefix cs, hne⟩

/-- A reference begins the text and is not empty. -/
theorem reference?_isPrefix (h : reference? cs = some ds) : ds <+: cs ∧ ds ≠ [] := by
  obtain ⟨rfl, hne⟩ := nonempty?_eq_some h
  exact ⟨pieces_isPrefix referencePiece_isPrefix cs, hne⟩

/-- The name of a variable begins the text and is not empty. -/
theorem variableName?_isPrefix (h : variableName? cs = some ds) : ds <+: cs ∧ ds ≠ [] := by
  simp only [variableName?] at h
  split at h
  next => exact nomatch h
  next hne =>
    have hfirst : (cs.drop (colons cs).length).takeWhile isWordChar ≠ [] :=
      fun heq => hne (List.isEmpty_iff.2 heq)
    rw [← Option.some.inj h]
    constructor
    · refine append_isPrefix ?_ (pieces_isPrefix qualifiedPiece_isPrefix _)
      exact append_isPrefix (colons_isPrefix cs) (List.takeWhile_prefix _)
    · rw [List.append_assoc]
      exact List.append_ne_nil_of_right_ne_nil _ (List.append_ne_nil_of_left_ne_nil hfirst _)

/-! ## Numbers -/

theorem numberTail_isPrefix (hex : Bool) (last : Char) (cs : List Char) :
    numberTail hex last cs <+: cs := by
  induction cs generalizing last with
  | nil => exact List.nil_prefix
  | cons c cs ih =>
      rw [numberTail]
      split
      · rw [List.cons_prefix_cons]
        exact ⟨rfl, ih c⟩
      · exact List.nil_prefix

/-- A number begins the text. -/
theorem number_isPrefix (cs : List Char) : number cs <+: cs := by
  unfold number
  split
  all_goals exact numberTail_isPrefix _ _ _

/-- A number that begins with a digit is not empty. -/
theorem number_ne_nil (hc : c.isDigit) : number (c :: cs) ≠ [] := by
  have hword := isWordChar_of_isDigit hc
  unfold number
  split
  all_goals
    rw [numberTail, hword, Bool.true_or, Bool.true_or, if_pos rfl]
    exact List.cons_ne_nil _ _

/-! ## Line feeds -/

theorem not_mem_takeWhile {p : Char → Bool} (h : p c = false) (cs : List Char) :
    c ∉ cs.takeWhile p := by
  intro hmem
  have hc := List.mem_takeWhile_imp hmem
  rw [h] at hc
  exact nomatch hc

theorem feed_not_mem_colons (cs : List Char) : '\n' ∉ colons cs := by
  unfold colons
  split
  · decide
  · exact List.not_mem_nil

/-- Pieces without line feeds make up no line feed. -/
theorem feed_not_mem_pieces {piece : List Char → List Char} (h : ∀ cs, '\n' ∉ piece cs)
    (cs : List Char) : '\n' ∉ pieces piece cs := by
  fun_induction pieces piece cs with
  | case1 cs _ => exact List.not_mem_nil
  | case2 cs _ ih => exact fun hmem => (List.mem_append.1 hmem).elim (h cs) ih

/-- A separator, a character and what follows it, none of which is a line feed. -/
theorem feed_not_mem_append (cs : List Char) (hc : '\n' ≠ c) (hds : '\n' ∉ ds) :
    '\n' ∉ colons cs ++ c :: ds := by
  intro hmem
  rcases List.mem_append.1 hmem with hmem | hmem
  · exact feed_not_mem_colons cs hmem
  · exact List.not_mem_cons_of_ne_of_not_mem hc hds hmem

/-- There is no line feed in a word. -/
theorem feed_not_mem_wordPiece (cs : List Char) : '\n' ∉ wordPiece cs := by
  simp only [wordPiece]
  split
  next c rest heq =>
    split
    next hc =>
      refine feed_not_mem_append cs ?_ fun hmem =>
        not_mem_takeWhile (by decide) rest ((dropEndWhile_isPrefix _ _).subset hmem)
      rintro rfl
      exact absurd hc (by decide)
    next => exact List.not_mem_nil
  next => exact List.not_mem_nil

/-- There is no line feed in a reference. -/
theorem feed_not_mem_referencePiece (cs : List Char) : '\n' ∉ referencePiece cs := by
  simp only [referencePiece]
  split
  next c rest heq =>
    split
    next hc =>
      refine feed_not_mem_append cs ?_ (not_mem_takeWhile (by decide) rest)
      rintro rfl
      exact absurd hc (by decide)
    next => exact List.not_mem_nil
  next => exact List.not_mem_nil

/-- There is no line feed in a part behind colons. -/
theorem feed_not_mem_qualifiedPiece (cs : List Char) : '\n' ∉ qualifiedPiece cs := by
  unfold qualifiedPiece
  split
  next rest =>
    dsimp only
    split
    next => exact List.not_mem_nil
    next =>
      refine List.not_mem_cons_of_ne_of_not_mem (by decide) ?_
      exact List.not_mem_cons_of_ne_of_not_mem (by decide) (not_mem_takeWhile (by decide) rest)
  next => exact List.not_mem_nil

/-- A word stands on one line. -/
theorem feed_not_mem_word? (h : word? cs = some ds) : '\n' ∉ ds := by
  obtain ⟨rfl, -⟩ := nonempty?_eq_some h
  exact feed_not_mem_pieces feed_not_mem_wordPiece cs

/-- A reference stands on one line. -/
theorem feed_not_mem_reference? (h : reference? cs = some ds) : '\n' ∉ ds := by
  obtain ⟨rfl, -⟩ := nonempty?_eq_some h
  exact feed_not_mem_pieces feed_not_mem_referencePiece cs

/-- The name of a variable stands on one line. -/
theorem feed_not_mem_variableName? (h : variableName? cs = some ds) : '\n' ∉ ds := by
  simp only [variableName?] at h
  split at h
  next => exact nomatch h
  next =>
    rw [← Option.some.inj h]
    intro hmem
    rcases List.mem_append.1 hmem with hmem | hmem
    · rcases List.mem_append.1 hmem with hmem | hmem
      · exact feed_not_mem_colons cs hmem
      · exact not_mem_takeWhile (by decide) _ hmem
    · exact feed_not_mem_pieces feed_not_mem_qualifiedPiece _ hmem

/-- There is no line feed in a number. -/
theorem feed_not_mem_numberTail (hex : Bool) (last : Char) (cs : List Char) :
    '\n' ∉ numberTail hex last cs := by
  induction cs generalizing last with
  | nil => exact List.not_mem_nil
  | cons c cs ih =>
      rw [numberTail]
      split
      next hc =>
        refine List.not_mem_cons_of_ne_of_not_mem ?_ (ih c)
        rintro rfl
        rw [show isWordChar '\n' = false by decide] at hc
        simp at hc
      next => exact List.not_mem_nil

/-- A number stands on one line. -/
theorem feed_not_mem_number (cs : List Char) : '\n' ∉ number cs := by
  unfold number
  split
  all_goals exact feed_not_mem_numberTail _ _ _

/-! ## Regular expressions -/

/-- A regular expression ends before a slash. -/
theorem regexFrom?_spec {odd : Bool} (h : regexFrom? odd cs = some ds) :
    ∃ rest, cs = ds ++ '/' :: rest := by
  induction cs generalizing odd ds with
  | nil => exact nomatch h
  | cons c cs ih =>
      rw [regexFrom?] at h
      split at h
      next => exact nomatch h
      next =>
        split at h
        next hslash =>
          rw [← Option.some.inj h, of_decide_eq_true (Bool.and_eq_true_iff.1 hslash).1]
          exact ⟨cs, rfl⟩
        next =>
          obtain ⟨es, hes, rfl⟩ := Option.map_eq_some_iff.1 h
          obtain ⟨rest, rfl⟩ := ih hes
          exact ⟨rest, rfl⟩

/-- A regular expression is followed by a slash. -/
theorem regex?_spec (h : regex? cs = some ds) : ∃ rest, cs = ds ++ '/' :: rest :=
  regexFrom?_spec h

end Manifest.Token
