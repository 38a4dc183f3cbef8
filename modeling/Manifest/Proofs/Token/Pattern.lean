import Manifest.Proofs.Token.Shape
import Mathlib.Computability.Language
import Mathlib.Data.List.DropRight

/-!
# Patterns of words

The shapes of words, names, references and variables as patterns, and the functions that read them:
before a space or at the end of the text, each of them reads a text of its shape as a whole.

* `wordPattern`, `referencePattern`, `variablePattern`, `namePattern` — the patterns.
* `Qualified` — words and references as parts that separators join.
* `word?_append`, `reference?_append`, `variableName?_append` — texts of the shapes are read.
* `isName_iff` — names are the words of their pattern.
-/

namespace Manifest.Token

open scoped Computability

variable {cs ds rest lead : List Char} {c : Char} {p : Char → Bool} {l : Language Char}

/-! ## Patterns -/

/-- One character of a class. -/
def one (p : Char → Bool) : Language Char := {cs | ∃ c, cs = [c] ∧ p c}

/-- The pattern, or nothing. -/
def optional (l : Language Char) : Language Char := 1 + l

/-- `::` -/
def separator : Language Char := {[':', ':']}

/-- A small letter or an underscore. -/
def startsBare (c : Char) : Bool := c.isLower || c = '_'

/-- A word character or a dash. -/
def isDashed (c : Char) : Bool := isWordChar c || c = '-'

/-- `((::)?[a-z_]([\w-]*\w)?)+` -/
def wordPattern : Language Char :=
  let piece := optional separator * (one startsBare * optional ((one isDashed)∗ * one isWordChar))
  piece * piece∗

/-- `((::)?[A-Z]\w*)+` -/
def referencePattern : Language Char :=
  let piece := optional separator * (one Char.isUpper * (one isWordChar)∗)
  piece * piece∗

/-- `(::)?(\w+::)*\w+` -/
def variablePattern : Language Char :=
  let word := one isWordChar * (one isWordChar)∗
  optional separator * ((word * separator)∗ * word)

/-- `(::)?[a-z]\w*(::[a-z]\w*)*` -/
def namePattern : Language Char :=
  let part := one Char.isLower * (one isWordChar)∗
  optional separator * (part * (separator * part)∗)

/-- Any number of characters of one sort. -/
theorem mem_star_one : cs ∈ (one p)∗ ↔ ∀ c ∈ cs, p c := by
  rw [Language.mem_kstar]
  constructor
  · rintro ⟨parts, rfl, hparts⟩ c hc
    obtain ⟨part, hpart, hc⟩ := List.mem_flatten.1 hc
    obtain ⟨d, rfl, hd⟩ := hparts part hpart
    rw [List.mem_singleton.1 hc]
    exact hd
  -- each character is a part of its own
  · intro h
    refine ⟨cs.map ([·]), ?_, ?_⟩
    · induction cs with
      | nil => rfl
      | cons c cs ih => rw [List.map_cons, List.flatten_cons,
        ← ih (List.forall_mem_cons.1 h).2]; rfl
    · intro part hpart
      obtain ⟨c, hc, rfl⟩ := List.mem_map.1 hpart
      exact ⟨c, rfl, h c hc⟩

/-- A character of one sort in front of a text of a pattern. -/
theorem mem_one_mul : cs ∈ one p * l ↔ ∃ c ds, cs = c :: ds ∧ p c ∧ ds ∈ l := by
  rw [Language.mem_mul]
  constructor
  · rintro ⟨_, ⟨c, rfl, hc⟩, ds, hds, rfl⟩
    exact ⟨c, ds, rfl, hc, hds⟩
  · rintro ⟨c, ds, rfl, hc, hds⟩
    exact ⟨[c], ⟨c, rfl, hc⟩, ds, hds, rfl⟩

/-- What may be left out. -/
theorem mem_optional : cs ∈ optional l ↔ cs = [] ∨ cs ∈ l := by
  rw [optional, Language.mem_add, Language.mem_one]

/-- What may stand before a part of a qualified name. -/
def Lead (lead : List Char) : Prop := lead = [] ∨ lead = [':', ':']

theorem mem_optional_separator : cs ∈ optional separator ↔ Lead cs := mem_optional

/-! ## What follows -/

/-- Nothing follows, or a space. -/
def Ends (rest : List Char) : Prop := ∀ c ∈ rest.head?, c = ' '

/-- A part of a qualified name ends here. -/
def Stops (rest : List Char) : Prop := ∀ c ∈ rest.head?, c = ' ' ∨ c = ':'

/-- A space stops a name. -/
theorem Ends.stops (h : Ends rest) : Stops rest := fun c hc => .inl (h c hc)

/-- A separator stops a name. -/
theorem stops_separator (cs : List Char) : Stops (':' :: ':' :: cs) := by
  intro c hc
  exact .inr (Option.some.inj hc).symm

/-- Characters of a class are read up to one of another class. -/
theorem takeWhile_append_of_head (h : ∀ c ∈ cs, p c) (hrest : ∀ c ∈ rest.head?, p c = false) :
    (cs ++ rest).takeWhile p = cs := by
  rw [List.takeWhile_append_of_pos h]
  cases rest with
  | nil => rw [List.takeWhile_nil, List.append_nil]
  | cons c rest =>
      rw [List.takeWhile_cons_of_neg (Bool.eq_false_iff.1 (hrest c rfl)), List.append_nil]

/-- And that one is what follows them. -/
theorem dropWhile_append_of_head (h : ∀ c ∈ cs, p c) (hrest : ∀ c ∈ rest.head?, p c = false) :
    (cs ++ rest).dropWhile p = rest := by
  rw [List.dropWhile_append_of_pos h]
  cases rest with
  | nil => rfl
  | cons c rest => exact List.dropWhile_cons_of_neg (Bool.eq_false_iff.1 (hrest c rfl))

theorem Stops.not_isWordChar (h : Stops rest) : ∀ c ∈ rest.head?, isWordChar c = false := by
  intro c hc
  rcases h c hc with rfl | rfl
  · decide
  · decide

theorem Stops.not_isDashed (h : Stops rest) : ∀ c ∈ rest.head?, isDashed c = false := by
  intro c hc
  rcases h c hc with rfl | rfl
  · decide
  · decide

/-- A separator in front is found. -/
theorem colons_append (hlead : Lead lead) (hc : c ≠ ':') : colons (lead ++ c :: cs) = lead := by
  rcases hlead with rfl | rfl
  · unfold colons
    split
    next heq => exact absurd (List.cons.inj heq).1 hc
    next => rfl
  · rfl

/-- What is found is a separator or nothing. -/
theorem lead_colons (cs : List Char) : Lead (colons cs) := by
  unfold colons
  split
  · exact .inr rfl
  · exact .inl rfl

theorem Ends.colons (h : Ends rest) : colons rest = [] := by
  unfold Token.colons
  split
  next => exact absurd (h ':' rfl) (by decide)
  next => rfl

/-! ## Pieces -/

section Pieces

variable {piece : List Char → List Char}

/-- Where there is no piece there are none. -/
theorem pieces_nil (h : piece rest = []) : pieces piece rest = [] := by
  rw [pieces, dif_pos (.inl h)]

/-- A piece in front of others. -/
theorem pieces_append (h : piece (ds ++ rest) = ds) (hds : ds ≠ []) :
    pieces piece (ds ++ rest) = ds ++ pieces piece rest := by
  have hne : ¬ (piece (ds ++ rest) = [] ∨ ds ++ rest = []) := by
    rw [h]
    exact not_or.2 ⟨hds, List.append_ne_nil_of_left_ne_nil hds _⟩
  rw [pieces, dif_neg hne, h, List.drop_left]

/-- Parts that separators join; there may be one before the first. -/
inductive Qualified (start : Char → Bool) (Tail : List Char → Prop) : List Char → Prop
  | last {lead cs : List Char} {c : Char} (hlead : Lead lead) (hc : start c) (hcs : Tail cs) :
      Qualified start Tail (lead ++ c :: cs)
  | more {lead cs rest : List Char} {c : Char} (hlead : Lead lead) (hc : start c) (hcs : Tail cs)
      (hrest : Qualified start Tail (':' :: ':' :: rest)) :
      Qualified start Tail (lead ++ c :: cs ++ ':' :: ':' :: rest)

variable {start : Char → Bool} {Tail : List Char → Prop}

/-- A qualified name has a character at least. -/
theorem Qualified.ne_nil (h : Qualified start Tail cs) : cs ≠ [] := by
  cases h with
  | last => exact List.append_ne_nil_of_right_ne_nil _ (List.cons_ne_nil _ _)
  | more => exact List.append_ne_nil_of_right_ne_nil _ (List.cons_ne_nil _ _)

/-- A qualified name begins as its first part does. -/
theorem Qualified.exists_head (h : Qualified start Tail cs) :
    ∃ lead c tail, cs = lead ++ c :: tail ∧ Lead lead ∧ start c := by
  cases h with
  | @last lead tail c hlead hc => exact ⟨lead, c, tail, rfl, hlead, hc⟩
  | @more lead tail rest c hlead hc => exact ⟨lead, c, _, List.append_assoc _ _ _, hlead, hc⟩

/-- A further part before the others; without a separator between them it joins the first one. -/
theorem Qualified.prepend (hTail : ∀ {cs c ds}, Tail cs → start c → Tail ds → Tail (cs ++ c :: ds))
    (hlead : Lead lead) (hc : start c) (hcs : Tail cs) (h : Qualified start Tail ds) :
    Qualified start Tail (lead ++ c :: cs ++ ds) := by
  cases h with
  | last hlead' hc' hcs' =>
      -- a part without a separator is read as one with the part before it
      rcases hlead' with rfl | rfl
      · rw [List.append_assoc]
        exact .last hlead hc (hTail hcs hc' hcs')
      · exact .more hlead hc hcs (.last (.inr rfl) hc' hcs')
  | @more _ ds rest d hlead' hc' hcs' hrest =>
      rcases hlead' with rfl | rfl
      · have hjoined : lead ++ c :: cs ++ ([] ++ d :: ds ++ ':' :: ':' :: rest)
            = lead ++ c :: (cs ++ d :: ds) ++ ':' :: ':' :: rest := by
          simp only [List.append_assoc, List.cons_append, List.nil_append]
        rw [hjoined]
        exact .more hlead hc (hTail hcs hc' hcs') hrest
      · exact .more hlead hc hcs (.more (.inr rfl) hc' hcs' hrest)

/-- Parts one after another, with or without separators before them. -/
theorem qualified_flatten (hTail : ∀ {cs c ds}, Tail cs → start c → Tail ds → Tail (cs ++ c :: ds))
    {parts : List (List Char)} (hlead : Lead lead) (hc : start c) (hcs : Tail cs)
    (hparts : ∀ part ∈ parts, ∃ lead c cs, part = lead ++ c :: cs ∧ Lead lead ∧ start c ∧ Tail cs) :
    Qualified start Tail (lead ++ c :: cs ++ parts.flatten) := by
  induction parts generalizing lead c cs with
  | nil =>
      rw [List.flatten_nil, List.append_nil]
      exact .last hlead hc hcs
  | cons part parts ih =>
      obtain ⟨⟨lead', c', cs', rfl, hlead', hc', hcs'⟩, hothers⟩ := List.forall_mem_cons.1 hparts
      rw [List.flatten_cons]
      exact .prepend hTail hlead hc hcs (ih hlead' hc' hcs' hothers)

/-- Pieces that read a part each read all of them. -/
theorem pieces_qualified
    (hpiece : ∀ {lead c cs rest}, Lead lead → start c → Tail cs → Stops rest →
      piece (lead ++ c :: cs ++ rest) = lead ++ c :: cs)
    (hend : ∀ {rest}, Ends rest → piece rest = []) (h : Qualified start Tail cs)
    (hrest : Ends rest) : pieces piece (cs ++ rest) = cs := by
  induction h with
  | @last lead cs c hlead hc hcs =>
      rw [pieces_append (hpiece hlead hc hcs hrest.stops), pieces_nil (hend hrest), List.append_nil]
      exact List.append_ne_nil_of_right_ne_nil _ (List.cons_ne_nil _ _)
  | @more lead cs following c hlead hc hcs hfollowing ih =>
      have hstops : Stops (':' :: ':' :: following ++ rest) := stops_separator _
      rw [List.append_assoc, pieces_append (hpiece hlead hc hcs hstops), ih]
      exact List.append_ne_nil_of_right_ne_nil _ (List.cons_ne_nil _ _)

end Pieces

/-! ## Words -/

/-- What follows the first letter of a part of a word. -/
def WordTail (cs : List Char) : Prop := (∀ c ∈ cs, isDashed c) ∧ ∀ c ∈ cs.getLast?, isWordChar c

theorem isDashed_of_isWordChar (h : isWordChar c) : isDashed c := by
  rw [isDashed, h, Bool.true_or]

theorem isWordChar_of_isLower (h : c.isLower) : isWordChar c :=
  isWordChar_iff.2 (.inl (.inl (.inr h)))

theorem isWordChar_of_isUpper (h : c.isUpper) : isWordChar c :=
  isWordChar_iff.2 (.inl (.inl (.inl h)))

theorem isWordChar_of_startsBare (h : startsBare c) : isWordChar c := by
  rcases Bool.or_eq_true_iff.1 h with h | h
  · exact isWordChar_of_isLower h
  · rw [isWordChar, h, Bool.or_true]

theorem ne_colon_of_isWordChar (h : isWordChar c) : c ≠ ':' := by
  rintro rfl
  exact absurd h (by decide)

/-- Word characters make up what follows a first letter. -/
theorem wordTail_of_forall (h : ∀ c ∈ cs, isWordChar c) : WordTail cs :=
  ⟨fun c hc => isDashed_of_isWordChar (h c hc), fun c hc => h c (List.mem_of_getLast? hc)⟩

/-- A word may go on with a part of its own. -/
theorem WordTail.append (h : WordTail cs) (hc : startsBare c) (h' : WordTail ds) :
    WordTail (cs ++ c :: ds) := by
  have hword := isWordChar_of_startsBare hc
  constructor
  · intro d hd
    rcases List.mem_append.1 hd with hd | hd
    · exact h.1 d hd
    · rcases List.mem_cons.1 hd with rfl | hd
      · exact isDashed_of_isWordChar hword
      · exact h'.1 d hd
  · intro d hd
    rw [List.getLast?_append_cons] at hd
    cases ds with
    | nil =>
        rw [← Option.some.inj hd]
        exact hword
    | cons e ds => exact h'.2 d hd

/-- A part of a word goes as far as the run behind its first letter, less the dashes at the end. -/
theorem wordPiece_eq (hlead : Lead lead) (hc : startsBare c) (rest : List Char) :
    wordPiece (lead ++ c :: rest)
      = lead ++ c :: Text.dropEndWhile (· == '-') (rest.takeWhile isDashed) := by
  have hcolons : colons (lead ++ c :: rest) = lead :=
    colons_append hlead (ne_colon_of_isWordChar (isWordChar_of_startsBare hc))
  have hstart : (c.isLower || c = '_') = true := hc
  rw [wordPiece, hcolons, List.drop_left]
  dsimp only
  rw [if_pos hstart]
  rfl

/-- A part of a word is read up to what stops it; no dash stands at its end. -/
theorem wordPiece_append (hlead : Lead lead) (hc : startsBare c) (hcs : WordTail cs)
    (hrest : Stops rest) : wordPiece (lead ++ c :: cs ++ rest) = lead ++ c :: cs := by
  -- the run may reach over dashes, but the tail does not end with one
  have hlast : Text.dropEndWhile (· == '-') cs = cs := by
    refine List.rdropWhile_eq_self_iff.2 ?_
    intro hne hdash
    have hword := hcs.2 _ (List.getLast?_eq_getLast_of_ne_nil hne)
    rw [eq_of_beq hdash] at hword
    exact absurd hword (by decide)
  rw [List.append_assoc, List.cons_append, wordPiece_eq hlead hc,
    takeWhile_append_of_head hcs.1 hrest.not_isDashed, hlast]

/-- A space is no part of a word. -/
theorem wordPiece_end (h : Ends rest) : wordPiece rest = [] := by
  rw [wordPiece]
  dsimp only
  rw [h.colons]
  cases rest with
  | nil => rfl
  | cons c rest =>
      obtain rfl := h c rfl
      rfl

/-- What a part of the pattern is made of. -/
theorem exists_of_mem_wordPiece
    (h : cs ∈ optional separator * (one startsBare * optional ((one isDashed)∗ * one isWordChar))) :
    ∃ lead c tail, cs = lead ++ c :: tail ∧ Lead lead ∧ startsBare c ∧ WordTail tail := by
  obtain ⟨lead, hlead, ds, hds, rfl⟩ := Language.mem_mul.1 h
  obtain ⟨c, tail, rfl, hc, htail⟩ := mem_one_mul.1 hds
  refine ⟨lead, c, tail, rfl, mem_optional_separator.1 hlead, hc, ?_⟩
  rcases mem_optional.1 htail with rfl | htail
  · exact wordTail_of_forall fun _ hd => nomatch hd
  · obtain ⟨run, hrun, _, ⟨d, rfl, hd⟩, rfl⟩ := Language.mem_mul.1 htail
    constructor
    · intro e he
      rcases List.mem_append.1 he with he | he
      · exact mem_star_one.1 hrun e he
      · rw [List.mem_singleton.1 he]
        exact isDashed_of_isWordChar hd
    · intro e he
      rw [List.getLast?_concat] at he
      rw [← Option.some.inj he]
      exact hd

/-- The pattern has qualified words alone. -/
theorem qualified_of_mem_wordPattern (h : cs ∈ wordPattern) : Qualified startsBare WordTail cs := by
  obtain ⟨first, hfirst, _, hstar, rfl⟩ := Language.mem_mul.1 h
  obtain ⟨others, rfl, hothers⟩ := Language.mem_kstar.1 hstar
  obtain ⟨lead, c, tail, rfl, hlead, hc, htail⟩ := exists_of_mem_wordPiece hfirst
  exact qualified_flatten WordTail.append hlead hc htail fun part hpart =>
    exists_of_mem_wordPiece (hothers part hpart)

/-- A word is read as a whole. -/
theorem word?_append (h : Qualified startsBare WordTail cs) (hrest : Ends rest) :
    word? (cs ++ rest) = some cs := by
  rw [word?, pieces_qualified wordPiece_append wordPiece_end h hrest, nonempty?,
    if_neg (by rw [List.isEmpty_iff]; exact h.ne_nil)]

/-! ## References -/

/-- What follows the first letter of a part of a reference. -/
def NameTail (cs : List Char) : Prop := ∀ c ∈ cs, isWordChar c

/-- A reference may go on with a part of its own. -/
theorem NameTail.append (h : NameTail cs) (hc : c.isUpper) (h' : NameTail ds) :
    NameTail (cs ++ c :: ds) := by
  intro d hd
  rcases List.mem_append.1 hd with hd | hd
  · exact h d hd
  · rcases List.mem_cons.1 hd with rfl | hd
    · exact isWordChar_of_isUpper hc
    · exact h' d hd

/-- A part of a reference goes as far as the word characters behind its first letter. -/
theorem referencePiece_eq (hlead : Lead lead) (hc : c.isUpper) (rest : List Char) :
    referencePiece (lead ++ c :: rest) = lead ++ c :: rest.takeWhile isWordChar := by
  have hcolons : colons (lead ++ c :: rest) = lead :=
    colons_append hlead (ne_colon_of_isWordChar (isWordChar_of_isUpper hc))
  rw [referencePiece, hcolons, List.drop_left]
  dsimp only
  rw [if_pos hc]

/-- A part of a reference is read up to what stops it. -/
theorem referencePiece_append (hlead : Lead lead) (hc : c.isUpper) (hcs : NameTail cs)
    (hrest : Stops rest) : referencePiece (lead ++ c :: cs ++ rest) = lead ++ c :: cs := by
  rw [List.append_assoc, List.cons_append, referencePiece_eq hlead hc,
    takeWhile_append_of_head hcs hrest.not_isWordChar]

theorem referencePiece_end (h : Ends rest) : referencePiece rest = [] := by
  rw [referencePiece, h.colons]
  cases rest with
  | nil => rfl
  | cons c rest =>
      obtain rfl := h c rfl
      rfl

/-- What a part of the pattern is made of. -/
theorem exists_of_mem_referencePiece
    (h : cs ∈ optional separator * (one Char.isUpper * (one isWordChar)∗)) :
    ∃ lead c tail, cs = lead ++ c :: tail ∧ Lead lead ∧ c.isUpper ∧ NameTail tail := by
  obtain ⟨lead, hlead, ds, hds, rfl⟩ := Language.mem_mul.1 h
  obtain ⟨c, tail, rfl, hc, htail⟩ := mem_one_mul.1 hds
  exact ⟨lead, c, tail, rfl, mem_optional_separator.1 hlead, hc, mem_star_one.1 htail⟩

/-- The pattern has qualified references alone. -/
theorem qualified_of_mem_referencePattern (h : cs ∈ referencePattern) :
    Qualified Char.isUpper NameTail cs := by
  obtain ⟨first, hfirst, _, hstar, rfl⟩ := Language.mem_mul.1 h
  obtain ⟨others, rfl, hothers⟩ := Language.mem_kstar.1 hstar
  obtain ⟨lead, c, tail, rfl, hlead, hc, htail⟩ := exists_of_mem_referencePiece hfirst
  exact qualified_flatten NameTail.append hlead hc htail fun part hpart =>
    exists_of_mem_referencePiece (hothers part hpart)

/-- A reference is read as a whole. -/
theorem reference?_append (h : cs ∈ referencePattern) (hrest : Ends rest) :
    reference? (cs ++ rest) = some cs := by
  have hqualified := qualified_of_mem_referencePattern h
  rw [reference?, pieces_qualified referencePiece_append referencePiece_end hqualified hrest,
    nonempty?, if_neg (by rw [List.isEmpty_iff]; exact hqualified.ne_nil)]

/-! ## Separated words -/

/-- Words behind separators. -/
def behind (parts : List (List Char)) : List Char := (parts.map ([':', ':'] ++ ·)).flatten

theorem behind_cons (part : List Char) (parts : List (List Char)) :
    behind (part :: parts) = ':' :: ':' :: part ++ behind parts := rfl

/-- Nothing of a separator and what stands behind it belongs to the word before. -/
theorem stops_behind (parts : List (List Char)) (hrest : Ends rest) :
    Stops (behind parts ++ rest) := by
  cases parts with
  | nil => exact hrest.stops
  | cons part parts => exact stops_separator _

/-- Words before separators, and one more, are words behind separators, but for the first. -/
theorem exists_behind {parts : List (List Char)} {last : List Char} {P : List Char → Prop}
    (hparts : ∀ part ∈ parts, ∃ word, part = word ++ [':', ':'] ∧ P word) (hlast : P last) :
    ∃ word words, parts.flatten ++ last = word ++ behind words ∧ P word ∧ ∀ w ∈ words, P w := by
  induction parts with
  | nil => exact ⟨last, [], (List.append_nil last).symm, hlast, fun _ hw => nomatch hw⟩
  | cons part parts ih =>
      obtain ⟨⟨first, rfl, hfirst⟩, hothers⟩ := List.forall_mem_cons.1 hparts
      obtain ⟨word, words, heq, hword, hwords⟩ := ih hothers
      refine ⟨first, word :: words, ?_, hfirst, List.forall_mem_cons.2 ⟨hword, hwords⟩⟩
      rw [List.flatten_cons, List.append_assoc, heq, behind_cons, List.append_assoc]
      rfl

/-! ## Variables -/

/-- One word character or more. -/
def Wordy (cs : List Char) : Prop := cs ≠ [] ∧ ∀ c ∈ cs, isWordChar c

theorem wordy_of_mem (h : cs ∈ one isWordChar * (one isWordChar)∗) : Wordy cs := by
  obtain ⟨c, ds, rfl, hc, hds⟩ := mem_one_mul.1 h
  exact ⟨List.cons_ne_nil _ _, List.forall_mem_cons.2 ⟨hc, mem_star_one.1 hds⟩⟩

/-- A part behind colons is read up to what stops it. -/
theorem qualifiedPiece_append (hcs : Wordy cs) (hrest : Stops rest) :
    qualifiedPiece (':' :: ':' :: cs ++ rest) = ':' :: ':' :: cs := by
  show (if ((cs ++ rest).takeWhile isWordChar).isEmpty then []
    else ':' :: ':' :: (cs ++ rest).takeWhile isWordChar) = _
  rw [takeWhile_append_of_head hcs.2 hrest.not_isWordChar,
    if_neg (by rw [List.isEmpty_iff]; exact hcs.1)]

theorem qualifiedPiece_end (h : Ends rest) : qualifiedPiece rest = [] := by
  unfold qualifiedPiece
  split
  next => exact absurd (h ':' rfl) (by decide)
  next => rfl

/-- Parts behind colons are read up to what stops the last one. -/
theorem pieces_behind {parts : List (List Char)} (hparts : ∀ part ∈ parts, Wordy part)
    (hrest : Ends rest) : pieces qualifiedPiece (behind parts ++ rest) = behind parts := by
  induction parts with
  | nil => exact pieces_nil (qualifiedPiece_end hrest)
  | cons part parts ih =>
      obtain ⟨hpart, hothers⟩ := List.forall_mem_cons.1 hparts
      rw [behind_cons, List.append_assoc,
        pieces_append (qualifiedPiece_append hpart (stops_behind parts hrest))
          (List.cons_ne_nil _ _),
        ih hothers]

/-- A variable, its words apart: the pattern ends all of them but the last with separators, and the
reader begins all of them but the first so. -/
theorem exists_of_mem_variablePattern (h : cs ∈ variablePattern) :
    ∃ lead word words, cs = lead ++ (word ++ behind words) ∧ Lead lead ∧ Wordy word ∧
      ∀ w ∈ words, Wordy w := by
  obtain ⟨lead, hlead, _, hwords, rfl⟩ := Language.mem_mul.1 h
  obtain ⟨_, hstar, last, hlast, rfl⟩ := Language.mem_mul.1 hwords
  obtain ⟨parts, rfl, hparts⟩ := Language.mem_kstar.1 hstar
  have hwordy : ∀ part ∈ parts, ∃ word, part = word ++ [':', ':'] ∧ Wordy word := by
    intro part hpart
    obtain ⟨word, hword, _, rfl, rfl⟩ := Language.mem_mul.1 (hparts part hpart)
    exact ⟨word, rfl, wordy_of_mem hword⟩
  obtain ⟨word, words, heq, hword, hwords⟩ := exists_behind hwordy (wordy_of_mem hlast)
  exact ⟨lead, word, words, by rw [heq], mem_optional_separator.1 hlead, hword, hwords⟩

/-- The name of a variable, by its words. -/
theorem variableName?_eq {tail : List Char} (hlead : Lead lead) (hc : isWordChar c) :
    variableName? (lead ++ c :: tail) = some (lead ++ (c :: tail.takeWhile isWordChar
      ++ pieces qualifiedPiece (tail.dropWhile isWordChar))) := by
  have hcolons : colons (lead ++ c :: tail) = lead :=
    colons_append hlead (ne_colon_of_isWordChar hc)
  have hdrop : (lead ++ c :: tail).drop (lead ++ c :: tail.takeWhile isWordChar).length
      = tail.dropWhile isWordChar := by
    conv_lhs => rw [← List.takeWhile_append_dropWhile (p := isWordChar) (l := tail)]
    rw [← List.cons_append, ← List.append_assoc, List.takeWhile_append_dropWhile, List.drop_left]
  rw [variableName?]
  dsimp only
  rw [hcolons, List.drop_left, List.takeWhile_cons_of_pos hc, if_neg (by exact Bool.false_ne_true),
    hdrop, List.append_assoc]

/-- The name of a variable is read as a whole. -/
theorem variableName?_append (h : cs ∈ variablePattern) (hrest : Ends rest) :
    variableName? (cs ++ rest) = some cs := by
  obtain ⟨lead, word, words, rfl, hlead, hword, hwords⟩ := exists_of_mem_variablePattern h
  obtain ⟨c, tail, rfl⟩ := List.exists_cons_of_ne_nil hword.1
  obtain ⟨hc, htail⟩ := List.forall_mem_cons.1 hword.2
  have hstops := (stops_behind words hrest).not_isWordChar
  have hsplit : lead ++ (c :: tail ++ behind words) ++ rest
      = lead ++ c :: (tail ++ (behind words ++ rest)) := by
    simp only [List.append_assoc, List.cons_append]
  rw [hsplit, variableName?_eq hlead hc, takeWhile_append_of_head htail hstops,
    dropWhile_append_of_head htail hstops, pieces_behind hwords hrest]

/-- A space begins no variable. -/
theorem variableName?_end (h : Ends rest) : variableName? rest = none := by
  rw [variableName?, h.colons]
  cases rest with
  | nil => rfl
  | cons c rest =>
      obtain rfl := h c rfl
      rfl

/-! ## Names -/

/-- A part of a name. -/
theorem isNamePart_iff : isNamePart cs ↔ cs ∈ one Char.isLower * (one isWordChar)∗ := by
  rw [mem_one_mul]
  constructor
  · intro h
    cases cs with
    | nil => exact nomatch h
    | cons c ds =>
        obtain ⟨hc, hds⟩ := Bool.and_eq_true_iff.1 h
        exact ⟨c, ds, rfl, hc, mem_star_one.2 (List.all_eq_true.1 hds)⟩
  · rintro ⟨c, ds, rfl, hc, hds⟩
    exact Bool.and_eq_true_iff.2 ⟨hc, List.all_eq_true.2 (mem_star_one.1 hds)⟩

/-- A part of a name is made of word characters. -/
theorem wordy_of_isNamePart (h : isNamePart cs) : Wordy cs := by
  cases cs with
  | nil => exact nomatch h
  | cons c ds =>
      obtain ⟨hc, hds⟩ := Bool.and_eq_true_iff.1 h
      exact ⟨List.cons_ne_nil _ _,
        List.forall_mem_cons.2 ⟨isWordChar_of_isLower hc, List.all_eq_true.1 hds⟩⟩

/-- Separators split a text into its parts. -/
theorem splitColons_spec (cs : List Char) :
    ∃ part parts, splitColons cs = part :: parts ∧ cs = part ++ behind parts := by
  fun_induction splitColons cs with
  | case1 => exact ⟨[], [], rfl, rfl⟩
  | case2 cs ih =>
      obtain ⟨part, parts, heq, hcs⟩ := ih
      refine ⟨[], splitColons cs, rfl, ?_⟩
      rw [heq, List.nil_append, behind_cons, List.cons_append, List.cons_append, ← hcs]
  | case3 c cs _ hsplit ih =>
      obtain ⟨part, parts, heq, -⟩ := ih
      rw [hsplit] at heq
      exact nomatch heq
  | case4 c cs _ part parts hsplit ih =>
      obtain ⟨part', parts', heq, hcs⟩ := ih
      rw [hsplit] at heq
      obtain ⟨rfl, rfl⟩ := List.cons.inj heq
      exact ⟨c :: part, parts, rfl, by rw [List.cons_append, ← hcs]⟩

/-- A character other than a colon belongs to the first part. -/
theorem splitColons_cons (hc : c ≠ ':') {part : List Char} {parts : List (List Char)}
    (h : splitColons cs = part :: parts) : splitColons (c :: cs) = (c :: part) :: parts := by
  rw [splitColons, h]
  rintro rest hrest
  exact absurd hrest hc

/-- A word in front of what separators stand before is a part. -/
theorem splitColons_append {word : List Char} {parts : List (List Char)}
    (hword : ∀ c ∈ word, isWordChar c) (hrest : rest = [] ∧ parts = [] ∨
      ∃ cs, rest = ':' :: ':' :: cs ∧ splitColons cs = parts) :
    splitColons (word ++ rest) = word :: parts := by
  induction word with
  | nil =>
      rcases hrest with ⟨rfl, rfl⟩ | ⟨cs, rfl, rfl⟩
      · rfl
      · rfl
  | cons c word ih =>
      obtain ⟨hc, hword⟩ := List.forall_mem_cons.1 hword
      exact splitColons_cons (ne_colon_of_isWordChar hc) (ih hword)

/-- Parts between colons are found. -/
theorem splitColons_behind {word : List Char} {words : List (List Char)}
    (hword : ∀ c ∈ word, isWordChar c) (hwords : ∀ w ∈ words, ∀ c ∈ w, isWordChar c) :
    splitColons (word ++ behind words) = word :: words := by
  induction words generalizing word with
  | nil => exact splitColons_append hword (.inl ⟨rfl, rfl⟩)
  | cons w words ih =>
      obtain ⟨hw, hwords⟩ := List.forall_mem_cons.1 hwords
      exact splitColons_append hword (.inr ⟨w ++ behind words, rfl, ih hw hwords⟩)

/-- Separators before parts of names. -/
theorem behind_mem_star {parts : List (List Char)} (l : Language Char)
    (h : ∀ part ∈ parts, part ∈ l) :
    behind parts ∈ (separator * l)∗ := by
  refine Language.join_mem_kstar ?_
  intro part hpart
  obtain ⟨word, hword, rfl⟩ := List.mem_map.1 hpart
  exact Language.append_mem_mul rfl (h word hword)

/-- What any number of parts behind colons are made of. -/
theorem exists_behind_of_mem_star {l : Language Char} (h : cs ∈ (separator * l)∗) :
    ∃ parts, cs = behind parts ∧ ∀ part ∈ parts, part ∈ l := by
  obtain ⟨parts, rfl, hparts⟩ := Language.mem_kstar.1 h
  clear h
  induction parts with
  | nil => exact ⟨[], rfl, fun _ h => nomatch h⟩
  | cons part parts ih =>
      obtain ⟨hpart, hothers⟩ := List.forall_mem_cons.1 hparts
      obtain ⟨_, rfl, word, hword, rfl⟩ := Language.mem_mul.1 hpart
      obtain ⟨words, hwords, hall⟩ := ih hothers
      refine ⟨word :: words, ?_, List.forall_mem_cons.2 ⟨hword, hall⟩⟩
      rw [List.flatten_cons, hwords, behind_cons]
      rfl

/-- A name, its parts apart. -/
theorem mem_namePattern :
    cs ∈ namePattern ↔ ∃ lead word words, cs = lead ++ (word ++ behind words) ∧
    Lead lead ∧ ∀ w ∈ word :: words, isNamePart w := by
  constructor
  · intro h
    obtain ⟨lead, hlead, _, hname, rfl⟩ := Language.mem_mul.1 h
    obtain ⟨word, hword, _, hstar, rfl⟩ := Language.mem_mul.1 hname
    obtain ⟨words, rfl, hwords⟩ := exists_behind_of_mem_star hstar
    refine ⟨lead, word, words, rfl, mem_optional_separator.1 hlead, ?_⟩
    exact List.forall_mem_cons.2
      ⟨isNamePart_iff.2 hword, fun w hw => isNamePart_iff.2 (hwords w hw)⟩
  · rintro ⟨lead, word, words, rfl, hlead, h⟩
    obtain ⟨hword, hwords⟩ := List.forall_mem_cons.1 h
    refine Language.append_mem_mul (mem_optional_separator.2 hlead) ?_
    refine Language.append_mem_mul (isNamePart_iff.1 hword) ?_
    exact behind_mem_star _ fun w hw => isNamePart_iff.1 (hwords w hw)

/-- Names are the texts of their pattern. -/
theorem isName_iff : isName cs ↔ cs ∈ namePattern := by
  rw [mem_namePattern]
  constructor
  · intro h
    obtain ⟨word, words, heq, hcs⟩ := splitColons_spec (cs.drop (colons cs).length)
    rw [isName, heq, List.all_eq_true] at h
    refine ⟨colons cs, word, words, ?_, lead_colons cs, h⟩
    rw [← hcs]
    exact (List.prefix_iff_eq_append.1 (colons_isPrefix cs)).symm
  · rintro ⟨lead, word, words, rfl, hlead, h⟩
    obtain ⟨hword, hwords⟩ := List.forall_mem_cons.1 h
    obtain ⟨c, tail, rfl⟩ := List.exists_cons_of_ne_nil (wordy_of_isNamePart hword).1
    have hcolons : colons (lead ++ (c :: tail ++ behind words)) = lead :=
      colons_append hlead
        (ne_colon_of_isWordChar ((wordy_of_isNamePart hword).2 c List.mem_cons_self))
    rw [isName, hcolons, List.drop_left, List.all_eq_true, splitColons_behind]
    · exact h
    · exact (wordy_of_isNamePart hword).2
    · exact fun w hw => (wordy_of_isNamePart (hwords w hw)).2

/-- Parts of names between colons make a qualified word. -/
theorem qualified_behind {words : List (List Char)} {word : List Char} (hlead : Lead lead)
    (h : ∀ w ∈ word :: words, isNamePart w) :
    Qualified startsBare WordTail (lead ++ (word ++ behind words)) := by
  induction words generalizing lead word with
  | nil =>
      cases word with
      | nil => exact nomatch h [] List.mem_cons_self
      | cons c tail =>
          obtain ⟨hc, htail⟩ := Bool.and_eq_true_iff.1 (h _ List.mem_cons_self)
          rw [show behind [] = [] from rfl, List.append_nil]
          exact .last hlead (Bool.or_eq_true_iff.2 (.inl hc))
            (wordTail_of_forall (List.all_eq_true.1 htail))
  | cons w words ih =>
      obtain ⟨hword, hwords⟩ := List.forall_mem_cons.1 h
      cases word with
      | nil => exact nomatch hword
      | cons c tail =>
          obtain ⟨hc, htail⟩ := Bool.and_eq_true_iff.1 hword
          rw [behind_cons, ← List.append_assoc]
          exact .more hlead (Bool.or_eq_true_iff.2 (.inl hc))
            (wordTail_of_forall (List.all_eq_true.1 htail)) (ih (.inr rfl) hwords)

/-- Names are words. -/
theorem qualified_of_mem_namePattern (h : cs ∈ namePattern) : Qualified startsBare WordTail cs := by
  obtain ⟨lead, word, words, rfl, hlead, hparts⟩ := mem_namePattern.1 h
  exact qualified_behind hlead hparts

end Manifest.Token
