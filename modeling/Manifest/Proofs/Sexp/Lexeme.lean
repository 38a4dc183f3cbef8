import Manifest.Sexp.Printer
import Manifest.Sexp.Reader
import Manifest.Proofs.Text.Bytes
import Mathlib.Data.List.TakeWhile

/-!
# Texts that are one lexeme

A text *spells* a kind when it is read as one lexeme of that kind wherever the text ends after it
or a space or a closing bracket follows. That is all that ever follows a value in canonical text,
so what is written can be read off lexeme by lexeme.

* `Spells.lexemesFrom` — a text that spells a kind is the first lexeme.
* `spells_bare`, `spells_quoted` — runs without quotes and texts in quotes.
* `spells_of_isOne` — what the writer leaves bare is a run of its own.
-/

namespace Manifest.Sexp

open Text (byteLength byteLength_append eq_nil_of_byteLength_append)

variable {kind : Lexeme.Kind} {cs ds rest : List Char} {c : Char} {offset : Nat}

/-- The text ends, or begins with a space or a closing bracket. -/
def Ends (cs : List Char) : Prop := ∀ c ∈ cs.head?, c ∈ [' ', ')', ']', '}']

theorem ends_nil : Ends [] := fun _ h => nomatch h

/-- A space or a closing bracket ends what stands before it. -/
theorem ends_cons (h : c ∈ [' ', ')', ']', '}']) : Ends (c :: cs) := by
  intro d hd
  rwa [← Option.some.inj hd]

/-- A property of the few characters that may follow holds of the first one. -/
theorem Ends.head (h : Ends (c :: cs)) {p : Char → Bool} (hp : [' ', ')', ']', '}'].all p) : p c :=
  List.all_eq_true.1 hp c (h c rfl)

/-- The text is read as one lexeme of the kind. -/
def Spells (kind : Lexeme.Kind) (cs : List Char) : Prop :=
  kind ≠ .unreadable ∧ ∃ c t, cs = c :: t ∧ isSeparator c = false ∧ c ≠ ';' ∧
    ∀ rest, Ends rest → lexemeAt c (t ++ rest) = (kind, cs)

/-! ## Reading lexemes -/

/-- A separator is skipped. -/
theorem lexemesFrom_separator (h : isSeparator c) :
    lexemesFrom offset (c :: cs) = lexemesFrom (offset + 1) cs := by
  rw [lexemesFrom, if_pos h]

/-- A lexeme that does not reach to a comment or white space is the first one. -/
theorem lexemesFrom_of_lexemeAt {text : List Char} (hc : isSeparator c = false) (hsemi : c ≠ ';')
    (h : lexemeAt c cs = (kind, text)) (hkind : kind ≠ .unreadable) :
    lexemesFrom offset (c :: cs)
      = ⟨kind, text, offset⟩ ::
        lexemesFrom (offset + byteLength text) (cs.drop (text.length - 1)) := by
  rw [lexemesFrom, if_neg (by rw [hc]; exact Bool.false_ne_true), if_neg hsemi, h]
  simp only [if_neg hkind]

/-- A text that spells a kind is the first lexeme. -/
theorem Spells.lexemesFrom (h : Spells kind cs) (hrest : Ends rest) :
    lexemesFrom offset (cs ++ rest)
      = ⟨kind, cs, offset⟩ :: Sexp.lexemesFrom (offset + byteLength cs) rest := by
  obtain ⟨hkind, c, t, rfl, hc, hsemi, hat⟩ := h
  rw [List.cons_append, lexemesFrom_of_lexemeAt hc hsemi (hat rest hrest) hkind]
  congr 2
  exact List.drop_left

/-! ## Runs without quotes -/

/-- What may follow a value cuts a run. -/
theorem Ends.takeWhile (hrest : Ends rest) (h : ∀ d ∈ cs, isBare d) :
    (cs ++ rest).takeWhile isBare = cs ∧ (cs ++ rest).dropWhile isBare = rest := by
  rw [List.takeWhile_append_of_pos h, List.dropWhile_append_of_pos h]
  cases rest with
  | nil => exact ⟨List.append_nil _, rfl⟩
  | cons c rest =>
      have hnot : (!isBare c) = true := hrest.head (p := fun d => !isBare d) (by decide)
      rw [Bool.not_eq_true'] at hnot
      have hc : ¬ isBare c := Bool.eq_false_iff.1 hnot
      rw [List.takeWhile_cons_of_neg hc, List.dropWhile_cons_of_neg hc]
      exact ⟨List.append_nil _, rfl⟩

/-- What may follow a value is no white space beyond ASCII. -/
theorem Ends.isCut (hrest : Ends rest) : isCut rest = false := by
  cases rest with
  | nil => rfl
  | cons c rest =>
      show (decide (128 ≤ c.toNat) && Unicode.isWhiteSpace c) = false
      have hnot : (!(decide (128 ≤ c.toNat) && Unicode.isWhiteSpace c)) = true :=
        hrest.head (p := fun d => !(decide (128 ≤ d.toNat) && Unicode.isWhiteSpace d)) (by decide)
      rwa [Bool.not_eq_true'] at hnot

/-- A character of a run neither opens nor closes anything, unless it is a mark in front of a
quote. -/
theorem lexemeAt_of_isBare (hc : isBare c) (hquotes : ¬ ((c = '#' ∨ c = ':') ∧ '"' ∈ cs.head?)) :
    lexemeAt c cs = (if isCut (cs.dropWhile isBare) then kindOfCutRun (c :: cs.takeWhile isBare)
      else kindOfRun (c :: cs.takeWhile isBare), c :: cs.takeWhile isBare) := by
  unfold lexemeAt
  split
  all_goals first
    | exact absurd hc (by decide)
    | exact absurd ⟨.inl rfl, rfl⟩ hquotes
    | exact absurd ⟨.inr rfl, rfl⟩ hquotes
    | rw [if_pos hc]

/-- A quote is not bare. -/
theorem isBare_ne_quote (hc : isBare c) : c ≠ '"' := by
  rintro rfl
  exact absurd hc (by decide)

/-- A run of characters that need no quotes is read whole. -/
theorem spells_bare {t : List Char} (h : ∀ d ∈ c :: t, isBare d) (hkind : kindOfRun (c :: t) = kind)
    (hread : kind ≠ .unreadable) : Spells kind (c :: t) := by
  have hc : isBare c := h c List.mem_cons_self
  have ht : ∀ d ∈ t, isBare d := fun d hd => h d (List.mem_cons_of_mem _ hd)
  refine ⟨hread, c, t, rfl, ?_, ?_, ?_⟩
  · cases hs : isSeparator c with
    | false => rfl
    | true =>
        simp only [isSeparator, Bool.or_eq_true, decide_eq_true_eq] at hs
        rcases hs with ((rfl | rfl) | rfl) | rfl
        all_goals exact absurd hc (by decide)
  · rintro rfl
    exact absurd hc (by decide)
  · intro rest hrest
    have hquote : ∀ d ∈ (t ++ rest).head?, d ≠ '"' := by
      cases t with
      | nil =>
          intro d hd
          have hmem := hrest d hd
          rintro rfl
          exact absurd hmem (by decide)
      | cons d t =>
          rintro e he
          rw [← Option.some.inj he]
          exact isBare_ne_quote (ht d List.mem_cons_self)
    obtain ⟨htake, hdrop⟩ := hrest.takeWhile ht
    rw [lexemeAt_of_isBare hc fun h => hquote _ h.2 rfl, htake, hdrop, hrest.isCut,
      if_neg Bool.false_ne_true, hkind]

/-- A lexeme that is a bare symbol or keyword is a run. -/
theorem isBare_of_lexemeAt {t : List Char} {k : Lexeme.Kind} (h : lexemeAt c cs = (k, t))
    (hk : k ∈ [.symbol, .keyword]) : isBare c ∧ t = c :: cs.takeWhile isBare := by
  unfold lexemeAt at h
  split at h
  case h_10 =>
    split at h
    next hc => exact ⟨hc, (Prod.mk.inj h).2.symm⟩
    next =>
      rw [← (Prod.mk.inj h).1] at hk
      exact absurd hk (by decide)
  case h_7 | h_8 | h_9 =>
    unfold quoted at h
    split at h
    all_goals
      rw [← (Prod.mk.inj h).1] at hk
      exact absurd hk (by decide)
  all_goals
    rw [← (Prod.mk.inj h).1] at hk
    exact absurd hk (by decide)

/-- A text that is one lexeme, a bare symbol or keyword, spells its kind. -/
theorem spells_of_isOne {kinds : List Lexeme.Kind} (hkinds : kinds ⊆ [.symbol, .keyword])
    (hstart : ∀ c ∈ cs.head?, isSeparator c = false ∧ c ≠ ';') (h : isOne kinds cs) :
    ∃ k ∈ kinds, Spells k cs := by
  cases cs with
  | nil =>
      rw [isOne, lexemes, lexemesFrom] at h
      exact absurd h Bool.false_ne_true
  | cons c t =>
      obtain ⟨hc, hsemi⟩ := hstart c rfl
      obtain ⟨k, text, hat⟩ : ∃ k text, lexemeAt c t = (k, text) := ⟨_, _, rfl⟩
      have hone : kinds.contains k ∧ 0 + byteLength text = byteLength (c :: t) := by
        rw [isOne, lexemes, lexemesFrom, if_neg (by rw [hc]; exact Bool.false_ne_true),
          if_neg hsemi, hat] at h
        exact ⟨(Bool.and_eq_true_iff.1 h).1, eq_of_beq (Bool.and_eq_true_iff.1 h).2⟩
      have hk : k ∈ kinds := List.contains_iff_mem.1 hone.1
      obtain ⟨hbare, rfl⟩ := isBare_of_lexemeAt hat (hkinds hk)
      -- a run as long as the text leaves nothing behind
      have hdrop : t.dropWhile isBare = [] := by
        refine eq_nil_of_byteLength_append (c :: t.takeWhile isBare) ?_
        rw [List.cons_append, List.takeWhile_append_dropWhile, ← hone.2, Nat.zero_add]
      have htake : t.takeWhile isBare = t := by
        have hsplit := List.takeWhile_append_dropWhile (p := isBare) (l := t)
        rwa [hdrop, List.append_nil] at hsplit
      have hall : ∀ d ∈ t, isBare d := by
        rw [← htake]
        exact fun d hd => List.mem_takeWhile_imp hd
      have hquote : ∀ d ∈ t.head?, d ≠ '"' :=
        fun d hd => isBare_ne_quote (hall d (List.mem_of_mem_head? hd))
      refine ⟨k, hk, spells_bare (List.forall_mem_cons.2 ⟨hbare, hall⟩) ?_ ?_⟩
      · rw [lexemeAt_of_isBare hbare fun h => hquote _ h.2 rfl, hdrop, htake] at hat
        exact (Prod.mk.inj hat).1
      · rintro rfl
        exact absurd (hkinds hk) (by decide)

/-! ## Texts in quotes -/

/-- The octal digits of a control character spell it. -/
theorem octal3_spec : ∀ n < 128, (octal3 n).all Number.isOctalDigit ∧
    Number.positional 8 (octal3 n) = n := by
  decide

theorem toNat_lt_of_isControl (h : isControl c) : c.toNat < 128 := by
  simp only [isControl, Bool.or_eq_true, decide_eq_true_eq] at h
  omega

/-- What is no quote and no backslash belongs to a quoted text as it stands. -/
theorem quotedBody_cons (hquote : c ≠ '"') (hslash : c ≠ '\\') :
    quotedBody (c :: cs) = (c :: (quotedBody cs).1, (quotedBody cs).2) := by
  rw [quotedBody]
  all_goals first
    | exact fun h => hquote h
    | exact fun h => absurd h hslash
    | exact fun _ _ h => absurd h hslash

/-- A backslash takes the next character with it. -/
theorem quotedBody_escape (hc : c ≠ '\n') :
    quotedBody ('\\' :: c :: cs) = ('\\' :: c :: (quotedBody cs).1, (quotedBody cs).2) := by
  rw [quotedBody, if_neg hc]

/-- What is no backslash stands for itself. -/
theorem unescape_cons (hslash : c ≠ '\\') :
    unescape offset (c :: cs) = (unescape (offset + c.utf8Size) cs).map (c :: ·) := by
  rw [unescape]
  all_goals first
    | exact fun h => absurd h hslash
    | exact fun _ h => absurd h hslash
    | exact fun _ _ h => absurd h hslash

/-- Text without quotes and backslashes is passed. -/
theorem quotedBody_append (h : ∀ c ∈ ds, c ≠ '"' ∧ c ≠ '\\') :
    quotedBody (ds ++ cs) = (ds ++ (quotedBody cs).1, (quotedBody cs).2) := by
  induction ds with
  | nil => rfl
  | cons d ds ih =>
      obtain ⟨⟨hquote, hslash⟩, hds⟩ := List.forall_mem_cons.1 h
      rw [List.cons_append, quotedBody_cons hquote hslash, ih hds]
      rfl

/-- Octal digits need no escape. -/
theorem octalDigit_ne {d : Char} (h : Number.isOctalDigit d) : d ≠ '"' ∧ d ≠ '\\' := by
  constructor <;>
  · rintro rfl
    exact absurd h (by decide)

/-- An escaped character belongs to a quoted text. -/
theorem quotedBody_escapeChar (c : Char) (cs : List Char) :
    quotedBody (escapeChar c ++ cs) = (escapeChar c ++ (quotedBody cs).1, (quotedBody cs).2) := by
  unfold escapeChar
  split
  case h_6 hslash hquote _ _ _ =>
    split
    next hcontrol =>
      obtain ⟨hall, -⟩ := octal3_spec c.toNat (toNat_lt_of_isControl hcontrol)
      rw [List.all_eq_true] at hall
      rw [List.cons_append, List.cons_append, quotedBody_escape (by decide),
        quotedBody_append fun d hd => octalDigit_ne (hall d hd)]
      rfl
    next => exact quotedBody_cons hquote hslash
  all_goals exact quotedBody_escape (by decide)

/-- An escaped text ends at the quote after it. -/
theorem quotedBody_flatMap (s rest : List Char) :
    quotedBody (s.flatMap escapeChar ++ '"' :: rest) = (s.flatMap escapeChar, true) := by
  induction s with
  | nil => rfl
  | cons c s ih => rw [List.flatMap_cons, List.append_assoc, quotedBody_escapeChar, ih]

/-- An escaped character is read as itself; what follows it begins further on. -/
theorem unescape_escapeChar (c : Char) (cs : List Char) (offset : Nat) :
    ∃ next, unescape offset (escapeChar c ++ cs) = (unescape next cs).map (c :: ·) := by
  unfold escapeChar
  split
  case h_6 hslash _ _ _ _ =>
    split
    next hcontrol =>
      obtain ⟨hall, hvalue⟩ := octal3_spec c.toNat (toNat_lt_of_isControl hcontrol)
      obtain ⟨a, b, d, hoctal⟩ : ∃ a b d, octal3 c.toNat = [a, b, d] := ⟨_, _, _, rfl⟩
      rw [hoctal] at hall hvalue ⊢
      refine ⟨offset + 5, ?_⟩
      show unescape offset ('\\' :: 'o' :: a :: b :: d :: cs) = _
      simp only [unescape, hall, if_true, hvalue, Char.ofNat_toNat]
    next => exact ⟨_, unescape_cons hslash⟩
  all_goals exact ⟨_, rfl⟩

/-- An escaped text is read as the text. -/
theorem unescape_flatMap (s : List Char) (offset : Nat) :
    unescape offset (s.flatMap escapeChar) = .ok s := by
  induction s generalizing offset with
  | nil => rfl
  | cons c s ih =>
      obtain ⟨next, h⟩ := unescape_escapeChar c (s.flatMap escapeChar) offset
      rw [List.flatMap_cons, h, ih]
      rfl

/-- Where a text in quotes may open. -/
def opening? : Lexeme.Kind → Option (List Char)
  | .string => some []
  | .quotedSymbol => some ['#']
  | .quotedKeyword => some [':']
  | _ => none

/-- A text in quotes, with what opens it, is one lexeme. -/
theorem spells_quoted (opening : List Char) (s : String) (h : opening? kind = some opening) :
    Spells kind (opening ++ renderQuoted s) := by
  have hat : ∀ opening' rest, quoted kind opening'
      (s.toList.flatMap escapeChar ++ ['"'] ++ rest) =
        (kind, opening' ++ s.toList.flatMap escapeChar
        ++ ['"']) := by
    intro opening' rest
    rw [quoted, List.append_assoc, List.singleton_append, quotedBody_flatMap]
  cases kind with
  | string =>
      obtain rfl := Option.some.inj h
      exact ⟨by decide, '"', _, rfl, by decide, by decide, fun rest _ => hat ['"'] rest⟩
  | quotedSymbol =>
      obtain rfl := Option.some.inj h
      exact ⟨by decide, '#', _, rfl, by decide, by decide, fun rest _ => hat ['#', '"'] rest⟩
  | quotedKeyword =>
      obtain rfl := Option.some.inj h
      exact ⟨by decide, ':', _, rfl, by decide, by decide, fun rest _ => hat [':', '"'] rest⟩
  | _ => exact nomatch h

/-- The text of a lexeme in quotes. -/
theorem quotedText_renderQuoted {l : Lexeme} (opening : List Char) (s : String)
    (hl : l.text = opening ++ renderQuoted s) : quotedText l (opening.length + 1) = .ok s := by
  have hdrop : l.text.drop (opening.length + 1) = s.toList.flatMap escapeChar ++ ['"'] := by
    rw [hl, ← List.drop_drop, List.drop_left]
    rfl
  rw [quotedText, hdrop, List.dropLast_concat, unescape_flatMap]
  exact congrArg Except.ok (String.ofList_toList)

end Manifest.Sexp
