import Manifest.Proofs.Scan.Opening
import Manifest.Proofs.Token.Numeral

/-!
# What spellings begin with

Which rule applies where a word, a reference, a number or a mark begins, and which characters a
spelling may begin with.

* `opening?_word`, `opening?_reference`, `opening?_number` — what begins with a word character.
* `opening?_mark` — a mark before a space is not part of a longer one.
* `BeginsVisibly` — texts that no white space is skipped before.
-/

namespace Manifest.Scan

open Token (Mark Lead Ends)

variable {cs ds rest lead : List Char} {c : Char}

/-! ## Openings -/

/-- Characters that have rules of their own. -/
def ruledChars : List Char := ['[', '(', '{', '}', '"', '\'', '#', '/', '$', '\n']

/-- Other characters begin a mark, a word or a number. -/
theorem opening?_plain (hc : c ∉ ruledChars) (hat : c = '@' → cs.head? ≠ some '(')
    (hcolon : c = ':' → cs.head? ≠ some ':') :
    opening? false (c :: cs) = some (plainOpening c cs) := by
  have hne : ∀ d ∈ ruledChars, ∀ es, c :: cs ≠ d :: es := by
    rintro d hd es heq
    exact hc ((List.cons.inj heq).1 ▸ hd)
  generalize hall : c :: cs = all
  unfold opening?
  split
  case h_1 => exact nomatch hall
  case h_13 =>
    obtain ⟨rfl, rfl⟩ := List.cons.inj hall
    exact absurd rfl (hat rfl)
  case h_14 =>
    obtain ⟨rfl, rfl⟩ := List.cons.inj hall
    exact absurd rfl (hcolon rfl)
  case h_15 =>
    obtain ⟨rfl, rfl⟩ := List.cons.inj hall
    rfl
  all_goals exact absurd hall (hne _ (by decide) _)

/-- No mark begins with a word character. -/
theorem markAt?_wordChar (h : Token.isWordChar c) : markAt? (c :: cs) = none := by
  have hmarks : ∀ m : Mark, m.spelling.toList.head?.any Token.isWordChar = false := by
    intro m
    cases m <;> decide
  refine List.find?_eq_none.2 ?_
  intro m _ hbegins
  have hm := hmarks m
  rw [head?_of_begins (begins_iff.1 hbegins)] at hm
  exact absurd h (Bool.eq_false_iff.1 hm)

/-- What begins with a word character. -/
theorem opening?_wordChar (h : Token.isWordChar c) :
    opening? false (c :: cs) = some (openingOfChar c) := by
  have hruled : ruledChars.any Token.isWordChar = false := by
    decide
  rw [opening?_plain]
  · rw [plainOpening, markAt?_wordChar h]
  · intro hc
    exact List.any_eq_false.1 hruled c hc h
  · rintro rfl
    exact absurd h (by decide)
  · rintro rfl
    exact absurd h (by decide)

theorem isDigit_of_isLower (h : c.isLower) : c.isDigit = false := by
  obtain ⟨h₁, -⟩ := Bool.and_eq_true_iff.1 h
  refine Bool.and_eq_false_iff.2 (.inr (decide_eq_false ?_))
  intro h₂
  exact absurd (UInt32.le_trans (of_decide_eq_true h₁) h₂) (by decide)

theorem isDigit_of_isUpper (h : c.isUpper) : c.isDigit = false := by
  refine Bool.and_eq_false_iff.2 (.inr (decide_eq_false ?_))
  intro h₂
  exact absurd (UInt32.le_trans (of_decide_eq_true h).1 h₂) (by decide)

theorem isLower_of_isUpper (h : c.isUpper) : c.isLower = false := by
  refine Bool.and_eq_false_iff.2 (.inl (decide_eq_false ?_))
  intro h₁
  exact absurd (UInt32.le_trans h₁ (of_decide_eq_true h).2) (by decide)

/-- No word begins with a digit. -/
theorem isDigit_of_startsBare (h : Token.startsBare c) : c.isDigit = false := by
  rcases Bool.or_eq_true_iff.1 h with h | h
  · exact isDigit_of_isLower h
  · rw [of_decide_eq_true h]
    decide

theorem startsWord_of_isUpper (h : c.isUpper) : startsWord c = false := by
  rw [startsWord, isLower_of_isUpper h, Bool.false_or, decide_eq_false_iff_not]
  rintro rfl
  exact absurd h (by decide)

/-- A word, with or without a separator before it. -/
theorem opening?_word (hlead : Lead lead) (hc : Token.startsBare c) :
    opening? false (lead ++ c :: cs) = some .word := by
  have hstarts : startsWord c := hc
  rcases hlead with rfl | rfl
  · rw [List.nil_append, opening?_wordChar (Token.isWordChar_of_startsBare hc), openingOfChar,
      if_neg (Bool.eq_false_iff.1 (isDigit_of_startsBare hc)), if_pos hstarts]
  · show some (openingAfterColons (c :: cs)) = _
    rw [openingAfterColons, if_pos hstarts]

/-- A reference, with or without a separator before it. -/
theorem opening?_reference (hlead : Lead lead) (hc : c.isUpper) :
    ∃ dangling, opening? false (lead ++ c :: cs) = some (.reference dangling) := by
  have hstarts := Bool.eq_false_iff.1 (startsWord_of_isUpper hc)
  rcases hlead with rfl | rfl
  · refine ⟨.illegalReference, ?_⟩
    rw [List.nil_append, opening?_wordChar (Token.isWordChar_of_isUpper hc), openingOfChar,
      if_neg (Bool.eq_false_iff.1 (isDigit_of_isUpper hc)), if_neg hstarts, if_pos hc]
  · refine ⟨.illegalQualifiedReference, ?_⟩
    show some (openingAfterColons (c :: cs)) = _
    rw [openingAfterColons, if_neg hstarts, if_pos hc]

/-- A digit opens a number. -/
theorem opening?_number (hc : c.isDigit) : opening? false (c :: cs) = some .number := by
  rw [opening?_wordChar (Token.isWordChar_of_isDigit hc), openingOfChar, if_pos hc]

/-! ## Marks -/

/-- A space is no part of a mark. -/
theorem begins_append (m : Mark) (hrest : Ends rest) :
    Mark.begins m (ds ++ rest) = Mark.begins m ds := by
  have hspace : ' ' ∉ m.spelling.toList := by
    cases m <;> decide
  rw [Bool.eq_iff_iff, begins_iff, begins_iff]
  constructor
  · intro h
    rcases List.prefix_or_prefix_of_prefix h (List.prefix_append ds rest) with h' | ⟨es, heq⟩
    · exact h'
    · rw [← heq, List.prefix_append_right_inj] at h
      rw [← heq] at hspace
      cases es with
      | nil =>
          rw [← heq, List.append_nil]
      | cons e es =>
          obtain ⟨fs, hfs⟩ := h
          obtain rfl := hrest e (by rw [← hfs]; rfl)
          exact absurd (List.mem_append_right ds List.mem_cons_self) hspace
  · exact fun h => h.trans (List.prefix_append ds rest)

/-- What follows a mark does not lengthen it. -/
theorem markAt?_append (hrest : Ends rest) : markAt? (ds ++ rest) = markAt? ds := by
  unfold markAt?
  congr 1
  funext m
  exact begins_append m hrest

/-- The longest mark of its own spelling is the mark. -/
theorem markAt?_spelling : ∀ m ∈ plainMarks, markAt? m.spelling.toList = some m := by
  decide

/-- Marks of one kind begin with characters that have no rules of their own, but for those that
begin here-docs and qualified names; these two are told apart by what follows. -/
theorem exists_spelling {m : Mark} (hm : m ∈ plainMarks) :
    ∃ c cs, m.spelling.toList = c :: cs ∧ c ∉ ruledChars ∧
      (c = '@' → cs = [] ∨ cs.head? = some '@') ∧ (c = ':' → cs = []) := by
  obtain ⟨c, cs, hspelling⟩ := List.exists_cons_of_length_pos (length_spelling_pos m)
  have hall : ∀ m ∈ plainMarks, (m.spelling.toList.head?.all fun c => !ruledChars.contains c) ∧
      (m.spelling.toList.head? = some '@' → m.spelling.toList.tail = [] ∨
        m.spelling.toList.tail.head? = some '@') ∧
      (m.spelling.toList.head? = some ':' → m.spelling.toList.tail = []) := by
    decide
  have h := hall m hm
  rw [hspelling] at h
  refine ⟨c, cs, hspelling, ?_⟩
  simpa using h

/-- Nothing but a space follows a spelling. -/
theorem Ends.head?_ne (h : Ends rest) (hc : c ≠ ' ') : rest.head? ≠ some c := by
  intro heq
  exact hc (h c heq)

/-- A mark whose kind does not depend on what stands before it. -/
theorem opening?_mark {m : Mark} (hm : m ∈ plainMarks) (hrest : Ends rest) :
    opening? false (m.spelling.toList ++ rest) = some (.mark m) := by
  have hmark : markAt? (m.spelling.toList ++ rest) = some m := by
    rw [markAt?_append hrest, markAt?_spelling m hm]
  obtain ⟨c, cs, hspelling, hc, hat, hcolon⟩ := exists_spelling hm
  rw [hspelling, List.cons_append] at hmark ⊢
  rw [opening?_plain hc, plainOpening, hmark]
  · intro h
    rcases hat h with rfl | hhead
    · exact Ends.head?_ne hrest (by decide)
    · rw [List.head?_append, hhead]
      exact fun h => absurd (Option.some.inj h) (by decide)
  · intro h
    rw [hcolon h]
    exact Ends.head?_ne hrest (by decide)

/-! ## Visible characters -/

/-- A character of ASCII that is neither a space nor a control character. -/
def isVisible (c : Char) : Bool := '!' ≤ c && c ≤ '~'

/-- A character of ASCII is one of 128. -/
theorem forall_of_ascii {P : Char → Prop} (h : ∀ n : Fin 128, P (Char.ofNat n))
    (hc : c.toNat < 128) :
    P c := by
  have hn := h ⟨c.toNat, hc⟩
  rwa [Char.ofNat_toNat] at hn

/-- Visible characters are those of ASCII. -/
theorem isAscii_of_isVisible (h : isVisible c) : c.toNat < 128 := by
  have hle : c.toNat ≤ '~'.toNat := of_decide_eq_true (Bool.and_eq_true_iff.1 h).2
  exact Nat.lt_of_le_of_lt hle (by decide)

/-- Visible characters are not blank. -/
theorem isBlank_of_isVisible (h : isVisible c) : isBlank c = false := by
  have hall : ∀ n : Fin 128, isVisible (Char.ofNat n) → isBlank (Char.ofNat n) = false := by
    decide
  exact forall_of_ascii (P := fun c => isVisible c → isBlank c = false) hall
    (isAscii_of_isVisible h) h

/-- Letters, digits and underscores are visible. -/
theorem isVisible_of_isWordChar (h : Token.isWordChar c) : isVisible c := by
  have hascii : c.toNat < 128 := by
    rcases Token.isWordChar_iff.1 h with ((h | h) | h) | rfl
    · exact Nat.lt_of_le_of_lt (of_decide_eq_true h).2 (by decide)
    · exact Nat.lt_of_le_of_lt (of_decide_eq_true (Bool.and_eq_true_iff.1 h).2) (by decide)
    · exact Nat.lt_of_le_of_lt (of_decide_eq_true (Bool.and_eq_true_iff.1 h).2) (by decide)
    · decide
  have hall : ∀ n : Fin 128, Token.isWordChar (Char.ofNat n) → isVisible (Char.ofNat n) := by
    decide
  exact forall_of_ascii (P := fun c => Token.isWordChar c → isVisible c) hall hascii h

/-- A text that begins with a visible character. -/
def BeginsVisibly (cs : List Char) : Prop := ∃ c rest, cs = c :: rest ∧ isVisible c

theorem BeginsVisibly.append (h : BeginsVisibly cs) (ds : List Char) :
    BeginsVisibly (cs ++ ds) := by
  obtain ⟨c, rest, rfl, hc⟩ := h
  exact ⟨c, rest ++ ds, rfl, hc⟩

/-- A part of a name begins visibly, with or without colons in front. -/
theorem beginsVisibly_of_lead (hlead : Lead lead) (hc : Token.isWordChar c) :
    BeginsVisibly (lead ++ c :: cs) := by
  rcases hlead with rfl | rfl
  · exact ⟨c, cs, rfl, isVisible_of_isWordChar hc⟩
  · exact ⟨':', ':' :: c :: cs, rfl, by decide⟩

/-- A name begins visibly. -/
theorem beginsVisibly_of_qualified
    (h : Token.Qualified Token.startsBare Token.WordTail cs) : BeginsVisibly cs := by
  obtain ⟨lead, c, tail, rfl, hlead, hc⟩ := h.exists_head
  exact beginsVisibly_of_lead hlead (Token.isWordChar_of_startsBare hc)

/-- A mark begins visibly. -/
theorem beginsVisibly_mark (m : Mark) : BeginsVisibly m.spelling.toList := by
  have hmarks : ∀ m : Mark, m.spelling.toList.head?.any isVisible := by
    intro m
    cases m <;> decide
  obtain ⟨c, cs, hspelling⟩ := List.exists_cons_of_length_pos (length_spelling_pos m)
  have hm := hmarks m
  rw [hspelling] at hm ⊢
  exact ⟨c, cs, rfl, hm⟩

end Manifest.Scan
