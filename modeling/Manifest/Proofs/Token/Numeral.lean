import Manifest.Literal.Number
import Manifest.Proofs.Token.Pattern

/-!
# Numbers are read as a whole

A number of a valid shape stands alone before a space or at the end of the text: every character of
it is taken for one of a number, and no further one is.

* `number_append` — a number of a valid shape is read as a whole.
-/

namespace Manifest.Token

open Number (isHexDigit isOctalDigit isFloat isExponent allDigits hexDigits? octalDigits? fault?)

variable {cs ds rest : List Char} {c last : Char} {hex : Bool}

/-! ## Digits -/

/-- Digits of any radix are characters of words. -/
theorem isWordChar_of_isHexDigit (h : isHexDigit c) : isWordChar c := by
  simp only [isHexDigit, Bool.or_eq_true, Bool.and_eq_true, decide_eq_true_eq] at h
  rcases h with (h | ⟨h₁, h₂⟩) | ⟨h₁, h₂⟩
  · exact isWordChar_of_isDigit h
  · refine isWordChar_of_isLower (Bool.and_eq_true_iff.2 ⟨decide_eq_true h₁, decide_eq_true ?_⟩)
    exact UInt32.le_trans h₂ (by decide)
  · exact isWordChar_of_isUpper (decide_eq_true ⟨h₁, UInt32.le_trans h₂ (by decide)⟩)

theorem isDigit_of_isOctalDigit (h : isOctalDigit c) : c.isDigit := by
  obtain ⟨h₁, h₂⟩ := Bool.and_eq_true_iff.1 h
  refine Bool.and_eq_true_iff.2 ⟨h₁, decide_eq_true ?_⟩
  exact UInt32.le_trans (of_decide_eq_true h₂) (by decide)

/-! ## Tails -/

/-- A letter, a digit or an underscore goes on with a number. -/
theorem numberTail_cons (h : isWordChar c) :
    numberTail hex last (c :: cs) = c :: numberTail hex c cs := by
  rw [numberTail, h, Bool.true_or, Bool.true_or, if_pos rfl]

/-- A point before a digit goes on with a number. -/
theorem numberTail_point (h : startsWithDigit cs) :
    numberTail false last ('.' :: cs) = '.' :: numberTail false '.' cs := by
  rw [numberTail, h]
  rfl

/-- A minus sign between an exponent's letter and a digit goes on with a number. -/
theorem numberTail_minus (hlast : last = 'e' ∨ last = 'E') (h : startsWithDigit cs) :
    numberTail false last ('-' :: cs) = '-' :: numberTail false '-' cs := by
  rw [numberTail, h]
  rcases hlast with rfl | rfl
  · rfl
  · rfl

/-- A space ends it. -/
theorem numberTail_end (h : Ends rest) : numberTail hex last rest = [] := by
  cases rest with
  | nil => rfl
  | cons c rest =>
      obtain rfl := h c rfl
      cases hex with
      | true => rfl
      | false => rfl

/-- The characters are those of a number, and it ends with them. -/
def Numeric (hex : Bool) (cs : List Char) : Prop :=
  ∀ last rest, Ends rest → numberTail hex last (cs ++ rest) = cs

/-- Characters of words may stand in front. -/
theorem Numeric.append (h : ∀ c ∈ ds, isWordChar c) (hcs : Numeric hex cs) :
    Numeric hex (ds ++ cs) := by
  intro last rest hrest
  induction ds generalizing last with
  | nil => exact hcs last rest hrest
  | cons d ds ih =>
      obtain ⟨hd, hds⟩ := List.forall_mem_cons.1 h
      rw [List.cons_append, List.cons_append, numberTail_cons hd, ih hds]

theorem numeric_nil : Numeric hex [] := fun _ _ hrest => numberTail_end hrest

/-- Characters of words are read as one number. -/
theorem numeric_of_wordChars (h : ∀ c ∈ cs, isWordChar c) : Numeric hex cs := by
  rw [← List.append_nil cs]
  exact numeric_nil.append h

theorem startsWithDigit_append (h : allDigits cs) (rest : List Char) :
    startsWithDigit (cs ++ rest) := by
  cases cs with
  | nil => exact nomatch h
  | cons c cs => exact (List.forall_mem_cons.1 (List.all_eq_true.1 (Bool.and_eq_true_iff.1 h).2)).1

theorem wordChars_of_allDigits (h : allDigits cs) : ∀ c ∈ cs, isWordChar c := fun c hc =>
  isWordChar_of_isDigit (List.all_eq_true.1 (Bool.and_eq_true_iff.1 h).2 c hc)

/-- An exponent is read as one number with what stands before it. -/
theorem numeric_exponent (h : isExponent cs) : Numeric false cs := by
  cases cs with
  | nil => exact numeric_nil
  | cons c cs =>
      obtain ⟨hc, hds⟩ := Bool.and_eq_true_iff.1 h
      have hmark : c = 'e' ∨ c = 'E' := by
        rw [Bool.or_eq_true, decide_eq_true_iff, decide_eq_true_iff] at hc
        exact hc
      have hword : isWordChar c := by
        rcases hmark with rfl | rfl
        · decide
        · decide
      split at hds
      next ds =>
        intro last rest hrest
        have hdigits := startsWithDigit_append hds rest
        rw [List.cons_append, List.cons_append, numberTail_cons hword,
          numberTail_minus hmark hdigits,
            numeric_of_wordChars (wordChars_of_allDigits hds) '-' rest hrest]
      next =>
        refine numeric_of_wordChars (List.forall_mem_cons.2 ⟨hword, ?_⟩)
        exact wordChars_of_allDigits hds

theorem mem_takeWhile_isDigit (cs : List Char) : ∀ c ∈ cs.takeWhile Char.isDigit, c.isDigit :=
  fun _ hc => List.mem_takeWhile_imp hc

theorem allDigits_takeWhile (h : (cs.takeWhile Char.isDigit).isEmpty = false) :
    allDigits (cs.takeWhile Char.isDigit) := by
  rw [allDigits, h]
  exact List.all_eq_true.2 (mem_takeWhile_isDigit cs)

theorem takeWhile_append_drop (p : Char → Bool) (cs : List Char) :
    cs.takeWhile p ++ cs.drop (cs.takeWhile p).length = cs :=
  List.prefix_iff_eq_append.1 (List.takeWhile_prefix p)

/-- A float is read as one number. -/
theorem numeric_float (h : isFloat cs) : Numeric false cs := by
  rw [isFloat] at h
  obtain ⟨-, h⟩ := Bool.and_eq_true_iff.1 h
  have hwhole : ∀ c ∈ cs.takeWhile Char.isDigit, isWordChar c :=
    fun c hc => isWordChar_of_isDigit (mem_takeWhile_isDigit cs c hc)
  rw [← takeWhile_append_drop Char.isDigit cs]
  -- the digits before the point, then the digits behind it, then the exponent
  refine Numeric.append hwhole ?_
  split at h
  next ds hdrop =>
    obtain ⟨hne, hexponent⟩ := Bool.and_eq_true_iff.1 h
    rw [Bool.not_eq_true'] at hne
    have hfraction := allDigits_takeWhile hne
    rw [hdrop, ← takeWhile_append_drop Char.isDigit ds]
    intro last rest hrest
    have hpoint : startsWithDigit (ds.takeWhile Char.isDigit
        ++ ds.drop (ds.takeWhile Char.isDigit).length ++ rest) := by
      rw [List.append_assoc]
      exact startsWithDigit_append hfraction _
    rw [List.cons_append, numberTail_point hpoint,
      (numeric_exponent hexponent).append (wordChars_of_allDigits hfraction) '.' rest hrest]
  next => exact numeric_exponent h

/-! ## Numbers -/

/-- A number that is not hexadecimal is none with what follows it. -/
theorem number_eq (h : hexDigits? cs = none) (hne : cs ≠ []) (hrest : Ends rest) :
    number (cs ++ rest) = numberTail false ' ' (cs ++ rest) := by
  have hnot : ∀ x tail, cs ++ rest = '0' :: x :: tail → x = 'x' ∨ x = 'X' → False := by
    intro x tail heq hx
    match cs, hne with
    | [c], _ =>
        have htail : rest = x :: tail := (List.cons.inj heq).2
        rw [htail] at hrest
        have hx' : x = ' ' := hrest x rfl
        rcases hx with rfl | rfl
        · exact absurd hx' (by decide)
        · exact absurd hx' (by decide)
    | c :: d :: ds, _ =>
        obtain ⟨hzero, htail⟩ := List.cons.inj heq
        obtain ⟨hd, -⟩ := List.cons.inj htail
        subst hzero hd
        rcases hx with rfl | rfl
        · exact nomatch h
        · exact nomatch h
  unfold number
  split
  next heq => exact (hnot 'x' _ heq (.inl rfl)).elim
  next heq => exact (hnot 'X' _ heq (.inr rfl)).elim
  next => rfl

/-- What a number of a valid shape begins with. -/
theorem exists_of_fault? (h : fault? cs = none) : ∃ c ds, cs = c :: ds ∧ c.isDigit := by
  cases cs with
  | nil => exact nomatch h
  | cons c ds =>
      refine ⟨c, ds, rfl, ?_⟩
      by_contra hc
      -- without a digit in front, each of the four shapes is refused
      have hzero : c ≠ '0' := by
        rintro rfl
        exact hc rfl
      have hhex : hexDigits? (c :: ds) = none := by
        unfold hexDigits?
        split
        · next heq => exact absurd (List.cons.inj heq).1 hzero
        · next heq => exact absurd (List.cons.inj heq).1 hzero
        · rfl
      have hoctal : octalDigits? (c :: ds) = none := by
        unfold octalDigits?
        split
        · next heq => exact absurd (List.cons.inj heq).1 hzero
        · rfl
      have hfloat : Number.startsLikeFloat (c :: ds) = false := by
        rw [Number.startsLikeFloat, List.takeWhile_cons_of_neg hc]
        rfl
      have hdigits : allDigits (c :: ds) = false := by
        rw [allDigits, List.all_cons, Bool.eq_false_iff.2 hc]
        rfl
      rw [fault?, hhex, hoctal, hfloat, hdigits] at h
      exact nomatch h

/-- A hexadecimal number is read as a whole. -/
theorem number_append_of_hexDigits? (hhex : hexDigits? cs = some ds) (hds : ∀ d ∈ ds, isHexDigit d)
    (hrest : Ends rest) : number (cs ++ rest) = cs := by
  have hwords : ∀ d ∈ ds, isWordChar d := fun d hd => isWordChar_of_isHexDigit (hds d hd)
  unfold hexDigits? at hhex
  split at hhex
  next digits =>
    obtain rfl := Option.some.inj hhex
    refine numeric_of_wordChars ?_ ' ' rest hrest
    exact List.forall_mem_cons.2 ⟨by decide, List.forall_mem_cons.2 ⟨by decide, hwords⟩⟩
  next digits =>
    obtain rfl := Option.some.inj hhex
    refine numeric_of_wordChars ?_ ' ' rest hrest
    exact List.forall_mem_cons.2 ⟨by decide, List.forall_mem_cons.2 ⟨by decide, hwords⟩⟩
  next => cases hhex

/-- An octal number is read as one number. -/
theorem numeric_octal (hoctal : octalDigits? cs = some ds) (hds : ∀ d ∈ ds, isOctalDigit d) :
    Numeric hex cs := by
  unfold octalDigits? at hoctal
  split at hoctal
  next c digits =>
    split at hoctal
    · cases hoctal
    · obtain rfl := Option.some.inj hoctal
      refine numeric_of_wordChars (List.forall_mem_cons.2 ⟨by decide, ?_⟩)
      intro d hd
      exact isWordChar_of_isDigit (isDigit_of_isOctalDigit (hds d hd))
  next => cases hoctal

/-- Of the other numbers, octal and decimal ones are made of word characters, and floats have a
point or a sign among their digits. -/
theorem numeric_of_fault? (h : fault? cs = none) (hhex : hexDigits? cs = none) :
    Numeric false cs := by
  rw [fault?, hhex] at h
  dsimp only at h
  cases hoctal : octalDigits? cs with
  | some digits =>
      rw [hoctal] at h
      dsimp only at h
      split at h
      next hdigits => exact numeric_octal hoctal (List.all_eq_true.1 hdigits)
      next => cases h
  | none =>
      rw [hoctal] at h
      dsimp only at h
      split at h
      next =>
        split at h
        next hfloat => exact numeric_float hfloat
        next => cases h
      next =>
        split at h
        next hdigits => exact numeric_of_wordChars (wordChars_of_allDigits hdigits)
        next => cases h

/-- A number of a valid shape is read as a whole. -/
theorem number_append (h : fault? cs = none) (hrest : Ends rest) : number (cs ++ rest) = cs := by
  cases hhex : hexDigits? cs with
  | some ds =>
      rw [fault?, hhex] at h
      dsimp only at h
      split at h
      next hdigits =>
        exact number_append_of_hexDigits? hhex
          (List.all_eq_true.1 (Bool.and_eq_true_iff.1 hdigits).2) hrest
      next => cases h
  | none =>
      -- hexadecimal numbers alone take neither a point nor a sign
      obtain ⟨c, ds, rfl, -⟩ := exists_of_fault? h
      rw [number_eq hhex (List.cons_ne_nil c ds) hrest]
      exact numeric_of_fault? h hhex ' ' rest hrest

end Manifest.Token
