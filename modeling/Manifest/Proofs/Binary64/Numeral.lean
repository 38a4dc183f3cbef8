import Manifest.Binary64.Decimal
import Mathlib.Tactic.IntervalCases
import Mathlib.Data.List.Induction
import Mathlib.Data.List.TakeWhile

/-!
# Numerals and how they are read

A numeral is digits with a fraction, an exponent or both. It is read digit by digit: the whole
part up to the point, the fraction up to the mark of the exponent, and what is left as an integer.

* `digitsValue_append` — the value of a string of digits, from the left.
* `trimZeros_append` — the zeros at the end of a string of digits are put back.
* `Numeral.magnitude?_text`, `Numeral.ofText?_text` — a numeral is read as the bits nearest to it,
  with and without a sign.
-/

namespace Manifest.Binary64

variable {cs ds : List Char} {c : Char} {n : Nat}

/-! ## Strings of digits -/

/-- Digits in front count by the power of ten of those behind them. -/
theorem digitsValue_append :
    digitsValue (cs ++ ds) = 10 ^ ds.length * digitsValue cs + digitsValue ds := by
  show Nat.ofDigitChars 10 (cs ++ ds) 0
    = 10 ^ ds.length * Nat.ofDigitChars 10 cs 0 + Nat.ofDigitChars 10 ds 0
  rw [Nat.ofDigitChars_append, Nat.ofDigitChars_eq_ofDigitChars_zero]

/-- Zeros have the value zero. -/
theorem digitsValue_replicate (n : Nat) : digitsValue (List.replicate n '0') = 0 :=
  Nat.ofDigitChars_replicate_zero

/-- The decimal digits of a number have it as their value. -/
theorem digitsValue_toDigits (n : Nat) : digitsValue (Nat.toDigits 10 n) = n :=
  Nat.ofDigitChars_ten_toDigits

/-- Each zero at the end multiplies by ten. -/
theorem digitsValue_append_zeros (ds : List Char) (n : Nat) :
    digitsValue (ds ++ List.replicate n '0') = digitsValue ds * 10 ^ n := by
  rw [digitsValue_append, digitsValue_replicate, List.length_replicate, Nat.add_zero, Nat.mul_comm]

theorem digit_sub_le (h : c.isDigit) : c.toNat - '0'.toNat ≤ 9 := by
  have := Char.isDigit_iff_toNat.1 h
  have : '9'.toNat = '0'.toNat + 9 := by decide
  omega

/-- As many digits as there are bound the value from above. -/
theorem digitsValue_lt (h : ∀ c ∈ ds, c.isDigit) : digitsValue ds < 10 ^ ds.length := by
  induction ds using List.reverseRecOn with
  | nil => decide
  | append_singleton ds c ih =>
      have hds := ih fun c hc => h c (List.mem_append_left _ hc)
      have hc := digit_sub_le (h c (by simp))
      rw [digitsValue_append, List.length_append, Nat.pow_add]
      show 10 ^ 1 * digitsValue ds + (10 * 0 + (c.toNat - '0'.toNat)) < 10 ^ ds.length * 10 ^ 1
      omega

/-- A first digit other than zero bounds it from below. -/
theorem le_digitsValue (h : c.isDigit) (h0 : c ≠ '0') : 10 ^ ds.length ≤ digitsValue (c :: ds) := by
  have hlow := (Char.isDigit_iff_toNat.1 h).1
  have hne : c.toNat ≠ '0'.toNat := fun heq => h0 (Char.toNat_inj.1 heq)
  rw [show c :: ds = [c] ++ ds from rfl, digitsValue_append]
  refine le_trans ?_ (Nat.le_add_right _ _)
  refine Nat.le_mul_of_pos_right _ ?_
  show 0 < 10 * 0 + (c.toNat - '0'.toNat)
  omega

/-- A digit is that of a number below ten. -/
theorem exists_digitChar (h : c.isDigit) : ∃ n < 10, c = n.digitChar := by
  have hbounds := Char.isDigit_iff_toNat.1 h
  have hnine : '9'.toNat = 57 := by decide
  have hzero : '0'.toNat = 48 := by decide
  refine ⟨c.toNat - 48, by omega, Char.toNat_inj.1 ?_⟩
  rw [Nat.toNat_digitChar_of_lt_ten (by omega)]
  omega

/-- The digits of a positive number begin with a digit that is not zero. -/
theorem toDigits_eq_cons (hn : 0 < n) : ∃ c cs, Nat.toDigits 10 n = c :: cs ∧ c ≠ '0' := by
  induction n using Nat.base_induction 10 (by decide) with
  | single m hm =>
      refine ⟨m.digitChar, [], Nat.toDigits_of_lt_base hm, ?_⟩
      interval_cases m <;> decide
  | digit m k hk hm ih =>
      obtain ⟨c, cs, h, hc⟩ := ih hm
      refine ⟨c, cs ++ Nat.toDigits 10 k, ?_, hc⟩
      rw [← Nat.toDigits_append_toDigits (by decide) hm hk, h, List.cons_append]

theorem isDigit_of_mem_toDigits (h : c ∈ Nat.toDigits 10 n) : c.isDigit :=
  Nat.isDigit_of_mem_toDigits (by decide) (by decide) h

/-- The zeros at the end of a string of digits are put back. -/
theorem trimZeros_append (ds : List Char) :
    (trimZeros ds).1 ++ List.replicate (trimZeros ds).2 '0' = ds := by
  have hzeros : ds.reverse.takeWhile (· == '0')
      = List.replicate (ds.reverse.takeWhile (· == '0')).length '0' := by
    refine List.eq_replicate_of_mem ?_
    intro c hc
    have := List.mem_takeWhile_imp (p := (· == '0')) hc
    exact eq_of_beq this
  have hsplit : (ds.reverse.dropWhile (· == '0')).reverse
      ++ (ds.reverse.takeWhile (· == '0')).reverse = ds := by
    rw [← List.reverse_append, List.takeWhile_append_dropWhile, List.reverse_reverse]
  have hlength : ds.length - (ds.reverse.dropWhile (· == '0')).reverse.length
      = (ds.reverse.takeWhile (· == '0')).length := by
    have := congrArg List.length hsplit
    rw [List.length_append, @List.length_reverse _ (ds.reverse.takeWhile _)] at this
    omega
  show (ds.reverse.dropWhile (· == '0')).reverse ++ List.replicate
    (ds.length - (ds.reverse.dropWhile (· == '0')).reverse.length) '0' = ds
  rw [hlength, ← List.reverse_replicate, ← hzeros, hsplit]

/-! ## Numerals -/

/-- Digits with a fraction, an exponent or both. -/
structure Numeral where
  whole : List Char
  fraction : List Char
  exponent : Option Int
  whole_ne_nil : whole ≠ []
  isDigit_of_mem_whole : ∀ c ∈ whole, c.isDigit
  isDigit_of_mem_fraction : ∀ c ∈ fraction, c.isDigit
  marked : fraction ≠ [] ∨ exponent ≠ none

namespace Numeral

/-- The fraction with its point. -/
def fractionText (m : Numeral) : List Char := if m.fraction = [] then [] else '.' :: m.fraction

/-- The exponent with its mark. -/
def exponentText (m : Numeral) : List Char :=
  match m.exponent with
  | none => []
  | some e => 'e' :: integerText e

/-- How a numeral is written. -/
def text (m : Numeral) : List Char := m.whole ++ m.fractionText ++ m.exponentText

/-- The bits of the number nearest to the numeral. -/
def bits (m : Numeral) : Nat :=
  nearest (m.whole ++ m.fraction) (m.exponent.getD 0 - m.fraction.length)

end Numeral

/-- Where a digit stands in front there is no sign. -/
theorem takeSign_of_isDigit (h : c.isDigit) : takeSign (c :: cs) = (false, c :: cs) := by
  unfold takeSign
  split
  next heq =>
    rw [(List.cons.inj heq).1] at h
    exact absurd h (by decide)
  next heq =>
    rw [(List.cons.inj heq).1] at h
    exact absurd h (by decide)
  next => rfl

theorem takeSign_toDigits (n : Nat) :
    takeSign (Nat.toDigits 10 n) = (false, Nat.toDigits 10 n) := by
  obtain ⟨c, cs, h⟩ := List.exists_cons_of_ne_nil (Nat.toDigits_ne_nil (n := n) (b := 10))
  have hc : c ∈ Nat.toDigits 10 n := by
    rw [h]
    exact List.mem_cons_self
  rw [h]
  exact takeSign_of_isDigit (isDigit_of_mem_toDigits hc)

/-- The sign of an integer is read from its text. -/
theorem takeSign_integerText (e : Int) :
    takeSign (integerText e) = (decide (e < 0), Nat.toDigits 10 e.natAbs) := by
  unfold integerText
  by_cases he : e < 0
  · rw [if_pos he, decide_eq_true he]
    rfl
  · rw [if_neg he, decide_eq_false he]
    exact takeSign_toDigits _

/-- An exponent is read from its text. -/
theorem exponent?_integerText (e : Int) : exponent? ('e' :: integerText e) = some e := by
  have hdigits : (Nat.toDigits 10 e.natAbs).all Char.isDigit = true :=
    List.all_eq_true.2 fun c hc => isDigit_of_mem_toDigits hc
  have hne : (Nat.toDigits 10 e.natAbs).isEmpty = false :=
    List.isEmpty_eq_false_iff.2 Nat.toDigits_ne_nil
  simp only [exponent?, decide_true, Bool.true_or, if_true, takeSign_integerText, hdigits, hne,
    Bool.not_true, Bool.or_false, Bool.false_eq_true, if_false, digitsValue_toDigits]
  by_cases he : e < 0
  · simp only [decide_eq_true he, if_true, Option.some.injEq]
    omega
  · simp only [decide_eq_false he, Bool.false_eq_true, if_false, Option.some.injEq]
    omega

theorem takeWhile_isDigit_append (h : ∀ c ∈ ds, c.isDigit) (hcs : ∀ c ∈ cs.head?, ¬ c.isDigit) :
    (ds ++ cs).takeWhile Char.isDigit = ds := by
  rw [List.takeWhile_append_of_pos h]
  cases cs with
  | nil => rw [List.takeWhile_nil, List.append_nil]
  | cons c cs =>
      rw [List.takeWhile_cons_of_neg (hcs c rfl), List.append_nil]

namespace Numeral

variable {m : Numeral}

/-- What may follow the digits of a numeral begins with `e`. -/
theorem head_exponentText (m : Numeral) : ∀ c ∈ m.exponentText.head?, c = 'e' := by
  unfold exponentText
  cases m.exponent with
  | none => exact fun c hc => nomatch hc
  | some e => exact fun c hc => (Option.some.inj hc).symm

/-- The exponent of a numeral is read from its text, and is zero if none is written. -/
theorem exponent?_exponentText (m : Numeral) :
    exponent? m.exponentText = some (m.exponent.getD 0) := by
  unfold exponentText
  cases m.exponent with
  | none => rfl
  | some e => exact exponent?_integerText e

/-- No digit follows the digits before the point. -/
theorem head_rest (m : Numeral) :
    ∀ c ∈ (m.fractionText ++ m.exponentText).head?, ¬ c.isDigit := by
  intro c hc
  unfold fractionText at hc
  split at hc
  · rw [m.head_exponentText c hc]
    decide
  · rw [← Option.some.inj hc]
    decide

/-- The leading digits of a numeral are those before its point. -/
theorem takeWhile_text (m : Numeral) : m.text.takeWhile Char.isDigit = m.whole := by
  rw [text, List.append_assoc]
  exact takeWhile_isDigit_append m.isDigit_of_mem_whole m.head_rest

/-- Behind the leading digits of a numeral stand its fraction and its exponent. -/
theorem drop_text (m : Numeral) :
    m.text.drop m.whole.length = m.fractionText ++ m.exponentText := by
  rw [text, List.append_assoc, List.drop_left]

/-- The digits of the fraction end where the exponent begins. -/
theorem takeWhile_fraction (m : Numeral) :
    (m.fraction ++ m.exponentText).takeWhile Char.isDigit = m.fraction := by
  refine takeWhile_isDigit_append m.isDigit_of_mem_fraction ?_
  intro c hc
  rw [m.head_exponentText c hc]
  decide

/-- A numeral is read as the bits nearest to it. -/
theorem magnitude?_text (m : Numeral) : magnitude? m.text = some m.bits := by
  have hne : m.whole.isEmpty = false := List.isEmpty_eq_false_iff.2 m.whole_ne_nil
  simp only [magnitude?, takeWhile_text, drop_text, hne, Bool.false_and, Bool.false_eq_true,
    if_false]
  by_cases hf : m.fraction = []
  · have hbits : m.bits =
        nearest (m.whole ++ []) (m.exponent.getD 0 - ([] : List Char).length) := by
      rw [bits, hf]
    have hhead := m.head_exponentText
    have hexponent := m.exponent?_exponentText
    rw [fractionText, if_pos hf, List.nil_append, hbits]
    generalize m.exponentText = rest at hhead hexponent
    cases rest with
    | nil => exact congrArg (Option.map _) hexponent
    | cons c rest =>
        obtain rfl := hhead c rfl
        exact congrArg (Option.map _) hexponent
  · rw [fractionText, if_neg hf, List.cons_append]
    simp only [takeWhile_fraction, List.drop_left, exponent?_exponentText]
    rfl

/-- A numeral begins with a digit. -/
theorem exists_text_eq_cons (m : Numeral) : ∃ c cs, m.text = c :: cs ∧ c.isDigit := by
  obtain ⟨c, cs, h⟩ := List.exists_cons_of_ne_nil m.whole_ne_nil
  refine ⟨c, cs ++ m.fractionText ++ m.exponentText, ?_, m.isDigit_of_mem_whole c ?_⟩
  · rw [text, h, List.cons_append, List.cons_append]
  · rw [h]
    exact List.mem_cons_self

/-- A numeral is none of the words for infinity and NaN. -/
theorem word_ne (m : Numeral) (w : Char) (ws : List Char) (hw : w.isDigit = false) :
    (String.ofList (m.text.map Char.toLower) == String.ofList (w :: ws)) = false := by
  obtain ⟨c, cs, h, hc⟩ := m.exists_text_eq_cons
  rw [beq_eq_false_iff_ne, h]
  intro heq
  have hlower : c.toLower = w := (List.cons.inj (String.ofList_injective heq)).1
  obtain ⟨n, hn, rfl⟩ := exists_digitChar hc
  have hdigits : ∀ n < 10, n.digitChar.toLower.isDigit = true := by decide
  rw [← hlower, hdigits n hn] at hw
  exact Bool.noConfusion hw

/-- A numeral with a sign is read as the number with that sign nearest to it. -/
theorem ofText?_text (m : Numeral) (negative : Bool) :
    ofText? (if negative then '-' :: m.text else m.text) = some (ofMagnitude negative m.bits) := by
  have hsign : takeSign (if negative then '-' :: m.text else m.text) = (negative, m.text) := by
    cases negative with
    | true => rfl
    | false =>
        obtain ⟨c, cs, h, hc⟩ := m.exists_text_eq_cons
        rw [h]
        exact takeSign_of_isDigit hc
  have hinf := m.word_ne 'i' ['n', 'f'] (by decide)
  have hinfinity := m.word_ne 'i' ['n', 'f', 'i', 'n', 'i', 't', 'y'] (by decide)
  have hnan := m.word_ne 'n' ['a', 'n'] (by decide)
  have hwords : ofText? (if negative then '-' :: m.text else m.text)
      = (magnitude? m.text).map (ofMagnitude negative) := by
    simp only [ofText?, hsign]
    rw [if_neg, if_neg]
    · exact fun h => Bool.noConfusion (hnan.symm.trans h)
    · rw [Bool.or_eq_true]
      rintro (h | h)
      · exact Bool.noConfusion (hinf.symm.trans h)
      · exact Bool.noConfusion (hinfinity.symm.trans h)
  rw [hwords, magnitude?_text, Option.map_some]

end Numeral

end Manifest.Binary64
