import Manifest.Proofs.Binary64.RoundTrip
import Manifest.Proofs.Sexp.Lexeme
import Mathlib.Data.List.Basic

/-!
# Written scalars are read back

Integers, floats, symbols and keys are single lexemes when they are written, of a kind whose text is
what was written. The rules that tell runs apart do not overlap on what the writer leaves bare:
digits alone are an integer, digits with a point or an exponent a float, and a symbol or a key is
left bare only when it is neither of them and no word.

* `spells_int`, `int64OfText?_integerText` — integers.
* `spells_float` — floats.
* `exists_spells_symbol`, `exists_spells_key` — symbols and keys, bare or in quotes.
-/

namespace Manifest.Sexp

variable {kind : Lexeme.Kind} {cs : List Char} {c : Char} {offset : Nat}

/-! ## Integers -/

/-- Digits are bare. -/
theorem isBare_of_isDigit (h : c.isDigit) : isBare c := by
  obtain ⟨n, hn, rfl⟩ := Binary64.exists_digitChar h
  exact (by decide : ∀ n < 10, isBare n.digitChar) n hn

/-- A run that is a number without its sign is none of the words. -/
theorem kindOfRun_number (h : isNatural (unsigned cs) ∨ isFloat (unsigned cs)) :
    kindOfRun cs = if isNatural (unsigned cs) then .int else .float := by
  have hword : cs ≠ "true".toList ∧ cs ≠ "false".toList ∧ cs ≠ "nil".toList := by
    refine ⟨?_, ?_, ?_⟩
    all_goals
      rintro rfl
      exact absurd h (by decide)
  unfold kindOfRun
  rw [if_neg hword.1, if_neg hword.2.1, if_neg hword.2.2]
  by_cases hn : isNatural (unsigned cs)
  · rw [if_pos hn, if_pos hn]
  · rw [if_neg hn, if_neg hn, if_pos (h.resolve_left hn)]

/-- A digit is no sign. -/
theorem unsigned_of_isDigit (h : c.isDigit) : unsigned (c :: cs) = c :: cs := by
  unfold unsigned
  split
  next heq =>
    rw [(List.cons.inj heq).1] at h
    exact absurd h (by decide)
  next => rfl

theorem unsigned_toDigits (n : Nat) : unsigned (Nat.toDigits 10 n) = Nat.toDigits 10 n := by
  obtain ⟨c, cs, h⟩ := List.exists_cons_of_ne_nil (Nat.toDigits_ne_nil (n := n) (b := 10))
  rw [h]
  refine unsigned_of_isDigit (Binary64.isDigit_of_mem_toDigits (n := n) ?_)
  rw [h]
  exact List.mem_cons_self

/-- Decimal digits are those of a natural number. -/
theorem isNatural_toDigits (n : Nat) : isNatural (Nat.toDigits 10 n) := by
  rcases Nat.eq_zero_or_pos n with rfl | hn
  · decide
  · obtain ⟨c, cs, h, hc⟩ := Binary64.toDigits_eq_cons hn
    have hall : (c :: cs).all Char.isDigit := by
      rw [← h]
      exact List.all_eq_true.2 fun d hd => Binary64.isDigit_of_mem_toDigits hd
    rw [h]
    unfold isNatural
    split
    next => rfl
    next heq =>
      obtain ⟨rfl, rfl⟩ := List.cons.inj heq
      rw [hall, decide_eq_true hc]
      rfl
    next heq => exact nomatch heq

/-- The digits of an integer, with its sign. -/
theorem unsigned_integerText (i : Int) :
    unsigned (Binary64.integerText i) = Nat.toDigits 10 i.natAbs := by
  unfold Binary64.integerText
  split
  · rfl
  · exact unsigned_toDigits _

/-- A text is bare if it is without its sign. -/
theorem isBare_of_mem_unsigned (h : ∀ d ∈ unsigned cs, isBare d) : ∀ d ∈ cs, isBare d := by
  unfold unsigned at h
  split at h
  next => exact List.forall_mem_cons.2 ⟨by decide, h⟩
  next => exact h

/-- The text of an integer is bare. -/
theorem isBare_of_mem_integerText {i : Int} {d : Char} (h : d ∈ Binary64.integerText i) :
    isBare d := by
  refine isBare_of_mem_unsigned ?_ d h
  intro d hd
  rw [unsigned_integerText] at hd
  exact isBare_of_isDigit (Binary64.isDigit_of_mem_toDigits hd)

/-- An integer is written as an integer. -/
theorem spells_int (i : Int) : Spells .int (Binary64.integerText i) := by
  have hnat : isNatural (unsigned (Binary64.integerText i)) := by
    rw [unsigned_integerText]
    exact isNatural_toDigits _
  have hbare : ∀ d ∈ Binary64.integerText i, isBare d := fun d hd => isBare_of_mem_integerText hd
  have hkind : kindOfRun (Binary64.integerText i) = .int := by
    rw [kindOfRun_number (.inl hnat), if_pos hnat]
  cases h : Binary64.integerText i with
  | nil =>
      rw [h] at hnat
      exact absurd hnat (by decide)
  | cons c cs =>
      rw [h] at hbare hkind
      exact spells_bare hbare hkind (by decide)

/-- Positional values agree with those of decimal digits. -/
theorem positional_eq_digitsValue (h : ∀ d ∈ cs, d.isDigit) :
    Number.positional 10 cs = Binary64.digitsValue cs := by
  refine List.foldl_ext _ _ 0 ?_
  intro n d hd
  show 10 * n + Number.digitValue d = 10 * n + (d.toNat - '0'.toNat)
  rw [Number.digitValue, if_pos (h d hd)]

/-- Digits with a sign denote the integer with that sign, when it has 64 bits. -/
theorem int64OfText?_digits {i : Int64} (hds : ∀ d ∈ cs, d.isDigit) (hcs : cs ≠ [])
    (hvalue : Number.positional 10 cs = i.toInt.natAbs) :
    int64OfText? (if i.toInt < 0 then '-' :: cs else cs) = some i := by
  have hall : Number.allDigits cs = true := by
    rw [Number.allDigits, List.isEmpty_eq_false_iff.2 hcs, List.all_eq_true.2 hds]
    rfl
  have hlow : decide (-(Number.integerBound : Int) ≤ i.toInt) = true := decide_eq_true i.le_toInt
  have hhigh : decide (i.toInt < Number.integerBound) = true := decide_eq_true i.toInt_lt
  have hsign : ∀ ds, cs ≠ '-' :: ds := by
    rintro ds rfl
    exact absurd (hds '-' List.mem_cons_self) (by decide)
  have habs : (if i.toInt < 0 then -(i.toInt.natAbs : Int) else i.toInt.natAbs) = i.toInt := by
    clear hlow hhigh
    omega
  by_cases hi : i.toInt < 0
  · rw [if_pos hi] at habs ⊢
    unfold int64OfText?
    simp only [hvalue, if_true, habs]
    rw [hall, hlow, hhigh, Int64.ofInt_toInt]
    rfl
  · rw [if_neg hi] at habs ⊢
    unfold int64OfText?
    simp only [hvalue, Bool.false_eq_true, if_false, habs]
    rw [hall, hlow, hhigh, Int64.ofInt_toInt]
    rfl

/-- The numeral of an integer of 64 bits denotes it. -/
theorem int64OfText?_integerText (i : Int64) :
    int64OfText? (Binary64.integerText i.toInt) = some i := by
  have hdigits : ∀ d ∈ Nat.toDigits 10 i.toInt.natAbs, d.isDigit :=
    fun d hd => Binary64.isDigit_of_mem_toDigits hd
  refine int64OfText?_digits hdigits Nat.toDigits_ne_nil ?_
  rw [positional_eq_digitsValue hdigits, Binary64.digitsValue_toDigits]

/-! ## Floats -/

/-- Natural numbers have nothing but digits. -/
theorem isDigit_of_isNatural (h : isNatural cs) : ∀ d ∈ cs, d.isDigit := by
  unfold isNatural at h
  split at h
  next =>
    intro d hd
    rw [List.mem_singleton.1 hd]
    decide
  next => exact List.all_eq_true.1 (Bool.and_eq_true_iff.1 h).2
  next => exact absurd h Bool.false_ne_true

/-- A numeral has a point or the mark of an exponent, which digits alone do not have. -/
theorem isNatural_numeral (m : Binary64.Numeral) : isNatural m.text = false := by
  rw [Bool.eq_false_iff]
  intro h
  have hdigits := isDigit_of_isNatural h
  have hmark : ∃ c ∈ m.text, c.isDigit = false := by
    rcases m.marked with hf | he
    · refine ⟨'.', ?_, by decide⟩
      simp [Binary64.Numeral.text, Binary64.Numeral.fractionText, hf]
    · obtain ⟨e, he⟩ := Option.ne_none_iff_exists'.1 he
      refine ⟨'e', ?_, by decide⟩
      simp [Binary64.Numeral.text, Binary64.Numeral.exponentText, he]
  obtain ⟨c, hc, hdigit⟩ := hmark
  exact Bool.noConfusion (hdigit.symm.trans (hdigits c hc))

/-- The exponent of a numeral is one of the format. -/
theorem isExponent_exponentText (m : Binary64.Numeral) (h : m.exponent ≠ none) :
    isExponent m.exponentText := by
  obtain ⟨e, he⟩ := Option.ne_none_iff_exists'.1 h
  have hall : Number.allDigits (Nat.toDigits 10 e.natAbs) := by
    rw [Number.allDigits, List.isEmpty_eq_false_iff.2 Nat.toDigits_ne_nil,
      List.all_eq_true.2 fun d hd => Binary64.isDigit_of_mem_toDigits hd]
    rfl
  simp only [Binary64.Numeral.exponentText, he, isExponent, Binary64.takeSign_integerText, hall]
  rfl

/-- Every numeral is a float of the format. -/
theorem isFloat_numeral (m : Binary64.Numeral) : isFloat m.text := by
  have hne : m.whole.isEmpty = false := List.isEmpty_eq_false_iff.2 m.whole_ne_nil
  simp only [isFloat, m.takeWhile_text, m.drop_text, hne, Bool.not_false, Bool.true_and]
  by_cases hf : m.fraction = []
  · have hexponent := isExponent_exponentText m (m.marked.resolve_left fun h => h hf)
    have hhead := m.head_exponentText
    rw [Binary64.Numeral.fractionText, if_pos hf, List.nil_append]
    generalize m.exponentText = rest at hexponent hhead
    cases rest with
    | nil => exact absurd hexponent Bool.false_ne_true
    | cons c rest =>
        obtain rfl := hhead c rfl
        exact hexponent
  · rw [Binary64.Numeral.fractionText, if_neg hf, List.cons_append]
    simp only [m.takeWhile_fraction, List.drop_left, List.isEmpty_eq_false_iff.2 hf, Bool.not_false,
      Bool.true_and, Bool.or_eq_true, List.isEmpty_iff]
    by_cases he : m.exponent = none
    · exact .inl (by rw [Binary64.Numeral.exponentText, he])
    · exact .inr (isExponent_exponentText m he)

/-- Numerals are bare. -/
theorem isBare_of_mem_numeral (m : Binary64.Numeral) : ∀ d ∈ m.text, isBare d := by
  intro d hd
  rw [Binary64.Numeral.text, List.mem_append, List.mem_append] at hd
  rcases hd with (hd | hd) | hd
  · exact isBare_of_isDigit (m.isDigit_of_mem_whole d hd)
  · unfold Binary64.Numeral.fractionText at hd
    split at hd
    · cases hd
    · rcases List.mem_cons.1 hd with rfl | hd
      · decide
      · exact isBare_of_isDigit (m.isDigit_of_mem_fraction d hd)
  · unfold Binary64.Numeral.exponentText at hd
    split at hd
    · cases hd
    · rcases List.mem_cons.1 hd with rfl | hd
      · decide
      · exact isBare_of_mem_integerText hd

/-- A finite float is written as a float. -/
theorem spells_float {x : Binary64} (hx : x.isFinite) : Spells .float x.render := by
  obtain ⟨m, hm, -⟩ := Binary64.exists_render hx
  obtain ⟨c, cs, hcons, hc⟩ := m.exists_text_eq_cons
  have hunsigned : unsigned x.render = m.text := by
    rw [hm]
    split
    · rfl
    · rw [hcons]
      exact unsigned_of_isDigit hc
  have hbare : ∀ d ∈ x.render, isBare d := by
    refine isBare_of_mem_unsigned ?_
    rw [hunsigned]
    exact isBare_of_mem_numeral m
  have hkind : kindOfRun x.render = .float := by
    rw [kindOfRun_number (.inr (by rw [hunsigned]; exact isFloat_numeral m)), hunsigned,
      isNatural_numeral, if_neg Bool.false_ne_true]
  cases h : x.render with
  | nil =>
      rw [h] at hunsigned
      exact nomatch hunsigned.trans hcons
  | cons d ds =>
      rw [h] at hbare hkind
      exact spells_bare hbare hkind (by decide)

/-! ## Symbols and keys -/

/-- The text is empty or begins with neither white space nor a comment. -/
def startsPlain (s : String) : Bool :=
  match s.toList with
  | [] => true
  | c :: _ => !isSeparator c && c ≠ ';'

/-- A symbol starts plain if its first character is neither skipped nor begins a comment. -/
theorem startsPlain_iff {s : String} :
    startsPlain s ↔ ∀ c ∈ s.toList.head?, isSeparator c = false ∧ c ≠ ';' := by
  unfold startsPlain
  cases s.toList with
  | nil => exact ⟨fun _ _ h => (nomatch h), fun _ => rfl⟩
  | cons c cs => simp

/-- The lexeme of a symbol, bare or in quotes, has its text. -/
theorem exists_spells_symbol {s : String} (h : startsPlain s) :
    ∃ kind, Spells kind (renderSymbol s) ∧
    ∀ offset, symbolText? ⟨kind, renderSymbol s, offset⟩ = some (.ok s) := by
  unfold renderSymbol
  split
  next hone =>
    obtain ⟨kind, hkind, hspells⟩ := spells_of_isOne (fun _ h => h) (startsPlain_iff.1 h) hone
    refine ⟨kind, hspells, ?_⟩
    intro offset
    rcases List.mem_pair.1 hkind with rfl | rfl
    all_goals exact congrArg (fun t => some (Except.ok t)) String.ofList_toList
  next =>
    exact ⟨.quotedSymbol, spells_quoted ['#'] s rfl,
      fun _ => congrArg some (quotedText_renderQuoted ['#'] s rfl)⟩

/-- The lexeme of a key, bare or in quotes, has its text. -/
theorem exists_spells_key (s : String) : ∃ kind, Spells kind (renderKey s) ∧
    ∀ offset, keyText? ⟨kind, renderKey s, offset⟩ = some (.ok s) := by
  unfold renderKey
  split
  next hone =>
    have hstart : ∀ c ∈ (':' :: s.toList).head?, isSeparator c = false ∧ c ≠ ';' := by
      intro c hc
      rw [← Option.some.inj hc]
      decide
    obtain ⟨kind, hkind, hspells⟩ := spells_of_isOne (by decide) hstart hone
    obtain rfl := List.mem_singleton.1 hkind
    exact ⟨.keyword, hspells, fun _ => congrArg (fun t => some (Except.ok t)) String.ofList_toList⟩
  next =>
    exact ⟨.quotedKeyword, spells_quoted [':'] s rfl,
      fun _ => congrArg some (quotedText_renderQuoted [':'] s rfl)⟩

end Manifest.Sexp
