import Manifest.Proofs.Binary64.Numeral
import Manifest.Proofs.Literal.Positional
import Mathlib.Data.List.Basic

/-!
# Integer literals

The shape check, the choice of the radix and the reading of the digits each go through the
characters of a literal on their own. They agree on what an integer literal is, and so does the
writer: what it writes denotes the integer, in the radix it was asked for. Only the least integer is
written and not read, as its magnitude is read before its sign.

* `Spells` — the literals of a radix, and their digits; `Denotes` — the integer, with its sign.
* `parse_integer_iff` — which texts are read as integers.
* `Denotes.oversized` — an integer that is too large.
* `parse_renderInteger` — which integers are read back.
-/

namespace Manifest.Number

variable {radix : Radix} {cs ds : List Char} {c : Char} {value : Int64} {i : Int} {n : Nat}
  {negative : Bool}

/-! ## Literals -/

/-- A literal of the radix without a sign, and its digits. -/
inductive Spells : Radix → List Char → List Char → Prop
  | hex {x : Char} {ds : List Char} (hx : x = 'x' ∨ x = 'X') (hne : ds ≠ [])
      (hds : ∀ d ∈ ds, isHexDigit d) : Spells .hex ds ('0' :: x :: ds)
  | octal {ds : List Char} (hne : ds ≠ []) (hds : ∀ d ∈ ds, isOctalDigit d) :
      Spells .octal ds ('0' :: ds)
  | zero : Spells .decimal ['0'] ['0']
  | decimal {c : Char} {ds : List Char} (hc : c.isDigit) (hzero : c ≠ '0')
      (hds : ∀ d ∈ ds, d.isDigit) : Spells .decimal (c :: ds) (c :: ds)

/-- A literal of the radix, with or without a minus sign, denotes an integer. -/
inductive Denotes (radix : Radix) : List Char → Int → Prop
  | plain {cs ds : List Char} (h : Spells radix ds cs) : Denotes radix cs (positional radix.base ds)
  | minus {cs ds : List Char} (h : Spells radix ds cs) :
      Denotes radix ('-' :: cs) (-positional radix.base ds)

/-! ## Shapes -/

/-- A text of digits has one at least. -/
theorem allDigits_iff : allDigits cs ↔ cs ≠ [] ∧ ∀ d ∈ cs, d.isDigit := by
  rw [allDigits, Bool.and_eq_true, Bool.not_eq_true', List.isEmpty_eq_false_iff, List.all_eq_true]

/-- Digits to the end of the text are no float. -/
theorem startsLikeFloat_digits (h : ∀ d ∈ cs, d.isDigit) : startsLikeFloat cs = false := by
  have hwhole : cs.takeWhile Char.isDigit = cs := List.takeWhile_eq_self_iff.2 h
  rw [startsLikeFloat, hwhole, List.drop_length, Bool.and_false]

/-- No `x` stands behind the zero. -/
theorem hexDigits?_zero (hsmall : c ≠ 'x') (hcapital : c ≠ 'X') :
    hexDigits? ('0' :: c :: cs) = none := by
  unfold hexDigits?
  split
  next heq => exact absurd (List.cons.inj (List.cons.inj heq).2).1 hsmall
  next heq => exact absurd (List.cons.inj (List.cons.inj heq).2).1 hcapital
  next => rfl

theorem hexDigits?_of_ne (hzero : c ≠ '0') : hexDigits? (c :: cs) = none := by
  unfold hexDigits?
  split
  next heq => exact absurd (List.cons.inj heq).1 hzero
  next heq => exact absurd (List.cons.inj heq).1 hzero
  next => rfl

theorem octalDigits?_of_ne (hzero : c ≠ '0') : octalDigits? (c :: cs) = none := by
  unfold octalDigits?
  split
  next heq => exact absurd (List.cons.inj heq).1 hzero
  next => rfl

/-- A literal without a sign has a valid shape, and its digits are found. -/
theorem Spells.shape (h : Spells radix ds cs) :
    fault? cs = none ∧ integerDigits? cs = some (ds, radix) := by
  cases h with
  | @hex x ds hx hne hds =>
      have hdigits : hexDigits? ('0' :: x :: ds) = some ds := by
        rcases hx with rfl | rfl <;> rfl
      rw [fault?, integerDigits?, hdigits]
      refine ⟨if_pos ?_, rfl⟩
      rw [List.isEmpty_eq_false_iff.2 hne, List.all_eq_true.2 hds]
      rfl
  | octal hne hds =>
      obtain ⟨d, ds, rfl⟩ := List.exists_cons_of_ne_nil hne
      -- an octal digit is no letter and no point
      have hd : ∀ x, isOctalDigit x = false → d ≠ x := by
        rintro x hx rfl
        exact absurd (hds d List.mem_cons_self) (Bool.eq_false_iff.1 hx)
      have hdigits : octalDigits? ('0' :: d :: ds) = some (d :: ds) := if_neg (hd '.' rfl)
      rw [fault?, integerDigits?, hexDigits?_zero (hd 'x' rfl) (hd 'X' rfl)]
      dsimp only
      rw [hdigits]
      exact ⟨if_pos (List.all_eq_true.2 hds), rfl⟩
  | zero => decide
  | @decimal c ds hc hzero hds =>
      have hall : ∀ d ∈ c :: ds, d.isDigit := List.forall_mem_cons.2 ⟨hc, hds⟩
      have hdigits : allDigits (c :: ds) := allDigits_iff.2 ⟨List.cons_ne_nil _ _, hall⟩
      rw [fault?, integerDigits?, hexDigits?_of_ne hzero]
      dsimp only
      rw [octalDigits?_of_ne hzero, startsLikeFloat_digits hall, hdigits]
      exact ⟨rfl, rfl⟩

/-- Digits behind `0x` spell a number in the radix sixteen. -/
theorem spells_of_hexDigits? (h : hexDigits? cs = some ds) (hne : ds ≠ [])
    (hds : ∀ d ∈ ds, isHexDigit d) : Spells .hex ds cs := by
  unfold hexDigits? at h
  split at h
  next =>
    obtain rfl := Option.some.inj h
    exact .hex (.inl rfl) hne hds
  next =>
    obtain rfl := Option.some.inj h
    exact .hex (.inr rfl) hne hds
  next => cases h

/-- Digits behind a zero spell one in the radix eight. -/
theorem spells_of_octalDigits? (h : octalDigits? cs = some ds) (hds : ∀ d ∈ ds, isOctalDigit d) :
    Spells .octal ds cs := by
  unfold octalDigits? at h
  split at h
  next =>
    split at h
    · cases h
    · obtain rfl := Option.some.inj h
      exact .octal (List.cons_ne_nil _ _) hds
  next => cases h

/-- Digits that are no octal literal are a decimal one. -/
theorem spells_of_allDigits (hall : allDigits cs) (hoctal : octalDigits? cs = none) :
    Spells .decimal cs cs := by
  obtain ⟨hne, hds⟩ := allDigits_iff.1 hall
  obtain ⟨c, es, rfl⟩ := List.exists_cons_of_ne_nil hne
  obtain ⟨hc, hes⟩ := List.forall_mem_cons.1 hds
  by_cases hzero : c = '0'
  · obtain rfl := hzero
    cases es with
    | nil => exact .zero
    | cons d es =>
        -- without octal digits, a point follows the zero
        have hd : d = '.' := by
          by_contra hpoint
          have hsome : octalDigits? ('0' :: d :: es) = some (d :: es) := if_neg hpoint
          cases hsome.symm.trans hoctal
        rw [hd] at hes
        exact absurd (hes '.' List.mem_cons_self) (by decide)
  · exact .decimal hc hzero hes

/-- A text of a valid shape is a literal of an integer, or a float. -/
theorem spells_of_shape (hfault : fault? cs = none)
    (hdigits : integerDigits? cs = some (ds, radix)) :
    Spells radix ds cs := by
  rw [fault?] at hfault
  rw [integerDigits?] at hdigits
  -- the shape is decided in the order of the prefixes: `0x`, `0`, none
  cases hhex : hexDigits? cs with
  | some es =>
      rw [hhex] at hfault hdigits
      obtain ⟨rfl, rfl⟩ := Prod.mk.inj (Option.some.inj hdigits)
      dsimp only at hfault
      split at hfault
      next hes =>
        obtain ⟨hne, hall⟩ := Bool.and_eq_true_iff.1 hes
        rw [Bool.not_eq_true', List.isEmpty_eq_false_iff] at hne
        exact spells_of_hexDigits? hhex hne (List.all_eq_true.1 hall)
      next => cases hfault
  | none =>
      rw [hhex] at hfault hdigits
      dsimp only at hfault hdigits
      cases hoctal : octalDigits? cs with
      | some es =>
          rw [hoctal] at hfault hdigits
          obtain ⟨rfl, rfl⟩ := Prod.mk.inj (Option.some.inj hdigits)
          dsimp only at hfault
          split at hfault
          next hall => exact spells_of_octalDigits? hoctal (List.all_eq_true.1 hall)
          next => cases hfault
      | none =>
          rw [hoctal] at hfault hdigits
          dsimp only at hfault hdigits
          split at hdigits
          next => cases hdigits
          next hfloat =>
            obtain ⟨rfl, rfl⟩ := Prod.mk.inj (Option.some.inj hdigits)
            rw [if_neg hfloat] at hfault
            split at hfault
            next hall => exact spells_of_allDigits hall hoctal
            next => cases hfault

/-! ## Reading -/

/-- No literal begins with a sign. -/
theorem Spells.ne_minus (h : Spells radix ds ('-' :: cs)) : False := by
  cases h with
  | decimal hc => exact absurd hc (by decide)

/-- A magnitude is read in its radix. -/
theorem Spells.parseUnsigned (h : Spells radix ds cs) (negative : Bool) :
    parseUnsigned negative cs = signed? negative (positional radix.base ds) radix := by
  rw [Number.parseUnsigned, h.shape.1]
  dsimp only
  rw [h.shape.2]

/-- What is read as an integer is a literal of its radix. -/
theorem spells_of_parseUnsigned
    (h : Number.parseUnsigned negative cs = .ok (.integer value radix)) :
    ∃ ds, Spells radix ds cs := by
  rw [Number.parseUnsigned] at h
  cases hfault : fault? cs with
  | some code =>
      rw [hfault] at h
      exact nomatch h
  | none =>
      rw [hfault] at h
      dsimp only at h
      cases hdigits : integerDigits? cs with
      | some found =>
          obtain ⟨ds, radix'⟩ := found
          rw [hdigits] at h
          dsimp only at h
          rw [signed?] at h
          split at h
          next =>
            obtain ⟨-, rfl⟩ := Number.integer.inj (Except.ok.inj h)
            exact ⟨ds, spells_of_shape hfault hdigits⟩
          next => exact nomatch h
      | none =>
          rw [hdigits] at h
          dsimp only at h
          split at h
          next => exact nomatch h
          next => exact nomatch h

/-- The sign of an integer, put before its magnitude. -/
def withSign (negative : Bool) (n : Nat) : Int := if negative then -n else n

/-- A sign keeps the magnitude. -/
theorem natAbs_withSign (negative : Bool) (n : Nat) : (withSign negative n).natAbs = n := by
  cases negative with
  | true => exact Int.natAbs_neg n
  | false => rfl

/-- A magnitude below the bound is read with its sign. -/
theorem signed?_iff : signed? negative n radix = .ok (.integer value radix) ↔
    value.toInt = withSign negative n ∧ n < integerBound := by
  have hsplit : signed? negative n radix = if n < integerBound then
      .ok (.integer (Int64.ofInt (withSign negative n)) radix) else .error .illegalNumber := rfl
  have hbounds : n < integerBound →
      (Int64.ofInt (withSign negative n)).toInt = withSign negative n := by
    intro hn
    have habs := natAbs_withSign negative n
    rw [integerBound] at hn
    exact Int64.toInt_ofInt_of_le (by omega) (by omega)
  rw [hsplit]
  constructor
  · intro h
    split at h
    next hn =>
      obtain ⟨rfl, -⟩ := Number.integer.inj (Except.ok.inj h)
      exact ⟨hbounds hn, hn⟩
    next => exact nomatch h
  · rintro ⟨hvalue, hn⟩
    rw [if_pos hn, ← hvalue, Int64.ofInt_toInt]

/-- What is read, by the sign in front. -/
theorem parse_cases (cs : List Char) :
    (∃ ds, cs = '-' :: ds ∧ parse cs = Number.parseUnsigned true ds) ∨
      (∀ ds, cs ≠ '-' :: ds) ∧ parse cs = Number.parseUnsigned false cs := by
  unfold parse
  split
  next ds => exact .inl ⟨ds, rfl, rfl⟩
  next hsign => exact .inr ⟨hsign, rfl⟩

/-- A spelled number without a sign is read as its value. -/
theorem Spells.parse_plain (h : Spells radix ds cs) :
    parse cs = signed? false (positional radix.base ds) radix := by
  rcases parse_cases cs with ⟨es, rfl, -⟩ | ⟨-, hparse⟩
  · exact h.ne_minus.elim
  · rw [hparse, h.parseUnsigned]

/-- A literal with its sign is read as its magnitude with that sign. -/
theorem Denotes.parse (h : Denotes radix cs i) :
    ∃ negative n, i = withSign negative n ∧ Number.parse cs = signed? negative n radix := by
  cases h with
  | plain h => exact ⟨false, _, rfl, h.parse_plain⟩
  | minus h => exact ⟨true, _, rfl, h.parseUnsigned true⟩

/-- What is read as an integer denotes one. -/
theorem denotes_of_parse (h : Number.parse cs = .ok (.integer value radix)) :
    ∃ i, Denotes radix cs i := by
  rcases parse_cases cs with ⟨ds, rfl, hparse⟩ | ⟨-, hparse⟩
  · obtain ⟨es, hspells⟩ := spells_of_parseUnsigned (hparse ▸ h)
    exact ⟨_, .minus hspells⟩
  · obtain ⟨es, hspells⟩ := spells_of_parseUnsigned (hparse ▸ h)
    exact ⟨_, .plain hspells⟩

/-- The texts that are read as integers are the literals of integers whose magnitude lies below the
bound. -/
theorem parse_integer_iff : Number.parse cs = .ok (.integer value radix) ↔
    Denotes radix cs value.toInt ∧ value.toInt.natAbs < integerBound := by
  constructor
  · intro h
    obtain ⟨i, hi⟩ := denotes_of_parse h
    obtain ⟨negative, n, rfl, hparse⟩ := hi.parse
    obtain ⟨hvalue, hn⟩ := signed?_iff.1 (hparse ▸ h)
    rw [hvalue, natAbs_withSign]
    exact ⟨hi, hn⟩
  · rintro ⟨hdenotes, hbound⟩
    obtain ⟨negative, n, hvalue, hparse⟩ := hdenotes.parse
    rw [hvalue, natAbs_withSign] at hbound
    rw [hparse]
    exact signed?_iff.2 ⟨hvalue, hbound⟩

/-- An integer that is too large is refused. -/
theorem Denotes.oversized (h : Denotes radix cs i) (hi : integerBound ≤ i.natAbs) :
    Number.parse cs = .error .illegalNumber := by
  obtain ⟨negative, n, rfl, hparse⟩ := h.parse
  rw [natAbs_withSign] at hi
  rw [hparse]
  exact if_neg (Nat.not_lt.2 hi)

/-! ## Writing -/

theorem digitValue_toUpper : ∀ n < 16, digitValue n.digitChar.toUpper = n := by decide

/-- The digits of a number have its value in capital letters too. -/
theorem positional_digitsIn (radix : Radix) (n : Nat) :
    positional radix.base (digitsIn radix n) = n := by
  have hbase : 1 < radix.base := by cases radix <;> decide
  have hbase' : radix.base ≤ 16 := by cases radix <;> decide
  rw [digitsIn, positional, List.foldl_map]
  refine Eq.trans (List.foldl_ext _ _ 0 ?_) (positional_toDigits hbase hbase' n)
  intro m c hc
  obtain ⟨k, hk, rfl⟩ := exists_of_mem_toDigits hbase hc
  have hk' : k < 16 := Nat.lt_of_lt_of_le hk hbase'
  rw [digitValue_toUpper k hk', (digitChar_spec k hk').1]

/-- Every number has a digit. -/
theorem digitsIn_ne_nil (radix : Radix) (n : Nat) : digitsIn radix n ≠ [] :=
  mt List.map_eq_nil_iff.1 Nat.toDigits_ne_nil

/-- Digits are those of the radix, in capitals. -/
theorem exists_of_mem_digitsIn (h : c ∈ digitsIn radix n) :
    ∃ k < radix.base, c = k.digitChar.toUpper := by
  have hbase : 1 < radix.base := by cases radix <;> decide
  obtain ⟨d, hd, rfl⟩ := List.mem_map.1 h
  obtain ⟨k, hk, rfl⟩ := exists_of_mem_toDigits hbase hd
  exact ⟨k, hk, rfl⟩

/-- A decimal digit has no capital letter. -/
theorem digitsIn_decimal (n : Nat) : digitsIn .decimal n = Nat.toDigits 10 n := by
  refine (List.map_congr_left ?_).trans (List.map_id _)
  intro c hc
  obtain ⟨k, hk, rfl⟩ := exists_of_mem_toDigits (by decide) hc
  clear hc
  revert k
  decide

/-- The mark of a radix and digits that it writes are a literal of it. -/
theorem spells_digitsIn (radix : Radix) (n : Nat) :
    Spells radix (digitsIn radix n) (radix.mark ++ digitsIn radix n) := by
  cases radix with
  | octal =>
      refine .octal (digitsIn_ne_nil _ _) ?_
      intro d hd
      obtain ⟨k, hk, rfl⟩ := exists_of_mem_digitsIn hd
      clear hd
      revert k
      decide
  | hex =>
      refine .hex (.inl rfl) (digitsIn_ne_nil _ _) ?_
      intro d hd
      obtain ⟨k, hk, rfl⟩ := exists_of_mem_digitsIn hd
      clear hd
      revert k
      decide
  | decimal =>
      show Spells .decimal (digitsIn .decimal n) (digitsIn .decimal n)
      rw [digitsIn_decimal]
      rcases Nat.eq_zero_or_pos n with rfl | hn
      · exact .zero
      · obtain ⟨c, ds, h, hc⟩ := Binary64.toDigits_eq_cons hn
        have hall : ∀ d ∈ c :: ds, d.isDigit := fun d hd =>
          Binary64.isDigit_of_mem_toDigits (h ▸ hd)
        obtain ⟨hdigit, hds⟩ := List.forall_mem_cons.1 hall
        rw [h]
        exact .decimal hdigit hc hds

/-- An integer is written as a literal that denotes it. -/
theorem denotes_renderInteger (value : Int64) (radix : Radix) :
    Denotes radix (renderInteger value radix) value.toInt := by
  have hspells := spells_digitsIn radix value.toInt.natAbs
  have hsign : value < 0 ↔ value.toInt < 0 := Int64.lt_iff_toInt_lt
  rw [renderInteger]
  by_cases h : value < 0
  · have habs : -(value.toInt.natAbs : Int) = value.toInt := by
      have := hsign.1 h
      omega
    have hdenotes := Denotes.minus hspells
    rw [positional_digitsIn, habs] at hdenotes
    rw [if_pos h]
    exact hdenotes
  · have habs : (value.toInt.natAbs : Int) = value.toInt := by
      have := mt hsign.2 h
      omega
    have hdenotes := Denotes.plain hspells
    rw [positional_digitsIn, habs] at hdenotes
    rw [if_neg h]
    exact hdenotes

/-- The integers whose magnitude is below the bound are all but the least one. -/
theorem natAbs_lt_integerBound_iff :
    value.toInt.natAbs < integerBound ↔ value ≠ Int64.minValue := by
  rw [ne_eq, ← Int64.toInt_inj, Int64.toInt_minValue, integerBound]
  have hlow := value.le_toInt
  have hhigh := value.toInt_lt
  omega

/-- Written integers are read back, in every radix, save the least one: its magnitude is refused
before its sign is put to it. -/
theorem parse_renderInteger (value : Int64) (radix : Radix) :
    Number.parse (renderInteger value radix)
      = if value = Int64.minValue then .error .illegalNumber else .ok (.integer value radix) := by
  have hdenotes := denotes_renderInteger value radix
  split
  next hleast =>
    refine hdenotes.oversized (Nat.not_lt.1 ?_)
    exact fun hbound => natAbs_lt_integerBound_iff.1 hbound hleast
  next hleast => exact parse_integer_iff.2 ⟨hdenotes, natAbs_lt_integerBound_iff.2 hleast⟩

/-- The least integer is not read back. -/
theorem parse_renderInteger_least : parse (renderInteger Int64.minValue .decimal)
    ≠ .ok (.integer Int64.minValue .decimal) := by
  decide

end Manifest.Number
