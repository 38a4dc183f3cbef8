import Manifest.Proofs.Binary64.Numeral
import Manifest.Proofs.Binary64.Rounding

/-!
# Written numbers are read back

A finite number is written with digits that read back, whatever search has found them: a candidate
is tried before it is taken, and the digits given when no candidate reads back are exact. Shifting
the point, or zeros at either end, do not change what the digits mean.

* `shortest_reads` — the digits found have the number as their nearest one.
* `nearest_eq` — the bounds on the size of a decimal do not touch what is within reach.
* `exists_render` — a finite number is written as a numeral that is read as that number.
-/

namespace Manifest.Binary64

variable {x : Binary64} {cs ds : List Char} {c : Char} {n k : Nat} {e : Int}

/-! ## The fewest digits -/

/-- Zeros at the end of the digits are a shift of the point. -/
theorem nearestDecimal_shift (d k : Nat) (e : Int) :
    nearestDecimal (d * 10 ^ k) e = nearestDecimal d (e + k) := by
  simp only [nearestDecimal, Nat.pow_eq]
  refine nearestBits_congr (Nat.pow_pos (by decide)) (Nat.pow_pos (by decide)) ?_
  have hexp : k + e.toNat + (-(e + k)).toNat = (e + k).toNat + (-e).toNat := by omega
  calc d * 10 ^ k * 10 ^ e.toNat * 10 ^ (-(e + k)).toNat
      = d * 10 ^ (k + e.toNat + (-(e + k)).toNat) := by ring
    _ = d * 10 ^ (e + k).toNat * 10 ^ (-e).toNat := by rw [hexp]; ring

/-- Enough digits write a quotient exactly. -/
theorem nearestDecimal_exact {num den b : Nat} (hd : 0 < den) (h : den ∣ num * Nat.pow 10 b) :
    nearestDecimal (num * Nat.pow 10 b / den) (-b) = nearestBits num den := by
  simp only [nearestDecimal, Nat.pow_eq, neg_neg, Int.toNat_natCast,
    show (-(b : Int)).toNat = 0 by omega]
  refine nearestBits_congr (Nat.pow_pos (by decide)) hd ?_
  rw [pow_zero, mul_one]
  exact Nat.div_mul_cancel h

/-- A candidate is taken only if it reads back. -/
theorem candidate?_reads {bits num den d : Nat} {unit : Int}
    (h : candidate? bits num den unit = some d) : nearestDecimal d unit = bits := by
  simp only [candidate?] at h
  split at h
  next hhigh =>
    rw [← Option.some.inj h]
    exact eq_of_beq (Bool.and_eq_true_iff.1 hhigh).1
  next =>
    split at h
    next hlow =>
      rw [← Option.some.inj h]
      exact eq_of_beq hlow
    next => exact nomatch h

/-- What the search ends with reads back, if enough digits do. -/
theorem shortestFrom_reads {bits num den : Nat} {point : Int}
    (h : nearestDecimal (num * Nat.pow 10 1074 / den) (-1074) = bits) (tries n : Nat) :
    nearestDecimal (shortestFrom bits num den point tries n).1
      (shortestFrom bits num den point tries n).2 = bits := by
  induction tries generalizing n with
  | zero => exact h
  | succ tries ih =>
      simp only [shortestFrom]
      split
      next d hd => exact candidate?_reads hd
      next => exact ih (n + 1)

/-- The denominator of a finite number divides a power of ten. -/
theorem quotient_dvd (b s m : Nat) : Nat.pow 2 (b - s) ∣ m * Nat.pow 10 b :=
  Dvd.dvd.mul_left (dvd_trans (pow_dvd_pow 2 (Nat.sub_le b s)) (pow_dvd_pow_of_dvd (by decide) b)) _

/-- The shortest digits read back. -/
theorem shortest_reads (hx : x.isFinite) :
    nearestDecimal x.shortest.1 x.shortest.2 = x.magnitude := by
  refine shortestFrom_reads ?_ _ _
  rw [← nearestBits_quotient hx, quotient]
  -- as a literal the exponent would be computed with
  generalize hb : (1074 : Nat) = b
  rw [show (-1074 : Int) = -(b : Int) by omega]
  exact nearestDecimal_exact (Nat.two_pow_pos _) (quotient_dvd b _ _)

/-! ## Numbers within reach -/

/-- Few digits and a large negative exponent stay below half of the smallest number. -/
theorem small_decimal_lt {b k n m d : Nat} (hk : 2 * 2 ^ b ≤ 10 ^ k) (hd : d < 10 ^ n)
    (hm : n + k ≤ m) : 2 * (d * 2 ^ b) < 10 ^ m := calc
  2 * (d * 2 ^ b) = d * (2 * 2 ^ b) := Nat.mul_left_comm ..
  _ ≤ d * 10 ^ k := Nat.mul_le_mul_left _ hk
  _ < 10 ^ n * 10 ^ k := Nat.mul_lt_mul_of_pos_right hd (Nat.pow_pos (by decide))
  _ = 10 ^ (n + k) := (Nat.pow_add ..).symm
  _ ≤ 10 ^ m := Nat.pow_le_pow_right (by decide) hm

/-- Digits and an exponent that reach far enough lie above all numbers. -/
theorem fills_large_decimal {b c k n m p d s : Nat} (hk : 2 ^ c ≤ 10 ^ k) (hs : s + 52 = c + b)
    (hd : 10 ^ n ≤ d) (hm : m + k ≤ n + p) : Fills b (d * 10 ^ p) (10 ^ m) s := calc
  10 ^ m * 2 ^ (s + 52) = 10 ^ m * 2 ^ c * 2 ^ b := by rw [hs, Nat.pow_add, Nat.mul_assoc]
  _ ≤ 10 ^ m * 10 ^ k * 2 ^ b := Nat.mul_le_mul_right _ (Nat.mul_le_mul_left _ hk)
  _ = 10 ^ (m + k) * 2 ^ b := by rw [Nat.pow_add]
  _ ≤ 10 ^ (n + p) * 2 ^ b := Nat.mul_le_mul_right _ (Nat.pow_le_pow_right (by decide) hm)
  _ = 10 ^ n * 10 ^ p * 2 ^ b := by rw [Nat.pow_add]
  _ ≤ d * 10 ^ p * 2 ^ b := Nat.mul_le_mul_right _ (Nat.mul_le_mul_right _ hd)

/-- A decimal that does not read as zero is not too small. -/
theorem le_of_nearestDecimal_ne_zero {d n : Nat} {e : Int} (hd : d < 10 ^ n)
    (h : nearestDecimal d e ≠ 0) : -330 ≤ e + n := by
  by_contra hlt
  refine h ?_
  simp only [nearestDecimal, Nat.pow_eq]
  rw [show e.toNat = 0 by omega, pow_zero, mul_one]
  have hk : 2 * 2 ^ 1074 ≤ 10 ^ 331 := by decide +kernel
  exact nearestBits_eq_zero (small_decimal_lt hk hd (by omega))

/-- A decimal that reads as a finite number is not too large. -/
theorem le_of_nearestDecimal_lt {d n : Nat} {e : Int} (hd : 10 ^ n ≤ d)
    (h : nearestDecimal d e < infinityBits) : e + n < 310 := by
  by_contra hlt
  refine absurd h (not_lt.2 (Nat.le_of_eq ?_))
  simp only [nearestDecimal, Nat.pow_eq]
  have hk : 2 ^ 1025 ≤ 10 ^ 310 := by decide +kernel
  exact (nearestBits_eq_infinity (Nat.pow_pos (by decide))
    (fills_large_decimal hk (by omega) hd (by omega))).symm

/-- Within the range of finite numbers, digits are read as they stand. -/
theorem nearest_eq {c : Char} {ds : List Char} {z : Nat} {e : Int} (hc : c.isDigit) (h0 : c ≠ '0')
    (hds : ∀ d ∈ ds, d.isDigit) (hpos : nearestDecimal (digitsValue (c :: ds)) e ≠ 0)
    (hfin : nearestDecimal (digitsValue (c :: ds)) e < infinityBits) :
    nearest (List.replicate z '0' ++ c :: ds) e = nearestDecimal (digitsValue (c :: ds)) e := by
  have hdrop : (List.replicate z '0' ++ c :: ds).dropWhile (· == '0') = c :: ds := by
    rw [List.dropWhile_append_of_pos fun d hd => beq_iff_eq.2 (List.eq_of_mem_replicate hd)]
    exact List.dropWhile_cons_of_neg (by rwa [beq_iff_eq])
  have hlow := le_of_nearestDecimal_ne_zero (digitsValue_lt (List.forall_mem_cons.2 ⟨hc, hds⟩)) hpos
  have hhigh := le_of_nearestDecimal_lt (le_digitsValue hc h0) hfin
  rw [List.length_cons] at hlow
  simp only [nearest, hdrop, List.isEmpty_cons, Bool.false_or, List.length_cons]
  rw [if_neg (by simpa using hlow), if_neg (by push_cast; omega)]

/-! ## Writing -/

section Writing

variable {point : Int} {bits : Nat}

/-- Zeros are digits. -/
theorem isDigit_of_mem_zeros (n : Nat) : ∀ d ∈ List.replicate n '0', d.isDigit := by
  intro d hd
  rw [List.eq_of_mem_replicate hd]
  decide

theorem forall_mem_append_isDigit (hcs : ∀ d ∈ cs, d.isDigit) (hds : ∀ d ∈ ds, d.isDigit) :
    ∀ d ∈ cs ++ ds, d.isDigit :=
  fun d hd => (List.mem_append.1 hd).elim (hcs d) (hds d)

section Positional

variable (hc : c.isDigit) (h0 : c ≠ '0') (hds : ∀ d ∈ ds, d.isDigit)
  (hpos : nearestDecimal (digitsValue (c :: ds)) (point - (ds.length + 1)) ≠ 0)
  (hfin : nearestDecimal (digitsValue (c :: ds)) (point - (ds.length + 1)) < infinityBits)
include hc h0 hds hpos hfin

/-- The point stands before the digits, with zeros between them. -/
theorem exists_positional_left (hp : point ≤ 0) :
    ∃ m : Numeral, positional (c :: ds) point = m.text ∧
      m.bits = nearestDecimal (digitsValue (c :: ds)) (point - (ds.length + 1)) := by
  have hall : ∀ d ∈ c :: ds, d.isDigit := List.forall_mem_cons.2 ⟨hc, hds⟩
  refine ⟨⟨['0'], List.replicate (-point).toNat '0' ++ c :: ds, none, List.cons_ne_nil _ _,
    isDigit_of_mem_zeros 1, forall_mem_append_isDigit (isDigit_of_mem_zeros _) hall,
    .inl (List.append_ne_nil_of_right_ne_nil _ (List.cons_ne_nil _ _))⟩, ?_, ?_⟩
  · rw [positional, if_pos hp]
    simp [Numeral.text, Numeral.fractionText, Numeral.exponentText]
  · refine Eq.trans ?_ (nearest_eq (z := (-point).toNat + 1) hc h0 hds hpos hfin)
    show nearest _ (0 - _) = _
    congr 1
    simp only [List.length_append, List.length_replicate, List.length_cons]
    omega

/-- The point stands behind the digits, with zeros between them. -/
theorem exists_positional_right (hp : ¬ point ≤ 0) (hlen : ds.length + 1 ≤ point.toNat) :
    ∃ m : Numeral, positional (c :: ds) point = m.text ∧
      m.bits = nearestDecimal (digitsValue (c :: ds)) (point - (ds.length + 1)) := by
  have hall : ∀ d ∈ c :: ds, d.isDigit := List.forall_mem_cons.2 ⟨hc, hds⟩
  -- the numeral has one more zero behind the point
  have hvalue : digitsValue (c :: (ds ++ List.replicate (point.toNat - (ds.length + 1) + 1) '0'))
      = digitsValue (c :: ds) * 10 ^ (point.toNat - (ds.length + 1) + 1) :=
    digitsValue_append_zeros (c :: ds) _
  have hshift := nearestDecimal_shift (digitsValue (c :: ds))
    (point.toNat - (ds.length + 1) + 1) (-1)
  rw [← hvalue, show (-1 : Int) + ((point.toNat - (ds.length + 1) + 1 : Nat) : Int)
    = point - (ds.length + 1) by omega] at hshift
  refine ⟨⟨c :: ds ++ List.replicate (point.toNat - (ds.length + 1)) '0', ['0'], none,
    List.cons_ne_nil _ _, forall_mem_append_isDigit hall (isDigit_of_mem_zeros _),
    isDigit_of_mem_zeros 1, .inl (List.cons_ne_nil _ _)⟩, ?_, ?_⟩
  · rw [positional, if_neg hp]
    simp only [List.length_cons, if_pos hlen]
    simp [Numeral.text, Numeral.fractionText, Numeral.exponentText]
  · rw [← hshift] at hpos hfin ⊢
    refine Eq.trans ?_ (nearest_eq (z := 0) hc h0
      (forall_mem_append_isDigit hds (isDigit_of_mem_zeros _)) hpos hfin)
    show nearest _ (0 - 1) = _
    rw [List.replicate_succ']
    simp

/-- The point stands among the digits. -/
theorem exists_positional_inside (hp : ¬ point ≤ 0) (hlen : ¬ ds.length + 1 ≤ point.toNat) :
    ∃ m : Numeral, positional (c :: ds) point = m.text ∧
      m.bits = nearestDecimal (digitsValue (c :: ds)) (point - (ds.length + 1)) := by
  have hall : ∀ d ∈ c :: ds, d.isDigit := List.forall_mem_cons.2 ⟨hc, hds⟩
  have hfraction : (c :: ds).drop point.toNat ≠ [] := by
    rw [← List.length_pos_iff, List.length_drop, List.length_cons]
    omega
  refine ⟨⟨(c :: ds).take point.toNat, (c :: ds).drop point.toNat, none, ?_,
    fun d hd => hall d (List.mem_of_mem_take hd), fun d hd => hall d (List.mem_of_mem_drop hd),
    .inl hfraction⟩, ?_, ?_⟩
  · rw [show point.toNat = (point.toNat - 1) + 1 by omega]
    exact List.cons_ne_nil _ _
  · rw [positional, if_neg hp]
    simp only [List.length_cons, if_neg hlen]
    simp [Numeral.text, Numeral.fractionText, Numeral.exponentText, hfraction]
  · refine Eq.trans ?_ (nearest_eq (z := 0) hc h0 hds hpos hfin)
    show nearest (_ ++ _) (0 - _) = _
    rw [List.take_append_drop, List.length_drop]
    congr 1
    rw [List.length_cons]
    omega

end Positional

/-- Positional notation is a numeral for the same bits. -/
theorem exists_positional (hc : c.isDigit) (h0 : c ≠ '0') (hds : ∀ d ∈ ds, d.isDigit)
    (hbits : nearestDecimal (digitsValue (c :: ds)) (point - (ds.length + 1)) = bits)
    (hpos : bits ≠ 0) (hfin : bits < infinityBits) :
    ∃ m : Numeral, positional (c :: ds) point = m.text ∧ m.bits = bits := by
  rw [← hbits] at hpos hfin ⊢
  by_cases hp : point ≤ 0
  · exact exists_positional_left hc h0 hds hpos hfin hp
  · by_cases hlen : ds.length + 1 ≤ point.toNat
    · exact exists_positional_right hc h0 hds hpos hfin hp hlen
    · exact exists_positional_inside hc h0 hds hpos hfin hp hlen

/-- Notation with an exponent is a numeral for the same bits. -/
theorem exists_scientific (hc : c.isDigit) (h0 : c ≠ '0') (hds : ∀ d ∈ ds, d.isDigit)
    (hbits : nearestDecimal (digitsValue (c :: ds)) (point - (ds.length + 1)) = bits)
    (hpos : bits ≠ 0) (hfin : bits < infinityBits) :
    ∃ m : Numeral, scientific (c :: ds) point = m.text ∧ m.bits = bits := by
  rw [← hbits] at hpos hfin ⊢
  refine ⟨⟨[c], ds, some (point - 1), List.cons_ne_nil _ _, List.forall_mem_singleton.2 hc, hds,
    .inr (by simp)⟩, ?_, ?_⟩
  · simp [scientific, Numeral.text, Numeral.fractionText, Numeral.exponentText]
  · refine Eq.trans ?_ (nearest_eq (z := 0) hc h0 hds hpos hfin)
    show nearest (c :: ds) (point - 1 - ds.length) = nearest (c :: ds) _
    congr 1
    omega

end Writing

/-- A finite number is written as a numeral for its own bits. -/
theorem exists_magnitudeText (hx : x.isFinite) (h0 : x.magnitude ≠ 0) :
    ∃ m : Numeral, x.magnitudeText = m.text ∧ m.bits = x.magnitude := by
  have hfin : x.magnitude < infinityBits := of_decide_eq_true hx
  have hreads := shortest_reads hx
  unfold magnitudeText
  generalize x.shortest = p at hreads ⊢
  obtain ⟨value, unit⟩ := p
  simp only []
  have hpos : 0 < value := by
    refine Nat.pos_of_ne_zero fun hv => h0 ?_
    rw [← hreads, hv, nearestDecimal, Nat.zero_mul, nearestBits_zero]
  -- the digits begin with one that is not zero, with and without the zeros at the end
  obtain ⟨c, cs, hcs, hc0⟩ := toDigits_eq_cons hpos
  have happend := trimZeros_append (Nat.toDigits 10 value)
  have hvalue := digitsValue_toDigits value
  have hdigit : ∀ d ∈ Nat.toDigits 10 value, d.isDigit := fun d hd => isDigit_of_mem_toDigits hd
  generalize trimZeros (Nat.toDigits 10 value) = q at happend ⊢
  obtain ⟨digits, zeros⟩ := q
  cases digits with
  | nil =>
      rw [hcs, List.nil_append] at happend
      exact absurd (List.eq_of_mem_replicate (happend ▸ List.mem_cons_self)) hc0
  | cons d ds =>
      have hd : d = c := by
        rw [hcs, List.cons_append] at happend
        exact (List.cons.inj happend).1
      rw [← happend] at hvalue hdigit
      rw [digitsValue_append_zeros] at hvalue
      have hds : ∀ e ∈ d :: ds, e.isDigit := fun e he => hdigit e (List.mem_append_left _ he)
      have hbits : nearestDecimal (digitsValue (d :: ds))
          (unit + zeros + (d :: ds).length - (ds.length + 1)) = x.magnitude := by
        rw [← hreads, ← hvalue, nearestDecimal_shift]
        congr 1
        rw [List.length_cons]
        omega
      obtain ⟨hd', hds'⟩ := List.forall_mem_cons.1 hds
      simp only []
      split
      · exact exists_positional hd' (hd ▸ hc0) hds' hbits h0 hfin
      · exact exists_scientific hd' (hd ▸ hc0) hds' hbits h0 hfin

/-- The sign and the bits below it make up the number. -/
theorem ofMagnitude_magnitude (x : Binary64) : ofMagnitude x.isNegative x.magnitude = x := by
  have hbits : x.magnitude + (if x.isNegative then signBit else 0) = x.bits.toNat := by
    have hlt : x.bits.toNat < 2 * signBit := x.bits.toNat_lt_size
    unfold isNegative magnitude
    by_cases h : signBit ≤ x.bits.toNat
    · rw [if_pos (decide_eq_true h), Nat.mod_eq_sub_mod h, Nat.mod_eq_of_lt (by omega)]
      omega
    · rw [if_neg (by simpa using h), Nat.mod_eq_of_lt (by omega), Nat.add_zero]
  rw [ofMagnitude, hbits, UInt64.ofNat_toNat]

/-- A finite number is written as a numeral that is read as that number. -/
theorem exists_render (hx : x.isFinite) : ∃ m : Numeral,
    x.render = (if x.isNegative then '-' :: m.text else m.text) ∧ ofText? x.render = some x := by
  have hnan : x.isNaN = false := decide_eq_false (not_lt.2 (of_decide_eq_true hx).le)
  have hm : ∃ m : Numeral, (if x.magnitude = 0 then ['0', '.', '0'] else x.magnitudeText) = m.text
      ∧ m.bits = x.magnitude := by
    by_cases h0 : x.magnitude = 0
    · rw [if_pos h0, h0]
      exact ⟨⟨['0'], ['0'], none, List.cons_ne_nil _ _, isDigit_of_mem_zeros 1,
        isDigit_of_mem_zeros 1, .inl (List.cons_ne_nil _ _)⟩, rfl, rfl⟩
    · rw [if_neg h0]
      exact exists_magnitudeText hx h0
  obtain ⟨m, htext, hbits⟩ := hm
  have hrender : x.render = if x.isNegative then '-' :: m.text else m.text := by
    simp only [render, hnan, hx, Bool.not_true, Bool.false_eq_true, if_false, htext]
  refine ⟨m, hrender, ?_⟩
  rw [hrender, m.ofText?_text, hbits, ofMagnitude_magnitude]

end Manifest.Binary64
