import Manifest.Binary64.Decimal
import Mathlib.Tactic.Ring

/-!
# Rounding to the nearest number

The bits nearest to a quotient depend on the quotient alone, not on how it is written as a
fraction, and a finite number is the one nearest to itself.

The scale of a quotient is pinned down first: it is the largest one that the quotient *fills*
(`scaleOf_spec`), and filling is not affected by a common factor. What is then rounded is a
quotient with the same common factor.

* `nearestBits_congr` — equal quotients have the same nearest number.
* `nearestBits_quotient` — a finite number is nearest to itself.
* `nearestBits_eq_zero`, `nearestBits_eq_infinity` — what lies below and above all numbers.
-/

namespace Manifest.Binary64

/-- The leading bit of a normal number stands for a power of two. -/
theorem leadingBit_eq : leadingBit = 2 ^ 52 := by decide

/-! ## The scale -/

/-- The quotient has fifty-three bits at the scale `s`, or more: it is `2 ^ (s + 52 - bias)` or
larger. -/
def Fills (bias num den s : Nat) : Prop := den * 2 ^ (s + 52) ≤ num * 2 ^ bias

variable {bias num den s t k : Nat}

/-- What fills a scale fills the smaller ones. -/
theorem Fills.of_le (h : Fills bias num den t) (hst : s ≤ t) : Fills bias num den s :=
  le_trans (Nat.mul_le_mul_left _ (Nat.pow_le_pow_right (by decide) (by omega))) h

/-- Zero fills no scale. -/
theorem Fills.pos (h : Fills bias num den s) (hd : 0 < den) : 0 < num := by
  rcases Nat.eq_zero_or_pos num with rfl | hn
  · rw [Fills, Nat.zero_mul, Nat.le_zero] at h
    exact absurd h (Nat.mul_pos hd (Nat.two_pow_pos _)).ne'
  · exact hn

/-- A common factor does not matter. -/
theorem fills_mul (hk : 0 < k) : Fills bias (k * num) (k * den) s ↔ Fills bias num den s := by
  unfold Fills
  rw [mul_assoc, mul_assoc, Nat.mul_le_mul_left_iff hk]

/-- The test that decides between the two candidates for the scale. -/
theorem leading_le_iff :
    den * 2 ^ (s - bias) * 2 ^ 52 ≤ num * 2 ^ (bias - s) ↔ Fills bias num den s := by
  unfold Fills
  rcases Nat.le_total s bias with h | h
  · obtain ⟨d, rfl⟩ := Nat.exists_eq_add_of_le h
    rw [Nat.sub_eq_zero_of_le h, Nat.add_sub_cancel_left,
      show den * 2 ^ (s + 52) = den * 2 ^ 0 * 2 ^ 52 * 2 ^ s by ring,
      show num * 2 ^ (s + d) = num * 2 ^ d * 2 ^ s by ring]
    exact (Nat.mul_le_mul_right_iff (Nat.two_pow_pos s)).symm
  · obtain ⟨d, rfl⟩ := Nat.exists_eq_add_of_le h
    rw [Nat.sub_eq_zero_of_le h, Nat.add_sub_cancel_left,
      show den * 2 ^ (bias + d + 52) = den * 2 ^ d * 2 ^ 52 * 2 ^ bias by ring, pow_zero, mul_one]
    exact (Nat.mul_le_mul_right_iff (Nat.two_pow_pos bias)).symm

/-- The binary logarithms bound the scale from above. -/
theorem not_fills_of_log2 (hd : 0 < den)
    (hs : num.log2 + 1 + bias ≤ den.log2 + (s + 52)) : ¬ Fills bias num den s := by
  intro hf
  have hle : 2 ^ (num.log2 + 1) * 2 ^ bias ≤ num * 2 ^ bias := calc
    2 ^ (num.log2 + 1) * 2 ^ bias = 2 ^ (num.log2 + 1 + bias) := (Nat.pow_add ..).symm
    _ ≤ 2 ^ (den.log2 + (s + 52)) := Nat.pow_le_pow_right (by decide) hs
    _ = 2 ^ den.log2 * 2 ^ (s + 52) := Nat.pow_add ..
    _ ≤ den * 2 ^ (s + 52) := Nat.mul_le_mul_right _ (Nat.log2_self_le hd.ne')
    _ ≤ num * 2 ^ bias := hf
  have := Nat.le_of_mul_le_mul_right hle (Nat.two_pow_pos bias)
  exact absurd (Nat.lt_log2_self (n := num)) (by omega)

/-- The binary logarithms bound the scale from below. -/
theorem fills_of_log2 (hn : 0 < num) (hs : den.log2 + 1 + (s + 52) ≤ num.log2 + bias) :
    Fills bias num den s := calc
  den * 2 ^ (s + 52) ≤ 2 ^ (den.log2 + 1) * 2 ^ (s + 52) :=
    Nat.mul_le_mul_right _ Nat.lt_log2_self.le
  _ = 2 ^ (den.log2 + 1 + (s + 52)) := (Nat.pow_add ..).symm
  _ ≤ 2 ^ (num.log2 + bias) := Nat.pow_le_pow_right (by decide) hs
  _ = 2 ^ num.log2 * 2 ^ bias := Nat.pow_add ..
  _ ≤ num * 2 ^ bias := Nat.mul_le_mul_right _ (Nat.log2_self_le hn.ne')

/-- The scale is the largest one that the quotient fills, or zero. -/
theorem scaleOf_spec (hn : 0 < num) (hd : 0 < den) :
    (scaleOf num den = 0 ∨ Fills 1074 num den (scaleOf num den))
      ∧ ¬ Fills 1074 num den (scaleOf num den + 1) := by
  have key : ∀ g, num * 2 ^ (1074 - g) < den * 2 ^ (g - 1074) * leadingBit
      ↔ ¬ Fills 1074 num den g := by
    intro g
    rw [leadingBit_eq, ← not_le, leading_le_iff]
  simp only [scaleOf, Nat.pow_eq]
  split
  · exact ⟨.inl rfl, not_fills_of_log2 hd (by omega)⟩
  · split
    next h h' =>
      refine ⟨.inr (fills_of_log2 hn (by omega)), ?_⟩
      rw [Nat.sub_add_cancel (by omega)]
      exact (key _).1 h'
    next h h' =>
      rw [key, not_not] at h'
      exact ⟨.inr h', not_fills_of_log2 hd (by omega)⟩

/-- `scaleOf_spec` determines the scale. -/
theorem scaleOf_eq (hn : 0 < num) (hd : 0 < den) (hs : s = 0 ∨ Fills 1074 num den s)
    (hs' : ¬ Fills 1074 num den (s + 1)) : scaleOf num den = s := by
  obtain ⟨h, h'⟩ := scaleOf_spec hn hd
  rcases Nat.lt_trichotomy (scaleOf num den) s with hlt | heq | hgt
  · rcases hs with rfl | hs
    · exact absurd hlt (Nat.not_lt_zero _)
    · exact absurd (hs.of_le hlt) h'
  · exact heq
  · rcases h with h | h
    · omega
    · exact absurd (h.of_le hgt) hs'

/-! ## Common factors -/

/-- The scale depends on the quotient alone. -/
theorem scaleOf_mul (hk : 0 < k) (hn : 0 < num) (hd : 0 < den) :
    scaleOf (k * num) (k * den) = scaleOf num den := by
  obtain ⟨h, h'⟩ := scaleOf_spec hn hd
  refine scaleOf_eq (Nat.mul_pos hk hn) (Nat.mul_pos hk hd) ?_ ?_
  · rwa [fills_mul hk]
  · rwa [fills_mul hk]

/-- Rounding depends on the quotient alone. -/
theorem roundHalfEven_mul (hk : 0 < k) :
    roundHalfEven (k * num) (k * den) = roundHalfEven num den := by
  have hlt : 2 * (k * num % (k * den)) < k * den ↔ 2 * (num % den) < den := by
    rw [Nat.mul_mod_mul_left, Nat.mul_left_comm, Nat.mul_lt_mul_left hk]
  have heq : 2 * (k * num % (k * den)) = k * den ↔ 2 * (num % den) = den := by
    rw [Nat.mul_mod_mul_left, Nat.mul_left_comm, Nat.mul_right_inj hk.ne']
  simp only [roundHalfEven, Nat.mul_div_mul_left _ _ hk, beq_iff_eq, Bool.or_eq_true,
    Bool.and_eq_true, decide_eq_true_eq, hlt, heq]

/-- A whole quotient is not rounded. -/
theorem roundHalfEven_exact (hd : 0 < den) : roundHalfEven (num * den) den = num := by
  simp only [roundHalfEven, Nat.mul_mod_left, Nat.mul_div_cancel _ hd, Nat.mul_zero, hd,
    decide_true, Bool.true_or, if_true]

theorem nearestBits_zero (den : Nat) : nearestBits 0 den = 0 := if_pos rfl

/-- The bits of a quotient that is not zero: those of the scale and the rounded significand. -/
theorem nearestBits_of_pos (hn : 0 < num) : nearestBits num den
    = min (scaleOf num den * leadingBit + roundHalfEven (num * 2 ^ (1074 - scaleOf num den))
        (den * 2 ^ (scaleOf num den - 1074))) infinityBits := by
  rw [nearestBits, if_neg hn.ne']
  rfl

/-- The nearest number depends on the quotient alone. -/
theorem nearestBits_mul (hk : 0 < k) (hd : 0 < den) :
    nearestBits (k * num) (k * den) = nearestBits num den := by
  rcases Nat.eq_zero_or_pos num with rfl | hn
  · rw [Nat.mul_zero, nearestBits_zero, nearestBits_zero]
  · rw [nearestBits_of_pos hn, nearestBits_of_pos (Nat.mul_pos hk hn), scaleOf_mul hk hn hd,
      Nat.mul_assoc k num, Nat.mul_assoc k den, roundHalfEven_mul hk]

/-- The nearest number depends on the quotient only. -/
theorem nearestBits_congr {num' den' : Nat} (hd : 0 < den) (hd' : 0 < den')
    (h : num * den' = num' * den) : nearestBits num den = nearestBits num' den' := by
  rw [← nearestBits_mul hd' hd, ← nearestBits_mul hd hd', Nat.mul_comm den' num, h,
    Nat.mul_comm num' den, Nat.mul_comm den' den]

/-! ## Exact quotients -/

variable {x : Binary64}

/-- The bits below the sign are the scale and the significand. -/
theorem scale_significand (x : Binary64) : x.scale * leadingBit + x.significand = x.magnitude := by
  have hmod := Nat.div_add_mod' x.magnitude leadingBit
  have hpos : 0 < leadingBit := by decide
  unfold scale significand
  by_cases h : x.magnitude < leadingBit
  · rw [if_pos h, Nat.div_eq_of_lt h, Nat.mod_eq_of_lt h]
    simp
  · rw [if_neg h]
    have hle : 1 ≤ x.magnitude / leadingBit := (Nat.one_le_div_iff hpos).2 (not_lt.1 h)
    have := Nat.sub_mul (x.magnitude / leadingBit) 1 leadingBit
    have := Nat.mul_le_mul_right leadingBit hle
    omega

/-- A significand has at most fifty-three bits. -/
theorem significand_lt (x : Binary64) : x.significand < 2 ^ 53 := by
  have := Nat.mod_lt x.magnitude (show 0 < leadingBit by decide)
  rw [leadingBit_eq] at this
  simp only [significand, leadingBit_eq]
  split <;> omega

/-- Above the smallest scale it has exactly as many. -/
theorem leadingBit_le_significand (h : x.scale ≠ 0) : 2 ^ 52 ≤ x.significand := by
  unfold scale at h
  unfold significand
  rw [← leadingBit_eq]
  by_cases hlt : x.magnitude < leadingBit
  · rw [Nat.div_eq_of_lt hlt] at h
    exact absurd rfl h
  · rw [if_neg hlt]
    exact Nat.le_add_left ..

/-- The fraction `num · 2 ^ (t - bias)` fills a scale when `num` has the bits for it. -/
theorem fills_quotient :
    Fills bias (num * 2 ^ (t - bias)) (2 ^ (bias - t)) s ↔ 2 ^ (s + 52) ≤ num * 2 ^ t := by
  unfold Fills
  rcases Nat.le_total t bias with h | h
  · obtain ⟨d, rfl⟩ := Nat.exists_eq_add_of_le h
    rw [Nat.sub_eq_zero_of_le h, Nat.add_sub_cancel_left,
      show num * 2 ^ 0 * 2 ^ (t + d) = 2 ^ d * (num * 2 ^ t) by ring]
    exact Nat.mul_le_mul_left_iff (Nat.two_pow_pos d)
  · obtain ⟨d, rfl⟩ := Nat.exists_eq_add_of_le h
    rw [Nat.sub_eq_zero_of_le h, Nat.add_sub_cancel_left,
      show num * 2 ^ d * 2 ^ bias = num * 2 ^ (bias + d) by ring, pow_zero, one_mul]

/-- A finite number is the one nearest to itself. -/
theorem nearestBits_quotient (hx : x.isFinite) :
    nearestBits x.quotient.1 x.quotient.2 = x.magnitude := by
  have hbits := scale_significand x
  have hfin : x.magnitude < infinityBits := of_decide_eq_true hx
  simp only [quotient, Nat.pow_eq]
  rcases Nat.eq_zero_or_pos x.significand with h0 | hpos
  · have hs : x.scale = 0 := by
      by_contra h
      exact absurd (leadingBit_le_significand h) (by omega)
    rw [h0, hs] at hbits
    rw [h0, ← hbits, Nat.zero_mul]
    rfl
  · have hnum : 0 < x.significand * 2 ^ (x.scale - 1074) := Nat.mul_pos hpos (Nat.two_pow_pos _)
    have hscale : scaleOf (x.significand * 2 ^ (x.scale - 1074)) (2 ^ (1074 - x.scale)) =
        x.scale := by
      refine scaleOf_eq hnum (Nat.two_pow_pos _) ?_ ?_
      · by_cases h : x.scale = 0
        · exact .inl h
        · rw [fills_quotient, Nat.pow_add, Nat.mul_comm]
          exact .inr (Nat.mul_le_mul_right _ (leadingBit_le_significand h))
      · rw [fills_quotient, not_le, show x.scale + 1 + 52 = 53 + x.scale by omega, Nat.pow_add]
        exact Nat.mul_lt_mul_of_pos_right (significand_lt x) (Nat.two_pow_pos _)
    rw [nearestBits_of_pos hnum, hscale, Nat.mul_assoc, Nat.mul_comm (2 ^ (1074 - x.scale)),
      roundHalfEven_exact (Nat.mul_pos (Nat.two_pow_pos _) (Nat.two_pow_pos _)), hbits]
    exact Nat.min_eq_left hfin.le

/-! ## Quotients out of reach -/

/-- Less than a half is rounded to zero. -/
theorem roundHalfEven_eq_zero (h : 2 * num < den) : roundHalfEven num den = 0 := by
  have hlt : num < den := by omega
  simp only [roundHalfEven, Nat.mod_eq_of_lt hlt, Nat.div_eq_of_lt hlt, h, decide_true,
    Bool.true_or, if_true]

/-- A quotient below half of the smallest number rounds to zero. -/
theorem nearestBits_eq_zero (h : 2 * (num * 2 ^ 1074) < den) : nearestBits num den = 0 := by
  rcases Nat.eq_zero_or_pos num with rfl | hn
  · rfl
  · have hscale : scaleOf num den = 0 := by
      refine scaleOf_eq hn (Nat.zero_lt_of_lt h) (.inl rfl) ?_
      intro hf
      have hle : den * 1 ≤ num * 2 ^ 1074 :=
        le_trans (Nat.mul_le_mul_left _ Nat.one_le_two_pow) hf
      rw [Nat.mul_one] at hle
      exact absurd (lt_of_le_of_lt (Nat.le_mul_of_pos_left _ two_pos) h) (not_lt.2 hle)
    rw [nearestBits_of_pos hn, hscale, Nat.zero_mul, Nat.sub_zero, Nat.zero_sub, pow_zero,
      Nat.mul_one, roundHalfEven_eq_zero h]
    exact Nat.zero_min _

/-- A quotient above all numbers rounds to an infinity. -/
theorem nearestBits_eq_infinity (hd : 0 < den) (h : Fills 1074 num den 2047) :
    nearestBits num den = infinityBits := by
  have hn : 0 < num := h.pos hd
  have hscale : 2047 ≤ scaleOf num den := by
    by_contra hlt
    exact (scaleOf_spec hn hd).2 (h.of_le (by omega))
  have hbits : infinityBits = 2047 * leadingBit := by decide
  rw [nearestBits_of_pos hn]
  refine Nat.min_eq_right ?_
  rw [hbits]
  exact le_trans (Nat.mul_le_mul_right _ hscale) (Nat.le_add_right ..)

end Manifest.Binary64
