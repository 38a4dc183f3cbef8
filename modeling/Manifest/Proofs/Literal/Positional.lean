import Manifest.Literal.Number

/-!
# The value of digits

The digits of a natural number in a base up to sixteen have the value of the number. Zeros in front
of them do not count, nor does the case of letters.

* `positional_toDigits` — the digits of a number have its value.
* `HexNumeral` — digits of either case that denote a number in the base of sixteen.
* `HexNumeral.value` — their value is that number.
-/

namespace Manifest.Number

variable {base n : Nat} {c : Char} {ds : List Char}

/-! ## Digits of numbers -/

/-- A digit behind others counts once, and the others by the base. -/
theorem positional_concat (base : Nat) (ds : List Char) (c : Char) :
    positional base (ds ++ [c]) = base * positional base ds + digitValue c := by
  rw [positional, List.foldl_append]
  rfl

/-- The sixteen digits have the values for which they stand. -/
theorem digitChar_spec : ∀ n < 16, digitValue n.digitChar = n ∧ isHexDigit n.digitChar := by decide

/-- The digits of a number have its value. -/
theorem positional_toDigits (hbase : 1 < base) (hbase' : base ≤ 16) (n : Nat) :
    positional base (Nat.toDigits base n) = n := by
  induction n using Nat.strongRecOn with
  | ind n ih =>
      rcases Nat.lt_or_ge n base with hn | hn
      · rw [Nat.toDigits_of_lt_base hn]
        show base * 0 + digitValue n.digitChar = n
        rw [(digitChar_spec n (Nat.lt_of_lt_of_le hn hbase')).1, Nat.mul_zero, Nat.zero_add]
      · have hpos : 0 < n := Nat.lt_of_lt_of_le (Nat.zero_lt_of_lt hbase) hn
        have hdigit : n % base < 16 :=
          Nat.lt_of_lt_of_le (Nat.mod_lt n (Nat.zero_lt_of_lt hbase)) hbase'
        rw [Nat.toDigits_of_base_le hbase hn, positional_concat, ih _ (Nat.div_lt_self hpos hbase),
          (digitChar_spec _ hdigit).1, Nat.div_add_mod]

/-- The digits of a number are those of numbers below the base. -/
theorem exists_of_mem_toDigits (hbase : 1 < base) (h : c ∈ Nat.toDigits base n) :
    ∃ k < base, c = k.digitChar := by
  induction n using Nat.strongRecOn with
  | ind n ih =>
      rcases Nat.lt_or_ge n base with hn | hn
      · rw [Nat.toDigits_of_lt_base hn] at h
        exact ⟨n, hn, List.mem_singleton.1 h⟩
      · have hpos : 0 < base := Nat.zero_lt_of_lt hbase
        rw [Nat.toDigits_of_base_le hbase hn] at h
        rcases List.mem_append.1 h with h | h
        · exact ih _ (Nat.div_lt_self (Nat.lt_of_lt_of_le hpos hn) hbase) h
        · exact ⟨n % base, Nat.mod_lt n hpos, List.mem_singleton.1 h⟩

/-- Numbers are written with these digits. -/
theorem isHexDigit_of_mem_toDigits (h : c ∈ Nat.toDigits 16 n) : isHexDigit c := by
  obtain ⟨k, hk, rfl⟩ := exists_of_mem_toDigits (by decide) h
  exact (digitChar_spec k hk).2

/-- Zeros in front do not count. -/
theorem positional_zeros (base zeros : Nat) (ds : List Char) :
    positional base (List.replicate zeros '0' ++ ds) = positional base ds := by
  induction zeros with
  | zero => rfl
  | succ zeros ih =>
      rw [List.replicate_succ, List.cons_append, ← ih]
      show List.foldl _ (base * 0 + 0) _ = _
      rw [Nat.mul_zero]
      rfl

/-! ## Letters of either case -/

/-- A capital letter is the digit that its small letter is. -/
theorem isHexDigit_of_toLower (h : isHexDigit c.toLower) :
    isHexDigit c ∧ digitValue c = digitValue c.toLower := by
  by_cases hc : c.val ≥ 'A'.val ∧ c.val ≤ 'Z'.val
  · have hcapital : ∀ n < 91, isHexDigit (Char.ofNat n).toLower → isHexDigit (Char.ofNat n) ∧
        digitValue (Char.ofNat n) = digitValue (Char.ofNat n).toLower := by
      decide
    have hlt : c.toNat < 91 := Nat.lt_succ_of_le (UInt32.le_iff_toNat_le.1 hc.2)
    rw [← Char.ofNat_toNat c] at h ⊢
    exact hcapital c.toNat hlt h
  · -- no other character has a small letter
    have hsame : c.toLower = c := dif_neg hc
    rw [hsame] at h ⊢
    exact ⟨h, rfl⟩

/-- The case of digits does not matter. -/
theorem positional_map_toLower (h : ∀ c ∈ ds, isHexDigit c.toLower) (n : Nat) :
    ds.foldl (fun n c => base * n + digitValue c) n
      = (ds.map Char.toLower).foldl (fun n c => base * n + digitValue c) n := by
  induction ds generalizing n with
  | nil => rfl
  | cons d ds ih =>
      obtain ⟨hd, hds⟩ := List.forall_mem_cons.1 h
      rw [List.foldl_cons, List.map_cons, List.foldl_cons, (isHexDigit_of_toLower hd).2, ih hds]

/-- The digits denote the number in the base of sixteen, with letters of either case and any zeros
in front. -/
def HexNumeral (n : Nat) (ds : List Char) : Prop :=
  ∃ zeros, ds.map Char.toLower = List.replicate zeros '0' ++ Nat.toDigits 16 n

theorem HexNumeral.toLower (h : HexNumeral n ds) : ∀ c ∈ ds, isHexDigit c.toLower := by
  obtain ⟨zeros, h⟩ := h
  intro c hc
  have hmem : c.toLower ∈ List.replicate zeros '0' ++ Nat.toDigits 16 n :=
    h ▸ List.mem_map_of_mem hc
  rcases List.mem_append.1 hmem with hzero | hdigit
  · rw [List.eq_of_mem_replicate hzero]
    rfl
  · exact isHexDigit_of_mem_toDigits hdigit

/-- A numeral has nothing but digits. -/
theorem HexNumeral.digits (h : HexNumeral n ds) : ∀ c ∈ ds, isHexDigit c :=
  fun c hc => (isHexDigit_of_toLower (h.toLower c hc)).1

/-- Digits that denote a number have its value. -/
theorem HexNumeral.value (h : HexNumeral n ds) : positional 16 ds = n := by
  have hsame : positional 16 ds = positional 16 (ds.map Char.toLower) :=
    positional_map_toLower h.toLower 0
  obtain ⟨zeros, h⟩ := h
  rw [hsame, h, positional_zeros, positional_toDigits (by decide) (by decide)]

/-- A numeral has a digit at least. -/
theorem HexNumeral.ne_nil (h : HexNumeral n ds) : ds ≠ [] := by
  rintro rfl
  obtain ⟨zeros, h⟩ := h
  exact Nat.toDigits_ne_nil (List.append_eq_nil_iff.1 h.symm).2

example : HexNumeral 233 ['0', '0', 'E', '9'] := ⟨2, rfl⟩

end Manifest.Number
